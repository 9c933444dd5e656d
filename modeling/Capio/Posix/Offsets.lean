import Capio.Posix.Agreement

/-! # Offsets over the calls of a thread

Every call moves the cells of one descriptor, adds a descriptor or takes one away, after the
flushes it makes, so the two sides agree after each of them.
-/
namespace Capio.Posix.Session

open Common Lib.Outcome Lib.Pieces Server List

section

variable {g : Setting} {s s' : Session} {fd : Fd} {f : File} {cell : Nat} {client server : Int}

theorem perform_write (s : Session) (c : WriteCache) (a : CacheAction) :
    perform g { s with write := c } a = (fun s' => { s' with write := c }) <$> perform g s a := by
  cases a with
  | request fd count =>
    unfold perform
    simp only [seekRequest, map_bind, map_pure]
  | reserve | store | push => rfl

theorem foldlM_perform_write (actions : List CacheAction) (s : Session) (c : WriteCache) :
    actions.foldlM (perform g) { s with write := c } =
      (fun s' => { s' with write := c }) <$> actions.foldlM (perform g) s := by
  induction actions generalizing s with
  | nil => rfl
  | cons a actions ih =>
    rw [foldlM_cons, foldlM_cons, perform_write, map_bind, bind_map_left]
    exact bind_congr fun s' => ih s'

theorem applyWrite_append (s : Session) (c c' : WriteCache) (actions actions' : List CacheAction) :
    s.applyWrite g (c', actions ++ actions') =
      s.applyWrite g (c, actions) >>= fun s' => s'.applyWrite g (c', actions') := by
  unfold applyWrite
  simp [foldlM_append, foldlM_perform_write, bind_map_left]

theorem setServer_self (hAt : At g.tid s fd f cell client server) : s.setServer cell server = s := by
  have hSet : s.sm.offsets.set cell server = s.sm.offsets := by
    obtain ⟨hLt, hServer⟩ := List.getElem?_eq_some_iff.mp hAt.serverAt
    rw [← hServer, set_getElem_self]
  unfold setServer
  rw [hSet]

theorem setServer_setServer (cell : Nat) (server server' : Int) :
    (s.setServer cell server).setServer cell server' = s.setServer cell server' := by
  unfold setServer
  simp only [set_set]

end

def requested : List CacheAction → Int
  | [] => 0
  | .request _ count :: actions => count + requested actions
  | _ :: actions => requested actions

def OnlyFor (fd : Fd) (actions : List CacheAction) : Prop :=
  ∀ fd' count, .request fd' count ∈ actions → fd' = fd

/-- What the cache does with `count` more bytes: they are announced or they stay in the line. -/
structure Accounts (c : WriteCache) (count : Int) (r : WriteCache × List CacheAction) : Prop where
  fd : r.1.fd = c.fd
  only : OnlyFor c.fd r.2
  sum : requested r.2 + r.1.actualSize = c.actualSize + count

theorem nil_accounts (c : WriteCache) : Accounts c 0 (c, []) := by
  refine ⟨rfl, fun _ _ hMem => ?_, ?_⟩
  · cases hMem
  · simp only [requested]
    omega

theorem flush_accounts (c : WriteCache) : Accounts c 0 c.flush := by
  unfold WriteCache.flush
  split
  · refine ⟨rfl, fun fd' count hMem => ?_, ?_⟩
    · cases mem_singleton.mp hMem
      rfl
    · simp [requested]
  · exact nil_accounts c

variable {count : Int}

theorem writeLine_accounts (maxLineSize : Nat) (c : WriteCache) (hCount : 0 ≤ count)
    (buffer : List Byte) : Accounts c count (c.writeLine maxLineSize count buffer) := by
  unfold WriteCache.writeLine
  split
  · set c' : WriteCache := { c with reserved := true, actualSize := c.actualSize + count } with hc'
    have hLine : Accounts c' 0 (if c'.actualSize = (maxLineSize : Int) then c'.flush else (c', [])) := by
      split
      · exact flush_accounts c'
      · exact nil_accounts c'
    dsimp only
    generalize (if c'.actualSize = (maxLineSize : Int) then c'.flush else (c', [])) = r at hLine ⊢
    refine ⟨hLine.fd, fun fd' n hMem => ?_, ?_⟩
    · refine hLine.only fd' n ?_
      cases hReserved : c.reserved <;> simpa [hReserved] using hMem
    · have hSum : requested r.2 + r.1.actualSize = c.actualSize + count :=
        hLine.sum.trans (Int.add_zero _)
      cases hReserved : c.reserved with
      | false => exact hSum
      | true => exact hSum
  · have hZero : count = 0 := by omega
    exact hZero ▸ nil_accounts c

theorem bypass_accounts (c : WriteCache) (count : Int) (elements : List (List Byte)) :
    Accounts c count (c, .request c.fd count :: elements.map .push) := by
  have hPushes : requested (elements.map .push) = 0 := by
    induction elements with
    | nil => rfl
    | cons e elements ih => exact ih
  refine ⟨rfl, fun fd' n hMem => ?_, ?_⟩
  · simp at hMem
    exact hMem.1
  · simp only [requested, hPushes]
    omega

section

variable {g : Setting} {s s' : Session} {fd : Fd} {f : File} {cell : Nat} {client server : Int}

theorem foldlM_perform_eq (hOnly : OnlyFor fd actions) (hAt : At g.tid s fd f cell client server) :
    actions.foldlM (perform g) s = .ok (s.setServer cell (server + requested actions)) := by
  induction actions generalizing s server with
  | nil =>
    rw [requested, Int.add_zero, setServer_self hAt]
    rfl
  | cons a actions ih =>
    have hRest : OnlyFor fd actions := fun fd' n hMem => hOnly fd' n (mem_cons_of_mem _ hMem)
    rw [foldlM_cons]
    cases a with
    | request fd' count =>
      cases hOnly fd' count mem_cons_self
      rw [perform_request_eq hAt]
      refine (ih hRest (hAt.setServer _)).trans ?_
      rw [setServer_setServer, requested, Int.add_assoc]
    | reserve | store | push => exact ih hRest hAt

theorem Agrees.setWrite (h : Agrees g.tid s) (hFlushed : s.write.actualSize = 0) (hc : c.actualSize = 0) :
    Agrees g.tid { s with write := c } := by
  refine h.recache rfl rfl rfl (fun _ => rfl) (fun k => ?_) ⟨h.caches.leftover_nonneg, h.caches.readOpen,
    fun hne => absurd hc hne⟩ fun _ _ _ _ _ => .inr hc
  exact (unflushed_of_actualSize hc k).trans (unflushed_of_actualSize hFlushed k).symm

theorem switch_ends (h : Agrees g.tid s) (fd : Fd) : Returns (s.applyWrite g (s.write.switch fd))
      (fun s' => Agrees g.tid s' ∧ s'.files = s.files ∧ s'.read = s.read ∧
      s'.write = (s.write.switch fd).1 ∧ s'.write.fd = fd) := by
  unfold WriteCache.switch
  split
  · have hFold : s.applyWrite g ({ s.write.flush.1 with fd := fd }, s.write.flush.2) =
        (fun s' => { s' with write := { s.write.flush.1 with fd := fd } }) <$> s.flushWrite g := by
      unfold flushWrite applyWrite
      rw [← foldlM_perform_write]
    have hZero : s.write.flush.1.actualSize = 0 := by grind [WriteCache.flush]
    refine hFold ▸ Ends.map ((flushWrite_ends h).mono (fun s' hs' => ?_) fun _ he => he)
    exact ⟨hs'.1.setWrite hs'.2.actualSize hZero, hs'.2.files, hs'.2.read, rfl, rfl⟩
  · exact ⟨h, rfl, rfl, rfl, not_not.mp ‹_›⟩

theorem accounted_ends (h : Agrees g.tid s) (hf : s.files fd = some f) (hFd : s.write.fd = fd)
    (hRead : s.cachesFileOf fd → s.leftover = 0) (hr : Accounts s.write count r) :
    Returns (s.applyWrite g r >>= fun s => s.offset fd >>= fun offset => s.setOffset fd (offset + count))
      (Agrees g.tid) := by
  subst hFd
  obtain ⟨cell, client, hAt⟩ := h.at hf
  rw [unflushed_fd hf] at hAt
  set s1 : Session := { s with write := r.1 } with hs1
  have hAt1 : At g.tid s1 s.write.fd f cell client _ := ⟨hAt.file, hAt.mapped, hAt.clientAt, hAt.serverAt⟩
  have hPerformed : s.applyWrite g r = .ok _ := foldlM_perform_eq hr.only hAt1
  rw [hPerformed]
  have hAt2 := hAt1.setServer (client + s.prefetched f.cell - s.write.actualSize + requested r.2)
  change Ends (offset _ s.write.fd >>= fun offset => setOffset _ s.write.fd (offset + count)) _ _
  rw [offset_eq hAt2]
  change Ends (setOffset _ s.write.fd (client + count)) _ _
  rw [setOffset_eq hAt2.file]
  have hOpen : s.files r.1.fd = some f := hr.fd ▸ hf
  refine h.move hAt ⟨rfl, rfl, fun k hk => getElem?_set_ne hk.symm, fun k hk => getElem?_set_ne hk.symm⟩
    (hAt2.setOffset (client + count)) ?_ ?_
    ⟨h.caches.leftover_nonneg, h.caches.readOpen, fun _ hNone => nomatch hOpen.symm.trans hNone⟩ ?_
  · rw [unflushed_fd hOpen]
    change _ = client + count + s.prefetched f.cell - r.1.actualSize
    have := hr.sum
    omega
  · intro k hk
    rw [unflushed_ne hOpen hk, unflushed_ne hf hk]
    rfl
  · intro f1 f2 h1 h2 hPath
    cases hOpen.symm.trans h2
    refine .inl (hRead ?_)
    unfold cachesFileOf
    rw [show s.files s.read.lastFd = some f1 from h1, hf]
    simp [hPath]

theorem cachedWrite_ends (h : Agrees g.tid s) (hf : s.files fd = some f) (buffer : List Byte)
    (hCount : 0 ≤ count) : Returns (s.cachedWrite g fd buffer count) (Agrees g.tid) := by
  have hFlush : Returns (if s.cachesFileOf fd then s.flushRead g else pure s)
      (fun s' => Agrees g.tid s' ∧ s'.files fd = some f ∧ (s'.cachesFileOf fd → s'.leftover = 0)) := by
    refine .ite (fun _ => ?_) fun hNot => ⟨h, hf, fun hc => absurd hc hNot⟩
    exact (flushRead_ends h).mono (fun s' hs' => ⟨hs'.1, hs'.2.files ▸ hf, fun _ => hs'.2.leftover⟩)
      fun _ he => he
  refine hFlush.bind ?_
  rintro s ⟨h, hf, hRead⟩
  have hSwitch := switch_ends h fd
  unfold WriteCache.write
  dsimp only
  generalize s.write.switch fd = switched at hSwitch ⊢
  obtain ⟨c, actions⟩ := switched
  have hReadAfter : ∀ s' : Session, s'.files = s.files → s'.read = s.read → s'.cachesFileOf fd →
      s'.leftover = 0 := fun s' hFiles hSame hc => by
    grind [leftover, cachesFileOf]
  split
  · rw [applyWrite_append s c, bind_assoc]
    refine hSwitch.bind ?_
    rintro s1 ⟨h1, hFiles, hSame, rfl, hFd⟩
    exact accounted_ends h1 (hFiles ▸ hf) hFd (hReadAfter s1 hFiles hSame)
      (writeLine_accounts _ _ hCount _)
  · -- the line is flushed before the bytes are written
    have hWritten : ∀ r, Accounts c.flush.1 count r →
        Returns (s.applyWrite g (r.1, actions ++ c.flush.2 ++ r.2) >>= fun s => s.offset fd >>= fun offset =>
          s.setOffset fd (offset + count)) (Agrees g.tid) := fun r hr => by
      rw [applyWrite_append s c.flush.1, applyWrite_append s c, bind_assoc, bind_assoc]
      refine hSwitch.bind ?_
      rintro s1 ⟨h1, hFiles, hSame, rfl, hFd⟩
      refine (flushWrite_ends h1).bind ?_
      rintro s2 ⟨h2, hFlushed⟩
      rw [← hFlushed.write] at hr
      refine accounted_ends h2 (hFlushed.files.trans hFiles ▸ hf) ?_
        (hReadAfter s2 (hFlushed.files.trans hFiles) (hFlushed.read.trans hSame)) hr
      rw [hFlushed.write, (flush_accounts _).fd, hFd]
    split
    · exact hWritten (c.flush.1, _) (bypass_accounts _ _ _)
    · exact hWritten _ (writeLine_accounts _ _ hCount _)

end

section

variable {g : Setting} {s s' : Session} {fd : Fd} {f : File} {cell : Nat} {client server : Int}

structure Switched (fd : Fd) (s s' : Session) : Prop where
  lastFd : s'.read.lastFd = fd
  files : s'.files = s.files
  offsets : s'.offsets = s.offsets
  write : s'.write = s.write
  queue : s'.queue = s.queue
  flushed : s.read.lastFd ≠ fd → s'.leftover = 0
  same : s.read.lastFd = fd → s' = s
  start : 0 ≤ s.read.cacheOffset → 0 ≤ s'.read.cacheOffset

theorem switchRead_ends (h : Agrees g.tid s) (fd : Fd) :
    Returns (s.switchRead g fd) (fun s' => Agrees g.tid s' ∧ Switched fd s s') := by
  refine .ite (fun hne => ?_) fun heq => ?_
  · refine (flushRead_ends h).bind fun s1 ⟨h1, hs1⟩ => ?_
    refine ⟨?_, rfl, hs1.files, hs1.offsets, hs1.write, hs1.queue, fun _ => hs1.leftover,
      fun he => absurd he hne,
      hs1.start⟩
    refine h1.recache rfl rfl rfl (fun k => ?_) (fun _ => rfl) ⟨h1.caches.leftover_nonneg,
      fun hn => absurd hs1.leftover hn, h1.caches.writeOpen⟩ fun _ _ _ _ _ => .inl hs1.leftover
    refine (prefetched_of_leftover ?_ k).trans (prefetched_of_leftover hs1.leftover k).symm
    exact hs1.leftover
  · have he : s.read.lastFd = fd := not_not.mp heq
    exact ⟨h, he, rfl, rfl, rfl, rfl, fun hne => absurd he hne, fun _ => rfl, id⟩

theorem Agrees.consume (h : Agrees g.tid s) (hAt : At g.tid s fd f cell client server)
    (hLast : s.read.lastFd = fd) (hFlushed : s.write.actualSize = 0) (hTouches : Touches f.cell cell s s')
    (hLast' : s'.read.lastFd = fd) (hWrite : s'.write = s.write)
    (hAt' : At g.tid s' fd f cell client' (client' + s'.leftover)) (hNonneg : 0 ≤ s'.leftover) :
    Agrees g.tid s' := by
  have hFlushed' : s'.write.actualSize = 0 := hWrite ▸ hFlushed
  have hOpen : s.files s.read.lastFd = some f := hLast ▸ hAt.file
  have hOpen' : s'.files s'.read.lastFd = some f := hLast' ▸ hAt'.file
  refine h.move hAt hTouches hAt' ?_ (fun k hk => ?_) ⟨hNonneg, fun _ hNone => ?_,
    fun hne => absurd hFlushed' hne⟩
    fun _ _ _ _ _ => .inr hFlushed'
  · rw [prefetched_lastFd hOpen', unflushed_of_actualSize hFlushed', Int.sub_zero]
  · rw [prefetched_ne hOpen hk, prefetched_ne hOpen' hk, unflushed_of_actualSize hFlushed,
      unflushed_of_actualSize hFlushed']
  · cases hOpen'.symm.trans hNone

theorem copyCached_state (s : Session) (hCount : 0 ≤ count) : (s.copyCached g count).2 =
    { s with read := { s.read with cacheOffset := s.read.cacheOffset + count } } := by
  unfold copyCached
  split
  · rfl
  · rw [show count = 0 by omega, Int.add_zero]

structure Progress (tid : Tid) (fd : Fd) (f : File) (cell : Nat) (client : Int) (s : Session)
    (r : Int × List Byte × Session) : Prop where
  touches : Touches f.cell cell s r.2.2
  lastFd : r.2.2.read.lastFd = fd
  write : r.2.2.write = s.write
  located : At tid r.2.2 fd f cell client (client + r.1 + r.2.2.leftover)
  nonneg : 0 ≤ r.2.2.leftover

theorem copied_progress (hTouches : Touches f.cell cell s0 s) (hWrite : s.write = s0.write)
    (hLast : s.read.lastFd = fd) (hAt : At g.tid s fd f cell client (client + b + s.leftover)) (hk : 0 ≤ k)
    (hLe : k ≤ s.leftover) (hn : n = b + k) : Progress g.tid fd f cell client s0 (n, s.copyCached g k) := by
  have hCopy := copyCached_state (g := g) s hk
  generalize s.copyCached g k = r at hCopy ⊢
  obtain ⟨bytes, s'⟩ := r
  obtain rfl : s' = _ := hCopy
  refine ⟨⟨hTouches.files, hTouches.map, hTouches.offsets, hTouches.serverOffsets⟩, hLast, hWrite,
    ⟨hAt.file, hAt.mapped, hAt.clientAt, hAt.serverAt.trans (congrArg some ?_)⟩, ?_⟩
  · grind [leftover]
  · grind [leftover]

theorem readMore_ends (hAt : At g.tid s fd f cell client (client + remaining)) (hLast : s.read.lastFd = fd)
    (hLeftover : s.leftover = 0) (hMore : remaining < count) (isGetdents : Bool) :
    Yields (s.readMore g fd client remaining count isGetdents) (Progress g.tid fd f cell client s) := by
  refine .ite (fun _ => ?_) fun _ => ?_
  · have hSent : ∃ n : Nat, ∃ queue, (if isGetdents then s.getdentsRequest g fd
        else s.readRequest g fd (count - remaining)) = .ok (client + remaining + n,
          { s.setServer cell (client + remaining + n) with queue := queue }) := by
      cases isGetdents with
      | false => exact ⟨_, _, sendData_eq hAt _⟩
      | true => exact ⟨_, _, sendData_eq hAt _⟩
    obtain ⟨n, queue, hSent⟩ := hSent
    rw [hSent, ends_ok_bind]
    set s1 : Session := { s.setServer cell (client + remaining + n) with queue := queue } with hs1
    refine .bind (Q := fun r => ∃ queue, r.2 = { s1 with queue := queue }) ?_ ?_
    · unfold readQueue
      split
      · exact ⟨_, rfl⟩
      · trivial
    · rintro ⟨bytes, s2⟩ ⟨queue', rfl⟩
      have hSame : leftover { s1 with queue := queue' } = 0 := hLeftover
      refine ⟨⟨rfl, rfl, fun _ _ => rfl, fun k hk => getElem?_set_ne hk.symm⟩, hLast, rfl, ?_, hSame.ge⟩
      have hAt1 := hAt.setServer (client + remaining + n)
      refine ⟨hAt1.file, hAt1.mapped, hAt1.clientAt, hAt1.serverAt.trans ?_⟩
      rw [hSame]
      congr 1
      omega
  · have hSent : ∃ n : Nat, ∃ queue, s.readRequest g fd g.maxLineSize = .ok (client + remaining + n,
        { s.setServer cell (client + remaining + n) with queue := queue }) := ⟨_, _, sendData_eq hAt _⟩
    obtain ⟨n, queue, hSent⟩ := hSent
    rw [hSent, ends_ok_bind]
    have hSize : client + remaining + n - client - remaining = n := by omega
    set s1 : Session := { s.setServer cell (client + remaining + n) with
      queue := queue, read := { s.read with actualSize := n, cacheOffset := 0 } } with hs1
    refine .bind (Q := fun s' => ∃ queue cache, s' = { s1 with
      queue := queue, read := { s1.read with cache := cache } }) ?_ ?_
    · rw [hSize]
      refine .ite (fun _ => ?_) fun _ => ⟨_, _, rfl⟩
      unfold fetch
      split
      · trivial
      · exact ⟨_, _, rfl⟩
    · rintro _ ⟨queue', cache, rfl⟩
      set s2 : Session := { s1 with queue := queue', read := { s1.read with cache := cache } } with hs2
      have hAt1 := hAt.setServer (client + remaining + n)
      have hTouches : Touches f.cell cell s s2 :=
        ⟨rfl, rfl, fun _ _ => rfl, fun k hk => getElem?_set_ne hk.symm⟩
      have hLeft : s2.leftover = n := Int.sub_zero _
      have hAt2 : At g.tid s2 fd f cell client (client + remaining + s2.leftover) :=
        ⟨hAt1.file, hAt1.mapped, hAt1.clientAt, hLeft ▸ hAt1.serverAt⟩
      refine .ite (fun hLess => ?_) fun hAll => ?_
      · exact copied_progress hTouches rfl hLast hAt2 (by omega) (by omega) (by omega)
      · exact copied_progress hTouches rfl hLast hAt2 (by omega) (by omega) rfl

theorem readFrom_ends (hAt : At g.tid s fd f cell client (client + s.leftover))
    (hLast : s.read.lastFd = fd) (hNonneg : 0 ≤ s.leftover) (hCount : 0 ≤ count) (isGetdents : Bool) :
    Yields (s.readFrom g fd client s.leftover count isGetdents) (Progress g.tid fd f cell client s) := by
  refine .ite (fun hLe => ?_) fun hMore => ?_
  · refine copied_progress (b := 0) ⟨rfl, rfl, fun _ _ => rfl, fun _ _ => rfl⟩ rfl hLast ?_ hCount hLe
      (Int.zero_add _).symm
    rwa [Int.add_zero]
  · have hCopy := copyCached_state (g := g) s hNonneg
    dsimp only
    rw [hCopy]
    set s1 : Session := { s with read := { s.read with cacheOffset := s.read.cacheOffset + s.leftover } } with hs1
    have hAt1 : At g.tid s1 fd f cell client (client + s.leftover) :=
      ⟨hAt.file, hAt.mapped, hAt.clientAt, hAt.serverAt⟩
    have hEmpty : s1.leftover = 0 := by
      change s.read.actualSize - (s.read.cacheOffset + (s.read.actualSize - s.read.cacheOffset)) = 0
      omega
    refine (readMore_ends hAt1 hLast hEmpty (Int.not_le.mp hMore) isGetdents).bind ?_
    rintro ⟨bytesRead, bytes, s2⟩ hs2
    have hTouches := hs2.touches
    exact ⟨⟨hTouches.files, hTouches.map, hTouches.offsets, hTouches.serverOffsets⟩, hs2.lastFd,
      hs2.write,
      hs2.located, hs2.nonneg⟩

theorem readThrough_ends (h : Agrees g.tid s) (hf : s.files fd = some f)
    (hFlushed : s.write.actualSize = 0) (count : Int) (isGetdents : Bool)
    (hCount : 0 ≤ if isGetdents then count.tdiv DIRENT_SIZE * DIRENT_SIZE else count) :
    Yields (s.readThrough g fd count isGetdents) (fun r => Agrees g.tid r.2.2) := by
  refine (switchRead_ends h fd).total.bind fun s1 ⟨h1, hs1⟩ => ?_
  rw [← hs1.files] at hf
  rw [← hs1.write] at hFlushed
  obtain ⟨cell, client, hAt⟩ := h1.at hf
  rw [prefetched_lastFd (hs1.lastFd ▸ hf), unflushed_of_actualSize hFlushed, Int.sub_zero] at hAt
  rw [offset_eq hAt, ends_ok_bind]
  refine (readFrom_ends hAt hs1.lastFd h1.caches.leftover_nonneg hCount isGetdents).bind ?_
  rintro ⟨bytesRead, bytes, s2⟩ hs2
  dsimp only
  rw [setOffset_eq hs2.located.file]
  exact h1.consume hAt hs1.lastFd hFlushed (hs2.touches.trans (touches_setOffset _ _ _))
    hs2.lastFd hs2.write
    (hs2.located.setOffset (client + bytesRead)) hs2.nonneg

end

section

variable {g : Setting} {s s' : Session} {fd : Fd} {f : File}

structure Sought (f : File) (offset : Int) (s s' : Session) : Prop where
  leftover : s'.leftover = 0
  actualSize : s'.write.actualSize = 0
  files : s'.files = s.files
  offsets : s'.offsets = s.offsets.set f.cell offset
  queue : s'.queue = s.queue
  start : 0 ≤ s.read.cacheOffset → 0 ≤ s'.read.cacheOffset

theorem setFdOffset_ends (h : Agrees g.tid s) (hf : s.files fd = some f) (offset : Int) :
    Returns (s.setFdOffset g fd offset) (fun s' => Agrees g.tid s' ∧ Sought f offset s s') := by
  refine (flushRead_ends h).bind fun s1 ⟨h1, hs1⟩ => ?_
  refine (flushWrite_ends h1).bind fun s2 ⟨h2, hs2⟩ => ?_
  have hLeftover : s2.leftover = 0 := by rw [leftover, hs2.read, ← leftover, hs1.leftover]
  rw [← hs1.files, ← hs2.files] at hf
  obtain ⟨cell, client, hAt⟩ := h2.at hf
  have hMoved := hAt.setOffset offset
  rw [setOffset_eq hf, ends_ok_bind, seekRequest_eq hMoved.mapped]
  refine ⟨?_, hLeftover, hs2.actualSize, hs2.files.trans hs1.files, ?_, hs2.queue.trans hs1.queue,
    fun hStart => ?_⟩
  · refine h2.move hAt ((touches_setOffset _ _ _).trans (touches_setServer _ _ _))
      (hMoved.setServer offset) ?_ ?_
      ⟨h2.caches.leftover_nonneg, h2.caches.readOpen, h2.caches.writeOpen⟩ h2.exclusive
    · change offset = offset + s2.prefetched f.cell - s2.unflushed f.cell
      rw [prefetched_of_leftover hLeftover, unflushed_of_actualSize hs2.actualSize]
      omega
    · exact fun _ _ => rfl
  · exact congrArg (set · f.cell offset) (hs2.offsets.trans hs1.offsets)
  · exact hs2.read ▸ hs1.start hStart

theorem lseek_ends (h : Agrees g.tid s) (hf : s.files fd = some f) (offset : Int) (relative : Bool) :
    Returns (s.lseek g fd offset relative) (Agrees g.tid) := by
  refine (flushRead_ends h).bind fun s1 ⟨h1, hs1⟩ => ?_
  refine (flushWrite_ends h1).bind fun s2 ⟨h2, hs2⟩ => ?_
  rw [← hs1.files, ← hs2.files] at hf
  obtain ⟨cell, client, hAt⟩ := h2.at hf
  rw [offset_eq hAt, ends_ok_bind]
  exact .ite (fun _ => (setFdOffset_ends h2 hf _).imp (fun _ hs => hs.1)) fun _ => h2

theorem serverCell_insert {sm : StorageManager}
    (hMap : sm.openedFdMap = s.sm.openedFdMap.insert (tid, fd) d) :
    serverCell { s with sm := sm } tid fd = d.offset ∧
      ∀ fd' ≠ fd, serverCell { s with sm := sm } tid fd' = s.serverCell tid fd' := by
  unfold serverCell
  simp_all

theorem Agrees.opened (h : Agrees g.tid s) (hNew : s.files fd = none) {sm : StorageManager}
    (hOffsets : sm.offsets = s.sm.offsets ++ [0]) {i : Nat}
    (hMap : sm.openedFdMap = s.sm.openedFdMap.insert (g.tid, fd) ⟨some i, some s.sm.offsets.length, path⟩) :
    Agrees g.tid (addFd { s with sm := sm } path fd 0) := by
  obtain ⟨hCell, hCells⟩ := serverCell_insert hMap
  have hBelow : ∀ fd' f', s.files fd' = some f' → f'.cell ≠ s.offsets.length := fun fd' f' hf' => by
    obtain ⟨_, _, hAt⟩ := h.at hf'
    exact (List.getElem?_eq_some_iff.mp hAt.clientAt).1.ne
  refine h.attach (f := ⟨s.offsets.length, path⟩) hNew ?_ rfl rfl hCell hCells ?_ ?_ ?_ ?_
  · exact emplace_of_none hNew _
  · exact fun k v hk => List.getElem?_append_left (List.getElem?_eq_some_iff.mp hk).1 ▸ hk
  · intro k v hk
    change sm.offsets[k]? = some v
    rw [hOffsets, List.getElem?_append_left (List.getElem?_eq_some_iff.mp hk).1, hk]
  · refine ⟨0, getElem?_concat_length, ?_⟩
    rw [prefetched_eq_zero hBelow, unflushed_eq_zero hBelow]
    change sm.offsets[s.sm.offsets.length]? = some 0
    rw [hOffsets, getElem?_concat_length]
  · intro fd' f' hf'
    refine ⟨⟨fun he => absurd he.symm (hBelow fd' f' hf'), fun he => ?_⟩,
      fun he => absurd he.symm (hBelow fd' f' hf')⟩
    obtain ⟨_, _, hAt⟩ := h.at hf'
    cases he.trans hAt.mapped
    exact absurd (List.getElem?_eq_some_iff.mp hAt.serverAt).1 (Nat.lt_irrefl _)

theorem openat_ends (h : Agrees g.tid s) (mode : Mode) (hNew : s.files fd = none)
    (hPath : g.env.engine.isExcluded path = false) (append : Bool) :
    Yields (s.openat g mode fd path append) (Agrees g.tid) := by
  have hRequest : Yields (s.openRequest g mode fd path) (fun r => (r.1 = 1 ∧ r.2 = s) ∨
      (r.1 = 0 ∧ Agrees g.tid (r.2.addFd path fd 0) ∧ r.2.files = s.files)) := by
    have hAdd : (s.sm.add g.env path false g.env.fileInitialSize).2.offsets = s.sm.offsets ∧
        (s.sm.add g.env path false g.env.fileInitialSize).2.openedFdMap = s.sm.openedFdMap := by
      unfold StorageManager.add StorageManager.storageAt
      split
      · exact ⟨rfl, rfl⟩
      · exact ⟨rfl, rfl⟩
    unfold openRequest
    rw [if_neg (by rw [hPath]; decide)]
    refine .ite (fun _ => .inl ⟨rfl, rfl⟩) fun _ => ?_
    generalize s.sm.add g.env path false g.env.fileInitialSize = added at hAdd ⊢
    obtain ⟨_, sm⟩ := added
    refine (ask_ends fun sm' hsm' => (sm.addFileToTid_ends g.tid fd path 0).result hsm').bind ?_
    rintro sm' ⟨hOffsets, i, hMap⟩
    rw [hAdd.1] at hOffsets hMap
    rw [hAdd.2] at hMap
    exact .inr ⟨rfl, h.opened hNew hOffsets hMap, rfl⟩
  refine hRequest.bind ?_
  rintro ⟨code, s1⟩ (⟨rfl, rfl⟩ | ⟨rfl, h1, hFiles⟩)
  · exact h
  · dsimp only
    rw [if_neg (by decide)]
    refine .ite (fun _ => ?_) fun _ => h1
    have hf : (s1.addFd path fd 0).files fd = some ⟨s1.offsets.length, path⟩ := by
      unfold addFd
      rw [emplace_of_none (hFiles ▸ hNew)]
      exact Function.update_self _ _ _
    refine (flushRead_ends h1).total.bind fun s2 ⟨h2, hs2⟩ => ?_
    refine (flushWrite_ends h2).total.bind fun s3 ⟨h3, hs3⟩ => ?_
    rw [← hs2.files, ← hs3.files] at hf
    obtain ⟨cell, client, hAt⟩ := h3.at hf
    rw [offset_eq hAt, ends_ok_bind, Int.add_zero, setOffset_eq hf]
    obtain ⟨hLt, hClient⟩ := List.getElem?_eq_some_iff.mp hAt.clientAt
    rw [← hClient, set_getElem_self]
    exact h3

theorem dup_ends (h : Agrees g.tid s) (hf : s.files oldFd = some f) (hNew : s.files newFd = none) :
    Yields (ask (s.sm.dup g.tid oldFd newFd) >>= fun sm => dupFd { s with sm := sm } oldFd newFd)
      (Agrees g.tid) := by
  refine (ask_ends fun sm' hsm' => (s.sm.dup_ends g.tid oldFd newFd).result hsm').bind ?_
  rintro sm ⟨hOffsets, d, hd, hMap⟩
  obtain ⟨hCell, hCells⟩ := serverCell_insert hMap
  obtain ⟨cell, client, hAt⟩ := h.at hf
  have hShared : d.offset = some cell := by
    have hMapped := hAt.mapped
    rwa [serverCell, hd, Option.bind_some] at hMapped
  unfold dupFd
  rw [hf]
  refine h.attach hNew (emplace_of_none hNew f) rfl rfl (hCell.trans hShared) hCells
    (fun _ _ hk => hk) ?_ ?_ ?_
  · exact fun k v hk => (congrArg (·[k]?) hOffsets).trans hk
  · exact ⟨client, hAt.clientAt, (congrArg (·[cell]?) hOffsets).trans hAt.serverAt⟩
  · intro fd' f' hf'
    grind [hAt.mapped, h.sharing, h.paths]

theorem close_ends (h : Agrees g.tid s) (fd : Fd) : Yields (do
      let s ← s.flushWrite g
      let s ← s.flushRead g
      let sm ← ask (s.sm.removeFromTid g.tid fd)
      pure (deleteFd { s with sm := sm } fd)) (Agrees g.tid) := by
  refine (flushWrite_ends h).total.bind fun s1 ⟨h1, hs1⟩ => ?_
  refine (flushRead_ends h1).total.bind fun s2 ⟨h2, hs2⟩ => ?_
  refine (ask_ends fun sm' hsm' => (s2.sm.removeFromTid_ends g.tid fd).result hsm').bind ?_
  rintro sm ⟨hOffsets, hMap, -⟩
  have hFlushed : s2.write.actualSize = 0 := by rw [hs2.write, hs1.actualSize]
  refine h2.detach hs2.leftover hFlushed rfl rfl rfl (fun fd' (hne : fd' ≠ fd) => ?_) rfl hOffsets
  exact congrArg (Option.bind · _) (hMap _ fun he => hne (Prod.mk.inj he).2)

def Fresh (s : Session) : Call → Prop
  | .openat _ fd _ _ => s.files fd = none
  | .dup _ newFd => s.files newFd = none
  | _ => True

/-- The count of a call that reaches CAPIO is not negative when it is read as an `off64_t`, and a
path that is opened is not one that the server leaves to the file system. -/
def Regular (g : Setting) (s : Session) : Call → Prop
  | .openat _ _ path _ => g.env.engine.isExcluded path = false
  | .read fd count => s.files fd ≠ none → 0 ≤ count
  | .write fd _ count => s.files fd ≠ none → 0 ≤ count
  | .getdents fd count => s.files fd ≠ none → -DIRENT_SIZE < count
  | _ => True

theorem tdiv_nonneg_of_neg_lt (h : -DIRENT_SIZE < count) : 0 ≤ count.tdiv DIRENT_SIZE := by
  by_cases hCount : 0 ≤ count
  · exact Int.tdiv_nonneg hCount (by decide)
  · have hSmall : (-count).tdiv DIRENT_SIZE = 0 := Int.tdiv_eq_zero_of_lt (by omega) (by omega)
    rw [Int.neg_tdiv] at hSmall
    omega

theorem call_ends (h : Agrees g.tid s) (hFresh : Fresh s c) (hRegular : Regular g s c) :
    Yields (s.call g c) (Agrees g.tid) := by
  cases c with
  | openat mode fd path append => exact openat_ends h mode hFresh hRegular append
  | dup oldFd newFd =>
    simp only [call]
    split
    · exact h
    · exact .ite (fun _ => h) fun _ => dup_ends h ‹_› hFresh
  | read fd count =>
    simp only [call]
    split
    · exact h
    · rename_i f hf
      refine .ite (fun _ => trivial) fun _ => ?_
      unfold cachedRead
      rw [bind_assoc]
      refine (flushWrite_ends h).total.bind fun s1 ⟨h1, hs1⟩ => ?_
      have hCount : 0 ≤ count := hRegular (hf.trans_ne (Option.some_ne_none f))
      exact (readThrough_ends h1 (hs1.files ▸ hf) hs1.actualSize count false hCount).bind fun r hr => hr
  | getdents fd count =>
    simp only [call]
    split
    · exact h
    · rename_i f hf
      refine .ite (fun _ => trivial) fun _ => ?_
      refine (flushWrite_ends h).total.bind fun s1 ⟨h1, hs1⟩ => ?_
      have hCount : -DIRENT_SIZE < count := hRegular (hf.trans_ne (Option.some_ne_none f))
      refine (readThrough_ends h1 (hs1.files ▸ hf) hs1.actualSize count true ?_).bind fun r hr => hr
      exact Int.mul_nonneg (tdiv_nonneg_of_neg_lt hCount) (by decide)
  | write fd buffer count =>
    simp only [call]
    split
    · exact h
    · rename_i f hf
      have hCount : 0 ≤ count := hRegular (hf.trans_ne (Option.some_ne_none f))
      exact .ite (fun _ => trivial) fun _ => (cachedWrite_ends h hf buffer hCount).total
  | seekSet fd offset =>
    simp only [call]
    split
    · exact h
    · exact (lseek_ends h ‹_› offset false).total
  | seekCur fd offset =>
    simp only [call]
    split
    · exact h
    · exact (lseek_ends h ‹_› offset true).total
  | close fd =>
    simp only [call]
    split
    · exact h
    · exact close_ends h fd

end

structure Input where
  call : Call
  supply : Fd → Int → List Byte := fun _ _ => []

def step (g : Setting) (s : Session) (i : Input) : Except Stop Session :=
  s.call { g with supply := i.supply } i.call

theorem agrees_start (tid : Tid) (sm : StorageManager) : Agrees tid { sm := sm } :=
  ⟨⟨fun _ _ hf => (nomatch hf), fun _ _ _ _ hf => (nomatch hf), fun _ _ hf => (nomatch hf)⟩,
    fun _ _ _ _ hf => (nomatch hf), ⟨Int.le_refl _, fun hne => absurd rfl hne, fun hne => absurd rfl hne⟩⟩

theorem agrees_run (hs : Agrees g.tid s) (inputs : List Input)
    (hInputs : Meets (fun s i => Fresh s i.call ∧ Regular g s i.call) (step g) s inputs) :
    Yields (inputs.foldlM (step g) s) (Agrees g.tid) :=
  run_ends (fun _ i h hi => call_ends (g := { g with supply := i.supply }) h hi.1 hi.2) hs inputs hInputs

/-- Whatever the server has stored before, the two sides agree after every call of a run of regular
calls. -/
theorem offsets_agree_in_every_run {g : Setting} {sm : StorageManager} {inputs : List Input} {s : Session}
    (hInputs : Meets (fun s i => Fresh s i.call ∧ Regular g s i.call) (step g) { sm := sm } inputs)
    (hRun : inputs.foldlM (step g) { sm := sm } = .ok s) : OffsetsAgree g.tid s :=
  ((agrees_run (agrees_start g.tid sm) inputs hInputs).result hRun).toOffsetsAgree

instance (s : Session) : (c : Call) → Decidable (Fresh s c) :=
  fun op => by cases op <;> dsimp only [Fresh] <;> infer_instance

instance (g : Setting) (s : Session) : (c : Call) → Decidable (Regular g s c) :=
  fun op => by cases op <;> dsimp only [Regular] <;> infer_instance

def shortLines : Setting where
  tid := 7
  env := Env.plain .onTermination false 0
  maxLineSize := 4
  supply := fun _ _ => []
  stale := fun _ => 0

def readAndWrite : List Input :=
  [⟨.openat .create 3 "/d/f".toList false, fun _ _ => []⟩, ⟨.dup 3 4, fun _ _ => []⟩,
    ⟨.openat .create 5 "/d/g".toList true, fun _ _ => []⟩, ⟨.seekSet 4 2, fun _ _ => []⟩,
    ⟨.read 3 1, fun _ _ => [1, 2, 3, 4, 5]⟩, ⟨.write 5 [6, 7] 2, fun _ _ => []⟩]

theorem offsets_agree_after_readAndWrite : ∃ s, readAndWrite.foldlM (step shortLines) {} = .ok s ∧
    s.leftover = 3 ∧ s.write.actualSize = 2 ∧ OffsetsAgree 7 s := by
  have hCaches : ∃ s, readAndWrite.foldlM (step shortLines) {} = .ok s ∧ s.leftover = 3 ∧
      s.write.actualSize = 2 := by decide +kernel
  obtain ⟨s, hRun, hLeftover, hUnflushed⟩ := hCaches
  exact ⟨s, hRun, hLeftover, hUnflushed, offsets_agree_in_every_run (g := shortLines)
    (by decide +kernel) hRun⟩

def negativeRead : List Input :=
  [⟨.openat .create 3 "/d/f".toList false, fun _ _ => []⟩, ⟨.read 3 (-5), fun _ _ => []⟩]

def excludedOpen : List Input := [⟨.openat .create 3 "/d/f".toList false, fun _ _ => []⟩]

def allExcluded : Setting :=
  { shortLines with
    env := { shortLines.env with
      engine := { shortLines.env.engine with isExcluded := fun _ => true } } }

theorem offsets_differ_after_irregular_calls :
    (Meets (fun s i => Fresh s i.call) (step shortLines) {} negativeRead ∧
      ∃ s, negativeRead.foldlM (step shortLines) {} = .ok s ∧ ¬ OffsetsAgree 7 s) ∧
    Meets (fun s i => Fresh s i.call) (step allExcluded) {} excludedOpen ∧
      ∃ s, excludedOpen.foldlM (step allExcluded) {} = .ok s ∧ ¬ OffsetsAgree 7 s := by
  refine ⟨⟨by decide +kernel, _, rfl, fun h => ?_⟩, by decide +kernel, _, rfl, fun h => ?_⟩
  · obtain ⟨cell, client, hCell, hClient, hServer⟩ := h.offsets 3 ⟨0, "/d/f".toList⟩ rfl
    cases hCell
    cases hClient
    exact absurd hServer (by decide +kernel)
  · obtain ⟨cell, client, hCell, -⟩ := h.offsets 3 ⟨0, "/d/f".toList⟩ rfl
    cases hCell

end Capio.Posix.Session
