import Capio.Posix.Lookups
import Capio.Posix.Requests
import Capio.Server.Registration

/-! # Opening a file on both sides

The client enters a descriptor into its tables by the answer of the server, and the server into its
map by its own configuration.  A world is one thread with its server.  Between the calls of the thread
the server works for others, and an open may wait for its file meanwhile; the state in which it goes on
is part of the call.
-/
namespace Capio.Posix.Client

open Common Lib.Outcome Posix.Filesystem Function List Option

/-! ## What a thread sends -/

def Data (tid : Tid) (fs : Filesystem) : Sent → Prop
  | .read t fd _ | .write t fd _ | .seek t fd _ | .seekEnd t fd | .seekData t fd _ | .seekHole t fd _
  | .fstat t fd => t = tid ∧ fs.files fd ≠ none
  | _ => False

structure Good (tid : Tid) (c : Client) : Prop where
  inv : Inv c.fs
  readable : Readable c tid
  writable : (c.write tid).actualSize ≠ 0 → c.fs.files (c.write tid).fd ≠ none

structure Tells (tid : Tid) (c c' : Client) : Prop where
  sent : ∃ rs, c'.sent = c.sent ++ rs ∧ ∀ r ∈ rs, Data tid c.fs r
  files : c'.fs.files = c.fs.files
  descriptors : c'.fs.capioFilesDescriptors = c.fs.capioFilesDescriptors

section

variable {tid : Tid} {fd : Fd}

theorem data_congr {fs fs' : Filesystem} (h : fs'.files = fs.files) (r : Sent) :
    Data tid fs' r ↔ Data tid fs r := by
  unfold Data
  rw [h]

theorem Tells.refl (tid : Tid) (c : Client) : Tells tid c c :=
  ⟨⟨[], (append_nil _).symm, fun _ h => absurd h not_mem_nil⟩, rfl, rfl⟩

theorem Tells.trans (h : Tells tid c c1) (h' : Tells tid c1 c2) : Tells tid c c2 := by
  obtain ⟨rs, hrs, hData⟩ := h.sent
  obtain ⟨rs', hrs', hData'⟩ := h'.sent
  refine ⟨⟨rs ++ rs', ?_, fun r hr => ?_⟩, h'.files.trans h.files, h'.descriptors.trans h.descriptors⟩
  · rw [hrs', hrs, append_assoc]
  · rcases mem_append.mp hr with hr | hr
    · exact hData r hr
    · exact (data_congr h.files r).mp (hData' r hr)

theorem Tells.of_send (hData : Data tid c.fs r) : Tells tid c (c.send r) :=
  ⟨⟨[r], rfl, fun _ hr => mem_singleton.mp hr ▸ hData⟩, rfl, rfl⟩

theorem mem_requestsOf (h : r ∈ requestsOf tid actions) :
    ∃ g n, CacheAction.request g n ∈ actions ∧ r = .write tid g n := by
  obtain ⟨a, ha, hr⟩ := mem_filterMap.mp h
  grind

theorem Good.applyWrite (h : Good tid c) (hCache : r.1.actualSize ≠ 0 → c.fs.files r.1.fd ≠ none)
    (hActions : ∀ g n, CacheAction.request g n ∈ r.2 → c.fs.files g ≠ none) :
    Good tid (c.applyWrite tid r) ∧ Tells tid c (c.applyWrite tid r) := by
  have hWrite : (c.applyWrite tid r).write tid = r.1 := by
    exact update_self ..
  refine ⟨⟨h.inv, h.readable, ?_⟩, ⟨requestsOf tid r.2, rfl, fun x hx => ?_⟩, rfl, rfl⟩
  · rw [hWrite]
    exact hCache
  · obtain ⟨g, n, hMem, rfl⟩ := mem_requestsOf hx
    exact ⟨rfl, hActions g n hMem⟩

theorem mem_flush {w : WriteCache} (h : CacheAction.request g n ∈ w.flush.2) :
    g = w.fd ∧ w.actualSize ≠ 0 := by grind [WriteCache.flush]

theorem flush_actualSize (w : WriteCache) : w.flush.1.actualSize = 0 := by grind [WriteCache.flush]

theorem Good.flushWrite (h : Good tid c) : Good tid (c.flushWrite tid) ∧ Tells tid c (c.flushWrite tid) :=
  h.applyWrite (fun hSome => absurd (flush_actualSize _) hSome) fun _ _ hMem =>
    (mem_flush hMem).1 ▸ h.writable (mem_flush hMem).2

theorem Good.flushRead (h : Good tid c) :
    Ends (c.flushRead tid) (fun c' => Good tid c' ∧ Tells tid c c') fun _ => False := by
  have hReadable := flushRead_of_readable h.readable
  unfold Client.flushRead at hReadable ⊢
  dsimp only at hReadable ⊢
  split
  · next hLeft =>
    have hOpen := h.readable.resolve_left hLeft
    rw [if_pos hLeft] at hReadable
    obtain ⟨f, hf⟩ := ne_none_iff_exists'.mp hOpen
    have hSeen : see (c.fs.getCapioFdOffset (c.read tid).lastFd) = .ok (c.fs.offsets.getD f.offset 0) := by
      unfold Filesystem.getCapioFdOffset
      rw [hf]
      rfl
    change Ends (see (c.fs.getCapioFdOffset (c.read tid).lastFd) >>= _) _ _ at hReadable ⊢
    rw [hSeen] at hReadable ⊢
    refine ⟨⟨h.inv, hReadable.2, h.writable⟩, ⟨[_], rfl, fun r hr => ?_⟩, rfl, rfl⟩
    rw [mem_singleton.mp hr]
    exact ⟨rfl, hOpen⟩
  · exact ⟨h, Tells.refl tid c⟩

theorem flushRead_empty (c : Client) (tid : Tid) :
    Yields (c.flushRead tid) (fun c' => (c'.read tid).cacheOffset = (c'.read tid).actualSize ∧
      c'.write = c.write) := by
  unfold Client.flushRead
  dsimp only
  split
  · refine .skip fun offset => ⟨?_, rfl⟩
    change (update c.read tid _ tid).cacheOffset = (update c.read tid _ tid).actualSize
    rw [update_self]
  · next hNone => exact ⟨not_not.mp hNone, rfl⟩

theorem Good.setOffset (h : Good tid c) (hOpen : c.fs.files fd ≠ none) (offset : Int) :
    Ends (c.withTables (c.fs.setCapioFdOffset fd offset)) (fun c' => Good tid c' ∧ Tells tid c c')
      fun _ => False := by
  obtain ⟨f, hf⟩ := ne_none_iff_exists'.mp hOpen
  unfold Filesystem.setCapioFdOffset
  rw [hf]
  exact ⟨⟨⟨⟨h.inv.keys, h.inv.inverse⟩, h.inv.nodup⟩, h.readable, h.writable⟩, (Tells.refl tid c).sent, rfl,
    rfl⟩

theorem Good.bind (hx : Ends x (fun c' => Good tid c' ∧ Tells tid c c') fun _ => False)
    (hf : ∀ c', Good tid c' → Tells tid c c' → Ends (f c') (fun d => Good tid d ∧ Tells tid c' d) E) :
    Ends (x >>= f) (fun d => Good tid d ∧ Tells tid c d) E := by
  refine hx.total.bind fun c' hc' => ?_
  exact (hf c' hc'.1 hc'.2).imp (fun d hd => ⟨hd.1, hc'.2.trans hd.2⟩)

theorem Good.send (h : Good tid c) (hData : Data tid c.fs r) :
    Good tid (c.send r) ∧ Tells tid c (c.send r) :=
  ⟨⟨h.inv, h.readable, h.writable⟩, Tells.of_send hData⟩

theorem Tells.isOpen (h : Tells tid c c1) (hOpen : c.fs.files fd ≠ none) : c1.fs.files fd ≠ none :=
  h.files.symm ▸ hOpen

theorem Good.setFdOffset (h : Good tid c) (hOpen : c.fs.files fd ≠ none) (offset : Int) :
    Ends (c.setFdOffset tid fd offset) (fun c' => Good tid c' ∧ Tells tid c c') fun _ => False := by
  refine Good.bind h.flushRead fun c1 h1 ht1 => ?_
  obtain ⟨h2, ht2⟩ := h1.flushWrite
  have hOpen2 := ht2.isOpen (ht1.isOpen hOpen)
  refine (Good.bind (h2.setOffset hOpen2 offset) fun c3 h3 ht3 => ?_).mono
    (fun d hd => ⟨hd.1, ht2.trans hd.2⟩) fun _ => id
  exact h3.send ⟨rfl, ht3.isOpen hOpen2⟩

theorem Good.capioLseek (h : Good tid c) (fd : Fd) (offset : Int) (whence : Whence) (answer : Int) :
    Ends (c.capioLseek tid fd offset whence answer) (fun c' => Good tid c' ∧ Tells tid c c')
      fun _ => False := by
  refine .ite (fun hExists => ?_) fun _ => ⟨h, Tells.refl tid c⟩
  have hOpen := existsCapioFd_iff.mp hExists
  refine Good.bind h.flushRead fun c1 h1 ht1 => ?_
  obtain ⟨h2, ht2⟩ := h1.flushWrite
  have hOpen2 := ht2.isOpen (ht1.isOpen hOpen)
  suffices hRest : Ends _ (fun d => Good tid d ∧ Tells tid (c1.flushWrite tid) d) fun _ => False from
    hRest.imp (fun d hd => ⟨hd.1, ht2.trans hd.2⟩)
  generalize c1.flushWrite tid = c2 at h2 hOpen2 ⊢
  refine (see_getCapioFdOffset hOpen2).bind fun fileOffset _ => ?_
  have hAsked {r : Sent} (hData : Data tid c2.fs r) (n : Int) :
      Ends ((c2.send r).withTables (c2.fs.setCapioFdOffset fd n))
        (fun d => Good tid d ∧ Tells tid c2 d) fun _ => False :=
    (Good.setOffset (c := c2.send r) (h2.send hData).1 hOpen2 n).mono
      (fun d hd => ⟨hd.1, (h2.send hData).2.trans hd.2⟩) fun _ => id
  cases whence with
  | SEEK_SET =>
    exact .ite (fun _ => h2.setFdOffset hOpen2 offset) fun _ => ⟨h2, Tells.refl tid c2⟩
  | SEEK_CUR =>
    exact .ite (fun _ => h2.setFdOffset hOpen2 _) fun _ => ⟨h2, Tells.refl tid c2⟩
  | SEEK_END => exact hAsked (r := .seekEnd tid fd) ⟨rfl, hOpen2⟩ _
  | SEEK_DATA => exact hAsked (r := .seekData tid fd fileOffset) ⟨rfl, hOpen2⟩ _
  | SEEK_HOLE => exact hAsked (r := .seekHole tid fd fileOffset) ⟨rfl, hOpen2⟩ _
  | invalid => exact ⟨h2, Tells.refl tid c2⟩

theorem Good.switchRead (h : Good tid c) (hOpen : c.fs.files fd ≠ none) : Ends (c.switchRead tid fd)
      (fun c' => Good tid c' ∧ Tells tid c c' ∧ (c'.read tid).lastFd = fd) fun _ => False := by
  refine .ite (fun _ => ?_) fun hSame => ⟨h, Tells.refl tid c, not_not.mp hSame⟩
  refine h.flushRead.bind fun c1 hc1 => ?_
  obtain ⟨h1, ht1⟩ := hc1
  have hRead : (c1.setRead tid { c1.read tid with lastFd := fd }).read tid =
      { c1.read tid with lastFd := fd } := by
    exact update_self ..
  refine ⟨⟨h1.inv, .inr ?_, h1.writable⟩, ⟨ht1.sent, ht1.files, ht1.descriptors⟩, by rw [hRead]⟩
  rw [hRead]
  exact ht1.isOpen hOpen

theorem readLine_lastFd (maxLineSize : Nat) (r : ReadLine) (fileOffset count endOfRead : Int) :
    (readLine maxLineSize r fileOffset count endOfRead).1.lastFd = r.lastFd := by
  grind [readLine]

theorem Good.capioRead (h : Good tid c) (maxLineSize : Nat) (fd : Fd) (count endOfRead : Int) :
    Ends (c.capioRead maxLineSize tid fd count endOfRead) (fun c' => Good tid c' ∧ Tells tid c c')
      fun e => e = .exit := by
  refine .ite (fun hExists => ?_) fun _ => ⟨h, Tells.refl tid c⟩
  refine .ite (fun _ => rfl) fun _ => ?_
  have hOpen := existsCapioFd_iff.mp hExists
  obtain ⟨h1, ht1⟩ := h.flushWrite
  have hOpen1 := ht1.isOpen hOpen
  refine (h1.switchRead hOpen1).total.bind ?_
  rintro c2 ⟨h2, ht2, hLast⟩
  have hOpen2 := ht2.isOpen hOpen1
  refine (see_getCapioFdOffset hOpen2).total.bind fun fileOffset _ => ?_
  have hLine := readLine_lastFd maxLineSize (c2.read tid) fileOffset count endOfRead
  generalize readLine maxLineSize (c2.read tid) fileOffset count endOfRead = r at hLine ⊢
  obtain ⟨r, bytesRead, asked⟩ := r
  -- the line is that of the descriptor, and at most one request is sent for it
  have h3 : Good tid { c2.setRead tid r with sent := c2.sent ++ (asked.map (Sent.read tid fd)).toList } := by
    refine ⟨h2.inv, .inr ?_, h2.writable⟩
    change c2.fs.files (update c2.read tid r tid).lastFd ≠ none
    rw [update_self, hLine, hLast]
    exact hOpen2
  have ht3 : Tells tid c2
      { c2.setRead tid r with sent := c2.sent ++ (asked.map (Sent.read tid fd)).toList } := by
    refine ⟨⟨_, rfl, fun x hx => ?_⟩, rfl, rfl⟩
    obtain ⟨n, -, rfl⟩ := map_eq_some_iff.mp (mem_toList.mp hx)
    exact ⟨rfl, hOpen2⟩
  exact (h3.setOffset hOpen2 _).mono (fun d hd => ⟨hd.1, ((ht1.trans ht2).trans ht3).trans hd.2⟩)
    fun _ he => he.elim

theorem flush_fd (w : WriteCache) : w.flush.1.fd = w.fd := by
  unfold WriteCache.flush
  split <;> rfl

theorem writeLine_requests (maxLineSize : Nat) (w : WriteCache) (count : Int) (buffer : List Byte) :
    (w.writeLine maxLineSize count buffer).1.fd = w.fd ∧
      ∀ g n, CacheAction.request g n ∈ (w.writeLine maxLineSize count buffer).2 → g = w.fd := by
  unfold WriteCache.writeLine
  split
  · dsimp only
    split
    · refine ⟨flush_fd _, fun g n hMem => ?_⟩
      rcases mem_append.mp hMem with hMem | hMem
      · cases w.reserved <;> simp at hMem
      · exact (mem_flush hMem).1
    · simp
  · exact ⟨rfl, fun _ _ hMem => absurd hMem not_mem_nil⟩

theorem write_requests (maxLineSize : Nat) (w : WriteCache) (fd : Fd) (buffer : List Byte) (count : Int) :
    (w.write maxLineSize fd buffer count).1.fd = fd ∧
      ∀ g n, CacheAction.request g n ∈ (w.write maxLineSize fd buffer count).2 →
        g = fd ∨ g = w.fd ∧ w.actualSize ≠ 0 := by
  have hSwitch : (w.switch fd).1.fd = fd ∧ ∀ g n, CacheAction.request g n ∈ (w.switch fd).2 →
      g = w.fd ∧ w.actualSize ≠ 0 := by
    grind [WriteCache.switch, mem_flush]
  unfold WriteCache.write
  generalize w.switch fd = r at hSwitch ⊢
  obtain ⟨w1, switched⟩ := r
  obtain ⟨rfl, hSwitched⟩ := hSwitch
  dsimp only at hSwitched ⊢
  split
  · obtain ⟨hFd, hRequests⟩ := writeLine_requests maxLineSize w1 count buffer
    grind
  · have hFlushed : ∀ g n, CacheAction.request g n ∈ switched ++ w1.flush.2 →
        g = w1.fd ∨ g = w.fd ∧ w.actualSize ≠ 0 := fun g n hMem =>
      (mem_append.mp hMem).elim (fun h => .inr (hSwitched g n h)) fun h => .inl (mem_flush h).1
    split
    · refine ⟨flush_fd w1, fun g n hMem => ?_⟩
      grind [flush_fd]
    · obtain ⟨hFd, hRequests⟩ := writeLine_requests maxLineSize w1.flush.1 count buffer
      refine ⟨hFd.trans (flush_fd w1), fun g n hMem => ?_⟩
      rcases mem_append.mp hMem with hMem | hMem
      · exact hFlushed g n hMem
      · exact .inl ((hRequests g n hMem).trans (flush_fd w1))

theorem Good.capioWrite (h : Good tid c) (maxLineSize : Nat) (fd : Fd) (buffer : List Byte) (count : Int) :
    Ends (c.capioWrite maxLineSize tid fd buffer count) (fun c' => Good tid c' ∧ Tells tid c c')
      fun e => e = .exit := by
  refine .ite (fun hExists => ?_) fun _ => ⟨h, Tells.refl tid c⟩
  refine .ite (fun _ => rfl) fun _ => ?_
  have hOpen := existsCapioFd_iff.mp hExists
  refine (cachesFileOf_ends h.inv hOpen tid).total.bind fun caches _ => ?_
  have hFlushed : Ends (if caches = true then c.flushRead tid else pure c)
      (fun c' => Good tid c' ∧ Tells tid c c') fun _ => False :=
    Ends.ite (fun _ => h.flushRead) fun _ => ⟨h, Tells.refl tid c⟩
  refine Good.bind hFlushed fun c1 h1 ht1 => ?_
  have hOpen1 := ht1.isOpen hOpen
  obtain ⟨hFd, hRequests⟩ := write_requests maxLineSize (c1.write tid) fd buffer count
  obtain ⟨h2, ht2⟩ := h1.applyWrite (fun _ => hFd.symm ▸ hOpen1) fun g n hMem =>
    (hRequests g n hMem).elim (fun he => he.symm ▸ hOpen1) fun he => he.1.symm ▸ h1.writable he.2
  generalize c1.applyWrite tid _ = c2 at h2 ht2 ⊢
  have hOpen2 := ht2.isOpen hOpen1
  refine (see_getCapioFdOffset hOpen2).total.bind fun offset _ => ?_
  exact (h2.setOffset hOpen2 _).mono (fun d hd => ⟨hd.1, ht2.trans hd.2⟩) fun _ he => he.elim

theorem Good.capioFstat (h : Good tid c) (fd : Fd) (fileSize : Int) :
    Ends (c.capioFstat tid fd fileSize) (fun c' => Good tid c' ∧ Tells tid c c') fun _ => False := by
  refine .ite (fun hExists => ?_) fun _ => ⟨h, Tells.refl tid c⟩
  obtain ⟨h1, ht1⟩ := h.flushWrite
  have hOpen1 := ht1.isOpen (existsCapioFd_iff.mp hExists)
  obtain ⟨h2, ht2⟩ := h1.send (r := .fstat tid fd) ⟨rfl, hOpen1⟩
  refine .ite (fun _ => ⟨h2, ht1.trans ht2⟩) fun _ => ?_
  exact (see_getCapioFdPath h2.inv (ht2.isOpen hOpen1)).bind fun _ _ => ⟨h2, ht1.trans ht2⟩

theorem Good.closeHandler (h : Good tid c) (fd : Fd) : Ends (c.closeHandler tid fd) (fun c' => Good tid c' ∧
      (c.fs.files fd = none ∧ c' = c ∨ c.fs.files fd ≠ none ∧ c'.fs.files = update c.fs.files fd none ∧
        ∃ rs, c'.sent = c.sent ++ (rs ++ [.close tid fd]) ∧ ∀ r ∈ rs, Data tid c.fs r))
      fun _ => False := by
  unfold Client.closeHandler
  split
  · next hExists =>
    have hOpen := existsCapioFd_iff.mp hExists
    obtain ⟨h1, ht1⟩ := h.flushWrite
    have hEmpty : ((c.flushWrite tid).write tid).actualSize = 0 := by
      change (update c.write tid _ tid).actualSize = 0
      rw [update_self]
      exact flush_actualSize _
    have hKept := (h1.flushRead.and (flushRead_empty (c.flushWrite tid) tid))
    refine hKept.bind ?_
    rintro c2 ⟨⟨h2, ht2⟩, hRead, hWrite⟩
    have ht := ht1.trans ht2
    have hOpen2 := ht.isOpen hOpen
    obtain ⟨fs', hRun, h', hFiles, -⟩ := deleteCapioFd_inv h2.inv hOpen2
    obtain ⟨rs, hrs, hData⟩ := ht.sent
    change Ends (withTables (c2.send (.close tid fd)) (c2.fs.deleteCapioFd fd)) _ _
    rw [hRun]
    refine ⟨⟨h', .inl hRead, fun hSome => absurd ?_ hSome⟩, .inr ⟨hOpen, ?_, rs, ?_, hData⟩⟩
    · change (c2.write tid).actualSize = 0
      rw [hWrite]
      exact hEmpty
    · rw [← ht.files]
      exact hFiles
    · change c2.sent ++ [.close tid fd] = _
      rw [hrs, append_assoc]
  · next hNot =>
    have hNone : c.fs.files fd = none := not_not.mp fun hOpen => hNot (existsCapioFd_iff.mpr hOpen)
    exact ⟨h, .inl ⟨hNone, rfl⟩⟩

theorem Good.capioOpenat (h : Good tid c) (hNew : c.fs.files fd = none) (hFd : fd ≠ -1)
    (hKey : (c.resolver p).capioOpenat dirfd pathname = .key path) (flags : Nat) (code : Int) :
    Ends (c.capioOpenat p tid dirfd pathname flags fd code) (fun r => Good tid r.2 ∧
      (code = 1 ∧ r.1 ≠ .skip ∧ r.2.fs = c.fs ∧ r.2.sent = c.sent ++ [openRequest flags tid fd path] ∨
        code ≠ 1 ∧ r.1 = .value fd ∧ r.2.fs.capioFilesDescriptors fd = some path ∧
          (∀ g, r.2.fs.files g ≠ none ↔ g = fd ∨ c.fs.files g ≠ none) ∧
          ∃ rs, r.2.sent = c.sent ++ openRequest flags tid fd path :: rs ∧
            ∀ x ∈ rs, Data tid r.2.fs x)) fun _ => False := by
  unfold Client.capioOpenat
  rw [hKey]
  dsimp only
  rw [if_neg hFd]
  split
  · next hCode =>
    refine ⟨⟨h.inv, h.readable, h.writable⟩, .inl ⟨hCode, ?_, rfl, rfl⟩⟩
    split <;> exact fun hSkip => (by cases hSkip)
  · next hCode =>
    obtain ⟨fs', hRun, h', hDescriptors, hFiles, -⟩ : ∃ fs', c.fs.addCapioFd path fd 0
        CAPIO_DEFAULT_FILE_INITIAL_SIZE (actualFlags flags) (hasFlag flags O_CLOEXEC) = .ok fs' ∧ _ :=
      addCapioFd_inv h.inv hNew 0 _ _ _
    change Ends (withTables _ (c.fs.addCapioFd path fd 0 _ _ _) >>= _) _ _
    rw [hRun]
    refine (ends_ok_bind _ _ _ _).mpr ?_
    have hOpens : ∀ g, fs'.files g ≠ none ↔ g = fd ∨ c.fs.files g ≠ none := by
      intro g
      rw [hFiles, update_apply]
      grind
    have h1 : Good tid { c.send (openRequest flags tid fd path) with fs := fs' } :=
      ⟨h', h.readable.imp_right fun hOpen => (hOpens _).mpr (.inr hOpen),
        fun hSome => (hOpens _).mpr (.inr (h.writable hSome))⟩
    have hSought : Ends (if hasFlag flags O_APPEND = true then
          Client.capioLseek { c.send (openRequest flags tid fd path) with fs := fs' } tid fd 0 .SEEK_END 0
        else pure { c.send (openRequest flags tid fd path) with fs := fs' })
        (fun d => Good tid d ∧ Tells tid { c.send (openRequest flags tid fd path) with fs := fs' } d)
        fun _ => False :=
      Ends.ite (fun _ => h1.capioLseek fd 0 .SEEK_END 0) fun _ => ⟨h1, Tells.refl tid _⟩
    refine hSought.bind fun d hd => ?_
    obtain ⟨hGood, hTells⟩ := hd
    obtain ⟨rs, hrs, hData⟩ := hTells.sent
    refine ⟨hGood, .inr ⟨hCode, rfl, ?_, fun g => ?_, rs, ?_, fun x hx => ?_⟩⟩
    · simp [hTells.descriptors, hDescriptors]
    · rw [hTells.files]
      exact hOpens g
    · rw [hrs]
      exact append_assoc c.sent [openRequest flags tid fd path] rs
    · exact (data_congr hTells.files x).mpr (hData x hx)

end

end Capio.Posix.Client

namespace Capio.Posix.Opens

open Common Lib.Outcome Posix Posix.Client

structure World where
  client : Client
  server : Server.State

inductive Halt
  | client (e : Client.Stop)
  | server (e : Failure)
  | waits
  deriving DecidableEq

inductive Call
  | openat (dirfd : Option Fd) (pathname : Path) (flags : Nat) (fd : Fd)
      (later : Option (Server.State × Nat))
  | read (fd : Fd) (count endOfRead : Int)
  | write (fd : Fd) (buffer : List Byte) (count : Int)
  | lseek (fd : Fd) (offset : Int) (whence : Whence) (answer : Int)
  | fstat (fd : Fd) (fileSize : Int)
  | close (fd : Fd)
  /-- The server works for other threads. -/
  | others (server : Server.State)

structure Input where
  call : Call
  os : Nat → Os
  bytes : Nat → Byte
  found : Int

section

variable (env : Server.Env) (p : Keys.Process) (maxLineSize : Nat) (tid : Tid)

def serve (i : Input) (s : Server.State) : Sent → Except Failure Server.State
  | .create t fd path => Server.step env s ⟨.create t fd path, i.os⟩
  | .createExclusive t fd path => Server.step env s ⟨.createExclusive t fd path, i.os⟩
  | .openFile t fd path => Server.step env s ⟨.openFile t fd path, i.os⟩
  | .read t fd count => Server.step env s ⟨.read t fd count.toNat, i.os⟩
  | .write t fd count => Server.step env s ⟨.write t fd ((List.range count.toNat).map i.bytes), i.os⟩
  | .seek t fd offset => Server.step env s ⟨.lseek t fd offset, i.os⟩
  | .seekData t fd _ | .seekHole t fd _ => do
    let _ ← s.sm.getOfFd t fd
    Server.handleLseek s t fd i.found
  | .seekEnd t fd | .fstat t fd => pure (s.getPath t fd).2
  | .dup t oldFd newFd => Server.step env s ⟨.dup t oldFd newFd, i.os⟩
  | .close t fd => Server.step env s ⟨.close t fd, i.os⟩
  | .mkdir t path => Server.step env s ⟨.mkdir t path, i.os⟩
  | .rmdir t path => Server.step env s ⟨.rmdir t path, i.os⟩
  | .unlink t path => Server.step env s ⟨.unlink t path, i.os⟩
  | .exitGroup t => Server.step env s ⟨.exitGroup t, i.os⟩

def answerOf (s s' : Server.State) : Option Int :=
  match s'.cm.replies with
  | r :: rest => if rest.length = s.cm.replies.length then some r.offset else none
  | [] => none

structure Opened where
  result : Result
  client : Client
  code : Int
  before : Server.State
  after : Server.State

def answer (i : Input) (later : Option (Server.State × Nat)) (s : Server.State) (r : Sent) :
    Except Halt (Int × Server.State × Server.State) := do
  let s1 ← (serve env i s r).mapError .server
  match answerOf s s1 with
  | some code => pure (code, s, s1)
  | none =>
    match later with
    | none => throw .waits
    | some (s2, k) =>
      let s3 ← (Server.step env s2 ⟨.resume k, i.os⟩).mapError .server
      match answerOf s2 s3 with
      | some code => pure (code, s2, s3)
      | none => throw .waits

def opens (i : Input) (dirfd : Option Fd) (pathname : Path) (flags : Nat) (fd : Fd)
    (later : Option (Server.State × Nat)) (w : World) : Except Halt Opened :=
  match (w.client.resolver p).capioOpenat dirfd pathname with
  | .key path => do
    if fd = -1 then throw (.client .exit)
    let (code, before, after) ← answer env i later w.server (openRequest flags tid fd path)
    let (result, client) ← (w.client.capioOpenat p tid dirfd pathname flags fd code).mapError .client
    pure ⟨result, client, code, before, after⟩
  | _ => do
    let (result, client) ← (w.client.capioOpenat p tid dirfd pathname flags fd 0).mapError .client
    pure ⟨result, client, 0, w.server, w.server⟩

def clientCall (c : Client) : Call → Except Client.Stop Client
  | .read fd count endOfRead => c.capioRead maxLineSize tid fd count endOfRead
  | .write fd buffer count => c.capioWrite maxLineSize tid fd buffer count
  | .lseek fd offset whence answer => c.capioLseek tid fd offset whence answer
  | .fstat fd fileSize => c.capioFstat tid fd fileSize
  | .close fd => c.closeHandler tid fd
  | .openat .. | .others _ => pure c

def requests (before : Nat) (c : Client) : List Sent := c.sent.drop before

def step (w : World) (i : Input) : Except Halt World :=
  match i.call with
  | .others server => pure { w with server := server }
  | .openat dirfd pathname flags fd later => do
    let o ← opens env p tid i dirfd pathname flags fd later w
    let server ← ((requests (w.client.sent.length + 1) o.client).foldlM (serve env i) o.after).mapError
      .server
    pure ⟨o.client, server⟩
  | call => do
    let client ← (clientCall maxLineSize tid w.client call).mapError .client
    let server ← ((requests w.client.sent.length client).foldlM (serve env i) w.server).mapError .server
    pure ⟨client, server⟩

def NamesKnown (s : Server.State) : Sent → Prop
  | .read t fd _ | .write t fd _ | .seek t fd _ | .seekEnd t fd | .seekData t fd _ | .seekHole t fd _
  | .fstat t fd | .close t fd => s.sm.openedFdMap.lookup (t, fd) ≠ none
  | _ => True

/-- Both sides have the descriptor, or none has it, and a call the server skips goes to the kernel. -/
structure OpenAgrees (fd : Fd) (path : Path) (o : Opened) : Prop where
  sides : o.client.fs.capioFilesDescriptors fd = some path ↔
    Server.Registers tid fd path o.before o.after
  skipped : o.code = CAPIO_POSIX_SYSCALL_REQUEST_SKIP → o.result = .skip ∧ o.client.fs.files fd = none

def Agrees (w : World) (i : Input) : Prop :=
  match i.call with
  | .others _ => True
  | .openat dirfd pathname flags fd later =>
    ∀ o, opens env p tid i dirfd pathname flags fd later w = .ok o →
      OnKey ((w.client.resolver p).capioOpenat dirfd pathname) fun path =>
        OpenAgrees tid fd path o ∧
          Meets NamesKnown (serve env i) o.after (requests (w.client.sent.length + 1) o.client)
  | call =>
    ∀ client, clientCall maxLineSize tid w.client call = .ok client →
      Meets NamesKnown (serve env i) w.server (requests w.client.sent.length client)

def Leaves (s s' : Server.State) : Prop :=
  (∀ fd, s.sm.openedFdMap.lookup (tid, fd) ≠ none → s'.sm.openedFdMap.lookup (tid, fd) ≠ none) ∧
    s'.cm.responses tid = true

/-- The text of the request carries the path to the server. -/
def Carried (fd : Fd) (path : Path) : Prop :=
  ∀ r ∈ [Requests.Request.open fd path tid, .create fd path tid, .createExclusive fd path tid],
    r.sprintf.text.length + 1 ≤ Requests.CAPIO_REQ_MAX_SIZE ∧ r.Readable

/-- The kernel gives a number that is not in use, and the path is one that a request can carry; what the
server does for others leaves the descriptors of the thread, and an open that waits is still among its
threads. -/
def Allowed (w : World) (i : Input) : Prop :=
  match i.call with
  | .others server => Leaves tid w.server server
  | .openat dirfd pathname _ fd later =>
    w.client.fs.files fd = none ∧ fd ≠ -1 ∧
    OnKey ((w.client.resolver p).capioOpenat dirfd pathname) (Carried tid fd) ∧ ∀ s k, later = some (s, k) →
      Leaves tid w.server s ∧ OnKey ((w.client.resolver p).capioOpenat dirfd pathname) fun path =>
        s.pending[k]? = some (.openFile path tid fd)
  | _ => True

def NotExcluded (w : World) (i : Input) : Prop :=
  match i.call with
  | .openat dirfd pathname .. =>
    OnKey ((w.client.resolver p).capioOpenat dirfd pathname) fun path =>
      env.engine.isExcluded path = false
  | _ => True

end

section

variable {env : Server.Env} {tid : Tid} {i : Input} {s : Server.State} {fs : Filesystem} {rs : List Sent}

structure Known (tid : Tid) (fs : Filesystem) (s : Server.State) : Prop where
  descriptors : ∀ fd, fs.files fd ≠ none → s.sm.openedFdMap.lookup (tid, fd) ≠ none
  responses : s.cm.responses tid = true

theorem Known.retains (h : Known tid fs s) (h' : Server.Retains s s') : Known tid fs s' :=
  ⟨fun fd hfd => h'.descriptors _ (h.descriptors fd hfd), h'.responses ▸ h.responses⟩

theorem serve_data (hData : Data tid fs r) : Yields (serve env i s r) (Server.Retains s) := by
  have h := Server.Retains.refl s
  cases r with
  | read t fd count => exact h.handleRead t fd count.toNat
  | write t fd count => exact h.writeHandler t fd _
  | seek t fd offset => exact h.handleLseek t fd offset
  | seekData t fd offset | seekHole t fd offset =>
    exact .skip fun _ => h.handleLseek t fd i.found
  | seekEnd t fd | fstat t fd => exact h.getPath t fd
  | _ => exact hData.elim

theorem Known.names (h : Known tid fs s) (hData : Data tid fs r) : NamesKnown s r := by
  cases r with
  | read t fd _ | write t fd _ | seek t fd _ | seekEnd t fd | seekData t fd _ | seekHole t fd _
  | fstat t fd =>
    obtain ⟨rfl, hOpen⟩ := hData
    exact h.descriptors fd hOpen
  | _ => exact hData.elim

theorem Known.meets_append (h : Known tid fs s) (hData : ∀ r ∈ rs, Data tid fs r)
    (hRest : ∀ s', Known tid fs s' → Meets NamesKnown (serve env i) s' rest) :
    Meets NamesKnown (serve env i) s (rs ++ rest) := by
  induction rs generalizing s with
  | nil => exact hRest s h
  | cons r rs ih =>
    have hr := hData r List.mem_cons_self
    exact ⟨h.names hr, fun s' hs' =>
      ih (h.retains ((serve_data hr).result hs')) fun x hx => hData x (List.mem_cons_of_mem r hx)⟩

theorem Known.meets (h : Known tid fs s) (hData : ∀ r ∈ rs, Data tid fs r) :
    Meets NamesKnown (serve env i) s rs :=
  List.append_nil rs ▸ h.meets_append hData fun _ _ => trivial

theorem Known.run (h : Known tid fs s) (hData : ∀ r ∈ rs, Data tid fs r) :
    Yields (rs.foldlM (serve env i) s) (Known tid fs) :=
  Ends.foldlM (fun r hr _ h1 => (serve_data (hData r hr)).imp (fun _ => h1.retains)) h

theorem answerOf_answers (h : Server.Answers tid code s s') : answerOf s s' = some code := by
  unfold answerOf
  rw [h.1]
  exact if_pos rfl

theorem answerOf_same (h : s'.cm.replies = s.cm.replies) : answerOf s s' = none := by
  unfold answerOf
  rw [h]
  cases s.cm.replies with
  | nil => rfl
  | cons r rest => exact if_neg (Nat.ne_of_lt (Nat.lt_succ_self _))

def Settled (tid : Tid) (fd : Fd) (path : Path) (code : Int) (s s' : Server.State) : Prop :=
  code = 0 ∧ Server.Registers tid fd path s s' ∧ s'.cm.responses = s.cm.responses ∨
    code = 1 ∧ s'.sm = s.sm ∧ s'.cm.responses = s.cm.responses

theorem Settled.known (h : Known tid fs s) (h' : Settled tid fd path code s s') : Known tid fs s' := by
  rcases h' with ⟨-, ⟨j, hMap, -⟩, hResponses⟩ | ⟨-, hsm, hResponses⟩
  · exact h.retains ((Server.Retains.refl s).insert hMap hResponses)
  · exact h.retains ((Server.Retains.refl s).of_same (by rw [hsm]) hResponses)

theorem serve_open (hIncluded : env.engine.isExcluded path = false) (flags : Nat) :
    Yields (serve env i s (openRequest flags tid fd path))
      (fun s' => (∃ code, Settled tid fd path code s s' ∧ answerOf s s' = some code) ∨
        answerOf s s' = none) := by
  have hStep (handler : Except Failure Server.State) :
      Server.unlessExcluded env s tid path handler = handler := by simp [Server.unlessExcluded, hIncluded]
  unfold openRequest
  split
  · change Ends (Server.unlessExcluded env s tid path _) _ _
    rw [hStep]
    refine (Server.handleCreateExclusive_registers tid fd path).imp (fun s' h' => .inl ?_)
    rcases h' with ⟨-, hAnswers, hsm⟩ | ⟨-, hRegisters, hAnswers⟩
    · exact ⟨1, .inr ⟨rfl, hsm, hAnswers.2⟩, answerOf_answers hAnswers⟩
    · exact ⟨0, .inl ⟨rfl, hRegisters, hAnswers.2⟩, answerOf_answers hAnswers⟩
  · split
    · change Ends (Server.unlessExcluded env s tid path _) _ _
      rw [hStep]
      refine (Server.handleCreate_registers tid fd path).imp (fun s' h' => .inl ?_)
      exact ⟨0, .inl ⟨rfl, h'.1, h'.2.2⟩, answerOf_answers h'.2⟩
    · change Ends (Server.unlessExcluded env s tid path _) _ _
      rw [hStep]
      refine (Server.handleOpen_registers tid fd path).imp (fun s' h' => ?_)
      rcases h' with ⟨hRegisters, hAnswers⟩ | hSame
      · exact .inl ⟨0, .inl ⟨rfl, hRegisters, hAnswers.2⟩, answerOf_answers hAnswers⟩
      · exact .inr (answerOf_same hSame.replies)

theorem answer_settled (hIncluded : env.engine.isExcluded path = false) (hKnown : Known tid fs s)
    (hLater : ∀ s2 k, later = some (s2, k) → Leaves tid s s2 ∧
      s2.pending[k]? = some (.openFile path tid fd)) (flags : Nat) :
    Yields (answer env i later s (openRequest flags tid fd path))
      (fun r => Settled tid fd path r.1 r.2.1 r.2.2 ∧ Known tid fs r.2.1) := by
  refine (ends_mapError (serve_open hIncluded flags)).weaken.bind ?_
  rintro s1 (⟨code, hSettled, hCode⟩ | hNone)
  · rw [hCode]
    exact ⟨hSettled, hKnown⟩
  · rw [hNone]
    cases later with
    | none => trivial
    | some sk =>
      obtain ⟨s2, k⟩ := sk
      obtain ⟨hLeaves, hWaits⟩ := hLater s2 k rfl
      have hKnown2 : Known tid fs s2 := ⟨fun g hg => hLeaves.1 g (hKnown.descriptors g hg), hLeaves.2⟩
      refine (ends_mapError (Server.step_resume_open hWaits)).weaken.bind ?_
      rintro s3 (⟨hRegisters, hAnswers⟩ | rfl)
      · rw [answerOf_answers hAnswers]
        exact ⟨.inl ⟨rfl, hRegisters, hAnswers.2⟩, hKnown2⟩
      · rw [answerOf_same rfl]
        trivial

structure Inv (tid : Tid) (w : World) : Prop where
  good : Good tid w.client
  known : Known tid w.client.fs w.server

theorem opens_included (h : Inv tid w) (hKey : (w.client.resolver p).capioOpenat dirfd pathname = .key path)
    (hIncluded : env.engine.isExcluded path = false) (hNew : w.client.fs.files fd = none) (hFd : fd ≠ -1)
    (hLater : ∀ s2 k, later = some (s2, k) → Leaves tid w.server s2 ∧
      s2.pending[k]? = some (.openFile path tid fd)) (flags : Nat) :
    Ends (opens env p tid i dirfd pathname flags fd later w)
      (fun o => OpenAgrees tid fd path o ∧ Good tid o.client ∧ Known tid o.client.fs o.after ∧
        ∀ r ∈ requests (w.client.sent.length + 1) o.client, Data tid o.client.fs r) fun _ => True := by
  unfold opens
  rw [hKey]
  dsimp only
  rw [if_neg hFd]
  refine .bind (answer_settled hIncluded h.known hLater flags) ?_
  rintro ⟨code, before, after⟩ ⟨hSettled, hBefore⟩
  have hAfter := Settled.known hBefore hSettled
  refine (ends_mapError (h.good.capioOpenat hNew hFd hKey flags code)).weaken.bind ?_
  rintro ⟨result, client⟩ ⟨hGood, hRefused | hAdded⟩
  · obtain ⟨rfl, -, hfs, hSent⟩ := hRefused
    have hNone : client.fs.capioFilesDescriptors fd = none := by
      rw [hfs]
      exact h.good.inv.descriptors_none hNew
    have hsm : after.sm = before.sm := by
      rcases hSettled with ⟨hZero, -⟩ | ⟨-, hsm, -⟩
      · exact absurd (show (1 : Int) = 0 from hZero) (by decide)
      · exact hsm
    have hOne : (1 : Int) ≠ CAPIO_POSIX_SYSCALL_REQUEST_SKIP := by decide
    refine ⟨⟨?_, fun hSkip => absurd hSkip hOne⟩, hGood, hfs.symm ▸ hAfter, fun r hr => ?_⟩
    · rw [hNone]
      exact iff_of_false (fun he => (by cases he)) (Server.not_registers (by rw [hsm]))
    · change r ∈ client.sent.drop (w.client.sent.length + 1) at hr
      grind [List.drop_eq_nil_of_le]
  · obtain ⟨hCode, -, hPath, hFiles, rs, hSent, hData⟩ := hAdded
    rcases hSettled with ⟨rfl, hRegisters, -⟩ | ⟨rfl, -⟩
    · have hZero : (0 : Int) ≠ CAPIO_POSIX_SYSCALL_REQUEST_SKIP := by decide
      refine ⟨⟨iff_of_true hPath hRegisters, fun hSkip => absurd hSkip hZero⟩, hGood,
        ⟨fun g hg => ?_, hAfter.responses⟩, fun r hr => ?_⟩
      · rcases (hFiles g).mp hg with rfl | hg
        · exact hRegisters.lookup
        · exact hAfter.descriptors g hg
      · change r ∈ client.sent.drop (w.client.sent.length + 1) at hr
        simp_all
    · exact absurd rfl hCode

theorem opens_excluded (h : Inv tid w) (hKey : (w.client.resolver p).capioOpenat dirfd pathname = .key path)
    (hExcluded : env.engine.isExcluded path = true) (hNew : w.client.fs.files fd = none) (hFd : fd ≠ -1)
    (flags : Nat) (later : Option (Server.State × Nat)) :
    ∃ o, opens env p tid i dirfd pathname flags fd later w = .ok o ∧
      o.code = CAPIO_POSIX_SYSCALL_REQUEST_SKIP ∧ o.result = .value fd := by
  obtain ⟨s1, hReply, hAnswers⟩ := Server.reply_of_responses h.known.responses
    CAPIO_POSIX_SYSCALL_REQUEST_SKIP
  have hServe : serve env i w.server (openRequest flags tid fd path) = .ok s1 := by
    have hSkipped (handler : Except Failure Server.State) :
        Server.unlessExcluded env w.server tid path handler = .ok s1 := by
      unfold Server.unlessExcluded
      rw [if_pos hExcluded, hReply]
    unfold openRequest
    split
    · exact hSkipped _
    · split <;> exact hSkipped _
  have hAnswer : answer env i later w.server (openRequest flags tid fd path) =
      .ok (CAPIO_POSIX_SYSCALL_REQUEST_SKIP, w.server, s1) := by
    unfold answer
    rw [hServe]
    change (match answerOf w.server s1 with | some code => _ | none => _) = _
    rw [answerOf_answers hAnswers]
    rfl
  have hOpened := h.good.capioOpenat hNew hFd hKey flags CAPIO_POSIX_SYSCALL_REQUEST_SKIP
  cases hRun : w.client.capioOpenat p tid dirfd pathname flags fd CAPIO_POSIX_SYSCALL_REQUEST_SKIP with
  | error e => exact (hOpened.failure hRun).elim
  | ok r =>
    refine ⟨⟨r.1, r.2, CAPIO_POSIX_SYSCALL_REQUEST_SKIP, w.server, s1⟩, ?_, rfl, ?_⟩
    · unfold opens
      rw [hKey]
      dsimp only
      rw [if_neg hFd, hAnswer]
      change (Except.mapError Halt.client (w.client.capioOpenat p tid dirfd pathname flags fd
        CAPIO_POSIX_SYSCALL_REQUEST_SKIP) >>= _) = _
      rw [hRun]
      rfl
    · rcases (hOpened.result hRun).2 with ⟨hOne, -⟩ | ⟨-, hResult, -⟩
      · exact absurd hOne (by decide)
      · exact hResult

theorem clientCall_ends (env : Server.Env) (maxLineSize : Nat) (i : Input) (h : Inv tid w) (call : Call) :
    Ends (clientCall maxLineSize tid w.client call) (fun c =>
      Meets NamesKnown (serve env i) w.server (requests w.client.sent.length c) ∧
        Ends ((requests w.client.sent.length c).foldlM (serve env i) w.server)
          (fun s => Inv tid ⟨c, s⟩) fun _ => True) fun _ => True := by
  have hTold {x : Except Client.Stop Client} {E : Client.Stop → Prop}
      (hx : Ends x (fun c => Good tid c ∧ Tells tid w.client c) E) :
      Ends x (fun c => Meets NamesKnown (serve env i) w.server (requests w.client.sent.length c) ∧
        Ends ((requests w.client.sent.length c).foldlM (serve env i) w.server)
          (fun s => Inv tid ⟨c, s⟩) fun _ => True) fun _ => True := by
    refine hx.mono (fun c hc => ?_) fun _ _ => trivial
    obtain ⟨hGood, hTells⟩ := hc
    obtain ⟨rs, hrs, hData⟩ := hTells.sent
    have hRequests : requests w.client.sent.length c = rs := by
      unfold requests
      rw [hrs, List.drop_left]
    rw [hRequests]
    refine ⟨h.known.meets hData, (h.known.run hData).imp (fun s hs => ⟨hGood, ?_⟩)⟩
    exact ⟨fun fd hfd => hs.descriptors fd (hTells.files ▸ hfd), hs.responses⟩
  cases call with
  | read fd count endOfRead => exact hTold (h.good.capioRead maxLineSize fd count endOfRead)
  | write fd buffer count => exact hTold (h.good.capioWrite maxLineSize fd buffer count)
  | lseek fd offset whence answer => exact hTold (h.good.capioLseek fd offset whence answer)
  | fstat fd fileSize => exact hTold (h.good.capioFstat fd fileSize)
  | openat | others =>
    exact hTold (E := fun _ => True) (x := pure w.client) ⟨h.good, Tells.refl tid w.client⟩
  | close fd =>
    refine (h.good.closeHandler fd).mono ?_ fun _ _ => trivial
    rintro c ⟨hGood, ⟨-, rfl⟩ | ⟨hOpen, hFiles, rs, hSent, hData⟩⟩
    · exact hTold (E := fun _ => True) (x := pure w.client) ⟨h.good, Tells.refl tid w.client⟩
    · have hRequests : requests w.client.sent.length c = rs ++ [.close tid fd] := by
        unfold requests
        rw [hSent, List.drop_left]
      rw [hRequests]
      refine ⟨h.known.meets_append hData fun s' hs' => ⟨hs'.descriptors fd hOpen, fun _ _ => trivial⟩, ?_⟩
      rw [List.foldlM_append]
      refine (h.known.run hData).bind fun s hs => ?_
      have hClosed : Ends ([Sent.close tid fd].foldlM (serve env i) s) _ fun _ => True :=
        (Server.handleClose_retains tid fd).bind fun s' hs' => hs'
      refine hClosed.imp (fun s' hs' => ⟨hGood, fun g hg => ?_, hs'.1 ▸ hs.responses⟩)
      rw [hFiles, Function.update_apply] at hg
      grind [Prod.mk.inj, hs.descriptors]

theorem agrees_iff (h : Inv tid w) (hAllowed : Allowed p tid w i) :
    Agrees env p maxLineSize tid w i ↔ NotExcluded env p w i := by
  obtain ⟨call, os, bytes, found⟩ := i
  cases call with
  | others server => exact Iff.rfl
  | openat dirfd pathname flags fd later =>
    obtain ⟨hNew, hFd, -, hLater⟩ := hAllowed
    unfold Agrees NotExcluded
    dsimp only
    cases hTarget : (w.client.resolver p).capioOpenat dirfd pathname with
    | key path =>
      constructor
      · intro hAgrees
        refine Bool.eq_false_of_not_eq_true fun hExcluded => ?_
        obtain ⟨o, hRun, hCode, hResult⟩ := opens_excluded h hTarget hExcluded hNew hFd flags later
        obtain ⟨hAgrees, -⟩ := hAgrees o hRun
        grind [hAgrees.skipped]
      · intro hIncluded o hRun
        have hLater' : ∀ s2 k, later = some (s2, k) → Leaves tid w.server s2 ∧
            s2.pending[k]? = some (.openFile path tid fd) := by
          intro s2 k hk
          obtain ⟨hLeaves, hWaits⟩ := hLater s2 k hk
          rw [hTarget] at hWaits
          exact ⟨hLeaves, hWaits⟩
        obtain ⟨hAgrees, -, hKnown, hData⟩ :=
          (opens_included h hTarget hIncluded hNew hFd hLater' flags).result hRun
        exact ⟨hAgrees, hKnown.meets hData⟩
    | _ => exact iff_of_true (fun _ _ => trivial) trivial
  | _ => exact iff_of_true (fun c hc => ((clientCall_ends env maxLineSize _ h _).result hc).1) trivial

theorem step_inv (h : Inv tid w) (hAllowed : Allowed p tid w i) (hIncluded : NotExcluded env p w i) :
    Yields (step env p maxLineSize tid w i) (Inv tid) := by
  obtain ⟨call, os, bytes, found⟩ := i
  have hCall := clientCall_ends env maxLineSize ⟨call, os, bytes, found⟩ h call
  cases call with
  | others server =>
    exact ⟨h.good, fun fd hfd => hAllowed.1 fd (h.known.descriptors fd hfd), hAllowed.2⟩
  | openat dirfd pathname flags fd later =>
    obtain ⟨hNew, hFd, -, hLater⟩ := hAllowed
    unfold NotExcluded at hIncluded
    unfold step
    dsimp only at hIncluded hLater ⊢
    cases hTarget : (w.client.resolver p).capioOpenat dirfd pathname with
    | key path =>
      rw [hTarget] at hIncluded hLater
      refine (opens_included h hTarget hIncluded hNew hFd hLater flags).bind ?_
      rintro o ⟨-, hGood, hKnown, hData⟩
      refine .bind (ends_mapError (hKnown.run hData)).weaken ?_
      exact fun s hs => ⟨hGood, hs⟩
    | _ =>
      have hOpens : opens env p tid ⟨.openat dirfd pathname flags fd later, os, bytes, found⟩ dirfd
          pathname flags fd later w = .ok ⟨.skip, w.client, 0, w.server, w.server⟩ := by
        unfold opens Client.capioOpenat
        rw [hTarget]
        rfl
      rw [hOpens]
      change Ends (Except.mapError Halt.server ((w.client.sent.drop (w.client.sent.length + 1)).foldlM
        _ w.server) >>= _) _ _
      rw [List.drop_eq_nil_of_le (Nat.le_succ _)]
      exact h
  | _ =>
    refine .bind (ends_mapError hCall).weaken fun c hc => ?_
    exact .bind (ends_mapError hc.2).weaken fun s hs => hs

theorem inv_init (hResponses : s.cm.responses tid = true) : Inv tid ⟨{}, s⟩ :=
  ⟨⟨Filesystem.inv_init, .inl rfl, fun h => absurd rfl h⟩, fun _ h => absurd rfl h, hResponses⟩

/-- In every sequence of calls of a thread, from every state of the server that knows the thread, each
open agrees with the server and each later request names a descriptor the server knows, exactly if no
excluded path is opened. -/
theorem opens_agree_iff (inputs : List Input) (hResponses : s.cm.responses tid = true)
    (hAllowed : Meets (Allowed p tid) (step env p maxLineSize tid) ⟨{}, s⟩ inputs) :
    Meets (Agrees env p maxLineSize tid) (step env p maxLineSize tid) ⟨{}, s⟩ inputs ↔
      Meets (NotExcluded env p) (step env p maxLineSize tid) ⟨{}, s⟩ inputs :=
  Meets.iff_of_inv (fun _ _ => agrees_iff) (fun _ _ => step_inv) (inv_init hResponses) hAllowed

end

def plainInput (call : Call) : Input := ⟨call, fun _ => Os.plain 64, fun _ => 7, 0⟩

def started (env : Server.Env) : Except Failure Server.State :=
  Server.boot env (fun _ => Os.plain 64) 0 (fun _ => []) >>= fun s =>
    (Server.plainRequests 64 [.handshake 1 ['a'] false]).foldlM (Server.step env) s

def included : Server.Env := .plain .onClose false 0

def excluded : Server.Env := { included with engine := { included.engine with isExcluded := fun _ => true } }

def written : List Input :=
  [.openat none "/d/a".toList Client.O_CREAT 3 none, .write 3 [1, 2, 3, 4] 4, .lseek 3 0 .SEEK_SET 0,
    .fstat 3 4, .close 3].map plainInput

theorem opens_agree_written : ∃ s, started included = .ok s ∧
    Meets (Agrees included Keys.fresh 4 1) (step included Keys.fresh 4 1) ⟨{}, s⟩ written ∧
    ∃ w, written.foldlM (step included Keys.fresh 4 1) ⟨{}, s⟩ = .ok w ∧ w.client.sent.length = 5 := by
  have hRun : ∃ s, started included = .ok s ∧ s.cm.responses 1 = true ∧
      ∃ w, written.foldlM (step included Keys.fresh 4 1) ⟨{}, s⟩ = .ok w ∧ w.client.sent.length = 5 := by
    decide +kernel
  obtain ⟨s, hStarted, hResponses, hRun⟩ := hRun
  have hCarried : Carried 1 3 "/d/a".toList := by
    simp only [Carried, List.forall_mem_cons, Requests.Request.Readable]
    simp +decide [Requests.Request.sprintf, Requests.openRequest, Requests.createRequest,
      Requests.createExclusiveRequest, Requests.Sprintf.args]
  refine ⟨s, hStarted, (opens_agree_iff written hResponses ?_).mpr ?_, hRun⟩
  · refine ⟨⟨rfl, by decide, hCarried, fun _ _ he => (by cases he)⟩, fun _ _ => ?_⟩
    exact ⟨trivial, fun _ _ => ⟨trivial, fun _ _ => ⟨trivial, fun _ _ => ⟨trivial, fun _ _ => trivial⟩⟩⟩⟩
  · refine ⟨rfl, fun _ _ => ?_⟩
    exact ⟨trivial, fun _ _ => ⟨trivial, fun _ _ => ⟨trivial, fun _ _ => ⟨trivial, fun _ _ => trivial⟩⟩⟩⟩

/-- The server skips the open of an excluded path, the client keeps the descriptor, and the first write
to it ends the server. -/
theorem opens_disagree : ∃ s, started excluded = .ok s ∧
    (∃ o, opens excluded Keys.fresh 1 (plainInput (.others s)) none "/d/a".toList Client.O_CREAT 3 none
        ⟨{}, s⟩ =
        .ok o ∧ o.code = CAPIO_POSIX_SYSCALL_REQUEST_SKIP ∧
      o.client.fs.capioFilesDescriptors 3 = some "/d/a".toList ∧
      o.after.sm.openedFdMap.lookup (1, 3) = none) ∧
    failure (written.foldlM (step excluded Keys.fresh 4 1) ⟨{}, s⟩) = some (.server .nullPointer) := by
  decide +kernel

end Capio.Posix.Opens
