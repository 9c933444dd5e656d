import Capio.Posix.Frame
import Capio.Posix.Offsets
import Capio.Posix.WriteStream
import Capio.Storage.CopyLoop

/-! # The bytes behind the write cache

A client thread with the bytes in its line, and the bytes that the server stores for each file.  What a file
holds is what is stored, with the line written at the offset of the server.  Flushes and seeks do not change
it, and a write puts its bytes at the offset of the client.
-/
namespace Capio.Posix.StoredBytes

open Common Lib.Outcome Lib.Pieces Server Storage.ByteStore
open Storage.CopyLoop Session WriteStream Function List

/-- `line` are the bytes in the slot that `_cache` points to. -/
structure Client where
  session : Session
  line : List Byte := []
  files : Path → SparseMap

def pushed : List CacheAction → List Byte
  | .push bytes :: actions => bytes ++ pushed actions
  | _ => []

namespace Client

def storing (tid : Tid) (c : Client) (fd : Fd) (bytes : List Byte) : Path → SparseMap :=
  match c.session.sm.getFileOffset tid fd with
  | .ok offset =>
    let path := (c.session.sm.getPath tid fd).1
    update c.files path ((c.files path).put offset.toNat bytes)
  | .error _ => c.files

def content (tid : Tid) (c : Client) : Path → SparseMap :=
  c.storing tid c.session.write.fd c.line

section

variable (g : Setting)

/-- The actions of the write cache; the elements of a request are the line, or those pushed behind it. -/
def performAll : List CacheAction → Client → Except Stop Client
  | [], c => pure c
  | .reserve :: actions, c => performAll actions { c with line := [] }
  | .store offset bytes :: actions, c =>
    performAll actions { c with line := Queue.overlay c.line offset.toNat bytes }
  | .request fd count :: actions, c => do
    let s ← c.session.perform g (.request fd count)
    performAll actions
      { session := s
        line := []
        files := c.storing g.tid fd ((c.line ++ pushed actions).take count.toNat) }
  | .push _ :: actions, c => performAll actions c

def applyWrite (c : Client) (r : WriteCache × List CacheAction) : Except Stop Client :=
  performAll g r.2 { c with session := { c.session with write := r.1 } }

def flushWrite (c : Client) : Except Stop Client :=
  c.applyWrite g c.session.write.flush

def cachedRead (c : Client) (fd : Fd) (count : Int) : Except Stop (Int × List Byte × Client) := do
  let c ← c.flushWrite g
  let (n, bytes, s) ← c.session.readThrough g fd count false
  pure (n, bytes, { c with session := s })

def cachedWrite (c : Client) (fd : Fd) (bytes : List Byte) : Except Stop Client := do
  let s ← (if c.session.cachesFileOf fd then c.session.flushRead g else pure c.session)
  let c ← applyWrite g { c with session := s } (s.write.write g.maxLineSize fd bytes bytes.length)
  let offset ← c.session.offset fd
  let s ← c.session.setOffset fd (offset + bytes.length)
  pure { c with session := s }

def setFdOffset (c : Client) (fd : Fd) (offset : Int) : Except Stop Client := do
  let s ← c.session.flushRead g
  let c ← flushWrite g { c with session := s }
  let s ← c.session.setOffset fd offset
  let s ← s.seekRequest g fd offset
  pure { c with session := s }

end

end Client

structure Sound (g : Setting) (c : Client) : Prop where
  agrees : Agrees g.tid c.session
  line : ∃ line, Holds g.maxLineSize c.session.write line ∧ c.line = line.getD []
  start : c.line ≠ [] → ∀ offset, c.session.sm.getFileOffset g.tid c.session.write.fd = .ok offset → 0 ≤ offset

section

variable {g : Setting} {c : Client} {fd : Fd}

theorem ends_session (hxy : Client.session <$> x = y) (h : Ends y P E) :
    Ends x (fun c => P c.session) E := by
  subst hxy
  cases x with
  | error e => exact h
  | ok c => exact h

theorem performAll_session (actions : List CacheAction) (c : Client) :
    Client.session <$> c.performAll g actions = actions.foldlM (Session.perform g) c.session := by
  induction actions generalizing c with
  | nil => rfl
  | cons a actions ih =>
    cases a with
    | request fd count => grind [Client.performAll, map_bind]
    | reserve | store | push => exact ih _

theorem applyWrite_session (c : Client) (r : WriteCache × List CacheAction) :
    Client.session <$> c.applyWrite g r = c.session.applyWrite g r :=
  performAll_session r.2 _

theorem flushWrite_session (c : Client) : Client.session <$> c.flushWrite g = c.session.flushWrite g :=
  applyWrite_session c _

theorem cachedWrite_session (c : Client) (fd : Fd) (bytes : List Byte) :
    Client.session <$> c.cachedWrite g fd bytes = c.session.cachedWrite g fd bytes bytes.length := by
  unfold Client.cachedWrite Session.cachedWrite
  rw [map_bind]
  refine bind_congr fun s => ?_
  rw [← applyWrite_session { c with session := s }, map_bind, bind_map_left]
  simp

theorem setFdOffset_session (c : Client) (fd : Fd) (offset : Int) :
    Client.session <$> c.setFdOffset g fd offset = c.session.setFdOffset g fd offset := by
  unfold Client.setFdOffset Session.setFdOffset
  rw [map_bind]
  refine bind_congr fun s => ?_
  rw [← flushWrite_session { c with session := s }, map_bind, bind_map_left]
  simp

end

section

variable {g : Setting} {c : Client} {fd : Fd} {f : File} {cell : Nat} {client server : Int}

def pathOf (tid : Tid) (s : Session) (fd : Fd) : Path := (s.sm.getPath tid fd).1

theorem pathOf_congr (hMap : s'.sm.openedFdMap = s.sm.openedFdMap) (fd : Fd) :
    pathOf tid s' fd = pathOf tid s fd := by
  unfold pathOf StorageManager.getPath StorageManager.descriptor
  grind

theorem storing_eq (hAt : At g.tid c.session fd f cell client server) (bytes : List Byte) :
    c.storing g.tid fd bytes = update c.files (pathOf g.tid c.session fd)
      ((c.files (pathOf g.tid c.session fd)).put server.toNat bytes) := by
  unfold Client.storing
  rw [getFileOffset_eq hAt]
  rfl

theorem storing_nil (tid : Tid) (c : Client) (fd : Fd) : c.storing tid fd [] = c.files := by
  unfold Client.storing
  split
  · dsimp only
    rw [put_nil, update_eq_self]
  · rfl

theorem content_of_line (hLine : c.line = []) : c.content tid = c.files := by
  unfold Client.content
  rw [hLine, storing_nil]

theorem pushed_pieces (size : Nat) (data : List Byte) (actions : List CacheAction) :
    pushed ((pieces size data).map .push ++ actions) = data ++ pushed actions := by
  have hPushed : ∀ elements : List (List Byte),
      pushed (elements.map .push ++ actions) = elements.flatten ++ pushed actions := by
    intro elements
    induction elements with
    | nil => rfl
    | cons e elements ih =>
      rw [flatten_cons, append_assoc, ← ih]
      rfl
  rw [hPushed, flatten_pieces]

theorem performAll_pushes (elements : List (List Byte)) (actions : List CacheAction) (c : Client) :
    c.performAll g (elements.map .push ++ actions) = c.performAll g actions := by
  induction elements with
  | nil => rfl
  | cons e elements ih => exact ih

def bytesOf (blocks : List Block) : List Byte := blocks.flatMap (·.2)

theorem bytesOf_eq (blocks : List Block) : bytesOf blocks = (tagged blocks).map (·.2) := by
  induction blocks with
  | nil => rfl
  | cons b blocks ih =>
    rw [tagged_cons, map_append, map_map, ← ih]
    change b.2 ++ bytesOf blocks = _
    congr 1
    exact (map_id b.2).symm

def Client.after (tid : Tid) (c : Client) (fd : Fd) (cell : Nat) (server : Int) (bytes line : List Byte) : Client where
  session := c.session.setServer cell (server + bytes.length)
  line := line
  files := update c.files (pathOf tid c.session fd)
    ((c.files (pathOf tid c.session fd)).put server.toNat bytes)

theorem after_nil (hAt : At g.tid c.session fd f cell client server) : c.after g.tid fd cell server [] c.line = c := by
  unfold Client.after
  rw [put_nil, update_eq_self, length_nil, Nat.cast_zero, Int.add_zero, setServer_self hAt]

theorem after_after (hServer : 0 ≤ server) (bytes bytes' line line' : List Byte) :
    (c.after g.tid fd cell server bytes line).after g.tid fd cell (server + bytes.length) bytes' line' =
      c.after g.tid fd cell server (bytes ++ bytes') line' := by
  have hMap : (c.after g.tid fd cell server bytes line).session.sm.openedFdMap = c.session.sm.openedFdMap := rfl
  have hPath : pathOf g.tid _ fd = pathOf g.tid c.session fd := pathOf_congr hMap fd
  have hStart : (server + bytes.length).toNat = server.toNat + bytes.length := by omega
  have hEnd : server + bytes.length + (bytes'.length : Int) = server + (bytes ++ bytes').length := by
    rw [length_append]
    omega
  unfold Client.after at hPath ⊢
  dsimp only at hPath ⊢
  rw [hPath, update_self, update_idem, setServer_setServer, hStart, put_append, hEnd]

theorem performAll_request (hAt : At g.tid c.session fd f cell client server)
    (hData : (c.line ++ pushed actions).take data.length = data) :
    c.performAll g (.request fd data.length :: actions) =
      (c.after g.tid fd cell server data []).performAll g actions := by
  rw [Client.performAll, perform_request_eq hAt, ok_bind, Int.toNat_natCast, hData, storing_eq hAt]
  rfl

theorem performAll_script (h : Script size line actions line' out) (hLine : c.line = line.getD [])
    (hOnly : OnlyFor fd actions) (hAt : At g.tid c.session fd f cell client server) (hServer : 0 ≤ server) :
    c.performAll g actions = .ok (c.after g.tid fd cell server (bytesOf out) (line'.getD [])) := by
  have hTail : ∀ {a : CacheAction} {actions : List CacheAction}, OnlyFor fd (a :: actions) →
      OnlyFor fd actions := fun hOnly fd' n hMem => hOnly fd' n (mem_cons_of_mem _ hMem)
  induction h generalizing c server with
  | nil line =>
    rw [← hLine]
    exact congrArg Except.ok (after_nil hAt).symm
  | reserve hScript ih => exact ih (c := { c with line := [] }) rfl (hTail hOnly) hAt hServer
  | @store line bytes actions line' out hScript ih =>
    have hOverlay : Queue.overlay c.line (line.length : Int).toNat bytes = line ++ bytes := by
      simp [hLine, Queue.overlay]
    exact ih (c := { c with line := Queue.overlay c.line (line.length : Int).toNat bytes }) hOverlay (hTail hOnly)
      hAt hServer
  | @request line fd' actions line' out hBytes hSize hScript ih =>
    obtain rfl := hOnly fd' line.length mem_cons_self
    rw [performAll_request hAt ?_, ih rfl (hTail hOnly) (hAt.setServer _) (by omega), after_after hServer]
    · rfl
    · rw [hLine, Option.getD_some, take_left' rfl]
  | @bypass data fd' actions line' out hScript ih =>
    obtain rfl := hOnly fd' data.length mem_cons_self
    have hRest : OnlyFor fd' actions := fun fd n hMem =>
      hOnly fd n (mem_cons_of_mem _ (mem_append_right _ hMem))
    rw [performAll_request hAt ?_, performAll_pushes, ih rfl hRest (hAt.setServer _) (by omega),
      after_after hServer]
    · rfl
    · rw [hLine, Option.getD_none, nil_append, pushed_pieces, take_left' rfl]

end

theorem line_eq_nil_iff (h : Sound g c) : c.line = [] ↔ c.session.write.actualSize = 0 := by
  obtain ⟨line, hHolds, hLine⟩ := h.line
  rw [hHolds.actualSize, hLine, Nat.cast_eq_zero, length_eq_zero_iff]

theorem flushWrite_eq (h : Sound g c) :
    ∃ c', c.flushWrite g = .ok c' ∧ c'.line = [] ∧ c'.files = c.content g.tid := by
  by_cases hZero : c.session.write.actualSize = 0
  · have hFlush : c.session.write.flush = (c.session.write, []) := if_neg (not_not.mpr hZero)
    have hLine := (line_eq_nil_iff h).mpr hZero
    refine ⟨c, ?_, hLine, (content_of_line hLine).symm⟩
    unfold Client.flushWrite Client.applyWrite
    rw [hFlush]
    rfl
  · obtain ⟨line, hHolds, hLine⟩ := h.line
    obtain ⟨f, hf⟩ := Option.ne_none_iff_exists'.mp (h.agrees.caches.writeOpen hZero)
    obtain ⟨cell, client, hAt⟩ := h.agrees.at hf
    have hStart := h.start (fun hNil => hZero ((line_eq_nil_iff h).mp hNil)) _ (getFileOffset_eq hAt)
    obtain ⟨-, out, hScript, hTagged⟩ := flush_appends hHolds
    have hOut : bytesOf out = c.line := by
      have hBytes := congrArg (map (·.2)) hTagged
      rw [map_append, ← bytesOf_eq, ← bytesOf_eq, map_append, ← bytesOf_eq, ← bytesOf_eq] at hBytes
      simpa [bytesOf, hLine] using hBytes
    refine ⟨_, performAll_script (c := { c with session := { c.session with write := c.session.write.flush.1 } })
      hScript hLine (flush_accounts _).only ⟨hAt.file, hAt.mapped, hAt.clientAt, hAt.serverAt⟩ hStart, rfl, ?_⟩
    unfold Client.content
    rw [storing_eq hAt, hOut]
    rfl

structure Flushed (g : Setting) (c c' : Client) : Prop where
  sound : Sound g c'
  content : c'.content g.tid = c.content g.tid
  line : c'.line = []
  session : WriteFlushed c.session c'.session
  map : c'.session.sm.openedFdMap = c.session.sm.openedFdMap

theorem flushWrite_flushed (h : Sound g c) : Returns (c.flushWrite g) (Flushed g c) := by
  obtain ⟨c', hc', hLine, hFiles⟩ := flushWrite_eq h
  have hSession := ends_session (flushWrite_session c) ((flushWrite_ends h.agrees).and (flushWrite_leaves _))
  rw [hc'] at hSession ⊢
  obtain ⟨⟨hAgrees, hFlushed⟩, hLeaves⟩ := hSession
  refine ⟨⟨hAgrees, ⟨none, ?_, hLine⟩, fun hNe => absurd hLine hNe⟩, ?_, hLine, hFlushed, hLeaves.map⟩
  · obtain ⟨line, hHolds, -⟩ := h.line
    exact hFlushed.write ▸ (flush_appends hHolds).1
  · rw [content_of_line hLine, hFiles]

theorem flushRead_eq (h : Agrees g.tid s) (hLeft : s.leftover ≠ 0) : ∃ f cell client server,
    At g.tid s s.read.lastFd f cell client server ∧ s.flushRead g =
      .ok ({ s with read := { s.read with actualSize := 0, cacheOffset := 0 } }.setServer cell client) := by
  obtain ⟨f, hf⟩ := Option.ne_none_iff_exists'.mp (h.caches.readOpen hLeft)
  obtain ⟨cell, client, hAt⟩ := h.at hf
  refine ⟨f, cell, client, _, hAt, ?_⟩
  set s1 : Session := { s with read := { s.read with actualSize := 0, cacheOffset := 0 } } with hs1
  have hAt1 : At g.tid s1 s.read.lastFd f cell client _ :=
    ⟨hAt.file, hAt.mapped, hAt.clientAt, hAt.serverAt⟩
  unfold flushRead
  rw [if_pos fun hSame => hLeft (Int.sub_eq_zero.mpr hSame.symm)]
  change s1.offset s.read.lastFd >>= (fun offset => s1.seekRequest g s.read.lastFd offset) = _
  rw [offset_eq hAt1, ok_bind, seekRequest_eq hAt1.mapped]

theorem getFileOffset_flushRead (h : Sound g c) (hLine : c.line ≠ []) :
    Yields (c.session.flushRead g) (fun s => s.sm.getFileOffset g.tid c.session.write.fd =
      c.session.sm.getFileOffset g.tid c.session.write.fd) := by
  by_cases hLeft : c.session.leftover = 0
  · have hSame : c.session.flushRead g = .ok c.session := if_neg (not_not.mpr (Int.sub_eq_zero.mp hLeft).symm)
    rw [hSame]
    rfl
  · have hSize : c.session.write.actualSize ≠ 0 := fun hZero => hLine ((line_eq_nil_iff h).mpr hZero)
    obtain ⟨f, hf⟩ := Option.ne_none_iff_exists'.mp (h.agrees.caches.writeOpen hSize)
    obtain ⟨cell, client, hAt⟩ := h.agrees.at hf
    obtain ⟨f', cell', client', server', hAt', hFlush⟩ := flushRead_eq h.agrees hLeft
    -- the two caches are for different files, which have different cells
    have hNe : cell' ≠ cell := by
      rintro rfl
      have hCell := (h.agrees.sharing _ _ _ _ hAt'.file hAt.file).mpr (hAt'.mapped.trans hAt.mapped.symm)
      have hPath := h.agrees.paths _ _ _ _ hAt'.file hAt.file hCell
      rcases h.agrees.exclusive f' f hAt'.file hAt.file hPath with hNone | hNone
      · exact hLeft hNone
      · exact hSize hNone
    have hStays : At g.tid ({ c.session with read := { c.session.read with actualSize := 0, cacheOffset := 0 } }.setServer
        cell' client') c.session.write.fd f cell client _ :=
      ⟨hAt.file, hAt.mapped, hAt.clientAt, (getElem?_set_ne hNe).trans hAt.serverAt⟩
    rw [hFlush, getFileOffset_eq hAt]
    exact getFileOffset_eq hStays

theorem flushRead_sound (h : Sound g c) :
    Returns (c.session.flushRead g) (fun s => Sound g { c with session := s } ∧
      Client.content g.tid { c with session := s } = c.content g.tid ∧ ReadFlushed c.session s ∧
      s.sm.openedFdMap = c.session.sm.openedFdMap) := by
  have hSession := ((flushRead_ends h.agrees).and (flushRead_leaves c.session))
  by_cases hLine : c.line = []
  · refine hSession.imp ?_
    rintro s ⟨⟨hAgrees, hs⟩, hLeaves⟩
    exact ⟨⟨hAgrees, hs.write ▸ h.line, fun hNe => absurd hLine hNe⟩,
      (content_of_line (c := { c with session := s }) hLine).trans (content_of_line hLine).symm, hs, hLeaves.map⟩
  · refine (hSession.and (getFileOffset_flushRead h hLine)).imp ?_
    rintro s ⟨⟨⟨hAgrees, hs⟩, hLeaves⟩, hOffset⟩
    refine ⟨⟨hAgrees, hs.write ▸ h.line, fun hNe => ?_⟩, ?_, hs, hLeaves.map⟩
    · rw [hs.write, hOffset]
      exact h.start hNe
    · have hPath : pathOf g.tid s _ = pathOf g.tid c.session _ := pathOf_congr hLeaves.map c.session.write.fd
      grind [Client.content, Client.storing, pathOf, hs.write]

structure SoughtIn (g : Setting) (f : File) (offset : Int) (c c' : Client) : Prop where
  sound : Sound g c'
  content : c'.content g.tid = c.content g.tid
  line : c'.line = []
  session : Sought f offset c.session c'.session
  map : c'.session.sm.openedFdMap = c.session.sm.openedFdMap

theorem setFdOffset_sought (h : Sound g c) (hf : c.session.files fd = some f) (offset : Int) :
    Returns (c.setFdOffset g fd offset) (SoughtIn g f offset c) := by
  have hSession := ends_session (setFdOffset_session c fd offset) ((setFdOffset_ends h.agrees hf offset).and
    (setFdOffset_leaves (leaves_self _) fd offset))
  have hData : Yields (c.setFdOffset g fd offset) (fun c' => c'.line = [] ∧ c'.files = c.content g.tid) := by
    refine (flushRead_sound h).total.bind fun s ⟨hs, hContent, _⟩ => ?_
    refine (flushWrite_flushed hs).total.bind fun c' hc' => ?_
    refine .bind (Q := fun _ => True) (Ends.always (fun _ => trivial) _) fun s' _ => ?_
    refine .bind (Q := fun _ => True) (Ends.always (fun _ => trivial) _) fun s'' _ => ?_
    refine ⟨hc'.line, ?_⟩
    rw [← hContent, ← hc'.content, content_of_line hc'.line]
  refine (hSession.and hData).imp ?_
  rintro c' ⟨⟨⟨hAgrees, hSought⟩, hLeaves⟩, hLine, hFiles⟩
  refine ⟨⟨hAgrees, ⟨none, ?_, hLine⟩, fun hNe => absurd hLine hNe⟩, ?_, hLine, hSought, hLeaves.map⟩
  · obtain ⟨line, hHolds, -⟩ := h.line
    exact hLeaves.write ▸ (flush_appends hHolds).1
  · rw [content_of_line hLine, hFiles]

theorem write_turned {w : WriteCache} (hTurn : w.actualSize = 0 ∨ w.fd = fd) (size : Nat) (bytes : List Byte)
    (count : Int) : w.write size fd bytes count = { w with fd := fd }.write size fd bytes count := by
  by_cases hFd : w.fd = fd
  · subst hFd
    rfl
  · have hFlush : w.flush = (w, []) := if_neg (not_not.mpr (hTurn.resolve_right hFd))
    grind [WriteCache.write, WriteCache.switch]

theorem write_only {w : WriteCache} (hFd : w.fd = fd) (size : Nat) (bytes : List Byte) {count : Int} (hCount : 0 ≤ count) :
    OnlyFor fd (w.write size fd bytes count).2 ∧ (w.write size fd bytes count).1.fd = fd := by
  subst hFd
  have hFlush := flush_accounts w
  have hBehind : ∀ r, Accounts w.flush.1 count r → OnlyFor w.fd (w.flush.2 ++ r.2) ∧ r.1.fd = w.fd :=
    fun r hr => ⟨fun fd n hMem => (mem_append.mp hMem).elim (hFlush.only fd n)
      fun hMem => (hr.only fd n hMem).trans hFlush.fd, hr.fd.trans hFlush.fd⟩
  have hSwitch : w.switch w.fd = (w, []) := if_neg (not_not.mpr rfl)
  unfold WriteCache.write
  rw [hSwitch]
  dsimp only
  split
  · have hLine := writeLine_accounts size w hCount bytes
    exact ⟨hLine.only, hLine.fd⟩
  · split
    · exact hBehind (w.flush.1, _) (bypass_accounts _ _ _)
    · exact hBehind _ (writeLine_accounts size _ hCount bytes)

theorem cachedWrite_turned (h : Sound g c) (hf : c.session.files fd = some f) :
    Returns (if c.session.cachesFileOf fd then c.session.flushRead g else pure c.session) (fun s =>
      Sound g { c with session := s } ∧ Client.content g.tid { c with session := s } = c.content g.tid ∧
        s.files = c.session.files ∧ s.offsets = c.session.offsets ∧ s.write = c.session.write ∧
        s.sm.openedFdMap = c.session.sm.openedFdMap ∧ s.prefetched f.cell = 0) := by
  refine .ite (fun _ => ?_) fun hNot => ⟨h, rfl, rfl, rfl, rfl, rfl, ?_⟩
  · refine (flushRead_sound h).imp ?_
    rintro s ⟨hs, hContent, hFlushed, hMap⟩
    exact ⟨hs, hContent, hFlushed.files, hFlushed.offsets, hFlushed.write, hMap,
      prefetched_of_leftover hFlushed.leftover _⟩
  · refine if_neg fun hCell => hNot ?_
    grind [cachesFileOf, Option.map_eq_some_iff, h.agrees.paths]

structure Wrote (g : Setting) (fd : Fd) (o : Int) (bytes : List Byte) (c c' : Client) : Prop where
  sound : Sound g c'
  content : c'.content g.tid = update (c.content g.tid) (pathOf g.tid c.session fd)
    ((c.content g.tid (pathOf g.tid c.session fd)).put o.toNat bytes)
  offset : c'.session.offset fd = .ok (o + bytes.length)
  fd : c'.session.write.fd = fd
  files : c'.session.files = c.session.files
  map : c'.session.sm.openedFdMap = c.session.sm.openedFdMap

theorem cachedWrite_wrote (h : Sound g c) (hf : c.session.files fd = some f)
    (hTurn : c.session.write.actualSize = 0 ∨ c.session.write.fd = fd)
    (hOffset : c.session.offset fd = .ok o) (ho : 0 ≤ o) :
    Returns (c.cachedWrite g fd bytes) (Wrote g fd o bytes c) := by
  have hSession := ends_session (cachedWrite_session c fd bytes)
    ((cachedWrite_ends h.agrees hf bytes (Int.natCast_nonneg _)).and (cachedWrite_leaves c.session fd bytes _))
  suffices hData : Yields (c.cachedWrite g fd bytes) (fun c' => (c'.session.offset fd = .ok (o + bytes.length) ∧
      c'.session.write.fd = fd ∧ ∃ line server cell client, Holds g.maxLineSize c'.session.write line ∧
        c'.line = line.getD [] ∧ At g.tid c'.session fd f cell client server ∧ 0 ≤ server ∧
        update c'.files (pathOf g.tid c.session fd)
          ((c'.files (pathOf g.tid c.session fd)).put server.toNat c'.line) =
          update (c.content g.tid) (pathOf g.tid c.session fd)
            ((c.content g.tid (pathOf g.tid c.session fd)).put o.toNat bytes))) by
    refine (hSession.and hData).imp ?_
    rintro c' ⟨⟨hAgrees, hLeaves⟩, hMoved, hFd, line, server, cell, client, hHolds, hLine, hAt, hServer, hContent⟩
    refine ⟨⟨hAgrees, ⟨line, hHolds, hLine⟩, fun _ offset hAt' => ?_⟩, ?_, hMoved, hFd, hLeaves.files, hLeaves.map⟩
    · rw [hFd, getFileOffset_eq hAt] at hAt'
      cases hAt'
      exact hServer
    · unfold Client.content
      rw [hFd, storing_eq hAt, pathOf_congr hLeaves.map]
      exact hContent
  obtain ⟨line, hHolds, hLine⟩ := h.line
  refine (cachedWrite_turned h hf).total.bind fun s ⟨hs, hContent, hFiles, hOffsets, hWrite, hMap, hPrefetched⟩ => ?_
  obtain ⟨cell, client, hAt⟩ := hs.agrees.at (hFiles ▸ hf)
  have hClient : client = o := by
    have hSame := offset_eq hAt
    grind [offset]
  -- what is not flushed for the cell is the line
  have hUnflushed : s.unflushed f.cell = c.line.length := by
    have hSize : c.session.write.actualSize = c.line.length := hLine ▸ hHolds.actualSize
    grind [unflushed_of_actualSize, unflushed_fd]
  subst hClient
  rw [hPrefetched, hUnflushed, Int.add_zero] at hAt
  have hPath : pathOf g.tid s fd = pathOf g.tid c.session fd := pathOf_congr hMap fd
  have hOwn : c.line ≠ [] → s.write.fd = fd := fun hNe =>
    hWrite ▸ hTurn.resolve_left fun hZero => hNe ((line_eq_nil_iff h).mpr hZero)
  have hServer : 0 ≤ client - c.line.length := by
    by_cases hNil : c.line = []
    · rw [hNil]
      exact (Int.sub_zero client).symm ▸ ho
    · exact hs.start hNil _ (hOwn hNil ▸ getFileOffset_eq hAt)
  have hBefore : c.content g.tid = update c.files (pathOf g.tid c.session fd)
      ((c.files (pathOf g.tid c.session fd)).put (client - c.line.length).toNat c.line) := by
    by_cases hNil : c.line = []
    · rw [content_of_line hNil, hNil, put_nil, update_eq_self]
    · rw [← hContent, ← hPath]
      unfold Client.content
      rw [hOwn hNil]
      exact storing_eq (c := { c with session := s }) hAt c.line
  have hTurned : Holds g.maxLineSize { s.write with fd := fd } line :=
    ⟨hWrite ▸ hHolds.reserved, hWrite ▸ hHolds.actualSize, hHolds.partly⟩
  obtain ⟨line', hHolds', out, hScript, hTagged⟩ := write_appends hTurned fd bytes
  obtain ⟨hOnly, hFd⟩ : OnlyFor fd _ ∧ _ = fd := write_only (w := { s.write with fd := fd }) rfl
    g.maxLineSize bytes (Int.natCast_nonneg bytes.length)
  have hJoin : bytesOf out ++ line'.getD [] = c.line ++ bytes := by
    have hBytes := congrArg (map (·.2)) hTagged
    rw [map_append, ← bytesOf_eq, ← bytesOf_eq, map_append, ← bytesOf_eq, ← bytesOf_eq] at hBytes
    simpa [bytesOf, hLine] using hBytes
  rw [write_turned (hWrite ▸ hTurn)]
  generalize ({ s.write with fd := fd } : WriteCache).write g.maxLineSize fd bytes bytes.length = r at *
  have hAt1 : At g.tid { s with write := r.1 } fd f cell client (client - c.line.length) :=
    ⟨hAt.file, hAt.mapped, hAt.clientAt, hAt.serverAt⟩
  set c2 := Client.after g.tid { c with session := { s with write := r.1 } } fd cell
    (client - c.line.length) (bytesOf out) (line'.getD []) with hc2
  have hApply : Client.applyWrite g { c with session := s } r = .ok c2 :=
    performAll_script (c := { c with session := { s with write := r.1 } }) hScript hLine hOnly hAt1 hServer
  have hAt2 : At g.tid c2.session fd f cell client (client - c.line.length + (bytesOf out).length) :=
    hAt1.setServer _
  have hAt3 := hAt2.setOffset (client + bytes.length)
  rw [hApply, ends_ok_bind, offset_eq hAt2, ends_ok_bind, setOffset_eq hAt2.file, ends_ok_bind]
  refine ⟨offset_eq hAt3, hFd, line', _, cell, _, hHolds', rfl, hAt3, by omega, ?_⟩
  have hStart : (client - c.line.length + (bytesOf out).length).toNat =
      (client - c.line.length).toNat + (bytesOf out).length := by omega
  have hEnd : (client - c.line.length).toNat + c.line.length = client.toNat := by omega
  have hStored : c2.files = update c.files (pathOf g.tid c.session fd)
      ((c.files (pathOf g.tid c.session fd)).put (client - c.line.length).toNat (bytesOf out)) := by
    rw [← hPath]
    rfl
  have hLast : c2.line = line'.getD [] := rfl
  rw [hStored, hLast, hBefore, update_self, update_self, update_idem,
    update_idem, hStart, put_append, hJoin, ← put_append, hEnd]

end Capio.Posix.StoredBytes
