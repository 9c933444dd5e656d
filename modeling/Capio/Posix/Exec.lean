import Mathlib.Data.List.TakeWhile
import Capio.Posix.Drain
import Capio.Posix.Fork

/-! # A thread that executes another program

The descriptors are saved in shared memory and the new image reads them back.  The caches end with
the old image; the queues and the descriptors of the server are found again.  The path of a
descriptor is read after its segment was unmapped, so the new image gets what is at that address
then.
-/
namespace Capio.Posix

open Common Lib Lib.Outcome Server Posix.Session Function List

def O_CREAT : BitVec 32 := 0x40
def O_EXCL : BitVec 32 := 0x80
def O_APPEND : BitVec 32 := 0x400
def O_DIRECTORY : BitVec 32 := 0x10000
def O_CLOEXEC : BitVec 32 := 0x80000
def O_LARGEFILE : BitVec 32 := 0

def has (flags flag : BitVec 32) : Bool := flags &&& flag == flag

def CAPIO_DEFAULT_FILE_INITIAL_SIZE : Int := 1024 * 1024 * 1024 * 4

structure Attributes where
  size : Int
  flags : BitVec 32
  closeOnExec : Bool
  deriving DecidableEq

abbrev Table := AList fun _ : Fd => Attributes

variable {t : Table} {fd : Fd} {s s' : Session} {f : File} {size : Nat}

namespace Table

def emplace (t : Table) (fd : Fd) (a : Attributes) : Table :=
  if (t.lookup fd).isSome then t else t.insert fd a

def setCloseOnExec (t : Table) (fd : Fd) (closeOnExec : Bool) : Table :=
  match t.lookup fd with
  | some a => t.insert fd { a with closeOnExec := closeOnExec }
  | none => t

theorem mem_emplace : fd' ∈ t.emplace fd a ↔ fd' = fd ∨ fd' ∈ t := by
  unfold emplace
  split
  · grind [AList.lookup_isSome]
  · exact AList.mem_insert t

theorem mem_setCloseOnExec : fd' ∈ t.setCloseOnExec fd closeOnExec ↔ fd' ∈ t := by
  unfold setCloseOnExec
  split
  · next a h =>
    grind [AList.mem_insert, AList.lookup_isSome]
  · exact Iff.rfl

end Table

structure Process where
  session : Session := {}
  attributes : Table := ∅
  stream : WriteStream.State

inductive Syscall
  | openat (fd : Fd) (path : Path) (flags : BitVec 32)
  | dup (oldFd newFd : Fd) (closeOnExec : Bool)
  | read (fd : Fd) (count : Int) (supply : Fd → Int → List Byte)
  | write (fd : Fd) (data : List Byte)
  | seekSet (fd : Fd) (offset : Int)
  | seekCur (fd : Fd) (offset : Int)
  | close (fd : Fd)

namespace Syscall

def modeOf (flags : BitVec 32) : Mode :=
  if has flags O_EXCL then .exclusive else if has flags O_CREAT then .create else .existing

def input : Syscall → Input
  | .openat fd path flags => ⟨.openat (modeOf flags) fd path (has flags O_APPEND), fun _ _ => []⟩
  | .dup oldFd newFd _ => ⟨.dup oldFd newFd, fun _ _ => []⟩
  | .read fd count supply => ⟨.read fd count, supply⟩
  | .write fd data => ⟨.write fd data data.length, fun _ _ => []⟩
  | .seekSet fd offset => ⟨.seekSet fd offset, fun _ _ => []⟩
  | .seekCur fd offset => ⟨.seekCur fd offset, fun _ _ => []⟩
  | .close fd => ⟨.close fd, fun _ _ => []⟩

def streamCall (s s' : Session) : Syscall → Option WriteStream.Call
  | .openat fd _ flags => if has flags O_APPEND ∧ s'.files fd ≠ none then some .flush else none
  | .dup _ _ _ => none
  | .read fd _ _ | .seekSet fd _ | .seekCur fd _ | .close fd =>
    if s.files fd ≠ none then some .flush else none
  | .write fd data => if s.files fd ≠ none then some (.write fd data) else none

def opened (flags : BitVec 32) : Attributes where
  size := CAPIO_DEFAULT_FILE_INITIAL_SIZE
  flags := flags &&& ~~~O_CLOEXEC ||| if has flags O_DIRECTORY then O_LARGEFILE else 0
  closeOnExec := has flags O_CLOEXEC

def register (s' : Session) (t : Table) : Syscall → Table
  | .openat fd _ flags => if s'.files fd ≠ none then t.emplace fd (opened flags) else t
  | .dup oldFd newFd closeOnExec =>
    match t.lookup oldFd with
    | some a => if oldFd = newFd then t else (t.emplace newFd a).setCloseOnExec newFd closeOnExec
    | none => t
  | .close fd => t.erase fd
  | .read _ _ _ | .write _ _ | .seekSet _ _ | .seekCur _ _ => t

def Numbered : Syscall → Prop
  | .openat fd _ _ => 0 ≤ fd
  | .dup _ newFd _ => 0 ≤ newFd
  | _ => True

end Syscall

inductive Op
  | call (c : Syscall)
  | setFd (fd : Fd) (closeOnExec : Bool)
  | turn (e : WriteStream.Event)

namespace Process

def advance (size : Nat) (t : WriteStream.State) (e : WriteStream.Event) :
    Except Stop WriteStream.State :=
  match WriteStream.step size t e with
  | some t' => pure t'
  | none => throw .blocked

def drive (size : Nat) (t : WriteStream.State) : Option WriteStream.Call → Except Stop WriteStream.State
  | none => pure t
  | some c => advance size t (.call c)

def step (g : Setting) (p : Process) : Op → Except Stop Process
  | .call c => do
    let s ← Session.step g p.session c.input
    let stream ← drive g.maxLineSize p.stream (c.streamCall p.session s)
    pure { session := s, attributes := c.register s p.attributes, stream := stream }
  | .setFd fd closeOnExec => pure { p with attributes := p.attributes.setCloseOnExec fd closeOnExec }
  | .turn (.call _) => throw .blocked
  | .turn e => do
    let stream ← advance g.maxLineSize p.stream e
    pure { p with stream := stream }

def Regular (g : Setting) (p : Process) : Op → Prop
  | .call c => c.Numbered ∧ Fresh p.session c.input.call ∧ Session.Regular g p.session c.input.call
  | _ => True

structure Saved where
  fd : Fd
  path : Path
  offset : Int
  attributes : Attributes

def save (p : Process) (fd : Fd) : Except Stop Saved := do
  let offset ← p.session.offset fd
  match p.session.files fd, p.attributes.lookup fd with
  | some f, some a => pure ⟨fd, f.path, offset, a⟩
  | _, _ => throw (.outOfRange fd)

/-- `get_capio_fds` lists the keys of `files`. -/
def createSnapshot (p : Process) : Except Stop (List Saved) := p.attributes.keys.mapM p.save

section

-- What is at the address of the path of a descriptor after it was unmapped; `none` if nothing is
-- mapped there.
variable (unmapped : Saved → Option Path)

def restoreFd (p : Process) (d : Saved) : Except Stop Process :=
  match unmapped d with
  | some path => pure { p with
      session := p.session.addFd path d.fd d.offset
      attributes := p.attributes.emplace d.fd d.attributes }
  | none => throw .exit

def initializeFromSnapshot (p : Process) (saved : List Saved) : Except Stop Process :=
  (saved.takeWhile fun d => d.fd ≠ -1).foldlM (restoreFd unmapped) p

def execve (p : Process) : Except Stop Process := do
  let saved ← p.createSnapshot
  initializeFromSnapshot unmapped
    { session := { sm := p.session.sm, queue := p.session.queue }
      stream := { p.stream with cache := {} } } saved

end

structure Keeps (g : Setting) (p p' : Process) : Prop where
  descriptors : ∀ fd, p'.session.files fd ≠ none ↔
    ∃ a, p.attributes.lookup fd = some a ∧ a.closeOnExec = false
  entries : ∀ fd f', p'.session.files fd = some f' → ∃ f, p.session.files fd = some f ∧
    f'.path = f.path ∧ p'.session.offsets[f'.cell]? = p.session.offsets[f.cell]? ∧
    p'.attributes.lookup fd = p.attributes.lookup fd
  sharing : ∀ fd1 fd2 f1 f2 f1' f2', p.session.files fd1 = some f1 → p.session.files fd2 = some f2 →
    p'.session.files fd1 = some f1' → p'.session.files fd2 = some f2' →
    (f1'.cell = f2'.cell ↔ f1.cell = f2.cell)
  server : ∀ fd f', p'.session.files fd = some f' → ∃ cell offset,
    p'.session.serverCell g.tid fd = some cell ∧ p'.session.offsets[f'.cell]? = some offset ∧
    p'.session.sm.offsets[cell]? = some offset
  delivers : WriteStream.Delivers g.maxLineSize p'.stream

section

variable {g : Setting}

structure Lists (t : Table) (s : Session) : Prop where
  mem : ∀ fd, fd ∈ t ↔ s.files fd ≠ none
  valid : s.files (-1) = none

structure Follows (size : Nat) (c : Syscall) (s s' : Session) : Prop where
  write : s'.write = ((c.streamCall s s').map fun k => (k.run size s.write).1).getD s.write
  lists : ∀ t, Lists t s → Lists (c.register s' t) s'

theorem Lists.congr (h : Lists t s) (hFiles : s'.files = s.files) : Lists t s' :=
  ⟨fun fd => hFiles ▸ h.mem fd, hFiles ▸ h.valid⟩

theorem Lists.emplace (h : Lists t s) (hFd : 0 ≤ fd)
    (hFiles : s'.files = update s.files fd (some f)) (a : Attributes) : Lists (t.emplace fd a) s' := by
  refine ⟨fun fd' => ?_, ?_⟩
  · rw [Table.mem_emplace, h.mem, hFiles]
    by_cases he : fd' = fd
    · subst he
      simp
    · simp [he]
  · have hNe : (-1 : Fd) ≠ fd := by
      rintro rfl
      exact absurd hFd (by decide)
    rw [hFiles, update_of_ne hNe]
    exact h.valid

theorem follows_of_leaves (h : Leaves (k.run size s.write).1 s s') (hCall : c.streamCall s s' = some k)
    (hTable : ∀ t, c.register s' t = t) : Follows size c s s' := by
  refine ⟨?_, fun t ht => ?_⟩
  · rw [hCall]
    exact h.write
  · rw [hTable]
    exact ht.congr h.files

theorem follows_of_closed (hCall : c.streamCall s s = none)
    (hTable : ∀ t, Lists t s → c.register s t = t) : Follows size c s s := by
  refine ⟨?_, fun t ht => ?_⟩
  · rw [hCall]
    rfl
  · rw [hTable t ht]
    exact ht

theorem openat_follows (s : Session) (hFd : 0 ≤ fd) (hNew : s.files fd = none) :
    Yields (s.openat g (Syscall.modeOf flags) fd path (has flags O_APPEND))
      (Follows g.maxLineSize (.openat fd path flags) s) := by
  have hRequest : Yields (s.openRequest g (Syscall.modeOf flags) fd path) (fun r =>
      r.2.files = s.files ∧ r.2.write = s.write) := by
    refine .ite (fun _ => ⟨rfl, rfl⟩) fun _ => .ite (fun _ => ⟨rfl, rfl⟩) fun _ => ?_
    exact .skip fun sm => ⟨rfl, rfl⟩
  refine hRequest.bind fun ⟨code, s1⟩ ⟨hFiles, hWrite⟩ => ?_
  refine .ite (fun _ => ?_) fun _ => ?_
  · have hNone : s1.files fd = none := hFiles ▸ hNew
    refine ⟨?_, fun t ht => ?_⟩
    · grind [Syscall.streamCall]
    · simp only [Syscall.register, hNone, ne_eq, not_true_eq_false, if_false]
      exact ht.congr hFiles
  · have hAdded : (s1.addFd path fd 0).files = update s.files fd (some ⟨s1.offsets.length, path⟩) := by
      unfold addFd
      rw [hFiles, emplace_of_none hNew]
    have hFollows : ∀ s', s'.files = (s1.addFd path fd 0).files →
        s'.write = (if has flags O_APPEND then s.write.flush.1 else s.write) →
        Follows g.maxLineSize (.openat fd path flags) s s' := by
      intro s' hs' hw'
      have hSome : s'.files fd ≠ none := by simp [hs', hAdded]
      refine ⟨?_, fun t ht => ?_⟩
      · rw [hw']
        simp only [Syscall.streamCall, hSome, ne_eq, not_false_eq_true, and_true]
        split <;> rfl
      · simp only [Syscall.register, hSome, ne_eq, not_false_eq_true, if_true]
        exact ht.emplace hFd (hs'.trans hAdded) _
    refine .ite (fun hAppend => ?_) fun hAppend => ?_
    · have hOpened : Leaves s.write (s1.addFd path fd 0) (s1.addFd path fd 0) :=
        ⟨rfl, hWrite, rfl, rfl, rfl, rfl⟩
      rw [← bind_assoc]
      refine (flushed_leaves hOpened).bind fun s2 h2 => ?_
      refine .skip fun offset => ?_
      refine (setOffset_leaves s2 fd _).imp (fun s3 h3 => ?_)
      grind [h3.write, h2.write, h3.files, h2.files]
    · refine hFollows _ rfl ?_
      rw [if_neg hAppend]
      exact hWrite

theorem dup_follows (hf : s.files oldFd = some f) (hFd : 0 ≤ newFd) (hNew : s.files newFd = none)
    (closeOnExec : Bool) (size : Nat) :
    Yields (ask (s.sm.dup g.tid oldFd newFd) >>= fun sm => dupFd { s with sm := sm } oldFd newFd)
      (Follows size (.dup oldFd newFd closeOnExec) s) := by
  refine .skip fun sm => ?_
  unfold dupFd
  rw [hf]
  have hNe : oldFd ≠ newFd := by
    rintro rfl
    cases hf.symm.trans hNew
  refine ⟨rfl, fun t ht => ?_⟩
  obtain ⟨a, ha⟩ := Option.isSome_iff_exists.mp (AList.lookup_isSome.mpr
    ((ht.mem oldFd).mpr (hf.trans_ne (Option.some_ne_none f))))
  simp only [Syscall.register, ha, if_neg hNe]
  have hPlaced : Lists (t.emplace newFd a) { s with sm := sm, files := emplace s.files newFd f } :=
    ht.emplace hFd (emplace_of_none hNew f) a
  exact ⟨fun fd => Table.mem_setCloseOnExec.trans (hPlaced.mem fd), hPlaced.valid⟩

theorem close_follows (hf : s.files fd = some f) :
    Yields (s.flushWrite g >>= fun s => s.flushRead g >>= fun s =>
        ask (s.sm.removeFromTid g.tid fd) >>= fun sm => pure (deleteFd { s with sm := sm } fd))
      (Follows g.maxLineSize (.close fd) s) := by
  refine (flushWrite_leaves s).bind fun s1 h1 => (flushRead_leaves s1).bind fun s2 h2 => ?_
  refine .skip fun sm => ?_
  refine ⟨?_, fun t ht => ?_⟩
  · simp only [Syscall.streamCall, hf, ne_eq, reduceCtorEq, not_false_eq_true, if_true]
    exact h2.write.trans h1.write
  · have hFiles : (deleteFd { s2 with sm := sm } fd).files = update s.files fd none := by
      unfold deleteFd
      rw [h2.files, h1.files]
    refine ⟨fun fd' => ?_, ?_⟩
    · rw [hFiles]
      grind [Syscall.register, AList.mem_erase, ht.mem]
    · rw [hFiles]
      by_cases he : (-1 : Fd) = fd
      · rw [he, update_self]
      · rw [update_of_ne he]
        exact ht.valid

theorem call_follows (hNumbered : c.Numbered) (hFresh : Fresh s c.input.call) :
    Yields (Session.step g s c.input) (Follows g.maxLineSize c s) := by
  unfold Session.step
  generalize hg : ({ g with supply := c.input.supply } : Setting) = g'
  have hSize : g'.maxLineSize = g.maxLineSize := by rw [← hg]
  rw [← hSize]
  cases c with
  | openat fd path flags => exact openat_follows s hNumbered hFresh
  | dup oldFd newFd closeOnExec =>
    simp only [Syscall.input, Session.call]
    split
    · next hf =>
      refine follows_of_closed rfl fun t ht => ?_
      have hNone : t.lookup oldFd = none := AList.lookup_eq_none.mpr fun hMem => (ht.mem oldFd).mp hMem hf
      simp only [Syscall.register, hNone]
    · next f hf =>
      refine .ite (fun he => ?_) fun _ => dup_follows hf hNumbered hFresh closeOnExec _
      refine follows_of_closed rfl fun t ht => ?_
      grind [Syscall.register]
  | read fd count supply =>
    simp only [Syscall.input, Session.call]
    split
    · next hf => exact follows_of_closed (if_neg fun hne => hne hf) fun _ _ => rfl
    · next f hf =>
      refine .ite (fun _ => trivial) fun _ => ?_
      unfold cachedRead
      rw [bind_assoc]
      refine (flushWrite_leaves s).bind fun s1 h1 => ?_
      refine (readThrough_leaves s1 fd count false).bind fun r hr => ?_
      rw [h1.write] at hr
      exact follows_of_leaves (k := .flush) (h1.trans hr) (if_pos (hf.trans_ne (Option.some_ne_none f)))
        fun _ => rfl
  | write fd data =>
    simp only [Syscall.input, Session.call]
    split
    · next hf => exact follows_of_closed (if_neg fun hne => hne hf) fun _ _ => rfl
    · next f hf =>
      refine .ite (fun _ => trivial) fun _ => ?_
      refine (cachedWrite_leaves s fd data _).imp (fun s' h' => ?_)
      exact follows_of_leaves (k := .write fd data) h' (if_pos (hf.trans_ne (Option.some_ne_none f)))
        fun _ => rfl
  | seekSet fd offset =>
    simp only [Syscall.input, Session.call]
    split
    · next hf => exact follows_of_closed (if_neg fun hne => hne hf) fun _ _ => rfl
    · next f hf =>
      refine (lseek_leaves s fd offset false).imp (fun s' h' => ?_)
      exact follows_of_leaves (k := .flush) h' (if_pos (hf.trans_ne (Option.some_ne_none f))) fun _ => rfl
  | seekCur fd offset =>
    simp only [Syscall.input, Session.call]
    split
    · next hf => exact follows_of_closed (if_neg fun hne => hne hf) fun _ _ => rfl
    · next f hf =>
      refine (lseek_leaves s fd offset true).imp (fun s' h' => ?_)
      exact follows_of_leaves (k := .flush) h' (if_pos (hf.trans_ne (Option.some_ne_none f))) fun _ => rfl
  | close fd =>
    simp only [Syscall.input, Session.call]
    split
    · next hf =>
      refine follows_of_closed (if_neg fun hne => hne hf) fun t ht => ?_
      exact AList.ext (kerase_of_notMem_keys fun hMem => (ht.mem fd).mp hMem hf)
    · next f hf => exact close_follows hf

structure Sound (g : Setting) (p : Process) : Prop where
  agrees : Agrees g.tid p.session
  cache : p.stream.cache = p.session.write
  shows : ∃ v, WriteStream.Shows g.maxLineSize p.stream v
  lists : Lists p.attributes p.session

theorem advance_ends (size : Nat) (t : WriteStream.State) (e : WriteStream.Event) :
    Yields (advance size t e) (fun t' => WriteStream.step size t e = some t') := by
  unfold advance
  split
  · assumption
  · trivial

theorem drive_ends (hSize : 0 < g.maxLineSize) (h : Sound g p) (c : Option WriteStream.Call) :
    Yields (drive g.maxLineSize p.stream c) (fun t =>
      t.cache = (c.map fun k => (k.run g.maxLineSize p.session.write).1).getD p.session.write ∧
      ∃ v, WriteStream.Shows g.maxLineSize t v) := by
  cases c with
  | none => exact ⟨h.cache, h.shows⟩
  | some c =>
    refine (advance_ends _ _ _).imp (fun t hStep => ?_)
    obtain ⟨v, hShows⟩ := h.shows
    refine ⟨?_, hShows.step hSize hStep⟩
    grind [WriteStream.step, h.cache]

theorem turn_cache {t t' : WriteStream.State} (hTurn : ∀ c, e ≠ .call c)
    (hStep : WriteStream.step size t e = some t') : t'.cache = t.cache := by
  cases e with
  | call c => exact absurd rfl (hTurn c)
  | act =>
    simp only [WriteStream.step] at hStep
    split at hStep
    · cases hStep
    · next a actions hActions =>
      cases a with
      | reserve =>
        obtain ⟨r, -, rfl⟩ := Option.map_eq_some_iff.mp hStep
        rfl
      | store => exact (Option.some.inj hStep) ▸ rfl
      | request => exact (Option.some.inj hStep) ▸ rfl
      | push =>
        obtain ⟨r, -, rfl⟩ := Option.map_eq_some_iff.mp hStep
        rfl
  | accept => exact (WriteStream.Serves.apart ⟨_, by simp, hStep⟩).cache
  | read => exact (WriteStream.Serves.apart ⟨_, by simp, hStep⟩).cache
  | finish => exact (WriteStream.Serves.apart ⟨_, by simp, hStep⟩).cache

theorem step_sound (hSize : 0 < g.maxLineSize) (h : Sound g p) (hOp : Regular g p op) :
    Yields (step g p op) (Sound g) := by
  cases op with
  | call c =>
    obtain ⟨hNumbered, hFresh, hRegular⟩ := hOp
    have hAgrees : Yields (Session.step g p.session c.input) (Agrees g.tid) :=
      call_ends (g := { g with supply := c.input.supply }) h.agrees hFresh hRegular
    refine (hAgrees.and (call_follows hNumbered hFresh)).bind fun s ⟨hs, hFollows⟩ => ?_
    refine (drive_ends hSize h (c.streamCall p.session s)).bind fun t ⟨hCache, hShows⟩ => ?_
    exact ⟨hs, hCache.trans hFollows.write.symm, hShows, hFollows.lists _ h.lists⟩
  | setFd fd closeOnExec =>
    exact ⟨h.agrees, h.cache, h.shows, fun fd' => Table.mem_setCloseOnExec.trans (h.lists.mem fd'),
      h.lists.valid⟩
  | turn e =>
    have hTurned : ∀ e : WriteStream.Event, (∀ c, e ≠ .call c) →
        Yields (advance g.maxLineSize p.stream e >>= fun t => pure { p with stream := t }) (Sound g) := by
      intro e hTurn
      refine (advance_ends _ _ e).bind fun t hStep => ?_
      obtain ⟨v, hShows⟩ := h.shows
      exact ⟨h.agrees, (turn_cache hTurn hStep).trans h.cache, hShows.step hSize hStep, h.lists⟩
    cases e with
    | call c => trivial
    | act => exact hTurned .act nofun
    | accept => exact hTurned .accept nofun
    | read => exact hTurned .read nofun
    | finish => exact hTurned .finish nofun

end

structure Restored (unmapped : Saved → Option Path) (saved : List Saved) (p p' : Process) : Prop where
  server : p'.session.sm = p.session.sm
  stream : p'.stream = p.stream
  old : ∀ k < p.session.offsets.length, p'.session.offsets[k]? = p.session.offsets[k]?
  others : ∀ fd, (∀ d ∈ saved, d.fd ≠ fd) → p'.session.files fd = p.session.files fd ∧
    p'.attributes.lookup fd = p.attributes.lookup fd
  entries : ∀ (k : Nat) d, saved[k]? = some d → ∃ path, unmapped d = some path ∧
    p'.session.files d.fd = some ⟨p.session.offsets.length + k, path⟩ ∧
    p'.session.offsets[p.session.offsets.length + k]? = some d.offset ∧
    p'.attributes.lookup d.fd = some d.attributes

theorem restoreFd_eq (hPath : unmapped d = some path) (hFile : p.session.files d.fd = none)
    (hAttributes : p.attributes.lookup d.fd = none) : restoreFd unmapped p d = .ok { p with
      session := { p.session with
        files := update p.session.files d.fd (some ⟨p.session.offsets.length, path⟩)
        offsets := p.session.offsets ++ [d.offset] }
      attributes := p.attributes.insert d.fd d.attributes } := by
  unfold restoreFd addFd Table.emplace
  rw [hPath, hAttributes]
  dsimp only
  rw [emplace_of_none hFile]
  rfl

theorem restore_ends (hFds : (saved.map (·.fd)).Nodup)
    (hNew : ∀ d ∈ saved, p.session.files d.fd = none ∧ p.attributes.lookup d.fd = none) :
    Ends (saved.foldlM (restoreFd unmapped) p) (Restored unmapped saved p)
      fun _ => ∃ d ∈ saved, unmapped d = none := by
  induction saved generalizing p with
  | nil => exact ⟨rfl, rfl, fun _ _ => rfl, fun _ _ => ⟨rfl, rfl⟩, fun _ _ h => (nomatch h)⟩
  | cons d saved ih =>
    rw [map_cons, nodup_cons] at hFds
    obtain ⟨hHead, hFds⟩ := hFds
    have hApart : ∀ d' ∈ saved, d'.fd ≠ d.fd := fun d' hd' he => hHead (mem_map.mpr ⟨d', hd', he⟩)
    rw [foldlM_cons]
    cases hPath : unmapped d with
    | none =>
      unfold restoreFd
      rw [hPath]
      exact ⟨d, mem_cons_self, hPath⟩
    | some path =>
      obtain ⟨hFile, hAttributes⟩ := hNew d mem_cons_self
      rw [restoreFd_eq hPath hFile hAttributes, ends_ok_bind]
      refine (ih hFds fun d' hd' => ?_).mono (fun p' h' => ?_) fun _ ⟨d', hd', hNone⟩ =>
        ⟨d', mem_cons_of_mem d hd', hNone⟩
      · have hOld := hNew d' (mem_cons_of_mem d hd')
        simp_all
      · have hLength : (p.session.offsets ++ [d.offset]).length = p.session.offsets.length + 1 :=
          length_append
        refine ⟨h'.server, h'.stream, fun k hk => ?_, fun fd hfd => ?_, fun k d' hd' => ?_⟩
        · refine (h'.old k (by rw [hLength]; omega)).trans ?_
          exact getElem?_append_left hk
        · have hNe : fd ≠ d.fd := fun he => hfd d mem_cons_self he.symm
          grind [h'.others, mem_cons_of_mem, update_of_ne, AList.lookup_insert_ne]
        · cases k with
          | zero =>
            cases hd'
            obtain ⟨hFiles, hLookup⟩ := h'.others d.fd hApart
            refine ⟨path, hPath, hFiles.trans (update_self _ _ _), ?_,
              hLookup.trans (AList.lookup_insert _)⟩
            grind [h'.old]
          | succ k =>
            obtain ⟨path', hPath', hFile', hOffset', hLookup'⟩ := h'.entries k d' hd'
            grind [Nat.add_right_comm]

structure SavedOf (p : Process) (fd : Fd) (f : File) (d : Saved) : Prop where
  run : p.save fd = .ok d
  number : d.fd = fd
  path : d.path = f.path
  offset : p.session.offsets[f.cell]? = some d.offset
  attributes : p.attributes.lookup fd = some d.attributes

theorem Sound.save (h : Sound g p) (hf : p.session.files fd = some f) : ∃ d, SavedOf p fd f d := by
  obtain ⟨cell, client, hAt⟩ := h.agrees.at hf
  obtain ⟨a, ha⟩ := Option.isSome_iff_exists.mp (AList.lookup_isSome.mpr
    ((h.lists.mem fd).mpr (hf.trans_ne (Option.some_ne_none f))))
  refine ⟨⟨fd, f.path, client, a⟩, ?_, rfl, rfl, hAt.clientAt, ha⟩
  unfold Process.save
  rw [offset_eq hAt, ok_bind, hf, ha]
  rfl

theorem Sound.mapM_save (h : Sound g p) {fds : List Fd} (hFds : ∀ fd ∈ fds, fd ∈ p.attributes) :
    ∃ saved, fds.mapM p.save = .ok saved ∧ saved.map (·.fd) = fds ∧
      ∀ d ∈ saved, ∃ f, p.session.files d.fd = some f ∧ SavedOf p d.fd f d := by
  induction fds with
  | nil => exact ⟨[], rfl, rfl, fun _ hd => (nomatch hd)⟩
  | cons fd fds ih =>
    obtain ⟨saved, hRun, hMap, hSaved⟩ := ih fun fd' hfd' => hFds fd' (mem_cons_of_mem fd hfd')
    obtain ⟨f, hf⟩ := Option.ne_none_iff_exists'.mp ((h.lists.mem fd).mp (hFds fd mem_cons_self))
    obtain ⟨d, hd⟩ := h.save hf
    refine ⟨d :: saved, ?_, ?_, fun d' hd' => ?_⟩
    · rw [mapM_cons, hd.run, ok_bind, hRun, ok_bind]
      rfl
    · rw [map_cons, hd.number, hMap]
    · obtain rfl | hd' := mem_cons.mp hd'
      · exact ⟨f, hd.number ▸ hf, hd.number ▸ hd⟩
      · exact hSaved d' hd'

structure Image (unmapped : Saved → Option Path) (p p' : Process) : Prop where
  server : p'.session.sm = p.session.sm
  stream : p'.stream = { p.stream with cache := {} }
  entries : ∀ fd f, p.session.files fd = some f → ∃ d f', SavedOf p fd f d ∧ unmapped d = some f'.path ∧
    p'.session.files fd = some f' ∧ p'.session.offsets[f'.cell]? = some d.offset ∧
    p'.attributes.lookup fd = some d.attributes
  others : ∀ fd, p.session.files fd = none → p'.session.files fd = none
  own : ∀ fd1 fd2 f1 f2, p'.session.files fd1 = some f1 → p'.session.files fd2 = some f2 →
    f1.cell = f2.cell → fd1 = fd2

theorem execve_ends (h : Sound g p) : Ends (execve unmapped p) (Image unmapped p)
    fun _ => ∃ fd d, p.save fd = .ok d ∧ unmapped d = none := by
  obtain ⟨saved, hRun, hFds, hSaved⟩ := h.mapM_save fun fd (hfd : fd ∈ p.attributes.keys) => hfd
  have hNodup : (saved.map (·.fd)).Nodup := hFds ▸ p.attributes.keys_nodup
  have hIndex : ∀ fd, p.session.files fd ≠ none → ∃ (k : Nat) (d : Saved), saved[k]? = some d ∧
    d.fd = fd := by
    intro fd hfd
    have hMem : fd ∈ saved.map (·.fd) := hFds ▸ (h.lists.mem fd).mpr hfd
    obtain ⟨d, hd, rfl⟩ := mem_map.mp hMem
    obtain ⟨k, hk⟩ := mem_iff_getElem?.mp hd
    exact ⟨k, d, hk, rfl⟩
  have hValid : (saved.takeWhile fun d => d.fd ≠ -1) = saved := by
    refine takeWhile_eq_self_iff.mpr fun d hd => decide_eq_true fun he => ?_
    grind [h.lists.valid]
  unfold execve createSnapshot initializeFromSnapshot
  rw [hRun, ends_ok_bind, hValid]
  refine (restore_ends hNodup fun _ _ => ⟨rfl, AList.lookup_empty _⟩).mono (fun p' hp' => ?_) ?_
  · have hEntry : ∀ (k : Nat) (d : Saved), saved[k]? = some d → ∃ path, unmapped d = some path ∧
        p'.session.files d.fd = some ⟨k, path⟩ ∧ p'.session.offsets[k]? = some d.offset ∧
        p'.attributes.lookup d.fd = some d.attributes := by
      grind [hp'.entries]
    have hOthers : ∀ fd, p.session.files fd = none → p'.session.files fd = none := by
      intro fd hfd
      grind [hp'.others]
    refine ⟨hp'.server, hp'.stream, fun fd f hf => ?_, hOthers, fun fd1 fd2 f1 f2 hf1 hf2 hCell => ?_⟩
    · obtain ⟨k, d, hk, rfl⟩ := hIndex fd (hf.trans_ne (Option.some_ne_none f))
      obtain ⟨path, hPath, hFile, hOffset, hLookup⟩ := hEntry k d hk
      obtain ⟨f', hf', hOf⟩ := hSaved d (mem_of_getElem? hk)
      cases hf.symm.trans hf'
      exact ⟨d, _, hOf, hPath, hFile, hOffset, hLookup⟩
    · obtain ⟨k1, d1, hk1, rfl⟩ := hIndex fd1 fun hNone => by cases hf1.symm.trans (hOthers _ hNone)
      obtain ⟨k2, d2, hk2, rfl⟩ := hIndex fd2 fun hNone => by cases hf2.symm.trans (hOthers _ hNone)
      obtain ⟨path1, -, hFile1, -⟩ := hEntry k1 d1 hk1
      obtain ⟨path2, -, hFile2, -⟩ := hEntry k2 d2 hk2
      grind
  · rintro - ⟨d, hd, hNone⟩
    obtain ⟨f, -, hOf⟩ := hSaved d hd
    exact ⟨d.fd, d, hOf.run, hNone⟩

theorem execve_ok (h : Sound g p) (hPaths : ∀ fd d, p.save fd = .ok d → unmapped d = some d.path) :
    ∃ p', execve unmapped p = .ok p' := by
  have hEnds : Ends (execve unmapped p) _ _ := execve_ends h
  cases hRun : execve unmapped p with
  | ok p' => exact ⟨p', rfl⟩
  | error e =>
    rw [hRun] at hEnds
    obtain ⟨fd, d, hd, hNone⟩ := hEnds
    cases hNone.symm.trans (hPaths fd d hd)

theorem Sound.savedOf (h : Sound g p) (hd : p.save fd = .ok d) :
    ∃ f, p.session.files fd = some f ∧ SavedOf p fd f d := by
  cases hf : p.session.files fd with
  | none =>
    unfold Process.save Session.offset at hd
    rw [hf] at hd
    cases hd
  | some f =>
    obtain ⟨d', hd'⟩ := h.save hf
    cases Except.ok.inj (hd.symm.trans hd'.run)
    exact ⟨f, rfl, hd'⟩

theorem Sound.file_of_lookup (h : Sound g p) (ha : p.attributes.lookup fd = some a) :
    ∃ f, p.session.files fd = some f := by
  have hMem : fd ∈ p.attributes := AList.lookup_isSome.mp (ha ▸ rfl)
  exact Option.ne_none_iff_exists'.mp ((h.lists.mem fd).mp hMem)

theorem Image.savedOf (h : Image unmapped p p') (hf' : p'.session.files fd = some f') :
    ∃ f d, p.session.files fd = some f ∧ SavedOf p fd f d ∧ unmapped d = some f'.path ∧
      p'.session.offsets[f'.cell]? = some d.offset ∧ p'.attributes.lookup fd = some d.attributes := by
  cases hf : p.session.files fd with
  | none => cases hf'.symm.trans (h.others fd hf)
  | some f =>
    obtain ⟨d, f'', hOf, hPath, hf'', hRest⟩ := h.entries fd f hf
    cases hf'.symm.trans hf''
    exact ⟨f, d, rfl, hOf, hPath, hRest⟩

/-- What the image needs of the state before: the paths can still be read, no descriptor was to be
closed, none was duplicated, and both sides have the same offsets. -/
structure Savable (unmapped : Saved → Option Path) (p : Process) : Prop where
  paths : ∀ fd d, p.save fd = .ok d → unmapped d = some d.path
  kept : ∀ fd a, p.attributes.lookup fd = some a → a.closeOnExec = false
  unshared : p.session.Unshared
  settled : ∀ fd f, p.session.files fd = some f → p.session.prefetched f.cell = p.session.unflushed f.cell

theorem Image.savable (h : Sound g p) (hImage : Image unmapped p p') (hKeeps : Keeps g p p') :
    Savable unmapped p := by
  refine ⟨fun fd d hd => ?_, fun fd a ha => ?_, fun fd1 f1 fd2 f2 hf1 hf2 hCell => ?_, fun fd f hf => ?_⟩
  · obtain ⟨f, hf, hOf⟩ := h.savedOf hd
    obtain ⟨d', f', hOf', hPath, hf', -⟩ := hImage.entries fd f hf
    grind [Except.ok.inj, hOf'.run, hKeeps.entries, hOf.path]
  · obtain ⟨f, hf⟩ := h.file_of_lookup ha
    obtain ⟨d, f', -, -, hf', -⟩ := hImage.entries fd f hf
    grind [hKeeps.descriptors]
  · obtain ⟨_, f1', -, -, hf1', -⟩ := hImage.entries fd1 f1 hf1
    obtain ⟨_, f2', -, -, hf2', -⟩ := hImage.entries fd2 f2 hf2
    exact hImage.own fd1 fd2 f1' f2' hf1' hf2'
      ((hKeeps.sharing fd1 fd2 f1 f2 f1' f2' hf1 hf2 hf1' hf2').mpr hCell)
  · obtain ⟨d, f', hOf, -, hf', hOffset, -⟩ := hImage.entries fd f hf
    obtain ⟨cell', offset, hCell', hClient', hServer'⟩ := hKeeps.server fd f' hf'
    obtain ⟨cell, client, hAt⟩ := h.agrees.at hf
    grind [serverCell, hOf.offset, hAt.clientAt, hImage.server, hAt.mapped, Option.some.inj, hAt.serverAt]

theorem Image.keeps (hSize : 0 < g.maxLineSize) (h : Sound g p) (hActions : p.stream.actions = [])
    (hImage : Image unmapped p p') (hSavable : Savable unmapped p) : Keeps g p p' := by
  refine ⟨fun fd => ⟨fun hfd => ?_, ?_⟩, fun fd f' hf' => ?_,
    fun fd1 fd2 f1 f2 f1' f2' hf1 hf2 hf1' hf2' => ⟨fun hCell => ?_, fun hCell => ?_⟩,
    fun fd f' hf' => ?_, ?_⟩
  · obtain ⟨f', hf'⟩ := Option.ne_none_iff_exists'.mp hfd
    obtain ⟨f, d, -, hOf, -⟩ := hImage.savedOf hf'
    exact ⟨_, hOf.attributes, hSavable.kept fd _ hOf.attributes⟩
  · rintro ⟨a, ha, -⟩
    obtain ⟨f, hf⟩ := h.file_of_lookup ha
    grind [hImage.entries]
  · obtain ⟨f, d, hf, hOf, hPath, hOffset, hLookup⟩ := hImage.savedOf hf'
    grind [hOf.offset, hOf.attributes, hSavable.paths, hOf.run, hOf.path, Option.some.inj]
  · obtain rfl := hImage.own fd1 fd2 f1' f2' hf1' hf2' hCell
    cases hf1.symm.trans hf2
    rfl
  · obtain rfl := hSavable.unshared fd1 f1 fd2 f2 hf1 hf2 hCell
    cases hf1'.symm.trans hf2'
    rfl
  · obtain ⟨f, d, hf, hOf, -, hOffset, -⟩ := hImage.savedOf hf'
    obtain ⟨cell, client, hAt⟩ := h.agrees.at hf
    grind [serverCell, hOf.offset, hAt.clientAt, hImage.server, hAt.mapped, hAt.serverAt, hSavable.settled]
  · obtain ⟨v, hShows⟩ := h.shows
    rw [hImage.stream]
    refine (WriteStream.delivers_iff hSize hShows hActions {}).mpr ?_
    rw [h.cache]
    exact (h.agrees.settled_iff.mp hSavable.settled).2

def start (sm : StorageManager) (lines : Nat) (hLines : 0 < lines) (slots : Nat → List Byte) :
    Process where
  session := { sm := sm }
  stream := WriteStream.start lines hLines slots

theorem start_sound (g : Setting) (sm : StorageManager) (lines : Nat) (hLines : 0 < lines)
    (slots : Nat → List Byte) : Sound g (start sm lines hLines slots) :=
  ⟨agrees_start g.tid sm, rfl, ⟨{}, WriteStream.start_shows _ lines hLines slots⟩,
    fun _ => ⟨fun h => absurd h (AList.notMem_empty _), fun h => absurd rfl h⟩, rfl⟩

/-- After every run of regular calls, an image that replaces the thread between two calls keeps all
of it if and only if the paths can still be read where they were, no descriptor was to be closed,
none was duplicated, and the caches are empty. -/
theorem exec_keeps_iff {g : Setting} {sm : StorageManager} {lines : Nat} {slots : Nat → List Byte}
    {ops : List Op} {p : Process} (unmapped : Saved → Option Path) (hSize : 0 < g.maxLineSize)
    (hLines : 0 < lines) (hOps : Meets (Regular g) (step g) (start sm lines hLines slots) ops)
    (hRun : ops.foldlM (step g) (start sm lines hLines slots) = .ok p) (hActions : p.stream.actions = []) :
    (∃ p', execve unmapped p = .ok p' ∧ Keeps g p p') ↔
      (∀ fd d, p.save fd = .ok d → unmapped d = some d.path) ∧
      (∀ fd a, p.attributes.lookup fd = some a → a.closeOnExec = false) ∧
      p.session.Unshared ∧ p.session.leftover = 0 ∧ p.session.write.actualSize = 0 := by
  have h : Sound g p := (run_ends (fun _ _ h hOp => step_sound hSize h hOp)
    (start_sound g sm lines hLines slots) ops hOps).result hRun
  rw [← h.agrees.settled_iff]
  constructor
  · rintro ⟨p', hExec, hKeeps⟩
    obtain ⟨hPaths, hKept, hUnshared, hSettled⟩ := ((execve_ends h).result hExec).savable h hKeeps
    exact ⟨hPaths, hKept, hUnshared, hSettled⟩
  · rintro ⟨hPaths, hKept, hUnshared, hSettled⟩
    obtain ⟨p', hExec⟩ := execve_ok h hPaths
    exact ⟨p', hExec, ((execve_ends h).result hExec).keeps hSize h hActions
      ⟨hPaths, hKept, hUnshared, hSettled⟩⟩

instance : DecidablePred Syscall.Numbered :=
  fun c => by cases c <;> dsimp only [Syscall.Numbered] <;> infer_instance

instance (g : Setting) (p : Process) : (op : Op) → Decidable (Regular g p op) :=
  fun op => by cases op <;> dsimp only [Regular] <;> infer_instance

def oneLine : Process := start {} 2 Nat.two_pos fun _ => [0, 0, 0, 0]

def flushed : List Op :=
  [.call (.openat 3 "/d/f".toList O_CREAT), .call (.write 3 [6, 7]), .turn .act, .turn .act,
    .call (.seekSet 3 1), .turn .act, .turn .accept, .turn .read, .turn .finish]

theorem exec_keeps_flushed : ∃ p p', flushed.foldlM (step shortLines) oneLine = .ok p ∧
    execve (fun d => some d.path) p = .ok p' ∧ Keeps shortLines p p' := by
  have hOps : Meets (Regular shortLines) (step shortLines) oneLine flushed := by decide +kernel
  have hOne : ∀ (fd : Fd) (f : File), update (fun _ => none) (3 : Fd)
      (some (⟨0, "/d/f".toList⟩ : File)) fd = some f → fd = 3 := by grind
  have hKept : ∀ (fd : Fd) (a : Attributes), (AList.insert (3 : Fd) (Syscall.opened O_CREAT)
      (∅ : Table)).lookup fd = some a → a.closeOnExec = false := by
    intro fd a ha
    by_cases he : fd = 3
    · subst he
      cases ha
      rfl
    · rw [AList.lookup_insert_ne he, AList.lookup_empty] at ha
      cases ha
  obtain ⟨p', hExec, hKeeps⟩ :=
    (exec_keeps_iff (fun d => some d.path) (by decide) Nat.two_pos hOps rfl rfl).mpr
    ⟨fun _ _ _ => rfl, hKept, fun fd f fd' f' hf hf' _ => (hOne fd f hf).trans (hOne fd' f' hf').symm,
      rfl, rfl⟩
  exact ⟨_, p', rfl, hExec, hKeeps⟩

/-- An open file when nothing is mapped at the address of its path, or the next segment, which begins
with the number of the descriptor; then with the path read back: a byte that is not flushed, whose
element is read for the first write of the new image; a duplicate; and a descriptor with `O_CLOEXEC`. -/
theorem exec_loses_state :
    (∃ p, [Op.call (.openat 3 "/d/f".toList O_CREAT)].foldlM (step shortLines) oneLine = .ok p ∧
      execve (fun _ => none) p = .error .exit) ∧
    (∃ p p', [Op.call (.openat 3 "/d/f".toList O_CREAT)].foldlM (step shortLines) oneLine = .ok p ∧
      execve (fun d => some [Char.ofNat d.fd.toNat]) p = .ok p' ∧
      (p'.session.files 3).map (·.path) = some [Char.ofNat 3]) ∧
    (∃ p p' q, [Op.call (.openat 3 "/d/f".toList O_CREAT), .call (.write 3 [6]), .turn .act,
        .turn .act].foldlM (step shortLines) oneLine = .ok p ∧ execve (fun d => some d.path) p = .ok p' ∧
      [Op.call (.write 3 [9]), .turn .act, .turn .act, .call (.seekCur 3 0), .turn .act, .turn .accept,
        .turn .read, .turn .finish].foldlM (step shortLines) p' = .ok q ∧ q.stream.blocks = [(3, [6])]) ∧
    (∃ p p', [Op.call (.openat 3 "/d/f".toList O_CREAT), .call (.dup 3 4 false)].foldlM
        (step shortLines) oneLine = .ok p ∧ execve (fun d => some d.path) p = .ok p' ∧
      p.session.files 3 = p.session.files 4 ∧
      (p'.session.files 3).map (·.cell) ≠ (p'.session.files 4).map (·.cell)) ∧
    ∃ p p', [Op.call (.openat 3 "/d/f".toList (O_CREAT ||| O_CLOEXEC))].foldlM (step shortLines) oneLine =
        .ok p ∧ execve (fun d => some d.path) p = .ok p' ∧ p'.session.files 3 ≠ none :=
  ⟨⟨_, rfl, rfl⟩, ⟨_, _, rfl, rfl, rfl⟩, ⟨_, _, _, rfl, rfl, rfl, rfl⟩,
    ⟨_, _, rfl, rfl, rfl, by decide +kernel⟩, _, _, rfl, rfl, by decide +kernel⟩

end Process

end Capio.Posix
