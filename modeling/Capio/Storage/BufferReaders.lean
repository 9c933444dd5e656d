import Capio.Lib.Outcome
import Capio.Storage.Service

/-! # Readers of a buffer that grows

A thread that serves the bytes of a file takes the address of its buffer and copies from there for as
long as the client or the other server needs.  A buffer that grows moves to another block, and the
old one is released.  Each thread makes one operation on the file at a time; the operations lock the
file, but the copies do not.
-/
namespace Capio.Storage.BufferReaders

open Common Lib.Outcome

inductive WriterStage
  | create
  | room
  | grow
  | fill
  | record
  | done
  deriving DecidableEq

structure Writer where
  offset : Nat
  data : List Byte
  reply : Option (Nat × Bool) := none
  stage : WriterStage := .create

/-- What a thread serves: a read that has waited, the request of another server, and a read whose bytes
were fetched. -/
inductive Serving
  | pending (offset : Int) (count : Nat)
  | remote (offset : Int)
  | fetched (offset count : Int)

/-- `copying` has the block that the address belongs to and the bytes that are left. -/
inductive ReaderStage
  | create
  | take
  | copying (block next stop : Nat)

structure Reader where
  serving : Serving
  stage : ReaderStage := .create

structure Copied where
  block : Nat
  owner : Nat
  start : Nat
  length : Nat
  deriving DecidableEq

/-- `block` is the number of the block that the file owns: all earlier ones are released. -/
structure State where
  file : CapioFile
  block : Nat := 0
  writers : List Writer := []
  readers : List Reader := []
  copied : List Copied := []

def Writer.fills (w : Writer) : Bool := w.reply.isNone || !w.data.isEmpty

def Writer.stop (w : Writer) : Nat := w.offset + w.data.length

def Writer.recordIn (w : Writer) (f : CapioFile) : CapioFile :=
  match w.reply with
  | none => f.insertSector w.offset w.stop
  | some (fileSize, complete) =>
    ((f.setRealFileSize fileSize).insertSector w.offset w.stop).setCommitted complete

def State.setWriter (s : State) (k : Nat) (w : Writer) (stage : WriterStage) : State :=
  { s with writers := s.writers.set k { w with stage := stage } }

def State.setReader (s : State) (k : Nat) (r : Reader) (stage : ReaderStage) : State :=
  { s with readers := s.readers.set k { r with stage := stage } }

def stepWriter (os : Os) (s : State) (k : Nat) (w : Writer) : Except Failure State :=
  match w.stage with
  | .create => do
    let f ← s.file.createBuffer os w.reply.isNone
    pure ({ s with file := f }.setWriter k w .room)
  | .room => pure (s.setWriter k w (if w.fills ∧ s.file.getBufSize < w.stop then .grow else .fill))
  | .grow => do
    let f ← s.file.expandBuffer os w.stop
    pure ({ s with file := f, block := s.block + 1 }.setWriter k w .fill)
  | .fill => do
    let f ← (if w.fills then s.file.storeBytes w.offset w.data else pure s.file)
    pure ({ s with file := f }.setWriter k w .record)
  | .record => pure ({ s with file := w.recordIn s.file }.setWriter k w .done)
  | .done => pure s

def Serving.offset : Serving → Int
  | .pending offset _ => offset
  | .remote offset => offset
  | .fetched offset _ => offset

def Serving.size (prefetchDataSize : Nat) (f : CapioFile) : Serving → Int
  | .pending offset count => pendingRead f offset count
  | .remote offset => remoteReplySize prefetchDataSize f offset
  | .fetched offset count =>
    let stop := sectorEnd f offset
    if stop > offset + count then count else stop - offset

def stepReader (prefetchDataSize : Nat) (os : Os) (s : State) (k : Nat) (r : Reader) (length : Nat) :
    Except Failure State :=
  match r.stage with
  | .create =>
    match r.serving with
    | .remote _ => pure (s.setReader k r .take)
    | .pending _ _ | .fetched _ _ => do
      let f ← s.file.createBuffer os false
      pure ({ s with file := f }.setReader k r .take)
  | .take =>
    let n := r.serving.size prefetchDataSize s.file
    if n = 0 then pure (s.setReader k r (.copying s.block 0 0))
    else if n < 0 ∨ r.serving.offset < 0 then throw .outOfBounds
    else if s.file.buffer.empty then throw .nullPointer
    else pure (s.setReader k r (.copying s.block r.serving.offset.toNat (r.serving.offset + n).toNat))
  | .copying block next stop =>
    if 0 < length ∧ next + length ≤ stop then
      pure ({ s with copied := ⟨block, s.block, next, length⟩ :: s.copied }.setReader k r
        (.copying block (next + length) stop))
    else pure s

inductive Event
  | write (offset : Nat) (data : List Byte)
  | reply (offset : Nat) (data : List Byte) (fileSize : Nat) (complete : Bool)
  | serve (serving : Serving)
  | commit
  | writer (k : Nat)
  | reader (k length : Nat)

structure Input where
  event : Event
  os : Os

def step (prefetchDataSize : Nat) (s : State) (i : Input) : Except Failure State :=
  match i.event with
  | .write offset data => pure { s with writers := s.writers ++ [⟨offset, data, none, .create⟩] }
  | .reply offset data fileSize complete =>
    pure { s with writers := s.writers ++ [⟨offset, data, some (fileSize, complete), .create⟩] }
  | .serve serving => pure { s with readers := s.readers ++ [⟨serving, .create⟩] }
  | .commit => pure { s with file := s.file.setCommitted }
  | .writer k =>
    match s.writers[k]? with
    | some w => stepWriter i.os s k w
    | none => pure s
  | .reader k length =>
    match s.readers[k]? with
    | some r => stepReader prefetchDataSize i.os s k r length
    | none => pure s

def Reader.Idle (r : Reader) : Prop :=
  match r.stage with
  | .copying _ next stop => next = stop
  | .create | .take => True

def Quiet (s : State) (i : Input) : Prop :=
  match i.event with
  | .writer k => ∀ w ∈ s.writers[k]?, w.stage = .grow → ∀ r ∈ s.readers, r.Idle
  | _ => True

def Copied.Ok (c : Copied) : Prop := c.block = c.owner

def Reader.Holds (block : Nat) (r : Reader) : Prop :=
  match r.stage with
  | .copying held next stop => next = stop ∨ held = block
  | .create | .take => True

structure Safe (s : State) : Prop where
  readers : ∀ r ∈ s.readers, r.Holds s.block
  copied : ∀ c ∈ s.copied, c.Ok

theorem Reader.Idle.holds {r : Reader} (h : r.Idle) (block : Nat) : r.Holds block := by
  obtain ⟨serving, stage⟩ := r
  cases stage with
  | copying held next stop => exact .inl h
  | create | take => trivial

theorem Safe.setReader (h : Safe s) (hStage : (⟨r.serving, stage⟩ : Reader).Holds s.block) :
    Safe (s.setReader k r stage) := by
  refine ⟨fun r' hr' => ?_, h.copied⟩
  obtain hr' | rfl := List.mem_or_eq_of_mem_set hr'
  · exact h.readers r' hr'
  · exact hStage

theorem stepWriter_ends (h : Safe s) (os : Os) (k : Nat)
    (hQuiet : w.stage = .grow → ∀ r ∈ s.readers, r.Idle) : Yields (stepWriter os s k w) Safe := by
  have hFile : ∀ f stage, Safe ({ s with file := f }.setWriter k w stage) := fun _ _ =>
    ⟨h.readers, h.copied⟩
  unfold stepWriter
  split
  · exact .skip fun f => hFile f .room
  · exact hFile s.file _
  · next hGrow => exact .skip fun f => ⟨fun r hr => (hQuiet hGrow r hr).holds _, h.copied⟩
  · exact .skip fun f => hFile f .record
  · exact hFile _ .done
  · exact h

theorem stepReader_ends (h : Safe s) (os : Os) (k : Nat) (hr : r ∈ s.readers) (length : Nat) :
    Yields (stepReader prefetchDataSize os s k r length) Safe := by
  have hHolds := h.readers r hr
  obtain ⟨serving, stage⟩ := r
  cases stage with
  | create =>
    have hTake : ∀ f, Safe ({ s with file := f }.setReader k ⟨serving, .create⟩ .take) := fun f =>
      Safe.setReader (s := { s with file := f }) ⟨h.readers, h.copied⟩ trivial
    cases serving with
    | remote offset => exact hTake s.file
    | pending | fetched =>
      exact .skip fun f => hTake f
  | take =>
    refine .ite (fun _ => h.setReader (.inl rfl)) fun _ => .ite (fun _ => trivial) fun _ => ?_
    exact .ite (fun _ => trivial) fun _ => h.setReader (.inr rfl)
  | copying held next stop =>
    refine .ite (fun hLeft => ?_) fun _ => h
    have hOwned : held = s.block := Or.resolve_left hHolds (by omega)
    have hNext : Safe { s with copied := ⟨held, s.block, next, length⟩ :: s.copied } := by
      refine ⟨h.readers, fun c hc => ?_⟩
      obtain rfl | hc := List.mem_cons.mp hc
      · exact hOwned
      · exact h.copied c hc
    exact hNext.setReader (.inr hOwned)

theorem step_ends (h : Safe s) (hi : Quiet s i) : Yields (step prefetchDataSize s i) Safe := by
  obtain ⟨event, os⟩ := i
  cases event with
  | write offset data => exact ⟨h.readers, h.copied⟩
  | reply offset data fileSize complete => exact ⟨h.readers, h.copied⟩
  | serve serving =>
    refine ⟨fun r hr => ?_, h.copied⟩
    obtain hr | hr := List.mem_append.mp hr
    · exact h.readers r hr
    · rw [List.mem_singleton.mp hr]
      trivial
  | commit => exact ⟨h.readers, h.copied⟩
  | writer k =>
    simp only [step]
    split
    · next w hw => exact stepWriter_ends h os k (hi w hw)
    · exact h
  | reader k length =>
    simp only [step]
    split
    · next r hr => exact stepReader_ends h os k (List.mem_of_getElem? hr) length
    · exact h

/-- In every run in which the buffer grows only while nobody copies from it, every byte is read from
the block that the file owns at that moment. -/
theorem reads_from_owned_block {file : CapioFile} {inputs : List Input}
    (hInputs : Meets Quiet (step prefetchDataSize) { file := file } inputs)
    (hRun : inputs.foldlM (step prefetchDataSize) { file := file } = .ok s) :
    ∀ c ∈ s.copied, c.block = c.owner := by
  have hStart : Safe { file := file } := ⟨fun _ hr => (nomatch hr), fun _ hc => (nomatch hc)⟩
  exact ((run_ends (fun _ _ h hi => step_ends h hi) hStart inputs hInputs).result hRun).copied

instance : DecidablePred Reader.Idle
  | ⟨_, .copying _ next stop⟩ => inferInstanceAs (Decidable (next = stop))
  | ⟨_, .create⟩ | ⟨_, .take⟩ => .isTrue trivial

instance (s : State) : DecidablePred (Quiet s)
  | ⟨op, _⟩ => by cases op <;> dsimp only [Quiet] <;> infer_instance

def inputs (events : List Event) : List Input := events.map (Input.mk · (Os.plain 8))

def fourBytes : CapioFile := { buffer := ⟨some [1, 2, 3, 4], 4, .heap⟩, sectors := [(0, 4)] }

def growAfterRead : List Input :=
  inputs [.serve (.pending 0 4), .reader 0 0, .reader 0 0, .write 4 [5], .writer 0, .reader 0 2, .reader 0 2,
    .writer 0, .writer 0, .writer 0, .writer 0]

theorem growAfterRead_reads_owned : ∃ s, growAfterRead.foldlM (step 0) { file := fourBytes } = .ok s ∧
    s.block = 1 ∧ s.copied = [⟨0, 0, 2, 2⟩, ⟨0, 0, 0, 2⟩] ∧ ∀ c ∈ s.copied, c.block = c.owner := by
  have hInputs : Meets Quiet (step 0) { file := fourBytes } growAfterRead := by decide +kernel
  exact ⟨_, rfl, rfl, rfl, reads_from_owned_block hInputs rfl⟩

/-- The write does not wait: the last two bytes come from the block that was released. -/
theorem growDuringRead_reads_released : ∃ s,
    (inputs [.serve (.pending 0 4), .reader 0 0, .reader 0 0, .reader 0 2, .write 4 [5], .writer 0,
      .writer 0, .writer 0, .reader 0 2]).foldlM (step 0) { file := fourBytes } = .ok s ∧
    s.copied = [⟨0, 1, 2, 2⟩, ⟨0, 0, 0, 2⟩] :=
  ⟨_, rfl, rfl⟩

end Capio.Storage.BufferReaders
