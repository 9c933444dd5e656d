import Capio.Lib.Outcome
import Capio.Posix.Session

/-! # The prefetched line

One client thread with its read cache, and the threads of the server that handle its requests.  Bytes
reach the client through a ring of slots.  `fetch` gives the slot of a line back to the server before the
client has read the line, so what keeps the line is that the server only writes when it is asked to,
and that the client asks only when the line is used up or discarded.
-/
namespace Capio.Posix.PrefetchedLine

open Common Lib Lib.Outcome Lib.Pieces Function List

inductive Request
  | read (fd : Fd) (count : Int)
  | getdents (fd : Fd) (count : Int)
  | seek (fd : Fd) (offset : Int)
  deriving DecidableEq

namespace Request

def fd : Request → Fd
  | .read fd _ | .getdents fd _ | .seek fd _ => fd

def mayWait : Request → Bool
  | .read _ _ | .getdents _ _ => true
  | .seek _ _ => false

def Allows (n : Nat) : Request → Prop
  | .read _ count => (n : Int) ≤ count
  | .getdents _ _ => True
  | .seek _ _ => False

instance (n : Nat) : (r : Request) → Decidable (r.Allows n)
  | .read _ count => inferInstanceAs (Decidable ((n : Int) ≤ count))
  | .getdents _ _ => .isTrue trivial
  | .seek _ _ => .isFalse id

end Request

/-- How far a thread of the server is with a request: the offset is not looked at; it is known from
where to serve; elements are to be pushed, of the first of which `k` bytes are copied.  When no
element is left, the offset is to be stored. -/
inductive Stage
  | start
  | answer (offset : Int)
  | push (next : Int) (elements : List (List Byte)) (k : Nat)

structure Task where
  request : Request
  detached : Bool
  stage : Stage

/-- Where the client is: outside of `ReadCache`; waiting for the answer to the seek of a flush, with the
read that made it; waiting for the answer to the request of a read; in `Queue::read`, with the number of
elements to come; in `Queue::fetch`, with the new `_actual_size`. -/
inductive Phase
  | idle
  | seeking (next : Option (Fd × Int × Bool))
  | requested (fileOffset remaining count : Int) (isGetdents : Bool)
  | taking (fileOffset bytesRead : Int) (left : Nat)
  | fetching (fileOffset remaining count actualSize : Int)

/-- `cache` is the slot that `_cache` points to.  `sent` is not part of the client: it has the bytes that
the server has sent for the request of the last line. -/
structure Client where
  cache : Nat := 0
  lastFd : Fd := -1
  actualSize : Int := 0
  cacheOffset : Int := 0
  phase : Phase := .idle
  offsets : Nat → Int
  sent : List Byte := []

structure Server where
  queue : RingBuffer (Nat → Byte)
  request : Option Request := none
  replies : List (Int × List Byte) := []
  tasks : List Task := []
  offsets : Nat → Int

structure State where
  client : Client
  server : Server

inductive Call
  | read (fd : Fd) (count : Int)
  | getdents (fd : Fd) (count : Int)
  | flush

section

-- the cell of the offset of a descriptor, which duplicates share, and the size of a line
variable (share : Fd → Nat) (maxLineSize : Nat)

namespace Client

def remaining (c : Client) : Int := c.actualSize - c.cacheOffset

def offset (c : Client) : Int := c.offsets (share c.lastFd)

def copy (c : Client) (count : Int) : Client :=
  if count > 0 then { c with cacheOffset := c.cacheOffset + count } else c

def finish (c : Client) (offset : Int) : Client :=
  { c with offsets := update c.offsets (share c.lastFd) offset, phase := .idle }

def deliver (c : Client) (fileOffset remaining count : Int) : Client :=
  let readSize := count - remaining
  if readSize < c.actualSize then (c.copy readSize).finish share (fileOffset + count)
  else (c.copy c.actualSize).finish share (fileOffset + (remaining + c.actualSize))

def Exact (remaining count : Int) (isGetdents : Bool) : Prop :=
  count - remaining > maxLineSize ∨ isGetdents = true

instance (remaining count : Int) (isGetdents : Bool) :
    Decidable (Exact maxLineSize remaining count isGetdents) :=
  inferInstanceAs (Decidable (_ ∨ _))

def requestFor (c : Client) (remaining count : Int) (isGetdents : Bool) : Request :=
  let size := if Exact maxLineSize remaining count isGetdents then count - remaining else maxLineSize
  if isGetdents then .getdents c.lastFd size else .read c.lastFd size

end Client

namespace State

def send (s : State) (c : Client) (r : Request) : State := ⟨c, { s.server with request := some r }⟩

def readFrom (s : State) (c : Client) (count : Int) (isGetdents : Bool) : State :=
  let remaining := c.remaining
  let fileOffset := c.offset share
  let count := if isGetdents then count.tdiv DIRENT_SIZE * DIRENT_SIZE else count
  if count ≤ remaining then { s with client := (c.copy count).finish share (fileOffset + count) }
  else
    s.send { c.copy remaining with phase := .requested fileOffset remaining count isGetdents }
      (c.requestFor maxLineSize remaining count isGetdents)

def goOn (s : State) (c : Client) : Option (Fd × Int × Bool) → State
  | none => { s with client := { c with phase := .idle } }
  | some (fd, count, isGetdents) => s.readFrom share maxLineSize { c with lastFd := fd } count isGetdents

def flush (s : State) (next : Option (Fd × Int × Bool)) : State :=
  let c := s.client
  if c.cacheOffset ≠ c.actualSize then
    s.send { c with actualSize := 0, cacheOffset := 0, phase := .seeking next }
      (.seek c.lastFd (c.offset share))
  else s.goOn share maxLineSize c next

def read (s : State) (fd : Fd) (count : Int) (isGetdents : Bool) : Except Unit State :=
  if count ≥ SSIZE_MAX then throw ()
  else if s.client.lastFd ≠ fd then pure (s.flush share maxLineSize (some (fd, count, isGetdents)))
  else pure (s.readFrom share maxLineSize s.client count isGetdents)

def elementsOf (numBytes : Int) : Except Unit Nat :=
  if 0 ≤ numBytes then pure (sizes maxLineSize numBytes.toNat).length
  else if (maxLineSize : Int) ∣ numBytes then pure 0
  else throw ()

def proceed (s : State) : Except Unit State :=
  let c := s.client
  match c.phase, s.server.replies with
  | .seeking next, _ :: replies =>
    pure (goOn share maxLineSize { s with server := { s.server with replies := replies } } c next)
  | .requested fileOffset remaining count isGetdents, (endOfRead, sent) :: replies =>
    let server := { s.server with replies := replies }
    if Client.Exact maxLineSize remaining count isGetdents then do
      let bytesRead := endOfRead - fileOffset
      let left ← elementsOf maxLineSize bytesRead
      pure ⟨{ c with phase := .taking fileOffset bytesRead left }, server⟩
    else
      let actualSize := endOfRead - fileOffset - remaining
      pure ⟨{ c with phase := .fetching fileOffset remaining count actualSize, sent := sent }, server⟩
  | .taking fileOffset bytesRead 0, _ =>
    pure { s with client := c.finish share (fileOffset + bytesRead) }
  | .taking fileOffset bytesRead (left + 1), _ =>
    if h : 0 < s.server.queue.used then
      pure ⟨{ c with phase := .taking fileOffset bytesRead left },
        { s.server with queue := s.server.queue.release h }⟩
    else throw ()
  | .fetching fileOffset remaining count actualSize, _ =>
    -- `_actual_size` and `_cache_offset` are set before the wait, but only the client looks at them
    let c := { c with actualSize := actualSize, cacheOffset := 0 }
    if actualSize > 0 then
      if h : 0 < s.server.queue.used then
        pure ⟨{ c with cache := s.server.queue.first }.deliver share fileOffset remaining count,
          { s.server with queue := s.server.queue.release h }⟩
      else throw ()
    else pure { s with client := c.deliver share fileOffset remaining count }
  | _, _ => throw ()

end State

namespace Server

def setStage (s : Server) (i : Nat) (t : Task) (stage : Stage) : Server :=
  { s with tasks := s.tasks.set i { t with stage := stage } }

def setFileOffset (s : Server) (fd : Fd) (offset : Int) : Server :=
  { s with offsets := update s.offsets (share fd) offset }

def reply (s : Server) (value : Int) (data : List Byte) : Server :=
  { s with replies := s.replies ++ [(value, data)] }

def copyByte (s : Server) (k : Nat) (b : Byte) : Server :=
  { s with queue := s.queue.set s.queue.last (update (s.queue.slots s.queue.last) k b) }

def take (s : Server) (detached : Bool) : Except Unit Server :=
  match s.request with
  | some r =>
    if s.tasks.all (·.detached) then
      pure { s with request := none, tasks := s.tasks ++ [⟨r, detached && r.mayWait, .start⟩] }
    else throw ()
  | none => throw ()

def advance (s : Server) (i : Nat) (t : Task) (data : List Byte) (stores : Bool) : Except Unit Server :=
  let done := { s with tasks := s.tasks.eraseIdx i }
  match t.stage with
  | .start =>
    match t.request with
    | .seek fd offset => pure ((done.setFileOffset share fd offset).reply offset [])
    | .read fd _ | .getdents fd _ => pure (s.setStage i t (.answer (s.offsets (share fd))))
  | .answer offset =>
    let next := offset + data.length
    if t.request.Allows data.length then
      if data = [] ∧ stores = false then pure (done.reply next data)
      else pure ((s.setStage i t (.push next (pieces maxLineSize data) 0)).reply next data)
    else throw ()
  | .push next [] _ => pure (done.setFileOffset share t.request.fd next)
  | .push next (element :: elements) k =>
    if h : s.queue.used < s.queue.size then
      match element[k]? with
      | some b =>
        -- a size that is not an `int` is a very large one for `memcpy`
        if element.length ≤ INT_MAX then
          pure ((s.copyByte k b).setStage i t (.push next (element :: elements) (k + 1)))
        else throw ()
      | none => pure ({ s with queue := s.queue.reserve h }.setStage i t (.push next elements 0))
    else throw ()

def serve (s : Server) (i : Nat) (data : List Byte) (stores : Bool) : Except Unit Server :=
  match s.tasks[i]? with
  | some t => s.advance share maxLineSize i t data stores
  | none => throw ()

end Server

inductive Event
  | call (c : Call)
  | client
  | take (detached : Bool)
  | serve (i : Nat) (data : List Byte) (stores : Bool)

def step (s : State) : Event → Except Unit State
  | .call c =>
    match s.client.phase, c with
    | .idle, .read fd count => s.read share maxLineSize fd count false
    | .idle, .getdents fd count => s.read share maxLineSize fd count true
    | .idle, .flush => pure (s.flush share maxLineSize none)
    | _, _ => throw ()
  | .client => s.proceed share maxLineSize
  | .take detached => (fun server => { s with server := server }) <$> s.server.take detached
  | .serve i data stores =>
    (fun server => { s with server := server }) <$> s.server.serve share maxLineSize i data stores

end

/-- The counts are not negative; and when the request thread takes a request, no other thread is still
at an earlier one. -/
def Sequential (s : State) : Event → Prop
  | .call (.read _ count) | .call (.getdents _ count) => 0 ≤ count
  | .take _ => s.server.tasks.length = 0
  | .call .flush | .client | .serve _ _ _ => True

instance (s : State) : DecidablePred (Sequential s)
  | .call c => by cases c <;> dsimp only [Sequential] <;> infer_instance
  | .take _ => inferInstanceAs (Decidable (s.server.tasks.length = 0))
  | .client | .serve _ _ _ => .isTrue trivial

def State.cached (maxLineSize : Nat) (s : State) (i : Nat) : Byte :=
  s.server.queue.slots (s.client.cache + i / maxLineSize) (i % maxLineSize)

def Intact (maxLineSize : Nat) (s : State) : Prop :=
  ∀ i : Nat, s.client.cacheOffset ≤ i → (i : Int) < s.client.actualSize →
    s.client.sent[i]? = some (s.cached maxLineSize i)

def start (n : Nat) (hn : 0 < n) (slots : Nat → Nat → Byte) (offsets : Nat → Int) : State :=
  ⟨{ offsets := offsets }, { queue := .empty n hn slots, offsets := offsets }⟩

section

variable {share : Fd → Nat} {maxLineSize : Nat} {s : State} {m : Server} {offsets base : Nat → Int}

def Holds (slot : Nat → Byte) (element : List Byte) : Prop :=
  ∀ i < element.length, element[i]? = some (slot i)

inductive Pushes (share : Fd → Nat) (s : Server) (elements : List (List Byte))
  (offsets : Nat → Int) : Prop
  | done (hTasks : s.tasks = []) (hNone : elements = []) (hOffsets : s.offsets = offsets)
  | pushing (r : Request) (detached : Bool) (next : Int) (k : Nat)
      (hTasks : s.tasks = [⟨r, detached, .push next elements k⟩])
      (hOffsets : update s.offsets (share r.fd) next = offsets)
      (hCopied : ∀ element ∈ elements.head?, ∀ i < k,
        element[i]? = some (s.queue.slots s.queue.last i))

def Delivers (share : Fd → Nat) (s : Server) (rest : List (List Byte)) (offsets : Nat → Int) : Prop :=
  ∃ queued elements, rest = queued ++ elements ∧ List.Forall₂ Holds s.queue.toList queued ∧
    Pushes share s elements offsets

/-- What the reply to a request is, if the offset is `offset`. -/
def Request.Replies (r : Request) (offset value : Int) (data : List Byte) : Prop :=
  match r with
  | .seek _ target => value = target ∧ data = []
  | .read _ _ | .getdents _ _ => value = offset + data.length ∧ r.Allows data.length

inductive Waits (share : Fd → Nat) (maxLineSize : Nat) (s : Server) (r : Request)
  (base : Nat → Int) : Prop
  | sent (hRequest : s.request = some r) (hReplies : s.replies = []) (hRest : Delivers share s [] base)
  | taken (detached : Bool) (stage : Stage) (hRequest : s.request = none) (hReplies : s.replies = [])
      (hQueue : s.queue.toList = []) (hTasks : s.tasks = [⟨r, detached, stage⟩])
      (hOffsets : s.offsets = base)
      (hStage : stage = .start ∨ r.mayWait = true ∧ stage = .answer (base (share r.fd)))
  | answered (value : Int) (data : List Byte) (hRequest : s.request = none)
      (hReplies : s.replies = [(value, data)]) (hValue : r.Replies (base (share r.fd)) value data)
      (hRest : Delivers share s (pieces maxLineSize data) (update base (share r.fd) value))

def Client.ahead (share : Fd → Nat) (c : Client) (n : Int) : Nat → Int :=
  update c.offsets (share c.lastFd) (c.offset share + n)

structure Rests (share : Fd → Nat) (s : Server) (c : Client) : Prop where
  request : s.request = none
  replies : s.replies = []
  delivers : Delivers share s [] (c.ahead share c.remaining)

def Expects (share : Fd → Nat) (maxLineSize : Nat) (s : Server) (c : Client) : Phase → Prop
  | .idle => Rests share s c ∧ Intact maxLineSize ⟨c, s⟩
  | .seeking next =>
    c.remaining = 0 ∧ (∀ n ∈ next, 0 ≤ n.2.1) ∧ ∃ base,
      Waits share maxLineSize s (.seek c.lastFd (c.offset share)) base ∧
        update base (share c.lastFd) (c.offset share) = c.offsets
  | .requested fileOffset remaining count isGetdents =>
    c.remaining = 0 ∧ fileOffset = c.offset share ∧ 0 ≤ remaining ∧ remaining < count ∧
      Waits share maxLineSize s (c.requestFor maxLineSize remaining count isGetdents)
        (c.ahead share remaining)
  | .taking fileOffset bytesRead left =>
    c.remaining = 0 ∧ fileOffset = c.offset share ∧ s.request = none ∧ s.replies = [] ∧
      ∃ rest, rest.length ≤ left ∧ Delivers share s rest (c.ahead share bytesRead)
  | .fetching fileOffset remaining count actualSize =>
    c.remaining = 0 ∧ fileOffset = c.offset share ∧ remaining < count ∧ actualSize = c.sent.length ∧
      c.sent.length ≤ maxLineSize ∧ s.request = none ∧ s.replies = [] ∧
      Delivers share s (pieces maxLineSize c.sent) (c.ahead share (remaining + actualSize))

structure Inv (share : Fd → Nat) (maxLineSize : Nat) (s : State) : Prop where
  start : 0 ≤ s.client.cacheOffset
  left : 0 ≤ s.client.remaining
  line : s.client.actualSize ≤ maxLineSize
  expects : Expects share maxLineSize s.server s.client s.client.phase

theorem intact_of_remaining (h : s.client.remaining = 0) : Intact maxLineSize s := by
  intro i hStart hEnd
  have hEq : s.client.actualSize - s.client.cacheOffset = 0 := h
  omega

theorem Inv.intact (h : Inv share maxLineSize s) : Intact maxLineSize s := by
  have hExpects := h.expects
  cases hPhase : s.client.phase with
  | idle =>
    rw [hPhase] at hExpects
    exact hExpects.2
  | seeking | requested | taking | fetching =>
    rw [hPhase] at hExpects
    exact intact_of_remaining hExpects.1

theorem ahead_zero (share : Fd → Nat) (c : Client) : c.ahead share 0 = c.offsets := by
  simp [Client.ahead, Client.offset]

theorem ahead_finish (c : Client) (offset n : Int) :
    (c.finish share offset).ahead share n = c.ahead share (offset + n - c.offset share) := by
  simp [Client.ahead, Client.finish, Client.offset]

theorem ahead_update (share : Fd → Nat) (c : Client) (n value : Int) :
    update (c.ahead share n) (share c.lastFd) value = c.ahead share (value - c.offset share) := by
  unfold Client.ahead
  rw [update_idem]
  congr 1
  omega

theorem ahead_apply (c : Client) (n : Int) : c.ahead share n (share c.lastFd) = c.offset share + n :=
  update_self _ _ _

theorem copy_eq (c : Client) {count : Int} (hCount : 0 ≤ count) :
    c.copy count = { c with cacheOffset := c.cacheOffset + count } := by
  unfold Client.copy
  split
  · rfl
  · rw [show count = 0 by omega, Int.add_zero]

theorem Delivers.toList_eq_nil (h : Delivers share m [] offsets) : m.queue.toList = [] := by
  obtain ⟨queued, elements, hRest, hQueue, -⟩ := h
  simp_all

theorem delivers_done (hQueue : m.queue.toList = []) (hTasks : m.tasks = [])
    (hOffsets : m.offsets = offsets) : Delivers share m [] offsets :=
  ⟨[], [], rfl, forall₂_nil_right_iff.mpr hQueue, .done hTasks rfl hOffsets⟩

theorem Delivers.congr (h : Delivers share m rest offsets) (hQueue : m'.queue = m.queue)
    (hTasks : m'.tasks = m.tasks) (hOffsets : m'.offsets = m.offsets) : Delivers share m' rest offsets := by
  obtain ⟨queued, elements, hRest, hHolds, hPushes⟩ := h
  refine ⟨queued, elements, hRest, hQueue ▸ hHolds, ?_⟩
  cases hPushes with
  | done hNone hEmpty hSame => exact .done (hTasks.trans hNone) hEmpty (hOffsets.trans hSame)
  | pushing r detached next k hTask hSame hCopied =>
    exact .pushing r detached next k (hTasks.trans hTask) (hOffsets ▸ hSame) (hQueue ▸ hCopied)

theorem Delivers.release (h : Delivers share m rest offsets) (hUsed : 0 < m.queue.used) :
    ∃ element rest', rest = element :: rest' ∧ Holds (m.queue.slots m.queue.first) element ∧
      Delivers share { m with queue := m.queue.release hUsed } rest' offsets := by
  obtain ⟨queued, elements, rfl, hQueue, hPushes⟩ := h
  rw [m.queue.toList_release hUsed] at hQueue
  cases hQueue with
  | cons hHolds hQueue =>
    refine ⟨_, _, rfl, hHolds, _, elements, rfl, hQueue, ?_⟩
    cases hPushes with
    | done hTasks hNone hOffsets => exact .done hTasks hNone hOffsets
    | pushing r detached next k hTasks hOffsets hCopied =>
      exact .pushing r detached next k hTasks hOffsets hCopied

section

variable {i : Nat} {data : List Byte} {stores : Bool} {t : Task} {P : Server → Prop}

theorem serve_of_nil (hTasks : m.tasks = []) : Yields (m.serve share maxLineSize i data stores) P := by
  unfold Server.serve
  rw [hTasks]
  trivial

theorem serve_of_single (hTasks : m.tasks = [t])
    (h : Yields (m.advance share maxLineSize 0 t data stores) P) :
    Yields (m.serve share maxLineSize i data stores) P := by
  unfold Server.serve
  rw [hTasks]
  cases i with
  | zero => exact h
  | succ i => trivial

theorem Delivers.serve (h : Delivers share m rest offsets) :
    Yields (m.serve share maxLineSize i data stores)
      (fun m' => Delivers share m' rest offsets ∧ m'.request = m.request ∧ m'.replies = m.replies ∧
        (rest = [] → m'.queue = m.queue)) := by
  obtain ⟨queued, elements, rfl, hQueue, hPushes⟩ := h
  cases hPushes with
  | done hTasks => exact serve_of_nil hTasks
  | pushing r detached next k hTasks hOffsets hCopied =>
    refine serve_of_single hTasks ?_
    cases elements with
    | nil =>
      refine ⟨⟨queued, [], rfl, hQueue, .done ?_ rfl hOffsets⟩, rfl, rfl, fun _ => rfl⟩
      rw [hTasks]
      rfl
    | cons element elements =>
      have hMore : queued ++ element :: elements ≠ [] := append_ne_nil_of_right_ne_nil _ (by simp)
      have hStage : ∀ stage, m.tasks.set 0 ⟨r, detached, stage⟩ = [⟨r, detached, stage⟩] := by
        intro stage
        rw [hTasks]
        rfl
      unfold Server.advance
      dsimp only
      split
      · next hRoom =>
        split
        · next b hb =>
          refine .ite (fun _ => ?_) fun _ => trivial
          refine ⟨⟨queued, element :: elements, rfl, ?_, .pushing r detached next (k + 1)
            (hStage _) hOffsets ?_⟩,
            rfl, rfl, fun hNone => absurd hNone hMore⟩
          · exact (m.queue.toList_set_last hRoom _).symm ▸ hQueue
          · -- the bytes copied before stay, and one is added
            rintro _ ⟨⟩ j hj
            change element[j]? = some (update m.queue.slots m.queue.last
              (update (m.queue.slots m.queue.last) k b) m.queue.last j)
            rw [update_self]
            grind
        · next hEnd =>
          have hHolds : Holds (m.queue.slots m.queue.last) element := by
            intro j hj
            exact hCopied element rfl j (Nat.lt_of_lt_of_le hj (getElem?_eq_none_iff.mp hEnd))
          refine ⟨⟨queued ++ [element], elements, append_cons queued element elements, ?_,
            .pushing r detached next 0 (hStage _) hOffsets fun _ _ j hj => absurd hj (Nat.not_lt_zero j)⟩,
            rfl, rfl, fun hNone => absurd hNone hMore⟩
          exact (m.queue.toList_reserve hRoom).symm ▸ rel_append hQueue (.cons hHolds .nil)
      · trivial

section

variable (h : Waits share maxLineSize m r base)
include h

theorem Waits.serve :
    Yields (m.serve share maxLineSize i data stores) (fun m' => Waits share maxLineSize m' r base) := by
  cases h with
  | sent hRequest hReplies hRest =>
    refine hRest.serve.imp ?_
    rintro m' ⟨hRest', hRequest', hReplies', -⟩
    exact .sent (hRequest'.trans hRequest) (hReplies'.trans hReplies) hRest'
  | taken detached stage hRequest hReplies hQueue hTasks hOffsets hStage =>
    refine serve_of_single hTasks ?_
    subst hOffsets
    have hErase : m.tasks.eraseIdx 0 = [] := by
      rw [hTasks]
      rfl
    have hSet : ∀ stage, m.tasks.set 0 ⟨r, detached, stage⟩ = [⟨r, detached, stage⟩] := by
      intro stage
      rw [hTasks]
      rfl
    have hLast : ∀ reply : Int × List Byte, m.replies ++ [reply] = [reply] := by
      intro reply
      rw [hReplies, nil_append]
    obtain rfl | ⟨hWait, rfl⟩ := hStage
    · cases r with
      | seek fd offset =>
        refine .answered offset [] hRequest (hLast _) ⟨rfl, rfl⟩ ?_
        rw [pieces_nil]
        exact delivers_done hQueue hErase rfl
      | read fd count => exact .taken detached _ hRequest hReplies hQueue (hSet _) rfl (.inr ⟨rfl, rfl⟩)
      | getdents fd count =>
          exact .taken detached _ hRequest hReplies hQueue (hSet _) rfl (.inr ⟨rfl, rfl⟩)
    · unfold Server.advance
      refine .ite (fun hAllows => ?_) fun _ => trivial
      have hValue : r.Replies (m.offsets (share r.fd)) (m.offsets (share r.fd) + data.length) data := by
        cases r with
        | seek => cases hWait
        | read | getdents => exact ⟨rfl, hAllows⟩
      refine .ite (fun hEnd => ?_) fun _ => ?_
      · obtain ⟨rfl, -⟩ := hEnd
        refine .answered _ [] hRequest (hLast _) hValue ?_
        rw [pieces_nil]
        refine delivers_done hQueue hErase ?_
        rw [length_nil, Nat.cast_zero, Int.add_zero, update_eq_self]
        rfl
      · refine .answered _ data hRequest (hLast _) hValue ⟨[], pieces maxLineSize data, rfl, ?_, ?_⟩
        · exact forall₂_nil_right_iff.mpr hQueue
        · exact .pushing r detached _ 0 (hSet _) rfl fun _ _ j hj => (nomatch hj)
  | answered value data' hRequest hReplies hValue hRest =>
    refine hRest.serve.imp ?_
    rintro m' ⟨hRest', hRequest', hReplies', -⟩
    exact .answered value data' (hRequest'.trans hRequest) (hReplies'.trans hReplies) hValue hRest'

theorem Waits.take (hFree : m.tasks = []) (detached : Bool) :
    Yields (m.take detached) (fun m' => Waits share maxLineSize m' r base) := by
  cases h with
  | sent hRequest hReplies hRest =>
    have hQueue := hRest.toList_eq_nil
    obtain ⟨queued, elements, -, -, hPushes⟩ := hRest
    unfold Server.take
    rw [hRequest]
    refine .ite (fun _ => ?_) fun _ => trivial
    cases hPushes with
    | done _ _ hOffsets =>
      refine .taken (detached && r.mayWait) .start rfl hReplies hQueue ?_ hOffsets (.inl rfl)
      rw [hFree, nil_append]
    | pushing _ _ _ _ hTasks => cases hFree.symm.trans hTasks
  | taken _ _ hRequest =>
    unfold Server.take
    rw [hRequest]
    trivial
  | answered _ _ hRequest =>
    unfold Server.take
    rw [hRequest]
    trivial

theorem Waits.reply (hReplies : m.replies = (value, data) :: replies) :
    replies = [] ∧ m.request = none ∧ r.Replies (base (share r.fd)) value data ∧
      Delivers share { m with replies := replies } (pieces maxLineSize data)
        (update base (share r.fd) value) := by
  cases h with
  | sent _ hNone => cases hNone.symm.trans hReplies
  | taken _ _ _ hNone => cases hNone.symm.trans hReplies
  | answered value' data' hRequest hOne hValue hRest =>
    obtain ⟨⟨rfl, rfl⟩, rfl⟩ : (value' = value ∧ data' = data) ∧ [] = replies := by
      simpa using hOne.symm.trans hReplies
    exact ⟨rfl, hRequest, hValue, hRest.congr rfl rfl rfl⟩

end

end

section

variable {c : Client} {count : Int} {isGetdents : Bool}

theorem inv_finish (hRequest : m.request = none) (hReplies : m.replies = [])
    (hRest : Delivers share m [] (c.ahead share (offset + (c.remaining - k) - c.offset share)))
    (hIntact : Intact maxLineSize ⟨c, m⟩) (hStart : 0 ≤ c.cacheOffset) (hLine : c.actualSize ≤ maxLineSize)
    (hk : 0 ≤ k) (hLe : k ≤ c.remaining) : Inv share maxLineSize ⟨(c.copy k).finish share offset, m⟩ := by
  rw [copy_eq c hk]
  have hRemaining : ({ c with cacheOffset := c.cacheOffset + k }.finish share offset).remaining =
      c.remaining - k := by
    unfold Client.remaining Client.finish
    dsimp only
    omega
  refine ⟨Int.add_nonneg hStart hk, ?_, hLine, ⟨hRequest, hReplies, ?_⟩, ?_⟩
  · exact hRemaining ▸ Int.sub_nonneg_of_le hLe
  · rw [hRemaining, ahead_finish]
    exact hRest
  · intro i hi hEnd
    exact hIntact i (Int.le_trans (Int.le_add_of_nonneg_right hk) hi) hEnd

theorem inv_readFrom (hRests : Rests share s.server c) (hIntact : Intact maxLineSize ⟨c, s.server⟩)
    (hStart : 0 ≤ c.cacheOffset) (hLeft : 0 ≤ c.remaining) (hLine : c.actualSize ≤ maxLineSize)
    (hCount : 0 ≤ count) : Inv share maxLineSize (s.readFrom share maxLineSize c count isGetdents) := by
  have hNonneg : 0 ≤ if isGetdents then count.tdiv DIRENT_SIZE * DIRENT_SIZE else count := by
    split
    · exact Int.mul_nonneg (Int.tdiv_nonneg hCount (Int.natCast_nonneg _)) (Int.natCast_nonneg _)
    · exact hCount
  unfold State.readFrom
  generalize (if isGetdents then count.tdiv DIRENT_SIZE * DIRENT_SIZE else count) = n at hNonneg
  dsimp only
  split
  · next hCached =>
    refine inv_finish hRests.request hRests.replies ?_ hIntact hStart hLine hNonneg hCached
    grind [hRests.delivers]
  · next hMore =>
    rw [copy_eq c hLeft]
    have hUsedUp : c.actualSize - (c.cacheOffset + c.remaining) = 0 := by
      unfold Client.remaining
      omega
    refine ⟨Int.add_nonneg hStart hLeft, hUsedUp.ge, hLine, hUsedUp, rfl, hLeft, Int.not_le.mp hMore, ?_⟩
    exact .sent rfl hRests.replies (hRests.delivers.congr rfl rfl rfl)

theorem rests_of_remaining (hRequest : m.request = none) (hReplies : m.replies = [])
    (hRest : Delivers share m [] c.offsets) (hLeft : c.remaining = 0) :
    Rests share m { c with lastFd := fd } := by
  refine ⟨hRequest, hReplies, ?_⟩
  grind [ahead_zero, Client.remaining]

theorem inv_goOn {next : Option (Fd × Int × Bool)} (hRequest : s.server.request = none)
    (hReplies : s.server.replies = []) (hRest : Delivers share s.server [] c.offsets)
    (hLeft : c.remaining = 0) (hStart : 0 ≤ c.cacheOffset) (hLine : c.actualSize ≤ maxLineSize)
    (hNext : ∀ n ∈ next, 0 ≤ n.2.1) : Inv share maxLineSize (s.goOn share maxLineSize c next) := by
  cases next with
  | none =>
    refine ⟨hStart, hLeft.ge, hLine, ?_, intact_of_remaining hLeft⟩
    exact rests_of_remaining (c := { c with phase := .idle }) hRequest hReplies hRest hLeft
  | some n =>
    obtain ⟨fd, count, isGetdents⟩ := n
    refine inv_readFrom (rests_of_remaining hRequest hReplies hRest hLeft) ?_ hStart hLeft.ge hLine
      (hNext _ rfl)
    exact intact_of_remaining hLeft

theorem inv_flush {next : Option (Fd × Int × Bool)} (h : Inv share maxLineSize s)
    (hRests : Rests share s.server s.client)
    (hNext : ∀ n ∈ next, 0 ≤ n.2.1) : Inv share maxLineSize (s.flush share maxLineSize next) := by
  unfold State.flush
  dsimp only
  split
  · -- the line is discarded, and the server is told where the client is
    refine ⟨Int.le_refl 0, Int.le_refl 0, Int.natCast_nonneg _, rfl, hNext, _, .sent rfl hRests.replies
      (hRests.delivers.congr rfl rfl rfl), ?_⟩
    have hBack := ahead_update share s.client s.client.remaining (s.client.offset share)
    rw [Int.sub_self, ahead_zero] at hBack
    exact hBack
  · next hUsedUp =>
    have hLeft : s.client.remaining = 0 := by
      unfold Client.remaining
      omega
    have hRest := hRests.delivers
    rw [hLeft, ahead_zero] at hRest
    exact inv_goOn hRests.request hRests.replies hRest hLeft h.start h.line hNext

theorem inv_deliver (hRequest : m.request = none) (hReplies : m.replies = [])
    (hRest : Delivers share m [] (c.ahead share (remaining + c.actualSize)))
    (hIntact : Intact maxLineSize ⟨c, m⟩) (hZero : c.cacheOffset = 0) (hSize : 0 ≤ c.actualSize)
    (hLine : c.actualSize ≤ maxLineSize) (hMore : remaining < count) :
    Inv share maxLineSize ⟨c.deliver share (c.offset share) remaining count, m⟩ := by
  have hWhole : c.remaining = c.actualSize := by
    unfold Client.remaining
    omega
  grind [Client.deliver, inv_finish, hZero.ge, hWhole.ge]

theorem intact_of_holds (hLine : c.sent.length ≤ maxLineSize) (hSize : c.actualSize = c.sent.length)
    (hHolds : Holds (m.queue.slots c.cache) c.sent) : Intact maxLineSize ⟨c, m⟩ := by
  intro i _ hEnd
  have hi : i < c.sent.length := by
    have : (i : Int) < c.actualSize := hEnd
    omega
  have hSlot : i / maxLineSize = 0 := Nat.div_eq_of_lt (Nat.lt_of_lt_of_le hi hLine)
  unfold State.cached
  rw [hSlot, Nat.add_zero, Nat.mod_eq_of_lt (Nat.lt_of_lt_of_le hi hLine)]
  exact hHolds i hi

theorem pieces_length_le (hL : 0 < maxLineSize) {data : List Byte} {n : Int} (hn : 0 ≤ n) :
    (pieces maxLineSize data).length ≤ (sizes maxLineSize (n + data.length).toNat).length := by
  rw [length_pieces hL, length_sizes hL]
  exact (gc_smul_ceilDiv hL).monotone_l (by omega)

theorem replies_requestFor
    (h : (c.requestFor maxLineSize remaining count isGetdents).Replies offset value data) :
    value = offset + data.length ∧
      (¬ Client.Exact maxLineSize remaining count isGetdents → data.length ≤ maxLineSize) := by
  cases isGetdents with
  | true => exact ⟨h.1, fun hShort => absurd (.inr rfl) hShort⟩
  | false =>
    refine ⟨h.1, fun hShort => ?_⟩
    have hAllows : (data.length : Int) ≤ if Client.Exact maxLineSize remaining count false then
      count - remaining else maxLineSize := h.2
    rw [if_neg hShort] at hAllows
    exact Int.ofNat_le.mp hAllows

theorem fd_requestFor : (c.requestFor maxLineSize remaining count isGetdents).fd = c.lastFd := by
  cases isGetdents with
  | true => rfl
  | false => rfl

theorem proceed_inv (hL : 0 < maxLineSize) (h : Inv share maxLineSize s) :
    Yields (s.proceed share maxLineSize) (Inv share maxLineSize) := by
  obtain ⟨hStart, hLeft, hLine, hExpects⟩ := h
  unfold State.proceed
  dsimp only
  split
  · next next reply replies hPhase hReplied =>
    rw [hPhase] at hExpects
    obtain ⟨hUsedUp, hNext, base, hWaits, hBase⟩ := hExpects
    obtain ⟨rfl, hRequest, ⟨hValue, hData⟩, hRest⟩ := hWaits.reply hReplied
    rw [hData, pieces_nil, hValue] at hRest
    exact inv_goOn hRequest rfl (hBase ▸ hRest) hUsedUp hStart hLine hNext
  · next fileOffset remaining count isGetdents value data replies hPhase hReplied =>
    rw [hPhase] at hExpects
    obtain ⟨hUsedUp, rfl, hRemaining, hMore, hWaits⟩ := hExpects
    obtain ⟨rfl, hRequest, hValue, hRest⟩ := hWaits.reply hReplied
    obtain ⟨hValue, hShort⟩ := replies_requestFor hValue
    rw [fd_requestFor, ahead_update] at hRest
    rw [fd_requestFor, ahead_apply] at hValue
    refine .ite (fun _ => ?_) fun hFits => ?_
    · have hRead : value - s.client.offset share = remaining + data.length := by omega
      unfold State.elementsOf
      rw [hRead, if_pos (by omega)]
      rw [hRead] at hRest
      exact ⟨hStart, hUsedUp.ge, hLine, hUsedUp, rfl, hRequest, rfl, _,
        pieces_length_le hL hRemaining, hRest⟩
    · have hSize : value - s.client.offset share - remaining = data.length := by omega
      refine ⟨hStart, hUsedUp.ge, hLine, hUsedUp, rfl, hMore, hSize, hShort hFits, hRequest, rfl, ?_⟩
      rw [show remaining + (value - s.client.offset share - remaining) =
        value - s.client.offset share by omega]
      exact hRest
  · next fileOffset bytesRead hPhase =>
    rw [hPhase] at hExpects
    obtain ⟨hUsedUp, rfl, hRequest, hReplies, rest, hLength, hRest⟩ := hExpects
    obtain rfl : rest = [] := length_eq_zero_iff.mp (Nat.le_zero.mp hLength)
    refine inv_finish (k := 0) hRequest hReplies ?_ (intact_of_remaining hUsedUp) hStart hLine
      (Int.le_refl 0) hUsedUp.ge
    grind
  · next fileOffset bytesRead left hPhase =>
    rw [hPhase] at hExpects
    obtain ⟨hUsedUp, rfl, hRequest, hReplies, rest, hLength, hRest⟩ := hExpects
    split
    · next hUsed =>
      obtain ⟨element, rest', rfl, -, hRest'⟩ := hRest.release hUsed
      exact ⟨hStart, hUsedUp.ge, hLine, hUsedUp, rfl, hRequest, hReplies, rest',
        Nat.le_of_succ_le_succ hLength, hRest'⟩
    · trivial
  · next fileOffset remaining count actualSize hPhase =>
    rw [hPhase] at hExpects
    obtain ⟨hUsedUp, rfl, hMore, rfl, hShort, hRequest, hReplies, hRest⟩ := hExpects
    refine .ite (fun hSome => ?_) fun hNone => ?_
    · have hOne : pieces maxLineSize s.client.sent = [s.client.sent] :=
        pieces_of_le hL (length_pos_iff.mp (by omega)) hShort
      split
      · next hUsed =>
        obtain ⟨element, rest', hElement, hHolds, hRest'⟩ := hRest.release hUsed
        rw [hOne] at hElement
        obtain ⟨rfl, rfl⟩ := cons.inj hElement
        exact inv_deliver hRequest hReplies hRest' (intact_of_holds hShort rfl hHolds) rfl
          (Int.natCast_nonneg _) (Int.ofNat_le.mpr hShort) hMore
      · trivial
    · have hEmpty : s.client.sent = [] := length_eq_zero_iff.mp (by omega)
      have hRest' : Delivers share s.server []
        (s.client.ahead share (remaining + s.client.sent.length)) := by
        rwa [hEmpty, pieces_nil, ← hEmpty] at hRest
      refine inv_deliver hRequest hReplies hRest' (intact_of_remaining ?_) rfl (Int.natCast_nonneg _)
        (Int.ofNat_le.mpr hShort) hMore
      rw [hEmpty]
      rfl
  · trivial

end

theorem Inv.of_server (h : Inv share maxLineSize s)
    (hx : Yields x (fun m => Expects share maxLineSize m s.client s.client.phase)) :
    Yields ((fun server => { s with server := server }) <$> x) (Inv share maxLineSize) :=
  Ends.map (hx.imp (fun _ hExpects => ⟨h.start, h.left, h.line, hExpects⟩))

theorem serve_expects (h : Inv share maxLineSize s) (i : Nat) (data : List Byte) (stores : Bool) :
    Yields (s.server.serve share maxLineSize i data stores)
      (fun m => Expects share maxLineSize m s.client s.client.phase) := by
  have hExpects := h.expects
  cases hPhase : s.client.phase with
  | idle =>
    rw [hPhase] at hExpects
    obtain ⟨⟨hRequest, hReplies, hRest⟩, hIntact⟩ := hExpects
    refine hRest.serve.imp ?_
    rintro m ⟨hRest', hRequest', hReplies', hQueue⟩
    refine ⟨⟨hRequest'.trans hRequest, hReplies'.trans hReplies, hRest'⟩, fun i hi hEnd => ?_⟩
    unfold State.cached
    rw [hQueue rfl]
    exact hIntact i hi hEnd
  | seeking next =>
    rw [hPhase] at hExpects
    obtain ⟨hUsedUp, hNext, base, hWaits, hBase⟩ := hExpects
    exact hWaits.serve.imp (fun m hWaits' => ⟨hUsedUp, hNext, base, hWaits', hBase⟩)
  | requested =>
    rw [hPhase] at hExpects
    obtain ⟨hUsedUp, hOffset, hRemaining, hMore, hWaits⟩ := hExpects
    exact hWaits.serve.imp (fun m hWaits' => ⟨hUsedUp, hOffset, hRemaining, hMore, hWaits'⟩)
  | taking =>
    rw [hPhase] at hExpects
    obtain ⟨hUsedUp, hOffset, hRequest, hReplies, rest, hLength, hRest⟩ := hExpects
    refine hRest.serve.imp ?_
    rintro m ⟨hRest', hRequest', hReplies', -⟩
    exact ⟨hUsedUp, hOffset, hRequest'.trans hRequest, hReplies'.trans hReplies, rest, hLength, hRest'⟩
  | fetching =>
    rw [hPhase] at hExpects
    obtain ⟨hUsedUp, hOffset, hMore, hSize, hShort, hRequest, hReplies, hRest⟩ := hExpects
    refine hRest.serve.imp ?_
    rintro m ⟨hRest', hRequest', hReplies', -⟩
    exact ⟨hUsedUp, hOffset, hMore, hSize, hShort, hRequest'.trans hRequest,
      hReplies'.trans hReplies, hRest'⟩

theorem take_of_none (hRequest : m.request = none) (detached : Bool) : Yields (m.take detached) P := by
  unfold Server.take
  rw [hRequest]
  trivial

theorem take_expects (h : Inv share maxLineSize s) (hFree : s.server.tasks = []) (detached : Bool) :
    Yields (s.server.take detached) (fun m => Expects share maxLineSize m s.client s.client.phase) := by
  have hExpects := h.expects
  cases hPhase : s.client.phase with
  | idle =>
    rw [hPhase] at hExpects
    exact take_of_none hExpects.1.request detached
  | seeking next =>
    rw [hPhase] at hExpects
    obtain ⟨hUsedUp, hNext, base, hWaits, hBase⟩ := hExpects
    exact (hWaits.take hFree detached).imp (fun m hWaits' => ⟨hUsedUp, hNext, base, hWaits', hBase⟩)
  | requested =>
    rw [hPhase] at hExpects
    obtain ⟨hUsedUp, hOffset, hRemaining, hMore, hWaits⟩ := hExpects
    exact (hWaits.take hFree detached).mono
      (fun m hWaits' => ⟨hUsedUp, hOffset, hRemaining, hMore, hWaits'⟩) fun _ => id
  | taking =>
    rw [hPhase] at hExpects
    exact take_of_none hExpects.2.2.1 detached
  | fetching =>
    rw [hPhase] at hExpects
    exact take_of_none hExpects.2.2.2.2.2.1 detached

theorem read_inv (h : Inv share maxLineSize s) (hPhase : s.client.phase = .idle) {fd : Fd} {count : Int}
    (hCount : 0 ≤ count) (isGetdents : Bool) :
    Yields (s.read share maxLineSize fd count isGetdents) (Inv share maxLineSize) := by
  have hExpects := h.expects
  rw [hPhase] at hExpects
  obtain ⟨hRests, hIntact⟩ := hExpects
  refine .ite (fun _ => trivial) fun _ => .ite (fun _ => ?_) fun _ => ?_
  · refine inv_flush h hRests ?_
    rintro _ ⟨⟩
    exact hCount
  · exact inv_readFrom hRests hIntact h.start h.left h.line hCount

theorem step_inv (hL : 0 < maxLineSize) (h : Inv share maxLineSize s) (he : Sequential s e) :
    Yields (step share maxLineSize s e) (Inv share maxLineSize) := by
  cases e with
  | call c =>
    cases hPhase : s.client.phase with
    | idle =>
      simp only [step, hPhase]
      cases c with
      | read fd count => exact read_inv h hPhase he false
      | getdents fd count => exact read_inv h hPhase he true
      | flush =>
        have hExpects := h.expects
        rw [hPhase] at hExpects
        exact inv_flush h hExpects.1 fun _ hn => (nomatch hn)
    | seeking | requested | taking | fetching =>
      simp only [step, hPhase]
      trivial
  | client => exact proceed_inv hL h
  | take detached => exact h.of_server (take_expects h (length_eq_zero_iff.mp he) detached)
  | serve i data stores => exact h.of_server (serve_expects h i data stores)

theorem inv_start (n : Nat) (hn : 0 < n) (slots : Nat → Nat → Byte) (offsets : Nat → Int) :
    Inv share maxLineSize (start n hn slots offsets) := by
  refine ⟨Int.le_refl 0, Int.le_refl 0, Int.natCast_nonneg _, ⟨rfl, rfl, ?_⟩, intact_of_remaining rfl⟩
  exact delivers_done rfl rfl (ahead_zero share (start n hn slots offsets).client).symm

end

def oneLine : State := start 1 Nat.one_pos (fun _ _ => 0) fun _ => 0

def run (events : List Event) (s : State) : Except Unit State := events.foldlM (step (fun _ => 0) 4) s

def answerAt (i : Nat) (detached : Bool) (data : List Byte) : List Event :=
  [.take detached, .serve i [] true, .serve i data true]

def pushAt (i : Nat) : List Event := replicate 5 (.serve i [] true)

def storeAt (i : Nat) : Event := .serve i [] true

def readLine (i : Nat) (count : Int) (detached : Bool) (data : List Byte) : List Event :=
  .call (.read 3 count) :: answerAt i detached data ++ pushAt i ++ [.client, .client]

def twoReads : List Event :=
  readLine 0 1 true [1, 2, 3, 4] ++ [storeAt 0, .call (.read 3 1)]

def overtaken : List Event :=
  readLine 0 4 true [1, 2, 3, 4] ++ readLine 1 1 false [1, 2, 3, 4] ++ [storeAt 1, storeAt 0] ++
    .call (.read 3 1) :: answerAt 0 false [5, 6, 7, 8] ++ [.client, .client]

def negativeCount : List Event :=
  [.call (.read 3 (-1))] ++ readLine 0 1 false [1, 2, 3, 4]

theorem client_of_pushAt (h : run (pushAt i) s = .ok s') : s'.client = s.client := by
  refine (Ends.foldlM (I := fun t => t.client = s.client) (E := fun _ => True) ?_ rfl).result h
  intro e he t ht
  rw [eq_of_mem_replicate he]
  exact Ends.map (Ends.always (fun _ => ht) _)

end Capio.Posix.PrefetchedLine
