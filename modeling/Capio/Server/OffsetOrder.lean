import Capio.Lib.Outcome
import Capio.Storage.Service

/-! # The requests on a descriptor, one after the other

A client sends its next request when the previous one is answered.  The request thread handles one
request at a time, but a read that has to wait is answered by a detached thread or by the listener,
which store the new offset after the answer.  Threads take turns after every look at the offset,
every answer and every store; what a thread finds of the file at its turn is arbitrary.
-/
namespace Capio.Server.OffsetOrder

open Common Lib.Outcome Storage Function List

inductive Operation
  | read (count : Nat)
  | getdents (count : Nat)
  | lseek (offset : Int)
  | write (count : Nat)

def Operation.answered : Operation → Bool
  | .write _ => false
  | .read _ | .getdents _ | .lseek _ => true

structure Request where
  tid : Tid
  fd : Fd
  op : Operation

/-- How far a request is: not looked at; the thread waits for the location of the file, for its commit
or for its data; it waits for entries, before and after its look at the offset; the home node was
asked; the answer is known, with the offset the request is served at, the one behind it, and whether
that is stored afterwards; the answer to a seek is due; the offset is to be stored. -/
inductive Stage
  | start
  | locate
  | await (offset : Int) (commit : Bool)
  | enterDirents (size count : Int)
  | awaitDirents (offset size count : Int)
  | remote
  | answer (offset next : Int) (stores : Bool)
  | acknowledge
  | store (next : Int)

/-- What a thread finds at its turn; `home` says that the file is one of this node. -/
structure View where
  file : CapioFile
  firable : Bool
  isProd : Bool
  located : Bool
  home : Bool

section

variable (v : View) (offset : Int)

def handleLocalRead (count : Nat) (isProd : Bool) : Stage :=
  match localRead v.firable v.file offset count isProd with
  | .waitForCommit => .await offset true
  | .waitForData => .await offset false
  | .endOfFile => .answer offset offset false
  | .send n => .answer offset (offset + n) true

def requestRemoteRead (count : Nat) : Stage :=
  match remoteSource v.file offset count with
  | .localRead => handleLocalRead v offset count true
  | .here => .answer offset (offset + count) true
  | .home => .remote

def handleRead (count : Nat) : Stage :=
  if !v.located && !v.isProd then .locate
  else if v.isProd || v.home then handleLocalRead v offset count v.isProd
  else requestRemoteRead v offset count

def waitForFile (count : Nat) : Stage :=
  if v.home then handleLocalRead v offset count false else requestRemoteRead v offset count

def entryAt (offset : Int) : Int := asInt (offset % 18446744073709551616 / DIRENT_SIZE)

def sendDirentToClient (count : Int) : Stage :=
  let first := entryAt offset
  let last := entryAt (min (offset + count) v.file.getStoredSize)
  let actualSize := (last - first) * DIRENT_SIZE
  if actualSize > 0 then .answer offset (offset + actualSize) true
  else if !v.file.committed && v.firable then .enterDirents ((last + 1) * DIRENT_SIZE) (asInt count)
  else .answer offset offset false

def requestRemoteGetdents (count : Nat) : Stage :=
  match remoteSource v.file offset count with
  | .localRead => sendDirentToClient v offset count
  | .here => .answer offset (offset + count) true
  | .home => .remote

def handleGetdents (count : Nat) : Stage :=
  if !v.located && !v.isProd then .locate
  else if v.isProd || v.home then sendDirentToClient v offset count
  else requestRemoteGetdents v offset count

def replySize (count : Nat) : Int :=
  let stop := sectorEnd v.file offset
  if stop > offset + asInt count then asInt count else stop - offset

end

structure Task where
  request : Request
  number : Nat
  stage : Stage

abbrev Cell := Tid × Nat

/-- That a request was served at an offset while an earlier one had left `left`; that the request with
a number has stored its offset while `accepted` requests on the cell were taken up. -/
inductive Entry
  | served (cell : Cell) (offset left : Int)
  | stored (cell : Cell) (number accepted : Nat)
  deriving DecidableEq

/-- `requestThread` and `listener` are the requests that these two threads are at.  The last three
fields record what happened: the offset that the last request served leaves, the number of requests
taken up, and the entries. -/
structure State where
  offsets : Cell → Int
  waiting : Tid → Bool := fun _ => false
  queue : List Request := []
  tasks : Nat → Option Task := fun _ => none
  nextTask : Nat := 0
  requestThread : Option Nat := none
  listener : Option Nat := none
  left : Cell → Int := offsets
  accepted : Cell → Nat := fun _ => 0
  log : List Entry := []

namespace State

def setTask (s : State) (k : Nat) (t : Option Task) : State :=
  { s with tasks := update s.tasks k t }

def leave (s : State) (k : Nat) : State :=
  { s with
    requestThread := if s.requestThread = some k then none else s.requestThread
    listener := if s.listener = some k then none else s.listener }

def serve (s : State) (cell : Cell) (offset next : Int) : State :=
  { s with
    left := update s.left cell next
    log := .served cell offset (s.left cell) :: s.log }

def setFileOffset (s : State) (cell : Cell) (number : Nat) (offset : Int) : State :=
  { s with
    offsets := update s.offsets cell offset
    log := .stored cell number (s.accepted cell) :: s.log }

def replyToClient (s : State) (tid : Tid) : State :=
  { s with waiting := update s.waiting tid false }

end State

def Stage.detached : Stage → Bool
  | .locate | .await _ _ | .enterDirents _ _ | .awaitDirents _ _ _ | .remote => true
  | .start | .answer _ _ _ | .acknowledge | .store _ => false

section

-- the descriptors of a thread that share their offset
variable (share : Tid → Fd → Nat)

def Request.cell (r : Request) : Cell := (r.tid, share r.tid r.fd)

def State.proceed (s : State) (k : Nat) (t : Task) (stage : Stage) : State :=
  let s := s.setTask k (some { t with stage := stage })
  if stage.detached then s.leave k else s

def State.finish (s : State) (k : Nat) : State := (s.setTask k none).leave k

/-- The next turn of the thread that is at a request; it fails if the thread has to wait. -/
def advance (s : State) (k : Nat) (t : Task) (v : View) : Except Unit State :=
  let cell := t.request.cell share
  let offset := s.offsets cell
  match t.stage, t.request.op with
  | .start, .read count => pure (s.proceed k t (handleRead v offset count))
  | .start, .getdents count => pure (s.proceed k t (handleGetdents v offset count))
  | .start, .lseek target =>
    let s := { s.setFileOffset cell t.number target with left := update s.left cell target }
    pure (s.proceed k t .acknowledge)
  | .start, .write count =>
    pure ((s.serve cell offset (offset + count)).proceed k t (.store (offset + count)))
  | .locate, .read count => pure (s.proceed k t (waitForFile v offset count))
  | .locate, .getdents count =>
    pure (s.proceed k t (if v.home then handleGetdents v offset count
      else requestRemoteGetdents v offset count))
  | .await processOffset commit, .read count =>
    if if commit then v.file.committed else v.file.dataReady (processOffset + count) then
      pure (s.proceed k t (.answer processOffset (processOffset + pendingRead v.file processOffset count) true))
    else throw ()
  | .enterDirents size count, _ => pure (s.proceed k t (.awaitDirents offset size count))
  | .awaitDirents currentSize size count, _ =>
    if v.file.dataReady size then pure (s.proceed k t (sendDirentToClient v currentSize count))
    else throw ()
  | .remote, .read count =>
    if s.listener = none then
      pure ({ s with listener := some k }.proceed k t
        (.answer offset (offset + replySize v offset count) true))
    else throw ()
  | .remote, .getdents count =>
    if s.listener = none then
      pure ({ s with listener := some k }.proceed k t
        (sendDirentToClient v offset (replySize v offset count)))
    else throw ()
  | .answer processOffset next stores, _ =>
    let s := (s.serve cell processOffset next).replyToClient t.request.tid
    pure (if stores then s.proceed k t (.store next) else s.finish k)
  | .acknowledge, _ => pure ((s.replyToClient t.request.tid).finish k)
  | .store next, _ => pure ((s.setFileOffset cell t.number next).finish k)
  | _, _ => throw ()

inductive Event
  | send (r : Request)
  | accept
  | advance (k : Nat) (v : View)

def step (s : State) : Event → Except Unit State
  | .send r =>
    if s.waiting r.tid then throw ()
    else pure { s with
      queue := s.queue ++ [r]
      waiting := if r.op.answered then update s.waiting r.tid true else s.waiting }
  | .accept =>
    match s.requestThread, s.queue with
    | none, r :: queue =>
      let number := s.accepted (r.cell share) + 1
      pure { s with
        queue := queue
        accepted := update s.accepted (r.cell share) number
        tasks := update s.tasks s.nextTask (some ⟨r, number, .start⟩)
        nextTask := s.nextTask + 1
        requestThread := some s.nextTask }
    | _, _ => throw ()
  | .advance k v =>
    match s.tasks k with
    | some t => advance share s k t v
    | none => throw ()

def Stage.storing : Stage → Bool
  | .store _ => true
  | _ => false

/-- No other thread still has to store the offset of an earlier request on the descriptor when the
request thread takes one up. -/
def Settled (s : State) : Event → Prop
  | .accept => ∀ r ∈ s.queue.head?, ∀ k < s.nextTask, ∀ t ∈ s.tasks k,
    t.request.cell share = r.cell share → t.stage.storing = false
  | _ => True

end

/-- A request is served where the one before it has left the offset; and when a request stores its
offset, it is the last one that was taken up. -/
def Entry.Ok : Entry → Prop
  | .served _ offset left => offset = left
  | .stored _ number accepted => number = accepted

def Task.Unanswered (t : Task) : Prop := t.request.op.answered = true ∧ t.stage.storing = false

/-- A client has at most one request that is to be answered, behind all others it has sent. -/
structure Disciplined (s : State) : Prop where
  bound : ∀ k t, s.tasks k = some t → k < s.nextTask
  clients : ∀ k t, s.tasks k = some t → t.Unanswered →
    s.waiting t.request.tid = true ∧ ∀ r ∈ s.queue, r.tid ≠ t.request.tid
  single : ∀ j k t t', s.tasks j = some t → s.tasks k = some t' → t.Unanswered → t'.Unanswered →
    t.request.tid = t'.request.tid → j = k
  writers : ∀ k t, s.tasks k = some t → t.request.op.answered = false → s.requestThread = some k
  queued : ∀ r ∈ s.queue, r.op.answered = true → s.waiting r.tid = true
  last : s.queue.Pairwise fun r r' => r.op.answered = true → r'.tid ≠ r.tid

def Stage.At (left : Int) : Stage → Prop
  | .await offset _ => offset = left
  | .awaitDirents offset _ _ => offset = left
  | .answer offset next stores => offset = left ∧ (stores = false → next = offset)
  | .store _ => False
  | .start | .locate | .enterDirents _ _ | .remote | .acknowledge => True

section

variable {s s' : State} {k : Nat} {t : Task}

structure TaskOk (share : Tid → Fd → Nat) (s : State) (t : Task) : Prop where
  number : t.number = s.accepted (t.request.cell share)
  stage : t.stage.At (s.left (t.request.cell share)) ∧
      s.offsets (t.request.cell share) = s.left (t.request.cell share) ∨
    t.stage = .store (s.left (t.request.cell share))
  write : t.request.op.answered = false → t.stage = .start ∨ t.stage.storing = true

/-- At most one request on a cell is under way, and the offset is the one left when it is not due to
be stored. -/
structure Ordered (share : Tid → Fd → Nat) (s : State) : Prop where
  tasks : ∀ k t, s.tasks k = some t → TaskOk share s t
  cells : ∀ j k t t', s.tasks j = some t → s.tasks k = some t' →
    t.request.cell share = t'.request.cell share → j = k
  idle : ∀ cell, (∀ k t, s.tasks k = some t → t.request.cell share ≠ cell) → s.offsets cell = s.left cell
  log : ∀ e ∈ s.log, e.Ok

structure Sound (share : Tid → Fd → Nat) (s : State) : Prop where
  disciplined : Disciplined s
  ordered : Ordered share s

section

variable (v : View) (offset : Int)

theorem handleLocalRead_at (count : Nat) (isProd : Bool) :
    (handleLocalRead v offset count isProd).At offset := by
  unfold handleLocalRead
  split
  · rfl
  · rfl
  · exact ⟨rfl, fun _ => rfl⟩
  · exact ⟨rfl, fun h => (nomatch h)⟩

theorem requestRemoteRead_at (count : Nat) : (requestRemoteRead v offset count).At offset := by
  unfold requestRemoteRead
  split
  · exact handleLocalRead_at v offset count true
  · exact ⟨rfl, fun h => (nomatch h)⟩
  · trivial

theorem handleRead_at (count : Nat) : (handleRead v offset count).At offset := by
  unfold handleRead
  split
  · trivial
  · split
    · exact handleLocalRead_at v offset count v.isProd
    · exact requestRemoteRead_at v offset count

theorem waitForFile_at (count : Nat) : (waitForFile v offset count).At offset := by
  unfold waitForFile
  grind [handleLocalRead_at, requestRemoteRead_at]

theorem sendDirentToClient_at (count : Int) : (sendDirentToClient v offset count).At offset := by
  unfold sendDirentToClient
  dsimp only
  split
  · exact ⟨rfl, fun h => (nomatch h)⟩
  · split
    · trivial
    · exact ⟨rfl, fun _ => rfl⟩

theorem requestRemoteGetdents_at (count : Nat) : (requestRemoteGetdents v offset count).At offset := by
  unfold requestRemoteGetdents
  split
  · exact sendDirentToClient_at v offset count
  · exact ⟨rfl, fun h => (nomatch h)⟩
  · trivial

theorem handleGetdents_at (count : Nat) : (handleGetdents v offset count).At offset := by
  unfold handleGetdents
  split
  · trivial
  · split
    · exact sendDirentToClient_at v offset count
    · exact requestRemoteGetdents_at v offset count

end

def Later (tasks tasks' : Nat → Option Task) : Prop :=
  ∀ k t', tasks' k = some t' → ∃ t, tasks k = some t ∧ t'.request = t.request ∧
    (t'.Unanswered → t.Unanswered)

theorem later_update (ht : s.tasks k = some t)
    (h1 : ∀ t' ∈ t1, t'.request = t.request ∧ (t'.Unanswered → t.Unanswered)) :
    Later s.tasks (update s.tasks k t1) := by
  intro j t' ht'
  grind

theorem Disciplined.later (h : Disciplined s) (hLater : Later s.tasks s'.tasks)
    (hQueue : s'.queue = s.queue) (hNext : s'.nextTask = s.nextTask)
    (hWriters : ∀ k t, s'.tasks k = some t → t.request.op.answered = false → s'.requestThread = some k)
    (hClients : ∀ k t, s'.tasks k = some t → t.Unanswered →
      s'.waiting t.request.tid = s.waiting t.request.tid)
    (hQueued : ∀ r ∈ s.queue, s'.waiting r.tid = s.waiting r.tid) : Disciplined s' := by
  refine ⟨fun k t ht => ?_, fun k t ht hUnanswered => ?_, fun j k t t' ht ht' hu hu' hTid => ?_, hWriters,
    fun r hr hAnswered => ?_, hQueue ▸ h.last⟩
  · obtain ⟨t0, ht0, -⟩ := hLater k t ht
    exact hNext ▸ h.bound k t0 ht0
  · obtain ⟨t0, ht0, hRequest, hStill⟩ := hLater k t ht
    grind [h.clients]
  · obtain ⟨t0, ht0, hRequest, hStill⟩ := hLater j t ht
    obtain ⟨t1, ht1, hRequest', hStill'⟩ := hLater k t' ht'
    grind [h.single]
  · rw [hQueue] at hr
    rw [hQueued r hr]
    exact h.queued r hr hAnswered

theorem Ordered.touch (h : Ordered share s) (ht : s.tasks k = some t)
    (hTasks : s'.tasks = update s.tasks k t1) (hAccepted : s'.accepted = s.accepted)
    (hOthers : ∀ cell, cell ≠ t.request.cell share →
      s'.offsets cell = s.offsets cell ∧ s'.left cell = s.left cell)
    (h1 : ∀ t' ∈ t1, t'.request = t.request ∧ TaskOk share s' t')
    (hIdle : t1 = none → s'.offsets (t.request.cell share) = s'.left (t.request.cell share))
    (hLog : ∀ e ∈ s'.log, e ∈ s.log ∨ e.Ok) : Ordered share s' := by
  have hCases : ∀ j t', s'.tasks j = some t' → j = k ∧ t1 = some t' ∨ j ≠ k ∧ s.tasks j = some t' :=
    fun j t' ht' => update_eq_some_iff.mp (hTasks ▸ ht')
  have hRequest : ∀ j t', s'.tasks j = some t' → ∃ t0, s.tasks j = some t0 ∧ t'.request = t0.request := by grind
  refine ⟨fun j t' ht' => ?_, fun i j t2 t3 ht2 ht3 hCell => ?_, fun cell hFree => ?_, fun e he => ?_⟩
  · obtain ⟨rfl, hNew⟩ | ⟨hj, ht0⟩ := hCases j t' ht'
    · exact (h1 t' hNew).2
    · have hOk := h.tasks j t' ht0
      have hNe : t'.request.cell share ≠ t.request.cell share := fun he => hj (h.cells j k t' t ht0 ht he)
      obtain ⟨hOffset, hLeft⟩ := hOthers _ hNe
      refine ⟨hAccepted ▸ hOk.number, ?_, hOk.write⟩
      rw [hOffset, hLeft]
      exact hOk.stage
  · obtain ⟨t2', ht2', hRequest2⟩ := hRequest i t2 ht2
    grind [h.cells]
  · by_cases hc : cell = t.request.cell share
    · subst hc
      refine hIdle ?_
      cases t1 with
      | none => rfl
      | some t' =>
        refine absurd (congrArg (·.cell share) (h1 t' rfl).1) (hFree k t' ?_)
        rw [hTasks, update_self]
    · obtain ⟨hOffset, hLeft⟩ := hOthers cell hc
      rw [hOffset, hLeft]
      refine h.idle cell fun j t' ht' hCell => ?_
      have hj : j ≠ k := by grind
      exact hFree j t' (by rw [hTasks, update_of_ne hj]; exact ht') hCell
  · obtain he | he := hLog e he
    · exact h.log e he
    · exact he

theorem leave_requestThread (h : s.requestThread = some j) (hj : j ≠ k) :
    (s.leave k).requestThread = some j := by grind [State.leave]

structure Turn (share : Tid → Fd → Nat) (k : Nat) (t : Task) (t1 : Option Task) (s s' : State) :
    Prop where
  tasks : s'.tasks = update s.tasks k t1
  queue : s'.queue = s.queue
  nextTask : s'.nextTask = s.nextTask
  accepted : s'.accepted = s.accepted
  thread : s'.requestThread = s.requestThread ∨
    s'.requestThread = (s.leave k).requestThread ∧ ∀ t' ∈ t1, t'.request.op.answered = true
  waiting : s'.waiting = s.waiting ∨
    s'.waiting = update s.waiting t.request.tid false ∧ t.Unanswered ∧ ∀ t' ∈ t1, ¬ t'.Unanswered
  task : ∀ t' ∈ t1, t'.request = t.request ∧ (t'.Unanswered → t.Unanswered) ∧ TaskOk share s' t'
  others : ∀ cell, cell ≠ t.request.cell share →
    s'.offsets cell = s.offsets cell ∧ s'.left cell = s.left cell
  idle : t1 = none → s'.offsets (t.request.cell share) = s'.left (t.request.cell share)
  log : ∀ e ∈ s'.log, e ∈ s.log ∨ e.Ok

section

variable (h : Sound share s) (ht : s.tasks k = some t)
include h ht

theorem Sound.turn (t1 : Option Task) (hTurn : Turn share k t t1 s s') : Sound share s' := by
  have hLater : Later s.tasks s'.tasks := hTurn.tasks ▸ later_update ht fun t' ht' =>
    ⟨(hTurn.task t' ht').1, (hTurn.task t' ht').2.1⟩
  have hNew : ∀ t', s'.tasks k = some t' → t' ∈ t1 := by
    intro t' ht'
    rwa [hTurn.tasks, update_self] at ht'
  have hOld : ∀ j t', s'.tasks j = some t' → j ≠ k → s.tasks j = some t' := by
    intro j t' ht' hj
    rwa [hTurn.tasks, update_of_ne hj] at ht'
  refine ⟨h.disciplined.later hLater hTurn.queue hTurn.nextTask (fun j t' ht' hWrite => ?_)
    (fun j t' ht' hUnanswered => ?_) fun r hr => ?_, ?_⟩
  · obtain ⟨t0, ht0, hRequest, -⟩ := hLater j t' ht'
    grind [h.disciplined.writers, hTurn.thread, leave_requestThread]
  · obtain hSame | ⟨hFree, hTaken, hDone⟩ := hTurn.waiting
    · rw [hSame]
    · rw [hFree, update_of_ne]
      grind [h.disciplined.single]
  · obtain hSame | ⟨hFree, hTaken, -⟩ := hTurn.waiting
    · rw [hSame]
    · rw [hFree, update_of_ne ((h.disciplined.clients k t ht hTaken).2 r hr)]
  · exact h.ordered.touch ht hTurn.tasks hTurn.accepted hTurn.others
      (fun t' ht' => ⟨(hTurn.task t' ht').1, (hTurn.task t' ht').2.2⟩) hTurn.idle hTurn.log

theorem Sound.proceed (hQuiet : t.stage.storing = false)
    (hStage : stage.At (s.offsets (t.request.cell share))) (hAnswered : t.request.op.answered = true) :
    Sound share (s.proceed k t stage) := by
  have hOk := h.ordered.tasks k t ht
  have hSame : s.offsets (t.request.cell share) = s.left (t.request.cell share) := by
    obtain ⟨-, hSame⟩ | hStore := hOk.stage
    · exact hSame
    · rw [hStore] at hQuiet
      cases hQuiet
  have hTask : ∀ s' : State, s'.accepted = s.accepted → s'.offsets = s.offsets → s'.left = s.left →
      ∀ t' ∈ some { t with stage := stage }, t'.request = t.request ∧ (t'.Unanswered → t.Unanswered) ∧
        TaskOk share s' t' := by
    rintro s' hAccepted hOffsets hLeft t' ⟨⟩
    refine ⟨rfl, fun hUnanswered => ⟨hUnanswered.1, hQuiet⟩, hAccepted ▸ hOk.number, ?_,
      fun hWrite => (nomatch hAnswered.symm.trans hWrite)⟩
    rw [hOffsets, hLeft, ← hSame]
    exact .inl ⟨hStage, rfl⟩
  unfold State.proceed
  split
  · refine h.turn ht (some { t with stage := stage }) ⟨rfl, rfl, rfl, rfl, .inr ⟨rfl, ?_⟩, .inl rfl,
      hTask _ rfl rfl rfl, fun _ _ => ⟨rfl, rfl⟩, fun he => (nomatch he), fun _ => .inl⟩
    rintro t' ⟨⟩
    exact hAnswered
  · exact h.turn ht (some { t with stage := stage }) ⟨rfl, rfl, rfl, rfl, .inl rfl, .inl rfl,
      hTask _ rfl rfl rfl, fun _ _ => ⟨rfl, rfl⟩, fun he => (nomatch he), fun _ => .inl⟩

theorem Sound.at_left (hQuiet : t.stage.storing = false) : t.stage.At (s.left (t.request.cell share)) ∧
      s.offsets (t.request.cell share) = s.left (t.request.cell share) := by
  obtain hAt | hStore := (h.ordered.tasks k t ht).stage
  · exact hAt
  · rw [hStore] at hQuiet
    cases hQuiet

end

theorem update_others {α : Type} {f : Cell → α} (x : α) : ∀ cell, cell ≠ c → update f c x cell = f cell :=
  fun _ hNe => update_of_ne hNe _ _

section

variable (h : Sound share s)
include h

theorem Sound.seek (ht : s.tasks k = some ⟨r, number, .start⟩) (hAnswered : r.op.answered = true)
    (target : Int) : Sound share ({ s.setFileOffset (r.cell share) number target with
      left := update s.left (r.cell share) target }.proceed k
        ⟨r, number, .start⟩ .acknowledge) := by
  have hNumber : number = s.accepted (r.cell share) := (h.ordered.tasks k _ ht).number
  refine h.turn ht (some ⟨r, number, .acknowledge⟩) ⟨rfl, rfl, rfl, rfl, .inl rfl, .inl rfl, ?_,
    fun cell hNe => ⟨update_others target cell hNe, update_others target cell hNe⟩,
    fun he => (nomatch he), fun e he => ?_⟩
  · rintro t' ⟨⟩
    refine ⟨rfl, fun _ => ⟨hAnswered, rfl⟩, hNumber, .inl ⟨trivial, ?_⟩,
      fun hWrite => (nomatch hAnswered.symm.trans hWrite)⟩
    change update s.offsets _ target _ = update s.left _ target _
    rw [update_self, update_self]
  · obtain rfl | he := mem_cons.mp he
    · exact .inr hNumber
    · exact .inl he

theorem Sound.serve {next : Int} (ht : s.tasks k = some t) (hOffset : offset = s.left (t.request.cell share))
    (waiting : Tid → Bool) (hWaiting : waiting = s.waiting ∧ t.request.op.answered = false ∨
      waiting = update s.waiting t.request.tid false ∧ t.Unanswered) :
    Sound share ({ s.serve (t.request.cell share) offset next with waiting := waiting }.proceed k t
      (.store next)) := by
  refine h.turn ht (some { t with stage := .store next }) ⟨rfl, rfl, rfl, rfl, .inl rfl, ?_, ?_,
    fun cell hNe => ⟨rfl, update_others next cell hNe⟩, fun he => (nomatch he), fun e he => ?_⟩
  · obtain ⟨hSame, -⟩ | ⟨hFree, hTaken⟩ := hWaiting
    · exact .inl hSame
    · refine .inr ⟨hFree, hTaken, ?_⟩
      rintro t' ⟨⟩ hUnanswered
      cases hUnanswered.2
  · rintro t' ⟨⟩
    refine ⟨rfl, fun hUnanswered => (nomatch hUnanswered.2), (h.ordered.tasks k t ht).number, .inr ?_,
      fun _ => .inr rfl⟩
    change Stage.store next = .store (update s.left _ next _)
    rw [update_self]
  · obtain rfl | he := mem_cons.mp he
    · exact .inr hOffset
    · exact .inl he

theorem Sound.serveEnd (ht : s.tasks k = some t) (hTaken : t.Unanswered)
    (hOffset : offset = s.left (t.request.cell share)) : Sound share
      (((s.serve (t.request.cell share) offset offset).replyToClient t.request.tid).finish k) := by
  have hSame := (h.at_left ht hTaken.2).2
  refine h.turn ht none ⟨rfl, rfl, rfl, rfl, .inr ⟨rfl, fun _ he => (nomatch he)⟩,
    .inr ⟨rfl, hTaken, fun _ he => (nomatch he)⟩, fun _ he => (nomatch he),
    fun cell hNe => ⟨rfl, update_others offset cell hNe⟩, fun _ => ?_, fun e he => ?_⟩
  · change s.offsets _ = update s.left _ offset _
    rw [update_self, hSame, hOffset]
  · obtain rfl | he := mem_cons.mp he
    · exact .inr hOffset
    · exact .inl he

theorem Sound.acknowledge (ht : s.tasks k = some t) (hTaken : t.Unanswered) :
    Sound share ((s.replyToClient t.request.tid).finish k) :=
  h.turn ht none ⟨rfl, rfl, rfl, rfl, .inr ⟨rfl, fun _ he => (nomatch he)⟩,
    .inr ⟨rfl, hTaken, fun _ he => (nomatch he)⟩, fun _ he => (nomatch he), fun _ _ => ⟨rfl, rfl⟩,
    fun _ => (h.at_left ht hTaken.2).2, fun _ => .inl⟩

theorem Sound.store {next : Int} (ht : s.tasks k = some ⟨r, number, .store next⟩) :
    Sound share ((s.setFileOffset (r.cell share) number next).finish k) := by
  have hOk := h.ordered.tasks k _ ht
  have hNext : next = s.left (r.cell share) := by
    obtain ⟨hAt, -⟩ | hStore := hOk.stage
    · exact hAt.elim
    · exact Stage.store.inj hStore
  refine h.turn ht none ⟨rfl, rfl, rfl, rfl, .inr ⟨rfl, fun _ he => (nomatch he)⟩, .inl rfl,
    fun _ he => (nomatch he), fun cell hNe => ⟨update_others next cell hNe, rfl⟩, fun _ => ?_,
    fun e he => ?_⟩
  · change update s.offsets _ next _ = s.left _
    rw [update_self, hNext]
  · obtain rfl | he := mem_cons.mp he
    · exact .inr hOk.number
    · exact .inl he

theorem Sound.unanswered (ht : s.tasks k = some t) (hQuiet : t.stage.storing = false)
    (hStarted : t.stage ≠ .start) : t.Unanswered := by
  refine ⟨?_, hQuiet⟩
  by_contra hWrite
  obtain hStart | hStore := (h.ordered.tasks k t ht).write (Bool.eq_false_iff.mpr hWrite)
  · exact hStarted hStart
  · cases hQuiet.symm.trans hStore

theorem Sound.listen (k : Nat) : Sound share { s with listener := some k } :=
  ⟨⟨h.disciplined.bound, h.disciplined.clients, h.disciplined.single, h.disciplined.writers,
      h.disciplined.queued, h.disciplined.last⟩,
    ⟨fun j t ht => ⟨(h.ordered.tasks j t ht).number, (h.ordered.tasks j t ht).stage,
      (h.ordered.tasks j t ht).write⟩, h.ordered.cells, h.ordered.idle, h.ordered.log⟩⟩

theorem advance_ends (ht : s.tasks k = some t) (v : View) :
    Yields (advance share s k t v) (Sound share) := by
  obtain ⟨⟨tid, fd, op⟩, number, stage⟩ := t
  cases stage with
  | start =>
    cases op with
    | read count => exact h.proceed ht rfl (handleRead_at v _ count) rfl
    | getdents count => exact h.proceed ht rfl (handleGetdents_at v _ count) rfl
    | lseek target => exact h.seek ht rfl target
    | write count => exact h.serve ht (h.at_left ht rfl).2 s.waiting (.inl ⟨rfl, rfl⟩)
  | locate =>
    cases op with
    | read count => exact h.proceed ht rfl (waitForFile_at v _ count) rfl
    | getdents count =>
      refine h.proceed ht rfl ?_ rfl
      grind [handleGetdents_at, requestRemoteGetdents_at]
    | lseek | write => trivial
  | await offset commit =>
    obtain ⟨hAt, hSame⟩ := h.at_left ht rfl
    cases op with
    | read count =>
      refine .ite (fun _ => ?_) fun _ => trivial
      exact h.proceed ht rfl ⟨Eq.trans hAt hSame.symm, fun he => (nomatch he)⟩ rfl
    | getdents | lseek | write => trivial
  | enterDirents size count => exact h.proceed ht rfl rfl (h.unanswered ht rfl nofun).1
  | awaitDirents offset size count =>
    obtain ⟨hAt, hSame⟩ := h.at_left ht rfl
    refine .ite (fun _ => ?_) fun _ => trivial
    refine h.proceed ht rfl ?_ (h.unanswered ht rfl nofun).1
    rw [hSame, ← show offset = _ from hAt]
    exact sendDirentToClient_at v offset count
  | remote =>
    cases op with
    | read count =>
      refine .ite (fun _ => ?_) fun _ => trivial
      exact (h.listen k).proceed ht rfl ⟨rfl, fun he => (nomatch he)⟩ rfl
    | getdents count =>
      refine .ite (fun _ => ?_) fun _ => trivial
      exact (h.listen k).proceed ht rfl (sendDirentToClient_at v _ _) rfl
    | lseek | write => trivial
  | answer offset next stores =>
    have hTaken := h.unanswered ht rfl nofun
    obtain ⟨hOffset, hEnd⟩ := (h.at_left ht rfl).1
    cases stores with
    | true => exact h.serve ht hOffset _ (.inr ⟨rfl, hTaken⟩)
    | false =>
      obtain rfl := hEnd rfl
      exact h.serveEnd ht hTaken hOffset
  | acknowledge => exact h.acknowledge ht (h.unanswered ht rfl nofun)
  | store next => exact h.store ht

theorem send_sound (hFree : s.waiting r.tid = false) : Sound share { s with
      queue := s.queue ++ [r]
      waiting := if r.op.answered then update s.waiting r.tid true else s.waiting } := by
  have hMono : ∀ tid, s.waiting tid = true →
      (if r.op.answered then update s.waiting r.tid true else s.waiting) tid = true := by grind
  have hNone : ∀ r' ∈ s.queue, r'.op.answered = true → r'.tid ≠ r.tid := by
    intro r' hr' hAnswered hTid
    grind [h.disciplined.queued]
  refine ⟨⟨h.disciplined.bound, fun k t ht hUnanswered => ?_, h.disciplined.single, h.disciplined.writers,
    fun r' hr' hAnswered => ?_, ?_⟩, ?_⟩
  · obtain ⟨hWaits, hQueue⟩ := h.disciplined.clients k t ht hUnanswered
    grind
  · obtain hr' | hr' := mem_append.mp hr'
    · exact hMono _ (h.disciplined.queued r' hr' hAnswered)
    · grind
  · refine pairwise_append.mpr ⟨h.disciplined.last, pairwise_singleton _ _, fun r' hr' r1 hr1 => ?_⟩
    grind
  · exact ⟨fun k t ht => ⟨(h.ordered.tasks k t ht).number, (h.ordered.tasks k t ht).stage,
      (h.ordered.tasks k t ht).write⟩, h.ordered.cells, h.ordered.idle, h.ordered.log⟩

end

structure TakesUp (share : Tid → Fd → Nat) (r : Request) (s s' : State) : Prop where
  queue : s.queue = r :: s'.queue
  tasks : s'.tasks = update s.tasks s.nextTask
    (some ⟨r, s.accepted (r.cell share) + 1, .start⟩)
  nextTask : s'.nextTask = s.nextTask + 1
  thread : s'.requestThread = some s.nextTask
  waiting : s'.waiting = s.waiting
  accepted : s'.accepted = update s.accepted (r.cell share) (s.accepted (r.cell share) + 1)
  offsets : s'.offsets = s.offsets
  left : s'.left = s.left
  log : s'.log = s.log

theorem TakesUp.task (hr : TakesUp share r s s') (ht' : s'.tasks j = some t') :
    j = s.nextTask ∧ t' = ⟨r, s.accepted (r.cell share) + 1, .start⟩ ∨ s.tasks j = some t' := by
  rw [hr.tasks, update_eq_some_iff] at ht'
  grind

theorem Disciplined.takesUp (h : Disciplined s) (hr : TakesUp share r s s')
    (hThread : s.requestThread = none) : Disciplined s' := by
  have hHead : r ∈ s.queue := hr.queue ▸ mem_cons_self
  have hRest : ∀ r' ∈ s'.queue, r' ∈ s.queue := fun r' hr' => hr.queue ▸ mem_cons_of_mem r hr'
  have hLast := h.last
  rw [hr.queue, pairwise_cons] at hLast
  refine ⟨fun j t' ht' => ?_, fun j t' ht' hUnanswered => ?_, fun i j t1 t2 ht1 ht2 hu1 hu2 hTid => ?_,
    fun j t' ht' hWrite => ?_, fun r' hr' hAnswered => ?_, hLast.2⟩
  · rw [hr.nextTask]
    obtain ⟨rfl, -⟩ | ht := hr.task ht'
    · exact Nat.lt_succ_self _
    · exact Nat.lt_succ_of_lt (h.bound j t' ht)
  · rw [hr.waiting]
    obtain ⟨-, rfl⟩ | ht := hr.task ht'
    · exact ⟨h.queued r hHead hUnanswered.1, fun r' hr' => hLast.1 r' hr' hUnanswered.1⟩
    · obtain ⟨hWaits, hNone⟩ := h.clients j t' ht hUnanswered
      exact ⟨hWaits, fun r' hr' => hNone r' (hRest r' hr')⟩
  · obtain ⟨rfl, rfl⟩ | ht1 := hr.task ht1
    · obtain ⟨rfl, -⟩ | ht2 := hr.task ht2
      · rfl
      · exact absurd hTid ((h.clients j t2 ht2 hu2).2 r hHead)
    · obtain ⟨rfl, rfl⟩ | ht2 := hr.task ht2
      · exact absurd hTid.symm ((h.clients i t1 ht1 hu1).2 r hHead)
      · exact h.single i j t1 t2 ht1 ht2 hu1 hu2 hTid
  · obtain ⟨rfl, -⟩ | ht := hr.task ht'
    · exact hr.thread
    · cases hThread.symm.trans (h.writers j t' ht hWrite)
  · rw [hr.waiting]
    exact h.queued r' (hRest r' hr') hAnswered

theorem Ordered.takesUp (h : Ordered share s) (hr : TakesUp share r s s')
    (hFree : ∀ j t', s.tasks j = some t' → j ≠ s.nextTask ∧ t'.request.cell share ≠ r.cell share) :
    Ordered share s' := by
  refine ⟨fun j t' ht' => ?_, fun i j t1 t2 ht1 ht2 hCell => ?_, fun cell hNo => ?_, hr.log ▸ h.log⟩
  · obtain ⟨-, rfl⟩ | ht := hr.task ht'
    · refine ⟨?_, .inl ⟨trivial, ?_⟩, fun _ => .inl rfl⟩
      · rw [hr.accepted, update_self]
      · rw [hr.offsets, hr.left]
        exact h.idle _ fun j t' ht' => (hFree j t' ht').2
    · have hOk := h.tasks j t' ht
      refine ⟨?_, ?_, hOk.write⟩
      · rw [hr.accepted, update_of_ne (hFree j t' ht).2]
        exact hOk.number
      · rw [hr.offsets, hr.left]
        exact hOk.stage
  · obtain ⟨rfl, rfl⟩ | ht1 := hr.task ht1
    · obtain ⟨rfl, -⟩ | ht2 := hr.task ht2
      · rfl
      · exact absurd hCell.symm (hFree j t2 ht2).2
    · obtain ⟨rfl, rfl⟩ | ht2 := hr.task ht2
      · exact absurd hCell (hFree i t1 ht1).2
      · exact h.cells i j t1 t2 ht1 ht2 hCell
  · rw [hr.offsets, hr.left]
    refine h.idle cell fun j t' ht' => hNo j t' ?_
    rw [hr.tasks, update_eq_some_iff]
    exact .inr ⟨(hFree j t' ht').1, ht'⟩

theorem Sound.takesUp (h : Sound share s) (hr : TakesUp share r s s')
    (hThread : s.requestThread = none) (hSettled : Settled share s .accept) : Sound share s' := by
  refine ⟨h.disciplined.takesUp hr hThread, h.ordered.takesUp hr fun j t' ht' => ⟨?_, fun hCell => ?_⟩⟩
  · exact Nat.ne_of_lt (h.disciplined.bound j t' ht')
  · have hQuiet : t'.stage.storing = false :=
      hSettled r (by rw [hr.queue]; rfl) j (h.disciplined.bound j t' ht') t' ht' hCell
    cases hAnswered : t'.request.op.answered with
    | false => cases hThread.symm.trans (h.disciplined.writers j t' ht' hAnswered)
    | true =>
      obtain ⟨-, hNone⟩ := h.disciplined.clients j t' ht' ⟨hAnswered, hQuiet⟩
      exact hNone r (hr.queue ▸ mem_cons_self) (Prod.mk.inj hCell).1.symm

theorem step_ends (h : Sound share s) (he : Settled share s e) : Yields (step share s e) (Sound share) := by
  cases e with
  | send r =>
    refine .ite (fun _ => trivial) fun hFree => ?_
    exact send_sound h (Bool.eq_false_iff.mpr hFree)
  | accept =>
    simp only [step]
    split
    · next r queue hThread hQueue =>
      exact h.takesUp ⟨hQueue, rfl, rfl, rfl, rfl, rfl, rfl, rfl, rfl⟩ hThread he
    · trivial
  | advance k v =>
    simp only [step]
    split
    · next t ht => exact advance_ends h ht v
    · trivial

theorem sound_start (offsets : Cell → Int) : Sound share { offsets := offsets } :=
  ⟨⟨fun _ _ ht => (nomatch ht), fun _ _ ht => (nomatch ht), fun _ _ _ _ ht => (nomatch ht),
      fun _ _ ht => (nomatch ht), fun _ hr => (nomatch hr), .nil⟩,
    ⟨fun _ _ ht => (nomatch ht), fun _ _ _ _ ht => (nomatch ht), fun _ _ => rfl,
      fun _ he => (nomatch he)⟩⟩

/-- In every run in which the request thread finds the offsets settled, each request is served where
the one before it has left the offset, and none stores its offset after the next one was taken up. -/
theorem requests_in_order {offsets : Cell → Int} {events : List Event}
    (hEvents : Meets (Settled share) (step share) { offsets := offsets } events)
    (hRun : events.foldlM (step share) { offsets := offsets } = .ok s) : ∀ e ∈ s.log, e.Ok :=
  ((run_ends (fun _ _ h he => step_ends h he) (sound_start offsets) events hEvents).result
    hRun).ordered.log

end

instance (share : Tid → Fd → Nat) (s : State) : DecidablePred (Settled share s) :=
  fun op => by cases op <;> dsimp only [Settled] <;> infer_instance

def unshared : Tid → Fd → Nat := fun _ fd => fd.toNat

def bytesOf (n : Nat) : View := ⟨{ sectors := [(0, n)] }, true, false, true, true⟩

def readTwo : Request := ⟨1, 3, .read 2⟩

def waitingRead : List Event :=
  [.send readTwo, .accept, .advance 0 (bytesOf 0), .advance 0 (bytesOf 2), .advance 0 (bytesOf 2)]

def readAfterStore : List Event :=
  waitingRead ++ [.send readTwo, .advance 0 (bytesOf 4), .accept, .advance 1 (bytesOf 4),
    .advance 1 (bytesOf 4)]

theorem reads_in_order : ∃ s, readAfterStore.foldlM (step unshared) { offsets := fun _ => 0 } = .ok s ∧
    s.log = [.served (1, 3) 2 2, .stored (1, 3) 1 1, .served (1, 3) 0 0] ∧ ∀ e ∈ s.log, e.Ok := by
  have hEvents : Meets (Settled unshared) (step unshared) { offsets := fun _ => 0 } readAfterStore := by
    decide +kernel
  exact ⟨_, rfl, rfl, requests_in_order hEvents rfl⟩

def readBeforeStore : List Event :=
  waitingRead ++ [.send readTwo, .accept, .advance 1 (bytesOf 4), .advance 1 (bytesOf 4)]

def seekBeforeStore : List Event :=
  waitingRead ++ [.send ⟨1, 3, .lseek 10⟩, .accept, .advance 1 (bytesOf 4), .advance 1 (bytesOf 4),
    .advance 0 (bytesOf 4)]

/-- The next request is taken up between the answer and the store: a read gets the same bytes again,
and a seek is undone. -/
theorem next_request_overtakes_store :
    (∃ s, readBeforeStore.foldlM (step unshared) { offsets := fun _ => 0 } = .ok s ∧
      s.log = [.served (1, 3) 0 2, .served (1, 3) 0 0]) ∧
    ∃ s, seekBeforeStore.foldlM (step unshared) { offsets := fun _ => 0 } = .ok s ∧
      s.log = [.stored (1, 3) 1 2, .stored (1, 3) 2 2, .served (1, 3) 0 0] ∧
      s.offsets (1, 3) = 2 ∧ s.left (1, 3) = 10 :=
  ⟨⟨_, rfl, rfl⟩, _, rfl, rfl, rfl, rfl⟩

end Capio.Server.OffsetOrder
