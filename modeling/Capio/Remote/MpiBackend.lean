import Capio.Common.Types
import Capio.Lib.Framing
import Capio.Lib.Outcome
import Capio.Lib.Pieces
import Mathlib.Algebra.Order.BigOperators.Group.List
import Mathlib.Logic.Function.Basic

/-! # Transfers through MPI

The threads of a server post their messages to other servers one by one, all with the same tag, and
MPI keeps the order of the messages from one server to another.  The listener of a server receives a
request from any server, and then, if the request announces bytes, the chunks from the same server.
-/
namespace Capio.Remote.MpiBackend

open Common Lib.Outcome Lib.Pieces Lib.Framing Function List

/-- `MPI_MAX_ELEM_COUNT` is 1024 * 1024 * 1024, and `CAPIO_SERVER_REQUEST_MAX_SIZE` has room for a path
and the fixed part of a request. -/
structure Backend where
  maxElemCount : Nat
  maxElemCount_pos : 0 < maxElemCount
  requestMaxSize : Nat

structure Transfer where
  number : Nat
  message : List Byte
  shm : List Byte
  deriving DecidableEq

inductive Message
  | request (t : Transfer)
  | chunk (number : Nat) (data : List Byte)
  deriving DecidableEq

def Message.length : Message → Nat
  | .request t => t.message.length
  | .chunk _ data => data.length

def chunks (b : Backend) (t : Transfer) : List Message :=
  (pieces b.maxElemCount t.shm).map (.chunk t.number)

def messages (b : Backend) : Transfer → List Message := frame .request (chunks b)

structure Sender where
  source : Node
  target : Node
  transfer : Transfer
  posted : Nat := 0

inductive Listener
  | listening
  | receiving (source : Node) (t : Transfer) (left : Nat) (taken : List Message)

inductive Receipt
  | request (m : Message)
  | file (t : Transfer) (taken : List Message)
  deriving DecidableEq

/-- `channels` has the messages from one server to another that were posted and not received. -/
structure State where
  senders : List Sender := []
  channels : Node × Node → List Message := fun _ => []
  listeners : Node → Listener := fun _ => .listening
  receipts : List Receipt := []

/-- A message that is longer than the buffer of a receive ends the server. -/
inductive Fault
  | requestTruncated (m : Message)
  | chunkTruncated (m : Message)
  deriving DecidableEq

inductive Event
  | sendRequest (source target : Node) (message : List Byte)
  | sendFile (source target : Node) (message shm : List Byte)
  | post (k : Nat)
  | receive (node source : Node)

def State.send (s : State) (source target : Node) (message shm : List Byte) : State :=
  { s with senders := s.senders ++ [⟨source, target, ⟨s.senders.length, message, shm⟩, 0⟩] }

def State.post (b : Backend) (s : State) (k : Nat) (x : Sender) : State :=
  match (messages b x.transfer)[x.posted]? with
  | some m =>
    { s with
      senders := s.senders.set k { x with posted := x.posted + 1 }
      channels := update s.channels (x.source, x.target)
        (s.channels (x.source, x.target) ++ [m]) }
  | none => s

def State.setListener (s : State) (node : Node) (l : Listener) : State :=
  { s with listeners := update s.listeners node l }

def State.receipt (s : State) (r : Receipt) : State := { s with receipts := r :: s.receipts }

def afterRequest (source : Node) : Message → Listener
  | .request t => if t.shm = [] then .listening else .receiving source t t.shm.length []
  | .chunk _ _ => .listening

def readNextRequest (b : Backend) (s : State) (node source : Node) (m : Message) : Except Fault State :=
  if b.requestMaxSize < m.length then throw (.requestTruncated m)
  else pure ((s.receipt (.request m)).setListener node (afterRequest source m))

/-- One turn of the loop of `recv_file`; a message that is shorter than the buffer counts as it is. -/
def recvFile (b : Backend) (s : State) (node source : Node) (t : Transfer) (left : Nat)
    (taken : List Message) (m : Message) : Except Fault State :=
  if min left b.maxElemCount < m.length then throw (.chunkTruncated m)
  else if left - m.length = 0 then
    pure ((s.receipt (.file t (taken ++ [m]))).setListener node .listening)
  else pure (s.setListener node (.receiving source t (left - m.length) (taken ++ [m])))

def receive (b : Backend) (s : State) (node source : Node) (m : Message) : Except Fault State :=
  match s.listeners node with
  | .listening => readNextRequest b s node source m
  | .receiving _ t left taken => recvFile b s node source t left taken m

/-- `read_next_request` takes a message from any server, `recv_file` from one. -/
def Listener.Accepts (source : Node) : Listener → Prop
  | .listening => True
  | .receiving source' _ _ _ => source' = source

instance (source : Node) : DecidablePred (Listener.Accepts source)
  | .listening => .isTrue trivial
  | .receiving source' _ _ _ => inferInstanceAs (Decidable (source' = source))

def step (b : Backend) (s : State) : Event → Except Fault State
  | .sendRequest source target message => pure (s.send source target message [])
  | .sendFile source target message shm => pure (s.send source target message shm)
  | .post k =>
    match s.senders[k]? with
    | some x => pure (s.post b k x)
    | none => pure s
  | .receive node source =>
    match s.channels (source, node) with
    | [] => pure s
    | m :: rest =>
      if (s.listeners node).Accepts source then
        receive b { s with channels := update s.channels (source, node) rest } node source m
      else pure s

def Sender.Midway (b : Backend) (x : Sender) : Prop :=
  0 < x.posted ∧ x.posted < (messages b x.transfer).length

/-- No message is posted between those of another thread with the same target. -/
def Exclusive (b : Backend) (s : State) : Event → Prop
  | .post k => ∀ x ∈ s.senders[k]?, ∀ j < s.senders.length, ∀ y ∈ s.senders[j]?,
      j ≠ k → y.source = x.source → y.target = x.target → ¬ y.Midway b
  | _ => True

def Receipt.Ok (b : Backend) : Receipt → Prop
  | .request m => ∃ t, m = .request t
  | .file t taken => taken = chunks b t

def Listener.Ok (b : Backend) : Listener → Prop
  | .listening => True
  | .receiving _ t _ taken => taken <+: chunks b t

def Fault.Ok : Fault → Prop
  | .requestTruncated m => ∃ t, m = .request t
  | .chunkTruncated _ => False

section

variable {b : Backend}

theorem chunks_nil (hShm : t.shm = []) : chunks b t = [] := by
  rw [chunks, hShm, pieces_nil, map_nil]

theorem chunks_ne_nil (hShm : t.shm ≠ []) : chunks b t ≠ [] := by
  rw [chunks, pieces_cons b.maxElemCount_pos hShm]
  exact cons_ne_nil _ _

theorem mem_chunks (hm : m ∈ chunks b t) : 0 < m.length ∧ m.length ≤ b.maxElemCount := by
  obtain ⟨piece, hPiece, rfl⟩ := mem_map.mp hm
  obtain ⟨hNil, hLe⟩ := mem_pieces b.maxElemCount_pos hPiece
  exact ⟨length_pos_iff.mpr hNil, hLe⟩

theorem sum_length_chunks (b : Backend) (t : Transfer) :
    ((chunks b t).map Message.length).sum = t.shm.length := by
  have hFlatten := congrArg length (flatten_pieces b.maxElemCount t.shm)
  rw [length_flatten] at hFlatten
  rw [chunks, map_map]
  exact hFlatten

end

variable {x : Sender}

section

variable {b : Backend} {node source target : Node}

def Sender.remaining (b : Backend) (source target : Node) (x : Sender) : List Message :=
  if x.source = source ∧ x.target = target ∧ x.posted ≠ 0 then (messages b x.transfer).drop x.posted
  else []

def Listener.awaited (b : Backend) (source : Node) : Listener → List Message
  | .listening => []
  | .receiving source' t _ taken =>
    if source' = source then (chunks b t).drop taken.length else []

def Listener.Consistent (b : Backend) : Listener → Prop
  | .listening => True
  | .receiving _ t left taken =>
    ∃ rest ≠ [], chunks b t = taken ++ rest ∧ left = (rest.map Message.length).sum

def Between (b : Backend) (s : State) (source target : Node) : Prop :=
  Framed .request (chunks b) ((s.listeners target).awaited b source)
    (s.channels (source, target) ++ s.senders.flatMap (Sender.remaining b source target))

structure Whole (b : Backend) (s : State) : Prop where
  between : ∀ source target, Between b s source target
  listeners : ∀ node, (s.listeners node).Consistent b
  receipts : ∀ r ∈ s.receipts, r.Ok b

theorem Listener.Consistent.ok {l : Listener} (h : l.Consistent b) : l.Ok b := by
  cases l with
  | listening => trivial
  | receiving source t left taken =>
    obtain ⟨rest, -, hRest, -⟩ := h
    exact ⟨rest, hRest.symm⟩

theorem whole_start (b : Backend) : Whole b {} where
  between _ _ := framed_nil
  listeners _ := trivial
  receipts _ hr := nomatch hr

theorem Sender.remaining_of_ne (h : ¬ (x.source = source ∧ x.target = target)) :
    x.remaining b source target = [] :=
  if_neg fun hx => h ⟨hx.1, hx.2.1⟩

theorem Sender.remaining_zero (h : x.posted = 0) : x.remaining b source target = [] :=
  if_neg fun hx => hx.2.2 h

theorem Sender.remaining_of_pos (x : Sender) (h : x.posted ≠ 0) :
    x.remaining b x.source x.target = (messages b x.transfer).drop x.posted :=
  if_pos ⟨rfl, rfl, h⟩

theorem Sender.remaining_of_not_midway (h : ¬ x.Midway b) : x.remaining b source target = [] := by
  unfold Sender.remaining
  split
  · next hx =>
    refine drop_of_length_le (Nat.le_of_not_lt fun hLt => h ⟨?_, hLt⟩)
    exact Nat.pos_of_ne_zero hx.2.2
  · rfl

theorem Whole.send (h : Whole b s) (source target : Node) (message shm : List Byte) :
    Whole b (s.send source target message shm) := by
  refine ⟨fun source' target' => ?_, h.listeners, h.receipts⟩
  have hBetween := h.between source' target'
  unfold Between State.send
  rw [flatMap_append, flatMap_singleton, Sender.remaining_zero rfl, append_nil]
  exact hBetween

theorem Whole.post_between (h : Whole b s) {k : Nat} (hx : s.senders[k]? = some x)
    (hm : (messages b x.transfer)[x.posted]? = some m)
    (hOthers : ∀ j y, j ≠ k → s.senders[j]? = some y → y.remaining b x.source x.target = []) :
    Framed .request (chunks b) ((s.listeners x.target).awaited b x.source)
      (s.channels (x.source, x.target) ++ [m] ++ (messages b x.transfer).drop (x.posted + 1)) := by
  have hBetween := h.between x.source x.target
  have hRemaining := flatMap_eq_of_others hx hOthers
  have hDrop : (messages b x.transfer).drop x.posted =
      m :: (messages b x.transfer).drop (x.posted + 1) := by
    obtain ⟨hLt, rfl⟩ := List.getElem?_eq_some_iff.mp hm
    exact drop_eq_getElem_cons hLt
  unfold Between at hBetween
  rw [hRemaining] at hBetween
  rw [append_assoc, singleton_append, ← hDrop]
  obtain hZero | hPos := Nat.eq_zero_or_pos x.posted
  · -- a transfer begins: nobody else is between two messages, so it stands behind whole ones
    rw [Sender.remaining_zero hZero, append_nil] at hBetween
    rw [hZero]
    exact hBetween.append x.transfer
  · rw [x.remaining_of_pos (Nat.ne_of_gt hPos)] at hBetween
    exact hBetween

theorem Whole.post (h : Whole b s) (hx : s.senders[k]? = some x)
    (hOthers : ∀ j y, j ≠ k → s.senders[j]? = some y → y.source = x.source → y.target = x.target →
      ¬ y.Midway b) : Whole b (s.post b k x) := by
  unfold State.post
  split
  · next m hm =>
    refine ⟨fun source target => ?_, h.listeners, h.receipts⟩
    unfold Between
    dsimp only
    by_cases hSame : x.source = source ∧ x.target = target
    · obtain ⟨rfl, rfl⟩ := hSame
      have hRest : ∀ j y, j ≠ k → s.senders[j]? = some y → y.remaining b x.source x.target = [] := by
        intro j y hj hy
        by_cases hPath : y.source = x.source ∧ y.target = x.target
        · exact Sender.remaining_of_not_midway (hOthers j y hj hy hPath.1 hPath.2)
        · exact Sender.remaining_of_ne hPath
      have hSet : (s.senders.set k { x with posted := x.posted + 1 })[k]? =
          some { x with posted := x.posted + 1 } := by grind
      have hRest' : ∀ j y, j ≠ k → (s.senders.set k { x with posted := x.posted + 1 })[j]? = some y →
          y.remaining b x.source x.target = [] := fun j y hj hy =>
        hRest j y hj (getElem?_set_ne (Ne.symm hj) ▸ hy)
      rw [flatMap_eq_of_others hSet hRest', update_self,
        Sender.remaining_of_pos { x with posted := x.posted + 1 } (Nat.succ_ne_zero _)]
      exact h.post_between hx hm hRest
    · have hChannel : (source, target) ≠ (x.source, x.target) := fun hEq =>
        hSame ⟨(congrArg Prod.fst hEq).symm, (congrArg Prod.snd hEq).symm⟩
      rw [update_of_ne hChannel, flatMap_set_of_eq hx]
      · exact h.between source target
      · have hPosted : Sender.remaining b source target { x with posted := x.posted + 1 } = [] :=
          Sender.remaining_of_ne hSame
        rw [Sender.remaining_of_ne hSame, hPosted]
  · exact h

theorem Whole.received (h : Whole b s) {l : Listener}
    {receipts : List Receipt} (hReceipts : ∀ r ∈ receipts, r.Ok b) (hl : l.Consistent b)
    (hAwaited : Framed .request (chunks b) (l.awaited b source)
      (rest ++ s.senders.flatMap (Sender.remaining b source node)))
    (hOthers : ∀ source' ≠ source, l.awaited b source' = (s.listeners node).awaited b source') :
    Whole b { s with
      channels := update s.channels (source, node) rest
      listeners := update s.listeners node l
      receipts := receipts } := by
  refine ⟨fun source' target => ?_, fun target => ?_, hReceipts⟩
  · have hBetween := h.between source' target
    unfold Between at hBetween ⊢
    dsimp only
    by_cases hTarget : target = node
    · subst hTarget
      by_cases hSource : source' = source
      · grind
      · grind
    · grind
  · dsimp only
    grind [update_self, update_of_ne, h.listeners]

theorem afterRequest_consistent (b : Backend) (source : Node) (t : Transfer) :
    (afterRequest source (.request t)).Consistent b := by
  simp only [afterRequest]
  split
  · trivial
  · next hShm => exact ⟨chunks b t, chunks_ne_nil hShm, rfl, (sum_length_chunks b t).symm⟩

theorem awaited_afterRequest (b : Backend) (source : Node) (t : Transfer) :
    (afterRequest source (.request t)).awaited b source = chunks b t := by
  simp only [afterRequest]
  split
  · next hShm => exact (chunks_nil hShm).symm
  · exact if_pos rfl

theorem awaited_afterRequest_of_ne (hSource : source' ≠ source) (t : Transfer) :
    (afterRequest source (.request t)).awaited b source' = [] := by
  simp only [afterRequest]
  split
  · rfl
  · exact if_neg hSource.symm

theorem Whole.readNextRequest_ends (h : Whole b s)
    (hChannel : s.channels (source, node) = m :: rest) (hListener : s.listeners node = .listening) :
    Ends (readNextRequest b { s with channels := update s.channels (source, node) rest }
      node source m) (Whole b) Fault.Ok := by
  have hBetween := h.between source node
  unfold Between at hBetween
  rw [hChannel, hListener] at hBetween
  obtain ⟨t, rfl, hFramed⟩ := hBetween.head
  refine .ite (fun _ => ⟨t, rfl⟩) fun _ => ?_
  refine h.received (fun r hr => ?_) (afterRequest_consistent b source t) ?_ ?_
  · obtain rfl | hr := mem_cons.mp hr
    · exact ⟨t, rfl⟩
    · exact h.receipts r hr
  · rw [awaited_afterRequest]
    exact hFramed
  · intro source' hSource
    rw [awaited_afterRequest_of_ne hSource, hListener]
    rfl

theorem Whole.recvFile_ends (h : Whole b s) (hChannel : s.channels (source, node) = m :: rest)
    (hListener : s.listeners node = .receiving source t left taken) :
    Ends (recvFile b { s with channels := update s.channels (source, node) rest }
      node source t left taken m) (Whole b) Fault.Ok := by
  have hBetween := h.between source node
  have hConsistent := h.listeners node
  unfold Between at hBetween
  rw [hListener] at hConsistent
  obtain ⟨next, hNext, hChunks, hLeft⟩ := hConsistent
  obtain ⟨c, next, rfl⟩ := exists_cons_of_ne_nil hNext
  have hDrop : (chunks b t).drop taken.length = c :: next := by rw [hChunks, drop_left]
  rw [hChannel, hListener, Listener.awaited, if_pos rfl, hDrop] at hBetween
  obtain ⟨rfl, hFramed⟩ := hBetween.next
  obtain ⟨hPos, hLe⟩ := mem_chunks (b := b) (t := t) (m := m) (by simp [hChunks])
  have hTaken : chunks b t = (taken ++ [m]) ++ next := by
    rw [hChunks, append_assoc]
    rfl
  have hRest : left - m.length = (next.map Message.length).sum := by
    rw [hLeft, map_cons, sum_cons, Nat.add_sub_cancel_left]
  have hOthers : ∀ source' ≠ source, (s.listeners node).awaited b source' = [] := by
    intro source' hSource
    rw [hListener]
    exact if_neg hSource.symm
  refine .ite (fun hShort => ?_) fun _ => .ite (fun hDone => ?_) fun hMore => ?_
  · rw [hLeft, map_cons, sum_cons] at hShort
    omega
  · -- no chunk is empty, so that none is left when no byte is
    have hLast : next = [] := by
      refine eq_nil_iff_forall_not_mem.mpr fun c hc => ?_
      have hZero : c.length = 0 := by
        rw [hRest] at hDone
        exact sum_eq_zero_iff.mp hDone _ (mem_map_of_mem hc)
      grind [mem_append_right, Nat.ne_of_gt, mem_chunks]
    rw [hLast] at hFramed hTaken
    rw [append_nil] at hTaken
    refine h.received (fun r hr => ?_) trivial hFramed fun source' hSource => ?_
    · obtain rfl | hr := mem_cons.mp hr
      · exact hTaken.symm
      · exact h.receipts r hr
    · exact (hOthers source' hSource).symm
  · have hNext : next ≠ [] := by
      rintro rfl
      exact hMore hRest
    refine h.received h.receipts ⟨next, hNext, hTaken, hRest⟩ ?_ fun source' hSource => ?_
    · rw [Listener.awaited, if_pos rfl, hTaken, drop_left]
      exact hFramed
    · rw [hOthers source' hSource]
      exact if_neg hSource.symm

theorem step_ends (h : Whole b s) (he : Exclusive b s e) : Ends (step b s e) (Whole b) Fault.Ok := by
  cases e with
  | sendRequest source target message => exact h.send source target message []
  | sendFile source target message shm => exact h.send source target message shm
  | post k =>
    simp only [step]
    split
    · next x hx =>
      refine h.post hx fun j y hj hy => ?_
      obtain ⟨hLt, -⟩ := List.getElem?_eq_some_iff.mp hy
      exact he x hx j hLt y hy hj
    · exact h
  | receive node source =>
    simp only [step]
    split
    · exact h
    · next m rest hChannel =>
      refine .ite (fun hAccepts => ?_) fun _ => h
      unfold receive
      split
      · next hListener => exact h.readNextRequest_ends hChannel hListener
      · next source' t left taken hListener =>
        rw [hListener] at hAccepts
        cases hAccepts
        exact h.recvFile_ends hChannel hListener

/-- In every run in which no message is posted between those of another thread with the same target,
each `recv_file` receives the chunks of the transfer that its request began, and no other, and
`read_next_request` receives requests. -/
theorem transfers_not_interleaved {events : List Event} (hEvents : Meets (Exclusive b) (step b) {} events) :
    Ends (events.foldlM (step b) {})
      (fun s => (∀ r ∈ s.receipts, r.Ok b) ∧ ∀ node, (s.listeners node).Ok b) Fault.Ok := by
  have hRun := run_ends (fun _ _ h he => step_ends h he) (whole_start b) events hEvents
  exact hRun.mono (fun s h => ⟨h.receipts, fun node => (h.listeners node).ok⟩) fun _ h => h

end

instance (b : Backend) : DecidablePred (Sender.Midway b) := fun _ => inferInstanceAs (Decidable (_ ∧ _))

instance (b : Backend) (s : State) : DecidablePred (Exclusive b s) :=
  fun op => by cases op <;> dsimp only [Exclusive] <;> infer_instance

def smallChunks : Backend := ⟨2, by decide, 8⟩

def nodeA : Node := ['a']

def nodeB : Node := ['b']

def nodeC : Node := ['c']

def oneByOne : List Event :=
  [.sendFile nodeA nodeB [1] [7, 8, 9], .sendRequest nodeA nodeB [2], .sendRequest nodeC nodeB [3],
    .post 0, .post 2, .post 0, .receive nodeB nodeA, .post 0, .receive nodeB nodeA, .receive nodeB nodeC,
    .receive nodeB nodeA, .post 1, .receive nodeB nodeC, .receive nodeB nodeA]

theorem oneByOne_not_interleaved : ∃ s, oneByOne.foldlM (step smallChunks) {} = .ok s ∧
    s.receipts = [.request (.request ⟨1, [2], []⟩), .request (.request ⟨2, [3], []⟩),
      .file ⟨0, [1], [7, 8, 9]⟩ [.chunk 0 [7, 8], .chunk 0 [9]],
      .request (.request ⟨0, [1], [7, 8, 9]⟩)] ∧
    ∀ r ∈ s.receipts, r.Ok smallChunks := by
  have hEvents : Meets (Exclusive smallChunks) (step smallChunks) {} oneByOne := by decide +kernel
  exact ⟨_, rfl, rfl, ((transfers_not_interleaved hEvents).result rfl).1⟩

def requestInside (shm : List Byte) : List Event :=
  [.sendFile nodeA nodeB [1] shm, .sendRequest nodeA nodeB [2], .post 0, .post 1, .post 0,
    .receive nodeB nodeA, .receive nodeB nodeA, .receive nodeB nodeA]

/-- The request is received as the bytes of the file and the chunk as a request; a chunk that is longer
than the request ends the server. -/
theorem requestInside_received_as_file : (∃ s, (requestInside [7]).foldlM (step smallChunks) {} = .ok s ∧
      s.receipts = [.request (.chunk 0 [7]), .file ⟨0, [1], [7]⟩ [.request ⟨1, [2], []⟩],
        .request (.request ⟨0, [1], [7]⟩)]) ∧
    failure ((requestInside [7, 8]).foldlM (step smallChunks) {}) =
      some (.chunkTruncated (.chunk 0 [7, 8])) :=
  ⟨⟨_, rfl, rfl⟩, rfl⟩

end Capio.Remote.MpiBackend
