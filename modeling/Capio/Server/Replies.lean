import Capio.Server.Turns

/-! # The replies to the requests of all clients

Every client thread makes its requests one at a time, and reads as many replies as the function of the
request does.  A request is numbered by its place among all requests; each reply carries the number of
the request in whose handling it was written, and each request the replies that were written for it and
those that its client has read.  Threads of all servers take turns in any order.
-/
namespace Capio.Server.Replies

open Common Lib.Outcome Storage Turns Function List

structure Reply where
  origin : Nat
  value : Int
  deriving DecidableEq

/-- Where a request is: in the request buffer of its server, at a thread of a node that runs or waits, or
on its way from one node to another. -/
inductive Stage
  | queued
  | running (node : Node) (t : Turn)
  | waiting (node : Node) (t : Thread)
  | sent (source dest : Node) (m : Remote.Requests.Message)

def Stage.isQueued : Stage → Bool
  | .queued => true
  | .running _ _ | .waiting _ _ | .sent _ _ _ => false

structure Entry where
  client : Client
  request : Posix.Requests.Request
  text : List Char
  stage : Stage := .queued
  written : List Int := []
  read : List Reply := []

/-- `waiting` is the request that a thread is blocked in, `responses` its response buffer, and
`registered` says whether the server has that buffer. -/
structure State where
  entries : List Entry := []
  waiting : Client → Option Nat := fun _ => none
  responses : Client → List Reply := fun _ => []
  registered : Client → Bool := fun _ => false

/-- A client makes a request, in a buffer with some junk, or reads a reply; the thread that is at a
request takes its turn; the id of a thread is given to a new one. -/
inductive Event
  | send (c : Client) (r : Posix.Requests.Request) (junk : List Char)
  | read (c : Client)
  | advance (n : Nat) (v : View)
  | reuse (c : Client)

namespace State

def setStage (s : State) (n : Nat) (e : Entry) (stage : Stage) : State :=
  { s with entries := s.entries.set n { e with stage := stage } }

def setRegistered (s : State) (c : Client) (present : Bool) : State :=
  { s with registered := update s.registered c present }

def reply (s : State) (n : Nat) (e : Entry) (c : Client) (value : Int) (stage : Stage) : State :=
  { s with
    entries := s.entries.set n { e with stage := stage, written := e.written ++ [value] }
    responses := update s.responses c (s.responses c ++ [⟨n, value⟩]) }

def send (s : State) (c : Client) (r : Posix.Requests.Request) (text : List Char) : State :=
  { s with
    entries := s.entries ++ [{ client := c, request := r, text := text }]
    waiting := if r.reads [] then update s.waiting c (some s.entries.length) else s.waiting }

def read (s : State) (c : Client) (n : Nat) (e : Entry) (x : Reply) (rest : List Reply) : State :=
  let got := e.read ++ [x]
  { s with
    entries := s.entries.set n { e with read := got }
    responses := update s.responses c rest
    waiting := update s.waiting c
      (if e.request.reads (got.map Reply.value) then some n else none) }

def First (s : State) (n : Nat) (e : Entry) : Prop :=
  ∀ m < n, ∀ e' ∈ s.entries[m]?, e'.client.node = e.client.node → e'.stage.isQueued = false

instance (s : State) (n : Nat) (e : Entry) : Decidable (s.First n e) :=
  inferInstanceAs (Decidable (∀ m < n, ∀ e' ∈ s.entries[m]?,
    e'.client.node = e.client.node → e'.stage.isQueued = false))

end State

section

variable (servers : Node → Settings)

/-- The turn of the thread that is at a request; it fails if the thread has to wait, if there is none, or
if the server ends. -/
def advance (s : State) (n : Nat) (e : Entry) (v : View) : Except Unit State :=
  match e.stage with
  | .queued =>
    match (Posix.Requests.serve e.text).bind Posix.Requests.call with
    | some r =>
      if s.First n e then
        pure (s.setStage n e (.running e.client.node (handle (servers e.client.node) e.client.node v r)))
      else throw ()
    | none => throw ()
  | .running _ .finish => throw ()
  | .running node (.reply tid value next) =>
    if s.registered ⟨node, tid⟩ then pure (s.reply n e ⟨node, tid⟩ value (.running node next))
    else throw ()
  | .running node (.registerClient tid next) =>
    pure ((s.setStage n e (.running node next)).setRegistered ⟨node, tid⟩ true)
  | .running node (.removeClient tid next) =>
    pure ((s.setStage n e (.running node next)).setRegistered ⟨node, tid⟩ false)
  | .running node (.detach t) => pure (s.setStage n e (.waiting node t))
  | .running node (.post dest m) => pure (s.setStage n e (.sent node dest m))
  | .waiting node t =>
    if t.ready v then pure (s.setStage n e (.running node (t.resume (servers node) node v)))
    else throw ()
  | .sent source dest m =>
    match Remote.Requests.deliver m with
    | some m => pure (s.setStage n e (.running dest (receive (servers dest) v source m)))
    | none => throw ()

/-- A thread that is blocked makes no request, and each thread gives its own id.  A request that does not
fit into its buffer is written past its end. -/
def step (s : State) : Event → Except Unit State
  | .send c r junk =>
    if s.waiting c = none ∧ r.tid = c.tid then
      match r.send junk with
      | some text => pure (s.send c r text)
      | none => throw ()
    else throw ()
  | .read c =>
    match s.waiting c, s.responses c with
    | some n, x :: rest =>
      match s.entries[n]? with
      | some e => pure (s.read c n e x rest)
      | none => throw ()
    | _, _ => throw ()
  | .advance n v =>
    match s.entries[n]? with
    | some e => advance servers s n e v
    | none => throw ()
  | .reuse c => pure { s with waiting := update s.waiting c none }

end

def Stage.Legible : Stage → Prop
  | .sent _ _ m => m.Typed ∧ m.WordsFit
  | .queued | .running _ _ | .waiting _ _ => True

/-- The texts of a request are words, and so are those of a message, which fit into the buffers that they
are read into; and a thread whose id is given to a new one was not blocked in a request. -/
def Legible (s : State) : Event → Prop
  | .send _ r _ => r.Typed ∧ r.Words
  | .read _ => True
  | .advance n _ => ∀ e ∈ s.entries[n]?, e.stage.Legible
  | .reuse c => s.waiting c = none

instance : DecidablePred Stage.Legible
  | .sent _ _ m => inferInstanceAs (Decidable (m.Typed ∧ m.WordsFit))
  | .queued | .running _ _ | .waiting _ _ => .isTrue trivial

instance (s : State) : DecidablePred (Legible s) :=
  fun op => by cases op <;> dsimp only [Legible] <;> infer_instance

structure RepliesMatch (servers : Node → Settings) (s : State) : Prop where
  empty : ∀ c, s.waiting c = none → s.responses c = []
  bounded : ∀ (n : Nat) (e : Entry), s.entries[n]? = some e →
    e.written.length ≤ replies (servers e.client.node).engine e.request
  exact : ∀ (n : Nat) (e : Entry), s.entries[n]? = some e → s.waiting e.client ≠ some n →
    e.written.length = replies (servers e.client.node).engine e.request
  own : ∀ (n : Nat) (e : Entry), s.entries[n]? = some e → ∀ x ∈ e.read, x.origin = n

section

variable {s : State} {n m : Nat} {e e' : Entry}

theorem reads_iff (hValue : ∀ x ∈ got, Value engine r x) (hLe : got.length ≤ replies engine r) :
    r.reads got = true ↔ got.length < replies engine r := by
  have hOne : got.isEmpty = true ↔ got.length < 1 := by
    rw [List.isEmpty_iff, ← List.length_eq_zero_iff]
    omega
  cases r with
  | clone | close | dup | exitGroup | handshakeAnonymous | write =>
      simp [Posix.Requests.Request.reads, replies]
  | handshakeNamed tid pid appName wait => grind [Posix.Requests.Request.reads, replies]
  | fstat | seekEnd => simp [Posix.Requests.Request.reads, replies]
  | stat path tid =>
      cases got with
      | nil => grind [Posix.Requests.Request.reads, replies]
      | cons size got =>
          have hSize : size = CAPIO_POSIX_SYSCALL_REQUEST_SKIP ↔ engine.isExcluded path = true :=
            hValue size mem_cons_self
          cases got with
          | nil => grind [Posix.Requests.Request.reads, replies]
          | cons dir got => grind [replies, Posix.Requests.Request.reads]
  | _ => exact hOne

def Owes (servers : Node → Settings) (e : Entry) (k : Nat) : Stage → Prop
  | .queued => (Posix.Requests.serve e.text).bind Posix.Requests.call = some e.request.heard ∧
    e.request.tid = e.client.tid ∧ replies (servers e.client.node).engine e.request = k
  | .running node t => t.Owes e.client (Value (servers e.client.node).engine e.request) node k
  | .waiting node t => t.Owes e.client (Value (servers e.client.node).engine e.request) node k
  | .sent source dest m =>
    MessageOwes e.client (Value (servers e.client.node).engine e.request) source dest k m

/-- A client that is blocked in a request has read what was written for it, or has it in its buffer. -/
structure EntryOk (servers : Node → Settings) (s : State) (n : Nat) (e : Entry) (k : Nat) : Prop where
  owes : Owes servers e k e.stage
  count : e.written.length + k = replies (servers e.client.node).engine e.request
  values : ∀ x ∈ e.written, Value (servers e.client.node).engine e.request x
  settled : s.waiting e.client ≠ some n → k = 0 ∧ e.read = e.written.map (Reply.mk n)
  blocked : s.waiting e.client = some n →
    e.read ++ s.responses e.client = e.written.map (Reply.mk n) ∧
      e.read.length < replies (servers e.client.node).engine e.request

structure Inv (servers : Node → Settings) (s : State) : Prop where
  entries : ∀ n e, s.entries[n]? = some e → ∃ k, EntryOk servers s n e k
  clients : ∀ c n, s.waiting c = some n → ∃ e, s.entries[n]? = some e ∧ e.client = c
  empty : ∀ c, s.waiting c = none → s.responses c = []

theorem inv_init : Inv servers {} where
  entries := by simp
  clients := by simp
  empty := by simp

theorem getElem?_set_eq_some (he : s.entries[n]? = some e) (hm : (s.entries.set n e1)[m]? = some e') :
    m = n ∧ e' = e1 ∨ m ≠ n ∧ s.entries[m]? = some e' := by
  by_cases hmn : m = n
  · grind
  · grind

theorem getElem?_append_eq_some (hm : (s.entries ++ [e1])[m]? = some e') :
    m < s.entries.length ∧ s.entries[m]? = some e' ∨ m = s.entries.length ∧ e' = e1 := by
  grind

theorem Inv.clients_set (hs : Inv servers s) (he : s.entries[n]? = some e) (e1 : Entry)
    (hClient : e1.client = e.client) (hWaiting : s.waiting c = some m) :
    ∃ e', (s.entries.set n e1)[m]? = some e' ∧ e'.client = c := by
  obtain ⟨e', he', hc⟩ := hs.clients c m hWaiting
  grind

theorem Inv.setStage (hs : Inv servers s) (he : s.entries[n]? = some e)
    (hStage : ∀ k, Owes servers e k e.stage → Owes servers e k stage) :
    Inv servers (s.setStage n e stage) where
  entries := by
    intro m e' he'
    obtain ⟨rfl, rfl⟩ | ⟨hmn, he'⟩ := getElem?_set_eq_some he he'
    · obtain ⟨k, hOk⟩ := hs.entries m e he
      exact ⟨k, hStage k hOk.owes, hOk.count, hOk.values, hOk.settled, hOk.blocked⟩
    · obtain ⟨k, hOk⟩ := hs.entries m e' he'
      exact ⟨k, hOk.owes, hOk.count, hOk.values, hOk.settled, hOk.blocked⟩
  clients := fun c m hWaiting => hs.clients_set he { e with stage := stage } rfl hWaiting
  empty := hs.empty

theorem Inv.setRegistered (hs : Inv servers s) (c : Client) (present : Bool) :
    Inv servers (s.setRegistered c present) where
  entries := by
    intro m e he
    obtain ⟨k, hOk⟩ := hs.entries m e he
    exact ⟨k, hOk.owes, hOk.count, hOk.values, hOk.settled, hOk.blocked⟩
  clients := hs.clients
  empty := hs.empty

theorem EntryOk.of_ne (hOk : EntryOk servers s m e' k)
    (hWaiting : e'.client = c → s.waiting c ≠ some m ∧ s1.waiting c ≠ some m)
    (hOther : ∀ c' ≠ c, s1.waiting c' = s.waiting c' ∧ s1.responses c' = s.responses c') :
    EntryOk servers s1 m e' k := by
  by_cases hClient : e'.client = c
  · obtain ⟨hBefore, hAfter⟩ := hWaiting hClient
    rw [← hClient] at hBefore hAfter
    exact ⟨hOk.owes, hOk.count, hOk.values, fun _ => hOk.settled hBefore,
      fun hBlocked => absurd hBlocked hAfter⟩
  · obtain ⟨hSame, hBuffer⟩ := hOther e'.client hClient
    refine ⟨hOk.owes, hOk.count, hOk.values, ?_, ?_⟩
    · rw [hSame]
      exact hOk.settled
    · rw [hSame, hBuffer]
      exact hOk.blocked

theorem Inv.reply (hs : Inv servers s) (he : s.entries[n]? = some e)
    {next : Turn} (hStage : e.stage = .running node (.reply tid value next)) :
    Inv servers (s.reply n e ⟨node, tid⟩ value (.running node next)) := by
  obtain ⟨k, hOk⟩ := hs.entries n e he
  have hOwes := hOk.owes
  rw [hStage] at hOwes
  cases k with
  | zero => exact hOwes.elim
  | succ k =>
      obtain ⟨hClient, hValue, hNext⟩ := hOwes
      rw [hClient]
      -- a reply is due, so the client is blocked in this request
      have hWaiting : s.waiting e.client = some n := by
        by_contra hNot
        exact absurd (hOk.settled hNot).1 (by omega)
      obtain ⟨hRead, hLt⟩ := hOk.blocked hWaiting
      constructor
      · intro m e' he'
        obtain ⟨rfl, rfl⟩ | ⟨hmn, he'⟩ := getElem?_set_eq_some he he'
        · refine ⟨k, hNext, ?_, ?_, fun hNot => absurd hWaiting hNot, fun _ => ⟨?_, hLt⟩⟩
          · have hCount := hOk.count
            simp only [length_append, length_singleton]
            omega
          · intro x hx
            grind [hOk.values, mem_singleton]
          · simp only [State.reply, update_self, map_append, map_cons, map_nil]
            rw [← append_assoc, hRead]
        · obtain ⟨k', hOk'⟩ := hs.entries m e' he'
          have hNe : s.waiting e.client ≠ some m := by grind
          exact ⟨k', hOk'.of_ne (fun _ => ⟨hNe, hNe⟩) fun c' hc' =>
            ⟨rfl, update_of_ne hc' _ _⟩⟩
      · exact fun c m hWaiting => hs.clients_set he
          { e with stage := .running node next, written := e.written ++ [value] } rfl hWaiting
      · intro c hNone
        have hNe : c ≠ e.client := by
          rintro rfl
          change s.waiting e.client = none at hNone
          rw [hWaiting] at hNone
          contradiction
        exact (update_of_ne hNe _ _).trans (hs.empty c hNone)

theorem send_waiting (s : State) (c c' : Client) (r : Posix.Requests.Request) (text : List Char) :
    (s.send c r text).waiting c' =
      if c' = c ∧ r.reads [] = true then some s.entries.length else s.waiting c' := by
  unfold State.send
  grind

theorem Inv.send (hs : Inv servers s) (hIdle : s.waiting c = none) (hTid : r.tid = c.tid)
    (hLegible : r.Typed ∧ r.Words) (hText : r.send junk = some text) : Inv servers (s.send c r text) := by
  have hReads : r.reads [] = true ↔ 0 < replies (servers c.node).engine r :=
    reads_iff (by simp) (Nat.zero_le _)
  have hOther {c' : Client} (hc' : c' ≠ c) : (s.send c r text).waiting c' = s.waiting c' := by
    rw [send_waiting, if_neg fun h => hc' h.1]
  constructor
  · intro m e he
    obtain ⟨hLt, he⟩ | ⟨rfl, rfl⟩ := getElem?_append_eq_some he
    · obtain ⟨k, hOk⟩ := hs.entries m e he
      refine ⟨k, hOk.of_ne (c := c) (fun _ => ⟨by simp [hIdle], ?_⟩) fun c' hc' => ⟨hOther hc', rfl⟩⟩
      grind [send_waiting]
    · refine ⟨replies (servers c.node).engine r, ⟨Posix.Requests.call_serve hLegible.1 hLegible.2 hText,
        hTid, rfl⟩, by simp, by simp, fun hNot => ?_, fun hBlocked => ?_⟩
      · grind [send_waiting]
      · rw [send_waiting] at hBlocked
        split at hBlocked
        · next hSelf => exact ⟨hs.empty c hIdle, hReads.mp hSelf.2⟩
        · rw [hIdle] at hBlocked
          contradiction
  · intro c' m hWaiting
    rw [send_waiting] at hWaiting
    split at hWaiting
    · next hSelf =>
      obtain rfl := Option.some.inj hWaiting
      exact ⟨_, getElem?_concat_length, hSelf.1.symm⟩
    · obtain ⟨e, he, hClient⟩ := hs.clients c' m hWaiting
      exact ⟨e, (List.getElem?_append_left (List.getElem?_eq_some_iff.mp he).1).trans he, hClient⟩
  · intro c' hNone
    rw [send_waiting] at hNone
    split at hNone
    · contradiction
    · exact hs.empty c' hNone

theorem read_waiting (s : State) (c c' : Client) (n : Nat) (e : Entry) (x : Reply) (rest : List Reply) :
    (s.read c n e x rest).waiting c' =
      if c' = c then (if e.request.reads ((e.read ++ [x]).map Reply.value) = true then some n else none)
      else s.waiting c' := update_apply _ _ _ _

theorem Inv.read (hs : Inv servers s) (hWaiting : s.waiting c = some n)
    (hBuffer : s.responses c = x :: rest) (he : s.entries[n]? = some e) :
    Inv servers (s.read c n e x rest) := by
  obtain ⟨e0, he0, rfl⟩ := hs.clients c n hWaiting
  obtain rfl : e = e0 := Option.some.inj (he.symm.trans he0)
  obtain ⟨k, hOk⟩ := hs.entries n e he
  obtain ⟨hRead, hLt⟩ := hOk.blocked hWaiting
  -- the replies are read in the order in which they were written
  have hGot : (e.read ++ [x]) ++ rest = e.written.map (Reply.mk n) := by
    rw [← hRead, hBuffer]
    simp
  have hWritten : (e.read ++ [x]).map Reply.value ++ rest.map Reply.value = e.written := by
    rw [← map_append, hGot, map_map]
    exact map_id _
  have hCount := hOk.count
  have hLength := congrArg length hWritten
  simp only [length_append, length_map, length_singleton] at hLength
  have hReads : e.request.reads ((e.read ++ [x]).map Reply.value) = true ↔
      e.read.length + 1 < replies (servers e.client.node).engine e.request := by
    have hGotLength : ((e.read ++ [x]).map Reply.value).length = e.read.length + 1 := by simp
    rw [← hGotLength]
    refine reads_iff (fun y hy => hOk.values y ?_) (by omega)
    rw [← hWritten]
    exact mem_append_left _ hy
  -- the function returns when nothing is due any more, and then the buffer is empty
  have hDone (hNot : ¬ e.request.reads ((e.read ++ [x]).map Reply.value) = true) : k = 0 ∧ rest = [] := by
    rw [hReads] at hNot
    exact ⟨by omega, length_eq_zero_iff.mp (by omega)⟩
  constructor
  · intro m e' he'
    obtain ⟨rfl, rfl⟩ | ⟨hmn, he'⟩ := getElem?_set_eq_some he he'
    · refine ⟨k, hOk.owes, hOk.count, hOk.values, fun hNot => ?_, fun hBlocked => ⟨?_, ?_⟩⟩
      · rw [read_waiting, if_pos rfl] at hNot
        simp_all
      · exact (congrArg _ (update_self _ _ _)).trans hGot
      · grind [read_waiting]
    · obtain ⟨k', hOk'⟩ := hs.entries m e' he'
      refine ⟨k', hOk'.of_ne (c := e.client) (fun _ => ⟨?_, ?_⟩) fun c' hc' =>
        ⟨update_of_ne hc' _ _, update_of_ne hc' _ _⟩⟩
      · grind
      · grind [read_waiting]
  · intro c' m hWaiting'
    refine hs.clients_set he { e with read := e.read ++ [x] } rfl ?_
    rw [read_waiting] at hWaiting'
    split at hWaiting'
    · grind
    · exact hWaiting'
  · intro c' hNone
    rw [read_waiting] at hNone
    split at hNone
    · next hc' =>
      subst hc'
      split at hNone
      · contradiction
      · next hNot => exact (update_self _ _ _).trans (hDone hNot).2
    · next hc' => exact (update_of_ne hc' _ _).trans (hs.empty c' hNone)

theorem Inv.reuse (hs : Inv servers s) (hIdle : s.waiting c = none) :
    Inv servers { s with waiting := update s.waiting c none } := by
  have hSame : update s.waiting c none = s.waiting := by
    rw [← hIdle]
    exact update_eq_self c s.waiting
  rw [hSame]
  exact hs

theorem handle_heard_owes (g : Settings) (node : Node) (v : View) (r : Posix.Requests.Request) :
    (handle g node v r.heard).Owes ⟨node, r.tid⟩ (Value g.engine r) node (replies g.engine r) := by
  have hOwes := handle_owes g node v r.heard
  cases r with
  | _ => exact hOwes

theorem narrow_owes {P : Int → Prop} {source dest : Node} {m : Remote.Requests.Message}
    (hm : MessageOwes c P source dest k m) : MessageOwes c P source dest k m.narrow := by
  obtain ⟨hClient, hReplies, hAdmits, hSized⟩ := hm
  cases m with
  | _ => exact ⟨hClient, hReplies, hAdmits, hSized⟩

theorem Inv.advance (hs : Inv servers s) (he : s.entries[n]? = some e) (v : View)
    (hLegible : e.stage.Legible) : Yields (advance servers s n e v) (Inv servers) := by
  unfold Replies.advance
  split
  · next hStage =>
    split
    · next r hCall =>
      refine .ite (fun _ => hs.setStage he fun k hOwes => ?_) fun _ => trivial
      rw [hStage] at hOwes
      obtain ⟨hHeard, hTid, rfl⟩ := hOwes
      obtain rfl : r = e.request.heard := Option.some.inj (hCall.symm.trans hHeard)
      have hOwes := handle_heard_owes (servers e.client.node) e.client.node v e.request
      rw [hTid] at hOwes
      exact hOwes
    · trivial
  · trivial
  · next node tid value next hStage =>
    exact .ite (fun _ => hs.reply he hStage) fun _ => trivial
  · next node tid next hStage =>
    refine (hs.setStage he fun k hOwes => ?_).setRegistered _ _
    rw [hStage] at hOwes
    exact hOwes
  · next node tid next hStage =>
    refine (hs.setStage he fun k hOwes => ?_).setRegistered _ _
    rw [hStage] at hOwes
    exact hOwes
  · next node t hStage =>
    refine hs.setStage he fun k hOwes => ?_
    rw [hStage] at hOwes
    exact hOwes
  · next node dest m hStage =>
    refine hs.setStage he fun k hOwes => ?_
    rw [hStage] at hOwes
    exact hOwes
  · next node t hStage =>
    refine .ite (fun _ => hs.setStage he fun k hOwes => ?_) fun _ => trivial
    rw [hStage] at hOwes
    exact Thread.resume_owes (servers node) node v hOwes
  · next source dest m hStage =>
    rw [hStage] at hLegible
    rw [Remote.Requests.deliver_eq hLegible.1 hLegible.2]
    refine hs.setStage he fun k hOwes => ?_
    rw [hStage] at hOwes
    exact receive_owes (servers dest) dest v (narrow_owes hOwes)

theorem Inv.step (hs : Inv servers s) (event : Event) (hLegible : Legible s event) :
    Yields (step servers s event) (Inv servers) := by
  cases event with
  | send c r junk =>
      refine .ite (fun hIdle => ?_) fun _ => trivial
      split
      · next text hText => exact hs.send hIdle.1 hIdle.2 hLegible hText
      · trivial
  | read c =>
      unfold Replies.step
      dsimp only
      split
      · next n x rest hWaiting hBuffer =>
        split
        · next e he => exact hs.read hWaiting hBuffer he
        · trivial
      · trivial
  | advance n v =>
      unfold Replies.step
      dsimp only
      split
      · next e he => exact hs.advance he v (hLegible e he)
      · trivial
  | reuse c => exact hs.reuse hLegible

theorem Inv.repliesMatch (hs : Inv servers s) : RepliesMatch servers s where
  empty := hs.empty
  bounded := by
    intro n e he
    obtain ⟨k, hOk⟩ := hs.entries n e he
    have hCount := hOk.count
    omega
  exact := by
    intro n e he hNot
    obtain ⟨k, hOk⟩ := hs.entries n e he
    have hCount := hOk.count
    have hZero := (hOk.settled hNot).1
    omega
  own := by
    intro n e he x hx
    obtain ⟨k, hOk⟩ := hs.entries n e he
    have hMem : x ∈ e.written.map (Reply.mk n) := by
      by_cases hWaiting : s.waiting e.client = some n
      · rw [← (hOk.blocked hWaiting).1]
        exact mem_append_left _ hx
      · rw [← (hOk.settled hWaiting).2]
        exact hx
    obtain ⟨value, -, rfl⟩ := mem_map.mp hMem
    rfl

end

/-- In every run of all clients and servers, every request gets exactly the replies that its client
reads. -/
theorem replies_match (servers : Node → Settings) (events : List Event) {s : State}
    (hLegible : Meets Legible (step servers) {} events) (hRun : events.foldlM (step servers) {} = .ok s) :
    RepliesMatch servers s := by
  have hStep : ∀ s event, Inv servers s → Legible s event →
      Ends (step servers s event) (Inv servers) fun _ => True :=
    fun _ event hs hLegible => hs.step event hLegible
  exact ((run_ends hStep inv_init events hLegible).result hRun).repliesMatch

def plain : Settings where
  engine :=
    { isExcluded := fun _ => false
      isPermanent := fun _ => false
      isFirable := fun _ => false
      isProducer := fun _ _ => false
      getCommitRule := fun _ => .onClose
      getCommitCloseCount := fun _ => 0
      getDirectoryFileCount := fun _ => 0 }
  capioDir := ['/', 'd']
  prefetchDataSize := 0

def found (located committed : Bool) (location : Node) : View where
  file := (CapioFile.new false 0 false 4 0).setCommitted committed
  stored := true
  located := located
  loaded := false
  location := location
  own := false
  isProducer := false
  produced := false
  path := "/d/a".toList
  offset := 0
  result := 0
  allowed := false

def handshake (c : Client) (n : Nat) : List Event :=
  [.send c (.handshakeNamed c.tid c.tid "app".toList false) [], .advance n (found true true c.node),
    .advance n (found true true c.node)]

def remoteStat : List Event :=
  handshake ⟨['n'], 7⟩ 0 ++ [.send ⟨['n'], 7⟩ (.stat "/d/a".toList 7) [],
    .advance 1 (found true false ['m']), .advance 1 (found true false ['m']),
    .advance 1 (found true true ['m']), .advance 1 (found true true ['m']),
    .advance 1 (found true true ['m']), .advance 1 (found true true ['m']), .read ⟨['n'], 7⟩,
    .advance 1 (found true true ['m']), .read ⟨['n'], 7⟩]

theorem replies_match_remoteStat : ∃ s, remoteStat.foldlM (step fun _ => plain) {} = .ok s ∧
      (s.entries[1]?.map Entry.read = some [⟨1, 0⟩, ⟨1, 0⟩] ∧ s.waiting ⟨['n'], 7⟩ = none) ∧
      RepliesMatch (fun _ => plain) s := by
  have hRun : ∃ s, remoteStat.foldlM (step fun _ => plain) {} = .ok s ∧
      s.entries[1]?.map Entry.read = some [⟨1, 0⟩, ⟨1, 0⟩] ∧ s.waiting ⟨['n'], 7⟩ = none :=
    by decide +kernel
  obtain ⟨s, hRun, hs⟩ := hRun
  exact ⟨s, hRun, hs, replies_match _ remoteStat (by decide +kernel) hRun⟩

def misdirected : List Event :=
  handshake ⟨['n'], 5⟩ 0 ++ handshake ⟨['n'], 12⟩ 1 ++
    [.send ⟨['n'], 12⟩ (.rename 12 "/d/a".toList "/d/b 5".toList) [],
      .advance 2 (found true true ['n']), .advance 2 (found true true ['n'])]

def misread : List Event :=
  misdirected ++ [.send ⟨['n'], 5⟩ (.access "/d/c".toList 5) [], .read ⟨['n'], 5⟩]

def reused : List Event :=
  handshake ⟨['n'], 5⟩ 0 ++ [.send ⟨['n'], 5⟩ (.open 3 "/d/a".toList 5) [],
    .advance 1 (found false false ['n']), .advance 1 (found false false ['n']), .reuse ⟨['n'], 5⟩,
    .advance 1 (found true true ['n']), .advance 1 (found true true ['n'])]

/-- The reply to a rename reaches a thread that is not blocked, and is read as the answer to its next
request.  The reply to a thread that has ended reaches the one that has its id now. -/
theorem replies_misdirected : (∃ s, misdirected.foldlM (step fun _ => plain) {} = .ok s ∧
      s.waiting ⟨['n'], 5⟩ = none ∧ s.responses ⟨['n'], 5⟩ = [⟨2, 0⟩]) ∧
    (∃ s, misread.foldlM (step fun _ => plain) {} = .ok s ∧
      s.entries[3]?.map Entry.read = some [⟨2, 0⟩]) ∧
    ∃ s, reused.foldlM (step fun _ => plain) {} = .ok s ∧
      s.waiting ⟨['n'], 5⟩ = none ∧ s.responses ⟨['n'], 5⟩ = [⟨1, 0⟩] := by
  decide +kernel

end Capio.Server.Replies
