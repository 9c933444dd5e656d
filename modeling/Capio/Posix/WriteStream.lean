import Capio.Lib.Outcome
import Capio.Posix.WriteCache

/-! # Writes on their way to the server

The client and the server share a queue of elements and a queue of requests, and interleave one
operation on them at a time.  A line is in the first queue before it is filled and before its
request is in the second one, and the elements of a large write come after its request.  What pairs
the two queues is the script of a call: what its remaining actions will do to the line in use and
which requests, with which bytes, they will issue.
-/
namespace Capio.Posix.WriteStream

open Common Lib Lib.Outcome Lib.Pieces List

abbrev Block := Fd × List Byte

def tagged (blocks : List Block) : List (Fd × Byte) :=
  blocks.flatMap fun b => b.2.map fun byte => (b.1, byte)

@[simp] theorem tagged_nil : tagged [] = [] := rfl

@[simp] theorem tagged_cons (b : Block) (blocks : List Block) :
    tagged (b :: blocks) = (b.2.map fun byte => (b.1, byte)) ++ tagged blocks := rfl

@[simp] theorem tagged_append (l m : List Block) : tagged (l ++ m) = tagged l ++ tagged m :=
  flatMap_append

/-- The actions take the line in use from the first to the second content and issue the requests. -/
inductive Script (size : Nat) :
    Option (List Byte) → List CacheAction → Option (List Byte) → List Block → Prop
  | nil (line : Option (List Byte)) : Script size line [] line []
  | reserve {actions : List CacheAction} {line' : Option (List Byte)} {out : List Block} :
      Script size (some []) actions line' out → Script size none (.reserve :: actions) line' out
  | store {line bytes : List Byte} {actions : List CacheAction} {line' : Option (List Byte)}
      {out : List Block} : Script size (some (line ++ bytes)) actions line' out →
      Script size (some line) (.store line.length bytes :: actions) line' out
  | request {line : List Byte} (fd : Fd) {actions : List CacheAction} {line' : Option (List Byte)}
      {out : List Block} : line ≠ [] → line.length ≤ size → Script size none actions line' out →
      Script size (some line) (.request fd line.length :: actions) line' ((fd, line) :: out)
  | bypass {data : List Byte} (fd : Fd) {actions : List CacheAction} {line' : Option (List Byte)}
      {out : List Block} : Script size none actions line' out →
      Script size none (.request fd data.length :: ((pieces size data).map .push ++ actions)) line'
        ((fd, data) :: out)

theorem Script.append (h : Script size line actions mid out) (h' : Script size mid actions' line' out') :
    Script size line (actions ++ actions') line' (out ++ out') := by
  induction h with
  | nil line => exact h'
  | reserve _ ih => exact .reserve (ih h')
  | store _ ih => exact .store (ih h')
  | request fd hLine hSize _ ih => exact .request fd hLine hSize (ih h')
  | bypass fd _ ih =>
    rw [cons_append, append_assoc]
    exact .bypass fd (ih h')

structure Holds (size : Nat) (c : WriteCache) (line : Option (List Byte)) : Prop where
  reserved : c.reserved = line.isSome
  actualSize : c.actualSize = (line.getD []).length
  partly : ∀ bytes ∈ line, bytes ≠ [] ∧ bytes.length ≤ size

def Appends (size : Nat) (c : WriteCache) (line : Option (List Byte)) (r : WriteCache × List CacheAction)
    (line' : Option (List Byte)) (blocks : List Block) : Prop :=
  Holds size r.1 line' ∧ ∃ out, Script size line r.2 line' out ∧
    tagged out ++ tagged [(r.1.fd, line'.getD [])] = tagged [(c.fd, line.getD [])] ++ tagged blocks

theorem Appends.trans (h : Appends size c line (c1, actions) line1 blocks)
    (h' : Appends size c1 line1 (c2, actions') line2 blocks') :
    Appends size c line (c2, actions ++ actions') line2 (blocks ++ blocks') := by
  obtain ⟨_, out, hScript, hTagged⟩ := h
  obtain ⟨hHolds, out', hScript', hTagged'⟩ := h'
  refine ⟨hHolds, out ++ out', hScript.append hScript', ?_⟩
  rw [tagged_append, append_assoc, hTagged', ← append_assoc, hTagged, append_assoc, tagged_append]

theorem flush_appends (h : Holds size c line) : Appends size c line c.flush none [] := by
  unfold WriteCache.flush
  cases line with
  | none =>
    rw [if_neg (by simp [h.actualSize])]
    exact ⟨h, [], .nil none, by simp⟩
  | some bytes =>
    obtain ⟨hBytes, hSize⟩ := h.partly bytes rfl
    have hActual : c.actualSize = bytes.length := h.actualSize
    rw [if_pos (by simpa [hActual] using hBytes), hActual]
    exact ⟨⟨rfl, rfl, by simp⟩, [(c.fd, bytes)], .request c.fd hBytes hSize (.nil none), by simp⟩

theorem flush_fd (c : WriteCache) : c.flush.1.fd = c.fd := by
  unfold WriteCache.flush
  split <;> rfl

theorem writeLine_appends (h : Holds size c line) (data : List Byte)
    (hFits : (line.getD []).length + data.length ≤ size) :
    ∃ line', Appends size c line (c.writeLine size data.length data) line' [(c.fd, data)] := by
  unfold WriteCache.writeLine
  by_cases hData : data = []
  · subst hData
    exact ⟨line, h, [], .nil line, by simp⟩
  rw [if_pos (by simpa using length_pos_iff.mpr hData), Int.toNat_natCast, take_length, h.actualSize]
  dsimp only
  have hStored : Appends size c line
      ({ c with reserved := true, actualSize := (line.getD []).length + data.length },
        (if c.reserved then [] else [CacheAction.reserve]) ++ [.store (line.getD []).length data])
      (some (line.getD [] ++ data)) [(c.fd, data)] := by
    refine ⟨⟨rfl, by simp, ?_⟩, [], ?_, by simp⟩
    · rintro bytes ⟨⟩
      exact ⟨by simp [hData], by simpa using hFits⟩
    · rw [h.reserved]
      cases line with
      | none => exact .reserve (.store (.nil (some ([] ++ data))))
      | some bytes => exact .store (.nil _)
  split
  · exact ⟨none, hStored.trans (flush_appends hStored.1)⟩
  · rw [append_nil]
    exact ⟨_, hStored⟩

theorem switch_appends (h : Holds size c line) (fd : Fd) :
    (c.switch fd).1.fd = fd ∧ ∃ line', Appends size c line (c.switch fd) line' [] := by
  unfold WriteCache.switch
  by_cases hFd : c.fd = fd
  · rw [if_neg (by simpa using hFd)]
    exact ⟨hFd, line, h, [], .nil line, by simp⟩
  · rw [if_pos hFd]
    obtain ⟨hHolds, out, hScript, hTagged⟩ := flush_appends h
    refine ⟨rfl, none, ⟨hHolds.reserved, hHolds.actualSize, hHolds.partly⟩, out, hScript, ?_⟩
    simpa using hTagged

theorem bypass_appends (h : Holds size c none) (data : List Byte) :
    Appends size c none (c, .request c.fd data.length :: (pieces size data).map .push) none
      [(c.fd, data)] := by
  have hScript : Script size none (.request c.fd data.length :: ((pieces size data).map .push ++ [])) none
      [(c.fd, data)] := .bypass c.fd (.nil none)
  rw [append_nil] at hScript
  exact ⟨h, [(c.fd, data)], hScript, by simp⟩

theorem write_appends (h : Holds size c line) (fd : Fd) (data : List Byte) :
    ∃ line', Appends size c line (c.write size fd data data.length) line' [(fd, data)] := by
  obtain ⟨hFd, line1, hSwitch⟩ := switch_appends h fd
  unfold WriteCache.write
  generalize c.switch fd = r at hFd hSwitch ⊢
  obtain ⟨c1, switched⟩ := r
  dsimp only at hFd ⊢
  subst hFd
  split
  · rename_i hFits
    rw [hSwitch.1.actualSize] at hFits
    obtain ⟨line', hLine⟩ := writeLine_appends hSwitch.1 data (by omega)
    exact ⟨line', hSwitch.trans hLine⟩
  · have hFlush : Appends size c line (c1.flush.1, switched ++ c1.flush.2) none [] :=
      hSwitch.trans (flush_appends hSwitch.1)
    have hFd := flush_fd c1
    rw [← hFd]
    split
    · rw [Int.toNat_natCast, take_length]
      exact ⟨none, hFlush.trans (bypass_appends hFlush.1 data)⟩
    · rename_i hSmall
      rw [hFlush.1.actualSize] at hSmall
      obtain ⟨line', hLine⟩ := writeLine_appends hFlush.1 data (by simp at hSmall ⊢; omega)
      exact ⟨line', hFlush.trans hLine⟩

inductive Call
  | write (fd : Fd) (data : List Byte)
  | flush

def Call.run (size : Nat) (c : WriteCache) : Call → WriteCache × List CacheAction
  | .write fd data => c.write size fd data data.length
  | .flush => c.flush

def Call.blocks : Call → List Block
  | .write fd data => [(fd, data)]
  | .flush => []

theorem Call.run_appends (h : Holds size c line) (call : Call) :
    ∃ line', Appends size c line (call.run size c) line' call.blocks := by
  cases call with
  | write fd data => exact write_appends h fd data
  | flush => exact ⟨none, flush_appends h⟩

/-- The client with the actions left in its call, the segment `_cache` points to and the counter of
the loop of `Queue::write`; the server with the request it reads, what is left of it and what it has
read.  `blocks` is what the server has read, `written` what the client was asked to write. -/
structure State where
  cache : WriteCache := {}
  actions : List CacheAction := []
  slot : Nat := 0
  turns : Nat := 0
  queue : Queue
  requests : List (Fd × Nat) := []
  serving : Option (Fd × Nat × List Byte) := none
  blocks : List Block := []
  written : List Block := []

inductive Event
  | call (call : Call)
  | act
  | accept
  | read
  | finish

def perform (size : Nat) (s : State) : CacheAction → Option State
  | .reserve => s.queue.reserve.map fun (slot, q) => { s with slot := slot, queue := q }
  | .store offset bytes => some { s with queue := s.queue.store s.slot offset.toNat bytes }
  | .request fd count => some { s with requests := s.requests ++ [(fd, count.toNat)] }
  | .push bytes =>
    (s.queue.write bytes).map fun q => { s with turns := s.turns + bytes.length / size, queue := q }

/-- `none` if the event is not possible: a call while another runs, a wait for a semaphore. -/
def step (size : Nat) (s : State) : Event → Option State
  | .call call =>
    match s.actions with
    | [] =>
      let (c, actions) := call.run size s.cache
      some { s with cache := c, actions := actions, turns := 0, written := s.written ++ call.blocks }
    | _ :: _ => none
  | .act =>
    match s.actions with
    | [] => none
    | action :: actions => perform size { s with actions := actions } action
  | .accept =>
    match s.serving, s.requests with
    | none, (fd, count) :: requests =>
      some { s with requests := requests, serving := some (fd, count, []) }
    | _, _ => none
  | .read =>
    match s.serving with
    | some (fd, left + 1, got) =>
      (s.queue.read (min size (left + 1))).map fun (bytes, q) =>
        { s with queue := q, serving := some (fd, left + 1 - min size (left + 1), got ++ bytes) }
    | _ => none
  | .finish =>
    match s.serving with
    | some (fd, 0, got) => some { s with serving := none, blocks := s.blocks ++ [(fd, got)] }
    | _ => none

/-- A size above `INT_MAX` is negative or another one for `memcpy`, and the variable of a loop is an
`int` too; a run is not followed beyond that. -/
inductive Fault
  | memcpySize
  | counterOverflow

def elementFault (size i numBytes : Nat) : Option Fault :=
  if INT_MAX < numBytes then some .memcpySize
  else if INT_MAX < i + numBytes / size then some .counterOverflow
  else none

def fault (size : Nat) (s : State) : Event → Option Fault
  | .act =>
    match s.actions with
    | .push bytes :: _ => elementFault size s.turns bytes.length
    | _ => none
  | .read =>
    match s.serving with
    | some (_, left, got) => elementFault size (got.length / size) (min size left)
    | none => none
  | _ => none

/-- An event that is not possible changes nothing. -/
def stepInt (size : Nat) (s : State) (e : Event) : Except Fault State :=
  match fault size s e with
  | some f => throw f
  | none => pure ((step size s e).getD s)

/-- What a state stands for: the bytes in the line in use now and at the end of the call, the bytes
of the last request that are still to be pushed, the script after them with its requests, the
requests not handled with the bytes left of each, and the elements pushed for them. -/
structure View where
  line : Option (List Byte) := none
  line' : Option (List Byte) := none
  rest : List Byte := []
  script : List CacheAction := []
  out : List Block := []
  todo : List Block := []
  pushed : List (List Byte) := []

variable {size : Nat} {line : Option (List Byte)} {actions : List CacheAction} {out : List Block}
  {c : WriteCache} {data : List Byte} {fd : Fd} {s : State} {v : View}

structure Shows (size : Nat) (s : State) (v : View) : Prop where
  actions : s.actions = (pieces size v.rest).map .push ++ v.script
  script : Script size v.line v.script v.line' v.out
  exclusive : v.rest ≠ [] → v.line = none
  cache : Holds size s.cache v.line'
  requests : (s.serving.map fun r => (r.1, r.2.1)).toList ++ s.requests =
    v.todo.map fun b => (b.1, b.2.length)
  elements : v.todo.flatMap (fun b => pieces size b.2) = v.pushed ++ pieces size v.rest
  queue : List.Forall₂ (· <+: ·) (v.pushed ++ v.line.toList) s.queue.toList
  slot : v.line ≠ none → s.slot = s.queue.position (s.queue.used - 1)
  history : tagged s.blocks ++ tagged (s.serving.map fun r => (r.1, r.2.2)).toList ++ tagged v.todo ++
    tagged v.out ++ tagged [(s.cache.fd, v.line'.getD [])] = tagged s.written

theorem overlay_of_take (slot bytes : List Byte) : bytes <+: Queue.overlay slot 0 bytes := by
  simp [Queue.overlay]

theorem overlay_append {slot line : List Byte} (h : line <+: slot) (bytes : List Byte) :
    line ++ bytes <+: Queue.overlay slot line.length bytes := by
  rw [Queue.overlay, ← prefix_iff_eq_take.mp h]
  exact prefix_append _ _

theorem pieces_eq_nil (h : pieces size data = []) : data = [] := by
  rw [← flatten_pieces size data, h, flatten_nil]

theorem forall₂_snoc {α β : Type*} {R : α → β → Prop} {l : List α} {a : α} {m : List β}
    (h : List.Forall₂ R (l ++ [a]) m) : ∃ m' b, List.Forall₂ R l m' ∧ R a b ∧ m = m' ++ [b] := by
  induction l generalizing m with
  | nil =>
    obtain ⟨b, m', hab, hm', rfl⟩ := forall₂_cons_left_iff.mp h
    cases hm'
    exact ⟨[], b, .nil, hab, rfl⟩
  | cons c l ih =>
    obtain ⟨d, m', hcd, hm', rfl⟩ := forall₂_cons_left_iff.mp h
    obtain ⟨n, b, hn, hab, rfl⟩ := ih hm'
    exact ⟨d :: n, b, .cons hcd hn, hab, rfl⟩

section

variable {size : Nat} {s s' : State} {v : View}

section

variable (h : Shows size s v)
include h

theorem Shows.idle (hActions : s.actions = []) :
    v.rest = [] ∧ v.script = [] ∧ v.line' = v.line ∧ v.out = [] := by
  have hNil := h.actions
  rw [hActions, eq_comm, append_eq_nil_iff, map_eq_nil_iff] at hNil
  have hScript := h.script
  rw [hNil.2] at hScript
  refine ⟨pieces_eq_nil hNil.1, hNil.2, ?_⟩
  generalize v.line = line, v.line' = line', v.out = out at hScript ⊢
  cases hScript
  exact ⟨rfl, rfl⟩

theorem Shows.call {call : Call} (hStep : step size s (.call call) = some s') : ∃ v', Shows size s' v' := by
  simp only [step] at hStep
  split at hStep
  · rename_i hActions
    cases hStep
    obtain ⟨hRest, _, hLine, hOut⟩ := h.idle hActions
    obtain ⟨line', hHolds, out, hScript, hTagged⟩ := Call.run_appends h.cache call
    rw [hLine] at hScript
    refine ⟨{ v with line' := line', script := (call.run size s.cache).2, out := out }, ?_, hScript,
      h.exclusive, hHolds, h.requests, h.elements, h.queue, h.slot, ?_⟩
    · simp [hRest]
    · have hHistory := h.history
      grind [tagged_nil, append_assoc, tagged_append]
  · cases hStep

theorem Shows.push (hSize : 0 < size) (hRest : v.rest ≠ [])
    (hActions : actions = (pieces size (v.rest.drop size)).map .push ++ v.script)
    (hWrite : s.queue.write (v.rest.take size) = some q) :
    Shows size { s with actions := actions, turns := turns, queue := q }
      { v with rest := v.rest.drop size, pushed := v.pushed ++ [v.rest.take size] } := by
  have hLine := h.exclusive hRest
  obtain ⟨slot, hSlots⟩ := Queue.toList_write hWrite
  refine ⟨hActions, h.script, fun _ => hLine, h.cache, h.requests, ?_, ?_, ?_, h.history⟩
  · rw [h.elements, pieces_cons hSize hRest, append_assoc]
    rfl
  · have hQueue := h.queue
    rw [hLine, Option.toList_none, append_nil] at hQueue ⊢
    rw [hSlots]
    exact rel_append hQueue (.cons (overlay_of_take slot _) .nil)
  · intro hNe
    exact absurd hLine hNe

theorem Shows.reserve (hRest : v.rest = []) (hLine : v.line = none)
    (hScript : Script size (some []) actions v.line' v.out) {slot : Nat}
    (hReserve : s.queue.reserve = some (slot, q)) :
    Shows size { s with actions := actions, slot := slot, queue := q }
      { v with line := some [], script := actions } := by
  obtain ⟨⟨bytes, hSlots⟩, hSlot⟩ := Queue.reserve_spec hReserve
  refine ⟨by simp [hRest], hScript, fun hNe => absurd hRest hNe, h.cache, h.requests, h.elements, ?_,
    fun _ => hSlot, h.history⟩
  have hQueue := h.queue
  rw [hLine, Option.toList_none, append_nil] at hQueue
  rw [hSlots]
  exact rel_append hQueue (.cons nil_prefix .nil)

theorem Shows.store {line bytes : List Byte} (hRest : v.rest = [])
    (hLine : v.line = some line) (hScript : Script size (some (line ++ bytes)) actions v.line' v.out) :
    Shows size { s with actions := actions, queue := s.queue.store s.slot line.length bytes }
      { v with line := some (line ++ bytes), script := actions } := by
  have hQueue := h.queue
  rw [hLine, Option.toList_some] at hQueue
  -- the line in use is the newest element
  obtain ⟨slots, last, hPushed, hLast, hSlots⟩ := forall₂_snoc hQueue
  have hSlot := h.slot (by rw [hLine]; simp)
  refine ⟨by simp [hRest], hScript, fun hNe => absurd hRest hNe, h.cache, h.requests, h.elements, ?_,
    fun _ => hSlot, h.history⟩
  rw [hSlot, Queue.toList_store hSlots]
  exact rel_append hPushed (.cons (overlay_append hLast bytes) .nil)

theorem Shows.request (hSize : 0 < size) {line : List Byte} (hRest : v.rest = [])
    (hLine : v.line = some line) (hBytes : line ≠ []) (hFits : line.length ≤ size)
    (hOut : v.out = (fd, line) :: out) (hScript : Script size none actions v.line' out) :
    Shows size { s with actions := actions, requests := s.requests ++ [(fd, line.length)] }
      { v with line := none, script := actions, out := out, todo := v.todo ++ [(fd, line)],
               pushed := v.pushed ++ [line] } := by
  refine ⟨by simp [hRest], hScript, fun _ => rfl, h.cache, ?_, ?_, ?_, fun hNe => absurd rfl hNe, ?_⟩
  · rw [← append_assoc, h.requests, map_append]
    rfl
  · rw [flatMap_append, h.elements, hRest, pieces_nil, append_nil]
    simp [pieces_of_le hSize hBytes hFits]
  · have hQueue := h.queue
    grind
  · have hHistory := h.history
    rw [hOut] at hHistory
    simpa using hHistory

theorem Shows.bypass {script : List CacheAction} (hRest : v.rest = []) (hLine : v.line = none)
    (hOut : v.out = (fd, data) :: out) (hScript : Script size none script v.line' out) : Shows size
      { s with actions := (pieces size data).map .push ++ script,
               requests := s.requests ++ [(fd, data.length)] }
      { v with rest := data, script := script, out := out, todo := v.todo ++ [(fd, data)] } := by
  refine ⟨rfl, by rwa [hLine], fun _ => hLine, h.cache, ?_, ?_, h.queue, fun hNe => absurd hLine hNe, ?_⟩
  · rw [← append_assoc, h.requests, map_append]
    rfl
  · simp [h.elements, hRest]
  · have hHistory := h.history
    rw [hOut] at hHistory
    simpa using hHistory

theorem Shows.act (hSize : 0 < size) (hStep : step size s .act = some s') : ∃ v', Shows size s' v' := by
  simp only [step] at hStep
  split at hStep
  · cases hStep
  rename_i action actions hActions
  by_cases hRest : v.rest = []
  · have hScript := h.script
    have hNow := h.actions
    rw [hRest, pieces_nil, map_nil, nil_append, hActions] at hNow
    rw [← hNow] at hScript
    generalize hLine : v.line = line, hLine' : v.line' = line', hOut : v.out = out at hScript
    subst hLine'
    cases hScript with
    | reserve hScript =>
      obtain ⟨⟨slot, q⟩, hReserve, rfl⟩ := Option.map_eq_some_iff.mp hStep
      exact ⟨_, h.reserve hRest hLine (hOut ▸ hScript) hReserve⟩
    | store hScript =>
      cases hStep
      exact ⟨_, h.store hRest hLine (hOut ▸ hScript)⟩
    | request fd hBytes hFits hScript =>
      cases hStep
      exact ⟨_, h.request hSize hRest hLine hBytes hFits hOut hScript⟩
    | bypass fd hScript =>
      cases hStep
      exact ⟨_, h.bypass hRest hLine hOut hScript⟩
  · have hNow := h.actions
    rw [hActions, pieces_cons hSize hRest, map_cons, cons_append, cons.injEq] at hNow
    obtain ⟨rfl, hNow⟩ := hNow
    obtain ⟨q, hWrite, rfl⟩ := Option.map_eq_some_iff.mp hStep
    exact ⟨_, h.push hSize hRest hNow hWrite⟩

theorem Shows.accept (hStep : step size s .accept = some s') : Shows size s' v := by
  simp only [step] at hStep
  split at hStep
  · rename_i fd count requests hServing hRequests
    cases hStep
    have hTodo := h.requests
    have hHistory := h.history
    rw [hServing, hRequests] at hTodo
    rw [hServing] at hHistory
    refine ⟨h.actions, h.script, h.exclusive, h.cache, hTodo, h.elements, h.queue, h.slot, ?_⟩
    simpa using hHistory
  · cases hStep

theorem Shows.served (hServing : s.serving = some (fd, left, got)) :
    ∃ data todo, v.todo = (fd, data) :: todo ∧ data.length = left ∧
      s.requests = todo.map fun b => (b.1, b.2.length) := by
  grind [Option.toList_some, singleton_append, h.requests, map_eq_cons_iff]

theorem Shows.finish (hStep : step size s .finish = some s') : ∃ v', Shows size s' v' := by
  simp only [step] at hStep
  split at hStep
  · rename_i fd got hServing
    cases hStep
    obtain ⟨data, todo, hTodo, hLength, hRequests⟩ := h.served hServing
    obtain rfl := eq_nil_of_length_eq_zero hLength
    have hElements := h.elements
    have hHistory := h.history
    rw [hTodo] at hElements hHistory
    rw [hServing] at hHistory
    refine ⟨{ v with todo := todo }, h.actions, h.script, h.exclusive, h.cache, hRequests, ?_, h.queue,
      h.slot, ?_⟩
    · simpa using hElements
    · simpa using hHistory
  · cases hStep

theorem Shows.next_pushed (hSize : 0 < size) (hTodo : v.todo = (fd, data) :: todo) (hData : data ≠ [])
    (hUsed : s.queue.toList ≠ []) : ∃ pushed, v.pushed = data.take size :: pushed := by
  have hElements := h.elements
  rw [hTodo, flatMap_cons, pieces_cons hSize hData, cons_append] at hElements
  cases hPushed : v.pushed with
  | cons piece pushed => grind
  | nil =>
    -- then some of the bytes are still to be pushed and no line is in use
    have hRest : v.rest ≠ [] := by grind [pieces_nil]
    grind [h.exclusive, h.queue, forall₂_nil_left_iff]

theorem Shows.read (hSize : 0 < size) (hStep : step size s .read = some s') : ∃ v', Shows size s' v' := by
  simp only [step] at hStep
  split at hStep
  · rename_i fd left got hServing
    obtain ⟨⟨bytes, q⟩, hRead, rfl⟩ := Option.map_eq_some_iff.mp hStep
    obtain ⟨data, todo, hTodo, hLength, hRequests⟩ := h.served hServing
    obtain ⟨⟨slot, hSlots, hBytes⟩, hUsed, hPosition⟩ := Queue.read_spec hRead
    have hData : data ≠ [] := by
      rintro rfl
      cases hLength
    obtain ⟨pushed, hPushed⟩ := h.next_pushed hSize hTodo hData (by rw [hSlots]; simp)
    have hElements := h.elements
    have hQueue := h.queue
    have hHistory := h.history
    rw [hTodo, flatMap_cons, pieces_cons hSize hData, hPushed] at hElements
    rw [hPushed, cons_append, hSlots, forall₂_cons] at hQueue
    rw [hTodo, hServing] at hHistory
    have hTake : bytes = data.take size := by
      have := prefix_iff_eq_take.mp hQueue.1
      rw [length_take, hLength] at this
      exact hBytes.trans this.symm
    refine ⟨{ v with todo := (fd, data.drop size) :: todo, pushed := pushed }, h.actions, h.script,
      h.exclusive, h.cache, ?_, ?_, hQueue.2, ?_, ?_⟩
    · simp [hRequests, hLength]
      omega
    · simpa using hElements
    · intro hLine
      -- the line is behind the element that is read, so it is still there
      obtain ⟨line, hSome⟩ := Option.ne_none_iff_exists'.mp hLine
      have hCount := hQueue.2.length_eq
      rw [hSome, length_append, RingBuffer.length_toList] at hCount
      grind [h.slot]
    · have hMoved : ∀ a b, tagged [(fd, got ++ a)] ++ tagged ((fd, b) :: todo) =
          tagged [(fd, got)] ++ tagged ((fd, a ++ b) :: todo) := by simp
      rw [append_assoc (tagged s.blocks)] at hHistory ⊢
      grind [Option.toList_some, take_append_drop]
  · cases hStep

theorem Shows.step (hSize : 0 < size) (hStep : step size s event = some s') : ∃ v', Shows size s' v' := by
  cases event with
  | call call => exact h.call hStep
  | act => exact h.act hSize hStep
  | accept => exact ⟨v, h.accept hStep⟩
  | read => exact h.read hSize hStep
  | finish => exact h.finish hStep

end

end

def start (lines : Nat) (hLines : 0 < lines) (slots : Nat → List Byte) : State where
  queue := RingBuffer.empty lines hLines slots

theorem start_shows (size lines : Nat) (hLines : 0 < lines) (slots : Nat → List Byte) :
    Shows size (start lines hLines slots) {} where
  actions := by simp [start]
  script := .nil none
  exclusive := fun _ => rfl
  cache := ⟨rfl, rfl, by simp⟩
  requests := rfl
  elements := by simp
  queue := .nil
  slot := fun h => absurd rfl h
  history := rfl

section

variable (hSize : 0 < size) (h : Shows size s v)
include hSize h

theorem Shows.used (hActions : s.actions = []) (hServing : s.serving = none) :
    s.queue.used = (s.requests.map fun r => r.2 ⌈/⌉ size).sum + if s.cache.reserved then 1 else 0 := by
  obtain ⟨hRest, _, hLine, _⟩ := h.idle hActions
  have hElements := h.elements
  have hRequests := h.requests
  rw [hRest, pieces_nil, append_nil] at hElements
  rw [hServing] at hRequests
  have hCount := h.queue.length_eq
  rw [RingBuffer.length_toList, ← hElements, length_append, length_flatMap] at hCount
  have hRequests : s.requests = v.todo.map fun b => (b.1, b.2.length) := hRequests
  rw [← hCount, hRequests, map_map, h.cache.reserved, hLine]
  congr 1
  · congr 1
    apply map_congr_left
    intro b _
    exact length_pieces hSize b.2
  · cases v.line with
    | none => rfl
    | some line => rfl

theorem Shows.act_of_room (hActions : s.actions ≠ [])
    (hRoom : v.rest ≠ [] ∨ v.line = none → s.queue.used < s.queue.size) :
    ∃ s', WriteStream.step size s .act = some s' := by
  obtain ⟨action, actions, hCons⟩ := exists_cons_of_ne_nil hActions
  simp only [WriteStream.step, hCons]
  have hNow := h.actions
  rw [hCons] at hNow
  by_cases hRest : v.rest = []
  · have hScript := h.script
    rw [hRest, pieces_nil, map_nil, nil_append] at hNow
    rw [← hNow] at hScript
    generalize hLine : v.line = line, v.line' = line', v.out = out at hScript
    cases hScript with
    | reserve hScript =>
      obtain ⟨r, hReserve⟩ := Queue.reserve_of_room (hRoom (.inr hLine))
      exact ⟨_, by rw [perform, hReserve]; rfl⟩
    | store hScript => exact ⟨_, rfl⟩
    | request fd hBytes hFits hScript => exact ⟨_, rfl⟩
    | bypass fd hScript => exact ⟨_, rfl⟩
  · rw [pieces_cons hSize hRest, map_cons, cons_append, cons.injEq] at hNow
    obtain ⟨rfl, -⟩ := hNow
    obtain ⟨q, hWrite⟩ := Queue.write_of_room (hRoom (.inl hRest)) (v.rest.take size)
    exact ⟨_, by rw [perform, hWrite]; rfl⟩

theorem Shows.progress (hBusy : s.actions ≠ [] ∨ s.serving ≠ none ∨ s.requests ≠ []) :
    ∃ event ∈ [Event.act, .accept, .read, .finish], ∃ s', WriteStream.step size s event = some s' := by
  have hRoom : s.queue.used = 0 → s.queue.used < s.queue.size := fun hUsed => hUsed ▸ s.queue.size_pos
  have hQueue := h.queue.length_eq
  rw [RingBuffer.length_toList, length_append] at hQueue
  cases hServing : s.serving with
  | some r =>
    obtain ⟨fd, left, got⟩ := r
    cases left with
    | zero => exact ⟨.finish, by simp, _, by simp only [WriteStream.step, hServing]; rfl⟩
    | succ left =>
      by_cases hUsed : s.queue.used = 0
      · -- the element is still to be pushed
        obtain ⟨data, todo, hTodo, hLength, _⟩ := h.served hServing
        have hElements := h.elements
        have hActions : s.actions ≠ [] := by
          intro hActions
          grind [pieces_nil, append_eq_nil_iff, h.idle, pieces_eq_nil]
        exact ⟨.act, by simp, h.act_of_room hSize hActions fun _ => hRoom hUsed⟩
      · obtain ⟨r, hRead⟩ := Queue.read_of_used (Nat.pos_of_ne_zero hUsed) (min size (left + 1))
        exact ⟨.read, by simp, _, by simp only [WriteStream.step, hServing, hRead]; rfl⟩
  | none =>
    cases hRequests : s.requests with
    | cons r requests =>
      exact ⟨.accept, by simp, _, by simp only [WriteStream.step, hServing, hRequests]; rfl⟩
    | nil =>
      have hTodo := h.requests
      rw [hServing, hRequests, eq_comm, Option.map_none, Option.toList_none, append_nil,
        map_eq_nil_iff] at hTodo
      have hElements := h.elements
      rw [hTodo, flatMap_nil, eq_comm, append_eq_nil_iff] at hElements
      have hActions : s.actions ≠ [] := by grind
      refine ⟨.act, by simp, h.act_of_room hSize hActions fun hRest => hRoom ?_⟩
      grind [pieces_eq_nil]

end

theorem Shows.drained (h : Shows size s v) (hActions : s.actions = []) (hServing : s.serving = none)
    (hRequests : s.requests = []) (hFlushed : s.cache.actualSize = 0) :
    tagged s.blocks = tagged s.written := by
  obtain ⟨_, _, _, hOut⟩ := h.idle hActions
  have hTodo := h.requests
  have hHistory := h.history
  rw [hServing, hRequests, eq_comm, Option.map_none, Option.toList_none, append_nil,
    map_eq_nil_iff] at hTodo
  have hLine : v.line'.getD [] = [] := by
    have := h.cache.actualSize
    exact eq_nil_of_length_eq_zero (by omega)
  rw [hServing, hTodo, hOut, hLine] at hHistory
  simpa using hHistory

/-! ## Sizes and counters -/

def Fits (size : Nat) : CacheAction → Prop
  | .push bytes => bytes.length ≤ size
  | .request _ count => count.toNat / size ≤ INT_MAX
  | _ => True

/-- What the action adds to the counter. -/
def whole (size : Nat) : CacheAction → Nat
  | .push bytes => bytes.length / size
  | _ => 0

theorem sum_whole_pushes (size : Nat) (L : List (List Byte)) :
    ((L.map CacheAction.push).map (whole size)).sum ≤ L.flatten.length / size := by
  induction L with
  | nil => exact Nat.zero_le _
  | cons piece L ih =>
    have hSum : piece.length / size + L.flatten.length / size ≤ _ := Nat.div_add_div_le_add_div
    simp only [map_cons, sum_cons, flatten_cons, length_append, whole]
    omega

theorem flush_fits (hLine : c.actualSize ≤ size) : c.flush.1.actualSize = 0 ∧
    (∀ a ∈ c.flush.2, Fits size a) ∧ (c.flush.2.map (whole size)).sum = 0 := by
  have hOne : c.actualSize.toNat / size ≤ 1 := Nat.div_le_of_le_mul (by omega)
  grind [WriteCache.flush, Fits, whole, INT_MAX]

theorem writeLine_fits (count : Int) : (∀ a ∈ (c.writeLine size count data).2, Fits size a) ∧
    ((c.writeLine size count data).2.map (whole size)).sum = 0 := by
  grind [WriteCache.writeLine, flush_fits, Fits, whole]

theorem write_fits (hSize : 0 < size) (hLine : c.actualSize ≤ size) (fd : Fd)
    (hData : data.length / size ≤ INT_MAX) : (∀ a ∈ (c.write size fd data data.length).2, Fits size a) ∧
      ((c.write size fd data data.length).2.map (whole size)).sum ≤ INT_MAX := by
  have hTake : data.take (data.length : Int).toNat = data := take_length
  have hSmall : ∀ piece ∈ pieces size data, piece.length ≤ size := fun _ h => (mem_pieces hSize h).2
  have hPieces := sum_whole_pushes size (pieces size data)
  rw [flatten_pieces] at hPieces
  grind [WriteCache.write, WriteCache.switch, flush_fits, writeLine_fits, Fits, whole]

structure Bounded (size : Nat) (s : State) : Prop where
  actions : ∀ a ∈ s.actions, Fits size a
  turns : s.turns + (s.actions.map (whole size)).sum ≤ INT_MAX
  requests : ∀ r ∈ s.requests, r.2 / size ≤ INT_MAX
  serving : ∀ r ∈ s.serving, (r.2.2.length + r.2.1) / size ≤ INT_MAX

theorem elementFault_eq_none (hBytes : numBytes ≤ INT_MAX) (hCount : i + numBytes / size ≤ INT_MAX) :
    elementFault size i numBytes = none := by
  rw [elementFault, if_neg (by omega), if_neg (by omega)]

theorem Bounded.fault_eq_none (h : Bounded size s) (hInt : size ≤ INT_MAX) (e : Event) :
    fault size s e = none := by
  cases e with
  | call call => rfl
  | act =>
    have hActions := h.actions
    have hTurns := h.turns
    simp only [fault]
    split
    · next bytes actions hPush =>
      rw [hPush, map_cons, sum_cons] at hTurns
      rw [hPush] at hActions
      dsimp only [whole] at hTurns
      exact elementFault_eq_none ((hActions _ mem_cons_self).trans hInt) (by omega)
    · rfl
  | read =>
    simp only [fault]
    split
    · next fd left got hServing =>
      have hLe := h.serving _ hServing
      have hSum : got.length / size + min size left / size ≤ _ := Nat.div_add_div_le_add_div
      have hMono : (got.length + min size left) / size ≤ (got.length + left) / size :=
        Nat.div_le_div_right (by omega)
      dsimp only at hLe
      exact elementFault_eq_none (by omega) (by omega)
    · rfl
  | accept => rfl
  | finish => rfl

theorem Shows.actualSize_le (h : Shows size s v) : s.cache.actualSize ≤ size := by
  rw [h.cache.actualSize]
  cases hLine : v.line' with
  | none => exact Int.natCast_nonneg size
  | some line => exact Int.ofNat_le.mpr (h.cache.partly line hLine).2

theorem Bounded.perform (h : Bounded size s) (hCons : s.actions = action :: actions)
    (hStep : perform size { s with actions := actions } action = some s') : Bounded size s' := by
  obtain ⟨hActions, hTurns, hRequests, hServing⟩ := h
  rw [hCons, forall_mem_cons] at hActions
  rw [hCons, map_cons, sum_cons, ← Nat.add_assoc] at hTurns
  cases action with
  | reserve =>
    obtain ⟨r, -, rfl⟩ := Option.map_eq_some_iff.mp hStep
    exact ⟨hActions.2, hTurns, hRequests, hServing⟩
  | store offset bytes =>
    cases hStep
    exact ⟨hActions.2, hTurns, hRequests, hServing⟩
  | request fd count =>
    cases hStep
    refine ⟨hActions.2, hTurns, ?_, hServing⟩
    grind [Fits]
  | push bytes =>
    obtain ⟨q, -, rfl⟩ := Option.map_eq_some_iff.mp hStep
    exact ⟨hActions.2, hTurns, hRequests, hServing⟩

theorem Bounded.step (hSize : 0 < size) (hShows : Shows size s v) (h : Bounded size s)
    (hCall : ∀ fd data, e = .call (.write fd data) → data.length / size ≤ INT_MAX)
    (hStep : step size s e = some s') : Bounded size s' := by
  cases e with
  | call call =>
    simp only [WriteStream.step] at hStep
    split at hStep
    · cases hStep
      cases call with
      | write fd data =>
        obtain ⟨hFits, hSum⟩ := write_fits hSize hShows.actualSize_le fd (hCall fd data rfl)
        exact ⟨hFits, (Nat.zero_add _).trans_le hSum, h.requests, h.serving⟩
      | flush =>
        obtain ⟨-, hFits, hSum⟩ := flush_fits hShows.actualSize_le
        exact ⟨hFits, (Nat.zero_add _).trans_le (hSum.trans_le (Nat.zero_le _)), h.requests, h.serving⟩
    · cases hStep
  | act =>
    simp only [WriteStream.step] at hStep
    split at hStep
    · cases hStep
    · exact h.perform ‹_› hStep
  | accept =>
    simp only [WriteStream.step] at hStep
    split at hStep
    · next fd count requests hServing hCons =>
      cases hStep
      have hRequests := h.requests
      rw [hCons, forall_mem_cons] at hRequests
      refine ⟨h.actions, h.turns, hRequests.2, ?_⟩
      rintro r ⟨⟩
      simpa using hRequests.1
    · cases hStep
  | read =>
    simp only [WriteStream.step] at hStep
    split at hStep
    · next fd left got hServing =>
      obtain ⟨⟨bytes, q⟩, hRead, rfl⟩ := Option.map_eq_some_iff.mp hStep
      obtain ⟨⟨slot, -, rfl⟩, -⟩ := Queue.read_spec hRead
      refine ⟨h.actions, h.turns, h.requests, ?_⟩
      rintro r ⟨⟩
      refine (Nat.div_le_div_right ?_).trans (h.serving _ hServing)
      simp only [length_append, length_take]
      omega
    · cases hStep
  | finish =>
    simp only [WriteStream.step] at hStep
    split at hStep
    · cases hStep
      exact ⟨h.actions, h.turns, h.requests, by simp⟩
    · cases hStep

theorem run_bounded {size lines : Nat} (hSize : 0 < size) (hInt : size ≤ INT_MAX) (hLines : 0 < lines)
    (slots : Nat → List Byte) {events : List Event}
    (hCalls : ∀ fd data, .call (.write fd data) ∈ events → data.length / size ≤ INT_MAX) :
    Returns (events.foldlM (stepInt size) (start lines hLines slots))
      fun s => (∃ v, Shows size s v) ∧ Bounded size s := by
  refine Ends.foldlM (fun e he s ⟨⟨v, hShows⟩, h⟩ => ?_)
    ⟨⟨_, start_shows size lines hLines slots⟩, by simp [start], by simp [start], by simp [start], by simp [start]⟩
  rw [stepInt, h.fault_eq_none hInt]
  cases hStep : step size s e with
  | none => exact ⟨⟨v, hShows⟩, h⟩
  | some s' =>
    exact ⟨hShows.step hSize hStep,
      h.step hSize hShows (fun fd data hCall => hCalls fd data (hCall ▸ he)) hStep⟩

/-- In every run: when neither side is inside a call or a request, the queue holds the elements of
the requests not handled and the line in use; what the server has read is a first part of what was
written, and all of it once everything is flushed and handled; and until then a side can go on.  The
size of a line and the lines of a write are an `int` here. -/
theorem writes_reach_server {size lines : Nat} (hSize : 0 < size) (hInt : size ≤ INT_MAX)
    (hLines : 0 < lines) (slots : Nat → List Byte) {events : List Event}
    (hCalls : ∀ fd data, .call (.write fd data) ∈ events → data.length / size ≤ INT_MAX) :
    ∃ s, events.foldlM (stepInt size) (start lines hLines slots) = .ok s ∧
    (s.actions = [] → s.serving = none →
      s.queue.used = (s.requests.map fun r => r.2 ⌈/⌉ size).sum + if s.cache.reserved then 1 else 0) ∧
    tagged s.blocks <+: tagged s.written ∧
    (s.actions = [] → s.serving = none → s.requests = [] → s.cache.actualSize = 0 →
      tagged s.blocks = tagged s.written) ∧
    (s.actions ≠ [] ∨ s.serving ≠ none ∨ s.requests ≠ [] →
      ∃ event ∈ [Event.act, .accept, .read, .finish], ∃ s', step size s event = some s') := by
  obtain ⟨s, hRun, ⟨v, h⟩, -⟩ := (run_bounded hSize hInt hLines slots hCalls).exists
  refine ⟨s, hRun, h.used hSize, ?_, h.drained, h.progress hSize⟩
  rw [← h.history, List.append_assoc, List.append_assoc, List.append_assoc]
  exact List.prefix_append _ _

def crossing : List Event :=
  [.call (.write 3 [1]), .act, .act, .call (.write 4 [2, 3, 4, 5, 6]), .act, .accept, .read, .finish,
    .act, .act, .accept, .read, .act, .read, .act, .read, .finish]

theorem crossing_reaches_server :
    ∃ s, crossing.foldlM (stepInt 2) (start 1 Nat.one_pos fun _ => [0, 0]) = .ok s ∧
      tagged s.blocks = tagged s.written ∧ s.blocks = [(3, [1]), (4, [2, 3, 4, 5, 6])] := by
  have hDone : (crossing.foldlM (stepInt 2) (start 1 Nat.one_pos fun _ => [0, 0])).map (fun s =>
      (s.actions.isEmpty, s.serving.isNone, s.requests.isEmpty, s.cache.actualSize, s.blocks)) =
      .ok (true, true, true, 0, [(3, [1]), (4, [2, 3, 4, 5, 6])]) := by rfl
  have hCalls : ∀ fd data, .call (.write fd data) ∈ crossing → data.length / 2 ≤ INT_MAX := by
    simp only [crossing, List.mem_cons, List.not_mem_nil, Event.call.injEq, Call.write.injEq, reduceCtorEq,
      false_or, or_false]
    rintro fd data (⟨rfl, rfl⟩ | ⟨rfl, rfl⟩) <;> decide
  obtain ⟨s, hRun, -, -, hAll, -⟩ :=
    writes_reach_server Nat.two_pos (by decide) Nat.one_pos (fun _ => [0, 0]) hCalls
  rw [hRun] at hDone
  simp only [Except.map, Except.ok.injEq, Prod.mk.injEq, List.isEmpty_iff, Option.isNone_iff_eq_none]
    at hDone
  obtain ⟨hActions, hServing, hRequests, hFlushed, hBlocks⟩ := hDone
  exact ⟨s, hRun, hAll hActions hServing hRequests hFlushed, hBlocks⟩

theorem line_fault (data : List Byte) (hLength : data.length = 2147483648) :
    [Event.call (.write 3 data), .act, .act, .act, .accept, .read].foldlM (stepInt 2147483648)
      (start 1 Nat.one_pos fun _ => []) = .error .memcpySize := by
  have hWrite : Call.run 2147483648 {} (.write 3 data) =
      ({ fd := 3 }, [.reserve, .store 0 data, .request 3 2147483648]) := by
    simp [Call.run, WriteCache.write, WriteCache.switch, WriteCache.flush, WriteCache.writeLine, hLength,
      List.take_of_length_le]
  have hCall : stepInt 2147483648 (start 1 Nat.one_pos fun _ => []) (.call (.write 3 data)) =
      .ok { start 1 Nat.one_pos fun _ => [] with
        cache := { fd := 3 }, actions := [.reserve, .store 0 data, .request 3 2147483648],
        written := [(3, data)] } := by
    change Except.ok { start 1 Nat.one_pos fun _ => [] with
      cache := (Call.run 2147483648 {} (.write 3 data)).1,
      actions := (Call.run 2147483648 {} (.write 3 data)).2, written := [(3, data)] } = _
    rw [hWrite]
  rw [foldlM_cons, hCall, ok_bind]
  rfl

/-- The server gets the line of a write of 2^31 bytes with a `memcpy` of as many bytes below zero. -/
theorem write_two_gib :
    [Event.call (.write 3 (replicate 2147483648 0)), .act, .act, .act, .accept, .read].foldlM
      (stepInt 2147483648) (start 1 Nat.one_pos fun _ => []) = .error .memcpySize :=
  line_fault _ length_replicate

end Capio.Posix.WriteStream
