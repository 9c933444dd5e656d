import Capio.Common.Types
import Capio.Lib.Outcome
import Capio.Lib.Pieces

/-! # The steps of a queue in shared memory

One producer calls `write` and one consumer calls `read`.  Each call moves one element after another:
it takes a unit of one semaphore, copies the bytes of the element, advances its index and gives a unit
to the other semaphore.  The steps of the two interleave in any way, down to the bytes of a `memcpy`.
-/
namespace Capio.Common.SharedQueue

open Lib.Outcome Lib.Pieces Function List Option

structure Params where
  maxNumElems : Nat
  elemSize : Nat
  maxNumElems_pos : 0 < maxNumElems
  elemSize_pos : 0 < elemSize

def Params.buffSize (p : Params) : Nat := p.maxNumElems * p.elemSize

inductive Side
  | producer
  | consumer
  deriving DecidableEq

def Side.other : Side → Side
  | .producer => .consumer
  | .consumer => .producer

/-- In `_read` or `_write`, after its first semaphore and before its second one: with the number of bytes
it has copied, and after it has advanced its index. -/
inductive Phase
  | outside
  | copying (k : Nat)
  | advanced
  deriving DecidableEq

structure Call where
  buffer : List Byte
  i : Nat := 0
  phase : Phase := .outside
  deriving DecidableEq

def Call.turns (p : Params) (c : Call) : Nat := c.buffer.length / p.elemSize

def Call.rest (p : Params) (c : Call) : Nat := c.buffer.length % p.elemSize

def Call.More (p : Params) (c : Call) : Prop :=
  c.i < c.turns p ∨ c.i = c.turns p ∧ c.rest p ≠ 0

instance (p : Params) (c : Call) : Decidable (c.More p) := inferInstanceAs (Decidable (_ ∨ _))

/-- The parameter of `_read` and `_write` is an `int`. -/
def Call.numBytes (p : Params) (c : Call) : Int :=
  asInt (if c.i < c.turns p then p.elemSize else c.rest p)

structure Thread where
  todo : List (List Byte)
  call : Option Call := none
  done : List (List Byte) := []
  deriving DecidableEq

/-- `elem` is `*_last_elem` of the producer and `*_first_elem` of the consumer, and `sem` is the semaphore
that each of them waits for, `_sem_num_empty` and `_sem_num_elems`.  `count` is not part of the
queue: it has the number of elements that each of them has moved. -/
structure State where
  shm : Nat → Byte
  elem : Side → Nat := fun _ => 0
  sem : Side → Nat
  threads : Side → Thread
  count : Side → Nat := fun _ => 0

def State.setThread (s : State) (side : Side) (t : Thread) : State :=
  { s with threads := update s.threads side t }

def State.setCall (s : State) (side : Side) (c : Call) : State :=
  s.setThread side { s.threads side with call := some c }

/-- A negative size is a very large one for `memcpy`, and the variable of the loop is an `int`. -/
inductive Fault
  | semOpen
  | memcpySize
  | counterOverflow
  deriving DecidableEq

inductive Action
  | call
  | lock
  | copy
  | advance
  | unlock
  | return
  deriving DecidableEq

def State.copyByte (p : Params) (s : State) (c : Call) (k : Nat) : Side → State
  | .producer =>
    { s.setCall .producer { c with phase := .copying (k + 1) } with
      shm := update s.shm (s.elem .producer + k) (c.buffer.getD (c.i * p.elemSize + k) 0) }
  | .consumer =>
    s.setCall .consumer { c with
      buffer := c.buffer.set (c.i * p.elemSize + k) (s.shm (s.elem .consumer + k))
      phase := .copying (k + 1) }

def State.lock (s : State) (side : Side) (c : Call) : State :=
  { s.setCall side { c with phase := .copying 0 } with
    sem := update s.sem side (s.sem side - 1) }

def State.advance (p : Params) (s : State) (side : Side) (c : Call) : State :=
  { s.setCall side { c with phase := .advanced } with
    elem := update s.elem side ((s.elem side + p.elemSize) % p.buffSize) }

def State.unlock (s : State) (side : Side) (c : Call) : State :=
  { s.setCall side { c with i := c.i + 1, phase := .outside } with
    sem := update s.sem side.other (s.sem side.other + 1)
    count := update s.count side (s.count side + 1) }

def State.return (s : State) (side : Side) (c : Call) : State :=
  s.setThread side
    { s.threads side with call := none, done := (s.threads side).done ++ [c.buffer] }

def step (p : Params) (s : State) (e : Side × Action) : Except Fault State :=
  match (s.threads e.1).call with
  | none =>
    match e.2, (s.threads e.1).todo with
    | .call, buffer :: todo =>
      pure (s.setThread e.1 { s.threads e.1 with todo := todo, call := some { buffer := buffer } })
    | _, _ => pure s
  | some c =>
    match c.phase, e.2 with
    | .outside, .lock => if c.More p ∧ 0 < s.sem e.1 then pure (s.lock e.1 c) else pure s
    | .outside, .return => if c.More p then pure s else pure (s.return e.1 c)
    | .copying k, .copy =>
      if c.numBytes p < 0 then throw .memcpySize
      else if (k : Int) < c.numBytes p then pure (s.copyByte p c k e.1)
      else pure s
    | .copying k, .advance =>
      if (k : Int) = c.numBytes p then pure (s.advance p e.1 c) else pure s
    | .advanced, .unlock =>
      if c.i < c.turns p ∧ c.i = INT_MAX then throw .counterOverflow else pure (s.unlock e.1 c)
    | _, _ => pure s

def run (p : Params) (s : State) (events : List (Side × Action)) : Except Fault State :=
  events.foldlM (step p) s

def start (shm : Nat → Byte) (datas buffers : List (List Byte)) (empty : Nat) : State where
  shm := shm
  sem
    | .producer => empty
    | .consumer => 0
  threads
    | .producer => { todo := datas }
    | .consumer => { todo := buffers }

def SEM_VALUE_MAX : Nat := 2147483647

/-- The initial value is an `unsigned int`, and `sem_open` refuses one above `SEM_VALUE_MAX`. -/
def namedSemaphore (initValue : Nat) : Except Fault Nat :=
  let value := initValue % 4294967296
  if SEM_VALUE_MAX < value then throw .semOpen else pure value

def runNew (p : Params) (shm : Nat → Byte) (datas buffers : List (List Byte))
    (events : List (Side × Action)) : Except Fault State := do
  let empty ← namedSemaphore p.maxNumElems
  run p (start shm datas buffers empty) events

/-! ## One step -/

structure Fits (p : Params) (s : State) : Prop where
  elemSize : p.elemSize ≤ INT_MAX
  turns : ∀ side c, (s.threads side).call = some c → c.turns p ≤ INT_MAX

theorem Call.more_iff (p : Params) (c : Call) : c.More p ↔ c.i * p.elemSize < c.buffer.length := by
  have hDiv : c.turns p * p.elemSize + c.rest p = c.buffer.length := Nat.div_add_mod' _ _
  have hRest : c.rest p < p.elemSize := Nat.mod_lt _ p.elemSize_pos
  constructor
  · rintro (hTurn | ⟨hLast, hSome⟩)
    · have hLe := Nat.mul_le_mul_right p.elemSize (Nat.succ_le_of_lt hTurn)
      rw [Nat.succ_mul] at hLe
      omega
    · rw [hLast]
      omega
  · intro hLt
    rcases Nat.lt_trichotomy c.i (c.turns p) with hTurn | hLast | hOver
    · exact .inl hTurn
    · rw [hLast] at hLt
      exact .inr ⟨hLast, by omega⟩
    · have hLe := Nat.mul_le_mul_right p.elemSize (Nat.succ_le_of_lt hOver)
      rw [Nat.succ_mul] at hLe
      omega

def Call.element (p : Params) (c : Call) (data : List Byte) : List Byte :=
  (data.drop (c.i * p.elemSize)).take p.elemSize

theorem Call.numBytes_eq {c : Call} {data : List Byte} (hSize : p.elemSize ≤ INT_MAX) (hMore : c.More p)
    (hLength : c.buffer.length = data.length) : c.numBytes p = (c.element p data).length := by
  have hDiv : c.turns p * p.elemSize + c.rest p = c.buffer.length := Nat.div_add_mod' _ _
  have hRest : c.rest p < p.elemSize := Nat.mod_lt _ p.elemSize_pos
  have hElement : (c.element p data).length = if c.i < c.turns p then p.elemSize else c.rest p := by
    rw [Call.element, length_take, length_drop, ← hLength]
    split
    · next hTurn =>
      have hLe := Nat.mul_le_mul_right p.elemSize (Nat.succ_le_of_lt hTurn)
      rw [Nat.succ_mul] at hLe
      omega
    · next hTurn =>
      obtain ⟨hLast, -⟩ := hMore.resolve_left hTurn
      rw [hLast]
      omega
  grind [INT_MAX, asInt_natCast, Call.numBytes]

theorem step_ends (hFits : Fits p s)
    (hMore : ∀ side c, (s.threads side).call = some c → c.phase ≠ .outside → c.More p) (hStay : P s)
    (hCall : ∀ side buffer todo, (s.threads side).call = none → (s.threads side).todo = buffer :: todo →
      P (s.setThread side { s.threads side with todo := todo, call := some { buffer := buffer } }))
    (hLock : ∀ side c, (s.threads side).call = some c → c.phase = .outside → c.More p →
      0 < s.sem side → P (s.lock side c))
    (hCopy : ∀ side c k, (s.threads side).call = some c → c.phase = .copying k → c.More p →
      (k : Int) < c.numBytes p → P (s.copyByte p c k side))
    (hAdvance : ∀ side c k, (s.threads side).call = some c → c.phase = .copying k → c.More p →
      (k : Int) = c.numBytes p → P (s.advance p side c))
    (hUnlock : ∀ side c, (s.threads side).call = some c → c.phase = .advanced → c.More p →
      P (s.unlock side c))
    (hReturn : ∀ side c, (s.threads side).call = some c → c.phase = .outside → ¬c.More p →
      P (s.return side c)) (e : Side × Action) : Returns (step p s e) P := by
  obtain ⟨side, action⟩ := e
  unfold step
  cases hThread : (s.threads side).call with
  | none =>
      dsimp only
      split
      · next buffer todo hTodo => exact hCall side _ _ hThread hTodo
      · exact hStay
  | some c =>
      dsimp only
      split
      · next hPhase =>
        split
        · next hGuard => exact hLock side c hThread hPhase hGuard.1 hGuard.2
        · exact hStay
      · next hPhase =>
        split
        · exact hStay
        · next hGuard => exact hReturn side c hThread hPhase hGuard
      · next k hPhase =>
        have hSome := hMore side c hThread (by simp [hPhase])
        have hBytes := Call.numBytes_eq hFits.elemSize hSome rfl
        split
        · omega
        split
        · next hGuard => exact hCopy side c k hThread hPhase hSome hGuard
        · exact hStay
      · next k hPhase =>
        have hSome := hMore side c hThread (by simp [hPhase])
        split
        · next hGuard => exact hAdvance side c k hThread hPhase hSome hGuard
        · exact hStay
      · next hPhase =>
        have hTurns := hFits.turns side c hThread
        split
        · omega
        · exact hUnlock side c hThread hPhase (hMore side c hThread (by simp [hPhase]))
      · exact hStay

/-! ## The place of a thread -/

def elements (p : Params) (datas : List (List Byte)) : List (List Byte) :=
  datas.flatMap (pieces p.elemSize)

inductive Follows (p : Params) (count : Nat) (all : List (List Byte)) :
    Option Call → List (List Byte) → List (List Byte) → Prop
  | idle {datas todo : List (List Byte)} :
      todo.map List.length = datas.map List.length → all.drop count = elements p datas →
      Follows p count all none datas todo
  | calling {c : Call} {data : List Byte} {datas todo : List (List Byte)} :
      c.buffer.length = data.length → todo.map List.length = datas.map List.length →
      all.drop count = pieces p.elemSize (data.drop (c.i * p.elemSize)) ++ elements p datas →
      Follows p count all (some c) (data :: datas) todo

theorem pieces_drop {c : Call} {data : List Byte} (hLength : c.buffer.length = data.length)
    (hMore : c.More p) : pieces p.elemSize (data.drop (c.i * p.elemSize)) =
      c.element p data :: pieces p.elemSize (data.drop ((c.i + 1) * p.elemSize)) := by
  have hLt := (c.more_iff p).mp hMore
  have hNe : data.drop (c.i * p.elemSize) ≠ [] := by
    apply ne_nil_of_length_pos
    rw [length_drop]
    omega
  rw [pieces_cons p.elemSize_pos hNe, drop_drop, Call.element, Nat.succ_mul]

theorem pieces_drop_of_not_more {c : Call} {data : List Byte} (hLength : c.buffer.length = data.length)
    (hMore : ¬c.More p) : pieces p.elemSize (data.drop (c.i * p.elemSize)) = [] := by
  rw [c.more_iff p] at hMore
  rw [drop_eq_nil_of_le (by omega), pieces_nil]

def Phase.busy : Phase → Nat
  | .outside => 0
  | _ => 1

def Phase.moved : Phase → Nat
  | .advanced => 1
  | _ => 0

def Phase.copied (length : Nat) : Phase → Nat
  | .outside => 0
  | .copying k => k
  | .advanced => length

def Thread.phase (t : Thread) : Phase :=
  match t.call with
  | some c => c.phase
  | none => .outside

structure Place (p : Params) (datas : List (List Byte)) (t : Thread) (elem count : Nat) : Prop where
  follows : Follows p count (elements p datas) t.call (datas.drop t.done.length) t.todo
  more : ∀ c, t.call = some c → c.phase ≠ .outside → c.More p
  copied : ∀ c k, t.call = some c → c.phase = .copying k → (k : Int) ≤ c.numBytes p
  inside : count ≤ (elements p datas).length
  index : elem = (count + t.phase.moved) % p.maxNumElems * p.elemSize

section

variable {p : Params} {datas : List (List Byte)} {t : Thread} {elem count : Nat}

section

variable (h : Place p datas t elem count)
include h

theorem Place.data (hCall : t.call = some c) :
    ∃ data rest, datas.drop t.done.length = data :: rest ∧ c.buffer.length = data.length ∧
      t.todo.map length = rest.map length ∧
      (elements p datas).drop count =
        pieces p.elemSize (data.drop (c.i * p.elemSize)) ++ elements p rest := by
  have hFollows := h.follows
  rw [hCall] at hFollows
  generalize hDrop : datas.drop t.done.length = drop at hFollows
  cases hFollows with
  | @calling _ data rest _ hLength hTodo hElements =>
      exact ⟨data, rest, rfl, hLength, hTodo, hElements⟩

theorem Place.element (hCall : t.call = some c) (hMore : c.More p) :
    ∃ data, datas[t.done.length]? = some data ∧ c.buffer.length = data.length ∧
      (elements p datas)[count]? = some (c.element p data) := by
  grind [head?_drop, head?_cons, pieces_drop, h.data]

theorem Place.start (hCall : t.call = none) (hTodo : t.todo = buffer :: todo) :
    Place p datas { t with todo := todo, call := some { buffer := buffer } } elem count := by
  refine ⟨?_, ?_, ?_, h.inside, ?_⟩
  · have hFollows := h.follows
    rw [hCall, hTodo] at hFollows
    generalize hDrop : datas.drop t.done.length = drop at hFollows
    cases hFollows with
    | idle hLengths hElements =>
        cases drop with
        | nil => simp at hLengths
        | cons data rest =>
            simp only [map_cons, cons.injEq] at hLengths
            exact .calling hLengths.1 hLengths.2 (by simpa [elements] using hElements)
  · rintro c ⟨⟩ hPhase
    exact absurd rfl hPhase
  · rintro c k ⟨⟩ ⟨⟩
  · have hIndex := h.index
    simp only [Thread.phase, hCall] at hIndex
    exact hIndex

theorem Place.move (hCall : t.call = some c) (c' : Call) (hLength : c'.buffer.length = c.buffer.length)
    (hTurn : c'.i = c.i) (hMore : c.More p)
    (hCopied : ∀ k, c'.phase = .copying k → (k : Int) ≤ c.numBytes p)
    (hIndex : elem' = (count + c'.phase.moved) % p.maxNumElems * p.elemSize) :
    Place p datas { t with call := some c' } elem' count := by
  obtain ⟨data, rest, hDrop, hData, hTodo, hElements⟩ := h.data hCall
  refine ⟨?_, ?_, ?_, h.inside, hIndex⟩
  · simp only [hDrop]
    exact .calling (hLength.trans hData) hTodo (by rw [hTurn]; exact hElements)
  · grind [Call.more_iff]
  · rintro c'' k ⟨⟩ hPhase
    grind [Call.numBytes, Call.turns, Call.rest]

theorem Place.next (hCall : t.call = some c) (hPhase : c.phase = .advanced) (hMore : c.More p) :
    Place p datas { t with call := some { c with i := c.i + 1, phase := .outside } } elem
      (count + 1) := by
  obtain ⟨data, rest, hDrop, hData, hTodo, hElements⟩ := h.data hCall
  obtain ⟨_, -, -, hElement⟩ := h.element hCall hMore
  have hInside : count + 1 ≤ (elements p datas).length := (List.getElem?_eq_some_iff.mp hElement).1
  refine ⟨?_, ?_, ?_, hInside, ?_⟩
  · simp only [hDrop]
    refine .calling hData hTodo ?_
    rw [← drop_drop, hElements, pieces_drop hData hMore]
    rfl
  · rintro c' ⟨⟩ hNot
    exact absurd rfl hNot
  · rintro c' k ⟨⟩ ⟨⟩
  · have hIndex := h.index
    simp only [Thread.phase, hCall, hPhase] at hIndex
    exact hIndex

theorem Place.finish (hCall : t.call = some c) (hPhase : c.phase = .outside) (hMore : ¬c.More p) :
    Place p datas { t with call := none, done := t.done ++ [c.buffer] } elem count := by
  obtain ⟨data, rest, hDrop, hData, hTodo, hElements⟩ := h.data hCall
  have hRest : datas.drop (t.done.length + 1) = rest := by
    rw [← drop_drop, hDrop]
    rfl
  refine ⟨?_, ?_, ?_, h.inside, ?_⟩
  · simp only [length_append, length_singleton, hRest]
    rw [pieces_drop_of_not_more hData hMore, nil_append] at hElements
    exact .idle hTodo hElements
  · rintro c' ⟨⟩
  · rintro c' k ⟨⟩
  · have hIndex := h.index
    simp only [Thread.phase, hCall, hPhase] at hIndex
    exact hIndex

end

end

/-! ## The slots -/

def slot (p : Params) (j : Nat) : Nat := j % p.maxNumElems * p.elemSize

def Holds (shm : Nat → Byte) (a : Nat) (bytes : List Byte) : Prop :=
  ∀ k b, bytes[k]? = some b → shm (a + k) = b

theorem length_le_of_mem_elements {datas : List (List Byte)} {j : Nat} {piece : List Byte}
    (hPiece : (elements p datas)[j]? = some piece) : piece.length ≤ p.elemSize := by
  obtain ⟨data, -, hMem⟩ := mem_flatMap.mp (mem_of_getElem? hPiece)
  exact (mem_pieces p.elemSize_pos hMem).2

theorem Holds.update (hHolds : Holds shm (slot p j) bytes) (hLength : bytes.length ≤ p.elemSize)
    (hk : k < p.elemSize) (hSlot : j % p.maxNumElems ≠ i % p.maxNumElems) :
    Holds (update shm (slot p i + k) b) (slot p j) bytes := by
  intro m b' hGet
  have hm : m < bytes.length := (List.getElem?_eq_some_iff.mp hGet).1
  rw [update_of_ne, hHolds m b' hGet]
  intro hEq
  have hDiv := congrArg (· / p.elemSize) hEq
  simp only [slot, Nat.mul_comm _ p.elemSize, Nat.mul_add_div p.elemSize_pos,
    Nat.div_eq_of_lt (Nat.lt_of_lt_of_le hm hLength), Nat.div_eq_of_lt hk, Nat.add_zero] at hDiv
  exact hSlot hDiv

theorem slot_ne {n i j : Nat} (hLt : j < i) (hNear : i < n + j) : j % n ≠ i % n := by
  intro hEq
  have hDvd : n ∣ i - j := Nat.dvd_of_mod_eq_zero (Nat.sub_mod_eq_zero_of_mod_eq hEq.symm)
  have hLe := Nat.le_of_dvd (by omega) hDvd
  omega

structure Inv (p : Params) (datas : List (List Byte)) (s : State) : Prop where
  place : ∀ side, Place p datas (s.threads side) (s.elem side) (s.count side)
  empty : s.sem .producer + s.count .producer + (s.threads .producer).phase.busy =
    p.maxNumElems + s.count .consumer
  elems : s.sem .consumer + s.count .consumer + (s.threads .consumer).phase.busy = s.count .producer
  /-- The elements that were written and not read are in their slots. -/
  filled : ∀ j, s.count .consumer ≤ j → j < s.count .producer → ∀ piece,
    (elements p datas)[j]? = some piece → Holds s.shm (slot p j) piece
  filling : ∀ piece, (elements p datas)[s.count .producer]? = some piece →
    Holds s.shm (slot p (s.count .producer))
      (piece.take ((s.threads .producer).phase.copied piece.length))
  wrote : (s.threads .producer).done ++
    ((s.threads .producer).call.map Call.buffer).toList ++ (s.threads .producer).todo = datas
  got : (s.threads .consumer).done = datas.take (s.threads .consumer).done.length
  getting : ∀ c, (s.threads .consumer).call = some c → ∀ data,
    datas[(s.threads .consumer).done.length]? = some data → ∀ m b, data[m]? = some b →
      m < c.i * p.elemSize + c.phase.copied (c.element p data).length → c.buffer[m]? = some b

theorem Inv.busy_producer (h : Inv p datas s) (hBusy : (s.threads .producer).phase.busy = 1) :
    s.count .producer < p.maxNumElems + s.count .consumer := by
  have hEmpty := h.empty
  omega

theorem phase_eq {t : Thread} (hCall : t.call = some c) : t.phase = c.phase := by
  rw [Thread.phase, hCall]

theorem Inv.buffer_producer (h : Inv p datas s) (hCall : (s.threads .producer).call = some c) :
    datas[(s.threads .producer).done.length]? = some c.buffer := by
  have hWrote := h.wrote
  rw [hCall] at hWrote
  rw [← hWrote]
  simp

theorem Inv.place_of (h : Inv p datas s) (side : Side) (s' : State)
    (hThread : ∀ side', side' ≠ side → s'.threads side' = s.threads side' ∧
      s'.elem side' = s.elem side' ∧ s'.count side' = s.count side')
    (hPlace : Place p datas (s'.threads side) (s'.elem side) (s'.count side)) (side' : Side) :
    Place p datas (s'.threads side') (s'.elem side') (s'.count side') := by
  by_cases hSide : side' = side
  · exact hSide ▸ hPlace
  · obtain ⟨hEq, hElem, hCount⟩ := hThread side' hSide
    rw [hEq, hElem, hCount]
    exact h.place side'

theorem holds_take_zero (shm : Nat → Byte) (a : Nat) (bytes : List Byte) : Holds shm a (bytes.take 0) := by
  intro k b hGet
  simp at hGet

theorem Inv.call (h : Inv p datas s) (hCall : (s.threads side).call = none)
    (hTodo : (s.threads side).todo = buffer :: todo) : Inv p datas
      (s.setThread side { s.threads side with todo := todo, call := some { buffer := buffer } }) := by
  have hPhase : (s.threads side).phase = .outside := by rw [Thread.phase, hCall]
  have hPlace := h.place_of side
    (s.setThread side { s.threads side with todo := todo, call := some { buffer := buffer } })
    (fun side' hSide => ⟨update_of_ne hSide _ _, rfl, rfl⟩)
    (by simpa [State.setThread] using (h.place side).start hCall hTodo)
  cases side with
  | producer =>
      have hEmpty := h.empty
      rw [hPhase] at hEmpty
      refine ⟨hPlace, hEmpty, h.elems, h.filled, ?_, ?_, h.got, h.getting⟩
      · exact fun piece _ => holds_take_zero _ _ _
      · simpa [State.setThread, hCall, hTodo] using h.wrote
  | consumer =>
      have hElems := h.elems
      rw [hPhase] at hElems
      refine ⟨hPlace, h.empty, hElems, h.filled, h.filling, h.wrote, h.got, ?_⟩
      rintro c ⟨⟩ data _ m b _ hm
      simp [Phase.copied] at hm

section

variable (h : Inv p datas s) (hSize : p.elemSize ≤ INT_MAX)
include h hSize

theorem Inv.lock (hCall : (s.threads side).call = some c) (hPhase : c.phase = .outside) (hMore : c.More p)
    (hSem : 0 < s.sem side) : Inv p datas (s.lock side c) := by
  have hOutside : (s.threads side).phase = .outside := (phase_eq hCall).trans hPhase
  have hIndex := (h.place side).index
  rw [hOutside] at hIndex
  have hCopied : ∀ k, Phase.copying 0 = .copying k → (k : Int) ≤ c.numBytes p := by
    rintro k ⟨⟩
    rw [Call.numBytes_eq hSize hMore rfl]
    omega
  have hPlace := h.place_of side (s.lock side c)
    (fun side' hSide => ⟨update_of_ne hSide _ _, rfl, rfl⟩)
    (by simpa [State.lock, State.setCall, State.setThread] using
      (h.place side).move hCall { c with phase := .copying 0 } rfl rfl hMore hCopied hIndex)
  cases side with
  | producer =>
      refine ⟨hPlace, ?_, h.elems, h.filled, ?_, ?_, h.got, h.getting⟩
      · have hEmpty := h.empty
        rw [hOutside] at hEmpty
        change s.sem .producer - 1 + s.count .producer + 1 = _
        change s.sem .producer + s.count .producer + 0 = _ at hEmpty
        exact Eq.trans (by omega) hEmpty
      · exact fun piece _ => holds_take_zero _ _ _
      · simpa [State.lock, State.setCall, State.setThread, hCall] using h.wrote
  | consumer =>
      refine ⟨hPlace, h.empty, ?_, h.filled, h.filling, h.wrote, h.got, ?_⟩
      · have hElems := h.elems
        rw [hOutside] at hElems
        change s.sem .consumer - 1 + s.count .consumer + 1 = _
        change s.sem .consumer + s.count .consumer + 0 = _ at hElems
        exact Eq.trans (by omega) hElems
      · rintro c' ⟨⟩ data hData m b hGet hm
        refine h.getting c hCall data hData m b hGet ?_
        rw [hPhase]
        exact hm

theorem Inv.copy_producer (hCall : (s.threads .producer).call = some c) (hPhase : c.phase = .copying k)
    (hMore : c.More p) (hk : (k : Int) < c.numBytes p) : Inv p datas (s.copyByte p c k .producer) := by
  have hCopying : (s.threads .producer).phase = .copying k := (phase_eq hCall).trans hPhase
  obtain ⟨data, hData, hLength, hElement⟩ := (h.place .producer).element hCall hMore
  obtain rfl : c.buffer = data := some.inj ((h.buffer_producer hCall).symm.trans hData)
  have hLt := hk
  rw [Call.numBytes_eq hSize hMore rfl] at hLt
  have hLe := length_le_of_mem_elements hElement
  have hIndex := (h.place .producer).index
  rw [hCopying] at hIndex
  have hNear := h.busy_producer (by rw [hCopying]; rfl)
  have hSlot : s.elem .producer = slot p (s.count .producer) := hIndex
  have hByte : (c.element p c.buffer)[k]? = some (c.buffer.getD (c.i * p.elemSize + k) 0) := by
    grind [Call.element]
  have hPlace := h.place_of .producer (s.copyByte p c k .producer)
    (fun side' hSide => ⟨update_of_ne hSide _ _, rfl, rfl⟩)
    ((h.place .producer).move hCall { c with phase := .copying (k + 1) } rfl rfl hMore
      (by rintro k' ⟨⟩; exact hk) hIndex)
  refine ⟨hPlace, ?_, h.elems, ?_, ?_, ?_, h.got, h.getting⟩
  · have hEmpty := h.empty
    rw [hCopying] at hEmpty
    exact hEmpty
  · intro j (hRead : s.count .consumer ≤ j) (hWritten : j < s.count .producer) piece hPiece
    change Holds (update s.shm (s.elem .producer + k) _) _ _
    rw [hSlot]
    exact (h.filled j hRead hWritten piece hPiece).update (length_le_of_mem_elements hPiece)
      (by omega) (slot_ne hWritten (by omega))
  · intro piece hPiece
    obtain rfl : c.element p c.buffer = piece := some.inj (hElement.symm.trans hPiece)
    have hFilling := h.filling _ hElement
    rw [hCopying] at hFilling
    intro m b hGet
    change update s.shm (s.elem .producer + k) _ (slot p (s.count .producer) + m) = b
    change ((c.element p c.buffer).take (k + 1))[m]? = some b at hGet
    by_cases hm : m = k
    · grind
    · have hLt : m < ((c.element p c.buffer).take (k + 1)).length := (List.getElem?_eq_some_iff.mp hGet).1
      rw [length_take] at hLt
      rw [update_of_ne (by omega)]
      refine hFilling m b ?_
      rw [getElem?_take_of_lt (by omega)] at hGet
      change ((c.element p c.buffer).take k)[m]? = some b
      rw [getElem?_take_of_lt (by omega), hGet]
  · have hWrote := h.wrote
    rw [hCall] at hWrote
    exact hWrote

theorem Inv.copy_consumer (hCall : (s.threads .consumer).call = some c) (hPhase : c.phase = .copying k)
    (hMore : c.More p) (hk : (k : Int) < c.numBytes p) : Inv p datas (s.copyByte p c k .consumer) := by
  have hCopying : (s.threads .consumer).phase = .copying k := (phase_eq hCall).trans hPhase
  obtain ⟨data, hData, hLength, hElement⟩ := (h.place .consumer).element hCall hMore
  have hLt := hk
  rw [Call.numBytes_eq hSize hMore hLength] at hLt
  have hIndex := (h.place .consumer).index
  rw [hCopying] at hIndex
  have hSlot : s.elem .consumer = slot p (s.count .consumer) := hIndex
  have hElems := h.elems
  rw [hCopying] at hElems
  have hWritten : s.count .consumer < s.count .producer := by
    simp only [Phase.busy] at hElems
    omega
  have hByte : data[c.i * p.elemSize + k]? = some (s.shm (s.elem .consumer + k)) := by
    have hGet : (c.element p data)[k]? = data[c.i * p.elemSize + k]? := by grind [Call.element]
    have hLt : k < (c.element p data).length := by omega
    rw [← hGet, hSlot, h.filled _ (Nat.le_refl _) hWritten _ hElement k _
      (getElem?_eq_getElem hLt), getElem?_eq_getElem hLt]
  have hPlace := h.place_of .consumer (s.copyByte p c k .consumer)
    (fun side' hSide => ⟨update_of_ne hSide _ _, rfl, rfl⟩)
    ((h.place .consumer).move hCall { c with
      buffer := c.buffer.set (c.i * p.elemSize + k) (s.shm (s.elem .consumer + k))
      phase := .copying (k + 1) } (length_set ..) rfl hMore (by rintro k' ⟨⟩; exact hk) hIndex)
  refine ⟨hPlace, h.empty, hElems, h.filled, h.filling, h.wrote, h.got, ?_⟩
  rintro c' ⟨⟩ data' hData' m b hGet hm
  obtain rfl : data = data' := some.inj (hData.symm.trans hData')
  dsimp only [Phase.copied] at hm ⊢
  by_cases hLast : m = c.i * p.elemSize + k
  · grind
  · rw [getElem?_set_ne (by omega)]
    refine h.getting c hCall data hData m b hGet ?_
    rw [hPhase]
    dsimp only [Phase.copied]
    omega

end

theorem index_succ (p : Params) (n : Nat) : (n % p.maxNumElems * p.elemSize + p.elemSize) % p.buffSize =
      (n + 1) % p.maxNumElems * p.elemSize := by
  rw [← Nat.succ_mul, Params.buffSize, Nat.mul_mod_mul_right, Nat.succ_eq_add_one, Nat.mod_add_mod]

theorem Inv.advance (h : Inv p datas s) (hSize : p.elemSize ≤ INT_MAX)
    (hCall : (s.threads side).call = some c) (hPhase : c.phase = .copying k) (hMore : c.More p)
    (hk : (k : Int) = c.numBytes p) : Inv p datas (s.advance p side c) := by
  have hCopying : (s.threads side).phase = .copying k := (phase_eq hCall).trans hPhase
  obtain ⟨data, hData, hLength, hElement⟩ := (h.place side).element hCall hMore
  rw [Call.numBytes_eq hSize hMore hLength] at hk
  have hIndex := (h.place side).index
  rw [hCopying] at hIndex
  have hNext : (s.elem side + p.elemSize) % p.buffSize =
      (s.count side + 1) % p.maxNumElems * p.elemSize := by
    rw [hIndex]
    exact index_succ p _
  have hMove := (h.place side).move hCall { c with phase := .advanced } rfl rfl hMore
    (fun _ hEq => nomatch hEq) hNext
  have hPlace := h.place_of side (s.advance p side c)
    (fun side' hSide => ⟨update_of_ne hSide _ _, update_of_ne hSide _ _, rfl⟩)
    (by simpa [State.advance, State.setCall, State.setThread] using hMove)
  cases side with
  | producer =>
      have hEmpty := h.empty
      rw [hCopying] at hEmpty
      refine ⟨hPlace, hEmpty, h.elems, h.filled, ?_, ?_, h.got, h.getting⟩
      · intro piece hPiece
        obtain rfl : c.element p data = piece := some.inj (hElement.symm.trans hPiece)
        have hFilling := h.filling _ hElement
        rw [hCopying] at hFilling
        obtain rfl : k = (c.element p data).length := by omega
        exact hFilling
      · have hWrote := h.wrote
        rw [hCall] at hWrote
        exact hWrote
  | consumer =>
      have hElems := h.elems
      rw [hCopying] at hElems
      refine ⟨hPlace, h.empty, hElems, h.filled, h.filling, h.wrote, h.got, ?_⟩
      rintro c' ⟨⟩ data' hData' m b hGet hm
      obtain rfl : data = data' := some.inj (hData.symm.trans hData')
      refine h.getting c hCall data hData m b hGet ?_
      rw [hPhase]
      obtain rfl : k = (c.element p data).length := by omega
      exact hm

theorem Inv.unlock (h : Inv p datas s) (hCall : (s.threads side).call = some c)
    (hPhase : c.phase = .advanced) (hMore : c.More p) : Inv p datas (s.unlock side c) := by
  have hAdvanced : (s.threads side).phase = .advanced := (phase_eq hCall).trans hPhase
  obtain ⟨data, hData, hLength, hElement⟩ := (h.place side).element hCall hMore
  have hPlace := h.place_of side (s.unlock side c)
    (fun side' hSide => ⟨update_of_ne hSide _ _, rfl, update_of_ne hSide _ _⟩)
    (by simpa [State.unlock, State.setCall, State.setThread] using
      (h.place side).next hCall hPhase hMore)
  have hEmpty := h.empty
  have hElems := h.elems
  cases side with
  | producer =>
      rw [hAdvanced] at hEmpty
      refine ⟨hPlace, ?_, ?_, ?_, ?_, ?_, h.got, h.getting⟩
      · change s.sem .producer + (s.count .producer + 1) + 0 = p.maxNumElems + s.count .consumer
        change s.sem .producer + s.count .producer + 1 = _ at hEmpty
        omega
      · change s.sem .consumer + 1 + s.count .consumer + (s.threads .consumer).phase.busy =
          s.count .producer + 1
        omega
      · intro j (hRead : s.count .consumer ≤ j) (hWritten : j < s.count .producer + 1) piece hPiece
        obtain hOld | rfl := Nat.lt_succ_iff_lt_or_eq.mp hWritten
        · exact h.filled j hRead hOld piece hPiece
        · have hFilling := h.filling piece hPiece
          rw [hAdvanced] at hFilling
          simp only [Phase.copied, take_length] at hFilling
          exact hFilling
      · exact fun piece _ => holds_take_zero _ _ _
      · have hWrote := h.wrote
        rw [hCall] at hWrote
        exact hWrote
  | consumer =>
      rw [hAdvanced] at hElems
      refine ⟨hPlace, ?_, ?_, ?_, h.filling, h.wrote, h.got, ?_⟩
      · change s.sem .producer + 1 + s.count .producer + (s.threads .producer).phase.busy =
          p.maxNumElems + (s.count .consumer + 1)
        omega
      · change s.sem .consumer + (s.count .consumer + 1) + 0 = s.count .producer
        change s.sem .consumer + s.count .consumer + 1 = _ at hElems
        omega
      · intro j (hRead : s.count .consumer + 1 ≤ j)
        exact h.filled j (by omega)
      · rintro c' ⟨⟩ data' hData' m b hGet hm
        obtain rfl : data = data' := some.inj (hData.symm.trans hData')
        have hInside : m < data.length := (List.getElem?_eq_some_iff.mp hGet).1
        refine h.getting c hCall data hData m b hGet ?_
        rw [hPhase]
        simp only [Phase.copied, Call.element, length_take, length_drop, Nat.succ_mul] at hm ⊢
        omega

theorem Inv.return (h : Inv p datas s) (hCall : (s.threads side).call = some c)
    (hPhase : c.phase = .outside) (hMore : ¬c.More p) : Inv p datas (s.return side c) := by
  have hOutside : (s.threads side).phase = .outside := (phase_eq hCall).trans hPhase
  have hPlace := h.place_of side (s.return side c)
    (fun side' hSide => ⟨update_of_ne hSide _ _, rfl, rfl⟩)
    (by simpa [State.return, State.setThread] using (h.place side).finish hCall hPhase hMore)
  cases side with
  | producer =>
      have hEmpty := h.empty
      rw [hOutside] at hEmpty
      refine ⟨hPlace, hEmpty, h.elems, h.filled, ?_, ?_, h.got, h.getting⟩
      · exact fun piece _ => holds_take_zero _ _ _
      · simpa [State.return, State.setThread, hCall] using h.wrote
  | consumer =>
      have hElems := h.elems
      rw [hOutside] at hElems
      refine ⟨hPlace, h.empty, hElems, h.filled, h.filling, h.wrote, ?_, ?_⟩
      · obtain ⟨data, rest, hDrop, hLength, -⟩ := (h.place .consumer).data hCall
        have hData : datas[(s.threads .consumer).done.length]? = some data := by
          rw [← head?_drop, hDrop, head?_cons]
        have hBuffer : c.buffer = data := by
          apply ext_getElem?
          intro m
          by_cases hm : m < data.length
          · rw [getElem?_eq_getElem hm]
            grind [Call.more_iff, h.getting]
          · rw [getElem?_eq_none (by omega), getElem?_eq_none (by omega)]
        change (s.threads .consumer).done ++ [c.buffer] =
          datas.take ((s.threads .consumer).done ++ [c.buffer]).length
        rw [length_append, length_singleton, take_add_one, ← h.got, hData, hBuffer]
        rfl
      · rintro c' ⟨⟩

theorem Inv.fits (h : Inv p datas s) (hSize : p.elemSize ≤ INT_MAX)
    (hTurns : ∀ data ∈ datas, data.length / p.elemSize ≤ INT_MAX) : Fits p s := by
  refine ⟨hSize, fun side c hCall => ?_⟩
  obtain ⟨data, rest, hDrop, hLength, -⟩ := (h.place side).data hCall
  rw [Call.turns, hLength]
  exact hTurns data (mem_of_mem_drop (hDrop ▸ mem_cons_self))

theorem step_inv (hSize : p.elemSize ≤ INT_MAX)
    (hTurns : ∀ data ∈ datas, data.length / p.elemSize ≤ INT_MAX) (h : Inv p datas s)
    (e : Side × Action) : Returns (step p s e) (Inv p datas) := by
  refine step_ends (h.fits hSize hTurns) (fun side => (h.place side).more) h ?_ ?_ ?_ ?_ ?_ ?_ e
  · exact fun side buffer todo hCall hTodo => h.call hCall hTodo
  · exact fun side c hCall hPhase hMore hSem => h.lock hSize hCall hPhase hMore hSem
  · intro side c k hCall hPhase hMore hk
    cases side with
    | producer => exact h.copy_producer hSize hCall hPhase hMore hk
    | consumer => exact h.copy_consumer hSize hCall hPhase hMore hk
  · exact fun side c k hCall hPhase hMore hk => h.advance hSize hCall hPhase hMore hk
  · exact fun side c hCall hPhase hMore => h.unlock hCall hPhase hMore
  · exact fun side c hCall hPhase hMore => h.return hCall hPhase hMore

theorem start_inv (shm : Nat → Byte) (hBuffers : buffers.map length = datas.map length) :
    Inv p datas (start shm datas buffers p.maxNumElems) where
  place side := by
    cases side with
    | producer =>
        refine ⟨.idle rfl rfl, ?_, ?_, Nat.zero_le _, ?_⟩
        · rintro c ⟨⟩
        · rintro c k ⟨⟩
        · simp [start, Thread.phase, Phase.moved]
    | consumer =>
        refine ⟨.idle hBuffers rfl, ?_, ?_, Nat.zero_le _, ?_⟩
        · rintro c ⟨⟩
        · rintro c k ⟨⟩
        · simp [start, Thread.phase, Phase.moved]
  empty := rfl
  elems := rfl
  filled j _ hWritten := absurd hWritten (Nat.not_lt_zero j)
  filling piece _ := holds_take_zero _ _ _
  wrote := rfl
  got := rfl
  getting := by rintro c ⟨⟩

/-! ## Progress -/

def Phase.left (length : Nat) : Phase → Nat
  | .outside => length + 3
  | .copying k => length - k + 2
  | .advanced => 1

def Call.left (p : Params) (c : Call) : Nat :=
  match sizes p.elemSize (c.buffer.length - c.i * p.elemSize) with
  | [] => 1
  | n :: rest => 1 + c.phase.left n + (rest.map (· + 3)).sum

def Thread.left (p : Params) (t : Thread) : Nat :=
  (t.todo.map fun buffer => 2 + ((sizes p.elemSize buffer.length).map (· + 3)).sum).sum +
    match t.call with
    | some c => c.left p
    | none => 0

theorem sizes_cons (hSize : 0 < size) (hn : 0 < n) :
    sizes size n = min size n :: sizes size (n - size) := by
  rcases Nat.le_total n size with hLe | hLe
  · rw [sizes_of_le hSize hn hLe, Nat.min_eq_right hLe, Nat.sub_eq_zero_of_le hLe, sizes_zero]
  · obtain ⟨m, rfl⟩ := Nat.exists_eq_add_of_le hLe
    rw [sizes_add hSize, Nat.min_eq_left hLe, Nat.add_sub_cancel_left]

theorem Call.left_of_more {c : Call} (hMore : c.More p) :
    c.left p = 1 + c.phase.left (min p.elemSize (c.buffer.length - c.i * p.elemSize)) +
      ((sizes p.elemSize (c.buffer.length - (c.i + 1) * p.elemSize)).map (· + 3)).sum := by
  have hLt := (c.more_iff p).mp hMore
  rw [Call.left, sizes_cons p.elemSize_pos (by omega), Nat.succ_mul, Nat.sub_sub]

theorem Call.left_of_outside {c : Call} (hPhase : c.phase = .outside) :
    c.left p = 1 + ((sizes p.elemSize (c.buffer.length - c.i * p.elemSize)).map (· + 3)).sum := by
  grind [Call.left, Phase.left]

theorem Call.left_lt {c c' : Call} (hMore : c.More p) (hLength : c'.buffer.length = c.buffer.length)
    (hTurn : c'.i = c.i) (hPhase : ∀ n, n = min p.elemSize (c.buffer.length - c.i * p.elemSize) →
      c'.phase.left n < c.phase.left n) : c'.left p < c.left p := by
  have hMore' : c'.More p := by
    rw [Call.more_iff] at hMore ⊢
    rwa [hLength, hTurn]
  grind [Call.left_of_more]

theorem Place.finished {t : Thread} {elem count : Nat} (h : Place p datas t elem count)
    (hLeft : t.left p = 0) : datas.drop t.done.length = [] ∧ (elements p datas).drop count = [] := by
  have hFollows := h.follows
  simp only [Thread.left, Nat.add_eq_zero_iff] at hLeft
  generalize datas.drop t.done.length = rest at hFollows ⊢
  cases hCall : t.call with
  | some c => grind [Call.left]
  | none =>
      cases hTodo : t.todo with
      | cons buffer todo => simp [hTodo] at hLeft
      | nil =>
          rw [hCall, hTodo] at hFollows
          cases hFollows with
          | idle hLengths hDrop =>
              obtain rfl : rest = [] := by simpa using hLengths.symm
              exact ⟨rfl, hDrop⟩

def Blocked (p : Params) (s : State) (side : Side) : Prop :=
  ∃ c, (s.threads side).call = some c ∧ c.phase = .outside ∧ c.More p ∧ s.sem side = 0

theorem Inv.advances (h : Inv p datas s) (hSize : p.elemSize ≤ INT_MAX)
    (hTurns : ∀ data ∈ datas, data.length / p.elemSize ≤ INT_MAX) (hLeft : (s.threads side).left p ≠ 0)
    (hFree : ¬Blocked p s side) :
    ∃ action s', step p s (side, action) = .ok s' ∧ (s'.threads side).left p < (s.threads side).left p ∧
      ∀ side', side' ≠ side → s'.threads side' = s.threads side' := by
  have hOther {s' : State} {t : Thread} (hThreads : s'.threads = update s.threads side t)
      (side' : Side) (hSide : side' ≠ side) : s'.threads side' = s.threads side' := by
    rw [hThreads, update_of_ne hSide]
  have hCost {s' : State} {t : Thread} (hThreads : s'.threads = update s.threads side t)
      (hLt : t.left p < (s.threads side).left p) :
      (s'.threads side).left p < (s.threads side).left p := by
    rwa [hThreads, update_self]
  cases hCall : (s.threads side).call with
  | none =>
      cases hTodo : (s.threads side).todo with
      | nil => exact absurd (by simp [Thread.left, hCall, hTodo]) hLeft
      | cons buffer todo =>
          refine ⟨.call, _, by simp only [step, hCall, hTodo]; rfl, hCost rfl ?_, hOther rfl⟩
          grind [Thread.left, Call.left_of_outside]
  | some c =>
      have hMoves {c' : Call} (hLt : c'.left p < c.left p) :
          Thread.left p { s.threads side with call := some c' } < (s.threads side).left p := by
        simp only [Thread.left, hCall]
        omega
      cases hPhase : c.phase with
      | outside =>
          by_cases hMore : c.More p
          · have hSem : 0 < s.sem side :=
              Nat.pos_of_ne_zero fun hZero => hFree ⟨c, hCall, hPhase, hMore, hZero⟩
            refine ⟨.lock, s.lock side c, ?_, hCost rfl (hMoves ?_), hOther rfl⟩
            · simp only [step, hCall, hPhase]
              exact if_pos ⟨hMore, hSem⟩
            · refine Call.left_lt hMore rfl rfl fun n _ => ?_
              simp only [hPhase, Phase.left]
              omega
          · refine ⟨.return, s.return side c, ?_, hCost rfl ?_, hOther rfl⟩
            · simp only [step, hCall, hPhase]
              exact if_neg hMore
            · simp only [Thread.left, hCall, Call.left_of_outside hPhase]
              omega
      | copying k =>
          have hMore := (h.place side).more c hCall (by simp [hPhase])
          have hLe := (h.place side).copied c k hCall hPhase
          have hBytes : c.numBytes p = (min p.elemSize (c.buffer.length - c.i * p.elemSize) : Nat) := by
            rw [Call.numBytes_eq hSize hMore rfl, Call.element, length_take, length_drop]
          rcases lt_or_eq_of_le hLe with hLt | hEq
          · have hStep : step p s (side, .copy) = .ok (s.copyByte p c k side) := by
              simp only [step, hCall, hPhase]
              rw [if_neg (by omega), if_pos hLt]
              rfl
            have hFewer (n : Nat) (hn : n = min p.elemSize (c.buffer.length - c.i * p.elemSize)) :
                Phase.left n (.copying (k + 1)) < c.phase.left n := by
              simp only [hPhase, Phase.left]
              omega
            cases side with
            | producer =>
                exact ⟨.copy, _, hStep, hCost rfl (hMoves (Call.left_lt hMore rfl rfl hFewer)),
                  hOther rfl⟩
            | consumer =>
                exact ⟨.copy, _, hStep, hCost rfl (hMoves
                  (Call.left_lt hMore (length_set ..) rfl hFewer)), hOther rfl⟩
          · refine ⟨.advance, s.advance p side c, ?_, hCost rfl (hMoves ?_), hOther rfl⟩
            · simp only [step, hCall, hPhase]
              exact if_pos hEq
            · refine Call.left_lt hMore rfl rfl fun n hn => ?_
              simp only [hPhase, Phase.left]
              omega
      | advanced =>
          have hMore := (h.place side).more c hCall (by simp [hPhase])
          refine ⟨.unlock, s.unlock side c, ?_, hCost rfl (hMoves ?_), hOther rfl⟩
          · simp only [step, hCall, hPhase]
            have := (h.fits hSize hTurns).turns side c hCall
            exact if_neg (by omega)
          · rw [Call.left_of_more hMore, Call.left_of_outside rfl]
            simp only [hPhase, Phase.left]
            omega

theorem Inv.not_blocked (h : Inv p datas s) (hConsumer : Blocked p s .consumer) :
    (s.threads .producer).left p ≠ 0 ∧ ¬Blocked p s .producer := by
  obtain ⟨c, hCall, hPhase, hMore, hSem⟩ := hConsumer
  have hOutside : (s.threads .consumer).phase.busy = 0 := by rw [phase_eq hCall, hPhase]; rfl
  have hCount : s.count .producer = s.count .consumer := by
    have hElems := h.elems
    omega
  obtain ⟨data, -, -, hElement⟩ := (h.place .consumer).element hCall hMore
  constructor
  · intro hLeft
    have hNone := ((h.place .producer).finished hLeft).2
    grind [drop_eq_nil_iff]
  · rintro ⟨c', hCall', hPhase', -, hZero⟩
    have hEmpty := h.empty
    have hPos := p.maxNumElems_pos
    grind [phase_eq, Phase.busy]

theorem Inv.completes (h : Inv p datas s) (hSize : p.elemSize ≤ INT_MAX)
    (hTurns : ∀ data ∈ datas, data.length / p.elemSize ≤ INT_MAX) :
    ∃ events s', run p s events = .ok s' ∧ (s'.threads .consumer).done = datas := by
  induction hn : (s.threads .producer).left p + (s.threads .consumer).left p using
    Nat.strong_induction_on generalizing s with
  | h n ih =>
    have hGo {side : Side} (hLeft : (s.threads side).left p ≠ 0) (hFree : ¬Blocked p s side) :
        ∃ events s', run p s events = .ok s' ∧ (s'.threads .consumer).done = datas := by
      obtain ⟨action, s1, hStep, hLess, hOther⟩ := h.advances hSize hTurns hLeft hFree
      have hFewer : (s1.threads .producer).left p + (s1.threads .consumer).left p < n := by
        cases side with
        | producer => rw [hOther .consumer (by decide)]; omega
        | consumer => rw [hOther .producer (by decide)]; omega
      obtain ⟨events, s', hRun, hDone⟩ := ih _ hFewer ((step_inv hSize hTurns h _).result hStep) rfl
      refine ⟨(side, action) :: events, s', ?_, hDone⟩
      rw [run, foldlM_cons, hStep]
      exact hRun
    by_cases hEnd : (s.threads .consumer).left p = 0
    · refine ⟨[], s, rfl, ?_⟩
      have hAll := ((h.place .consumer).finished hEnd).1
      rw [h.got]
      exact take_of_length_le (drop_eq_nil_iff.mp hAll)
    · by_cases hBlocked : Blocked p s .consumer
      · obtain ⟨hLeft, hFree⟩ := h.not_blocked hBlocked
        exact hGo hLeft hFree
      · exact hGo hEnd hBlocked

/-- What holds of the queue at any time: the transfers that are done, the two indices, the semaphores,
and the slots that were written and not read. -/
structure Fifo (p : Params) (datas : List (List Byte)) (s : State) : Prop where
  results : (s.threads .consumer).done = datas.take (s.threads .consumer).done.length
  index : ∀ side, p.elemSize ∣ s.elem side ∧ s.elem side < p.buffSize
  semaphores : s.sem .consumer + s.sem .producer + (s.threads .consumer).phase.busy +
    (s.threads .producer).phase.busy = p.maxNumElems
  kept : ∀ j, s.count .consumer ≤ j → j < s.count .producer →
    ∃ element, (elements p datas)[j]? = some element ∧ Holds s.shm (slot p j) element
  apart : (s.threads .producer).phase.busy = 1 → ∀ j, s.count .consumer ≤ j →
    j < s.count .producer → j % p.maxNumElems ≠ s.count .producer % p.maxNumElems

theorem Inv.fifo (h : Inv p datas s) : Fifo p datas s := by
  refine ⟨h.got, fun side => ?_, ?_, ?_, ?_⟩
  · rw [(h.place side).index]
    exact ⟨Nat.dvd_mul_left _ _, Nat.mul_lt_mul_of_pos_right (Nat.mod_lt _ p.maxNumElems_pos)
      p.elemSize_pos⟩
  · have hEmpty := h.empty
    have hElems := h.elems
    omega
  · intro j hRead hWritten
    have hInside : j < (elements p datas).length := Nat.lt_of_lt_of_le hWritten (h.place .producer).inside
    exact ⟨_, getElem?_eq_getElem hInside, h.filled j hRead hWritten _ (getElem?_eq_getElem hInside)⟩
  · intro hBusy j hRead hWritten
    have hNear := h.busy_producer hBusy
    exact slot_ne hWritten (by omega)

theorem namedSemaphore_eq (hValue : n ≤ SEM_VALUE_MAX) : namedSemaphore n = .ok n := by
  have hMod : n % 4294967296 = n := Nat.mod_eq_of_lt (Nat.lt_of_le_of_lt hValue (by decide))
  unfold namedSemaphore
  rw [hMod]
  exact if_neg (Nat.not_lt.mpr hValue)

/-- Over every interleaving the reads return what the writes passed, in their order, and nothing is lost
or stays in the way, as long as a semaphore can have the number of elements as its value and the sizes of
an element and of a transfer in elements are an `int`. -/
theorem queue_fifo (p : Params) (shm : Nat → Byte) (datas buffers : List (List Byte))
    (hBuffers : buffers.map List.length = datas.map List.length) (hElems : p.maxNumElems ≤ SEM_VALUE_MAX)
    (hSize : p.elemSize ≤ INT_MAX) (hTurns : ∀ data ∈ datas, data.length / p.elemSize ≤ INT_MAX)
    (events : List (Side × Action)) : ∃ s, runNew p shm datas buffers events = .ok s ∧ Fifo p datas s ∧
      ∃ later s', run p s later = .ok s' ∧ (s'.threads .consumer).done = datas := by
  have hRun := run_ends (fun s e hInv _ => step_inv hSize hTurns hInv e) (start_inv shm hBuffers) events
    (meets_true (step p) _ events)
  unfold runNew
  rw [namedSemaphore_eq hElems, ok_bind]
  obtain ⟨s, hOk⟩ : ∃ s, run p (start shm datas buffers p.maxNumElems) events = .ok s := by
    cases hResult : run p (start shm datas buffers p.maxNumElems) events with
    | ok s => exact ⟨s, rfl⟩
    | error fault => exact (hRun.failure hResult).elim
  have hInv := hRun.result hOk
  exact ⟨s, hOk, hInv.fifo, hInv.completes hSize hTurns⟩

def oneByte : Params := ⟨1, 1, by decide, by decide⟩

theorem queue_fifo_two_writes :
    ∃ s, runNew oneByte (fun _ => 0) [[1, 2, 3], [4]] [[0, 0, 0], [0]]
        [(.producer, .call), (.producer, .lock), (.consumer, .call), (.producer, .copy)] = .ok s ∧
      Fifo oneByte [[1, 2, 3], [4]] s ∧
      ∃ later s', run oneByte s later = .ok s' ∧ (s'.threads .consumer).done = [[1, 2, 3], [4]] :=
  queue_fifo oneByte (fun _ => 0) [[1, 2, 3], [4]] [[0, 0, 0], [0]] (by decide) (by decide) (by decide)
    (by decide) _

def twoGib : Params := ⟨1, 2147483648, by decide, by decide⟩

theorem twoGib_fault (data : List Byte) (hLength : data.length = 2147483648) :
    runNew twoGib (fun _ => 0) [data] [data]
      [(.producer, .call), (.producer, .lock), (.producer, .copy)] = .error .memcpySize := by
  have hTurns : 0 < data.length / twoGib.elemSize := by
    rw [hLength]
    decide
  have hBytes : Call.numBytes twoGib { buffer := data, phase := .copying 0 } = -2147483648 :=
    (congrArg asInt (if_pos hTurns)).trans (by decide)
  have hLock (s : State) (hCall : (s.threads .producer).call = some { buffer := data })
      (hSem : 0 < s.sem .producer) :
      step twoGib s (.producer, .lock) = .ok (s.lock .producer { buffer := data }) := by
    simp only [step, hCall]
    exact if_pos ⟨.inl hTurns, hSem⟩
  have hCopy (s : State)
      (hCall : (s.threads .producer).call = some { buffer := data, phase := .copying 0 }) :
      step twoGib s (.producer, .copy) = .error .memcpySize := by
    simp only [step, hCall]
    exact if_pos (by rw [hBytes]; decide)
  rw [runNew, namedSemaphore_eq (by decide), ok_bind, run, foldlM_cons]
  change (foldlM (step twoGib) ((start (fun _ => 0) [data] [data] 1).setThread .producer
    { todo := [], call := some { buffer := data } }) _) = _
  rw [foldlM_cons, hLock _ rfl Nat.one_pos]
  change (foldlM (step twoGib) _ _) = _
  rw [foldlM_cons, hCopy _ rfl]
  rfl

/-- A queue of 2^32 elements has no place for the first of them, and one of 2^31 is not made. -/
theorem queue_two_gib :
    runNew twoGib (fun _ => 0) [replicate 2147483648 0] [replicate 2147483648 0]
      [(.producer, .call), (.producer, .lock), (.producer, .copy)] = .error .memcpySize ∧
    namedSemaphore 4294967296 = .ok 0 ∧ namedSemaphore 2147483648 = .error .semOpen :=
  ⟨twoGib_fault _ List.length_replicate, rfl, rfl⟩

end Capio.Common.SharedQueue
