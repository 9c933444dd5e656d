import Mathlib.Logic.Relation
import Capio.Posix.WriteStream

/-! # Requests that outlive their client

The requests of a client and the elements of its queue are in shared memory, so the server goes on
when the client stops.  It reads all that was requested; the line in use stays in the queue.
-/
namespace Capio.Posix.WriteStream

open Common Lib Lib.Pieces List

def Serves (size : Nat) (s s' : State) : Prop :=
  ∃ e ∈ [Event.accept, .read, .finish], step size s e = some s'

def Delivers (size : Nat) (s : State) : Prop :=
  ∃ s', Relation.ReflTransGen (Serves size) s s' ∧ s'.requests = [] ∧ s'.serving = none ∧
    tagged s'.blocks = tagged s.written ∧ s'.queue.toList = []

structure Apart (R : State → State → Prop) (s s' : State) : Prop where
  cache : s'.cache = s.cache
  actions : s'.actions = s.actions
  written : s'.written = s.written
  recache : ∀ c, R { s with cache := c } { s' with cache := c }

theorem Serves.apart (h : Serves size s s') : Apart (Serves size) s s' := by
  obtain ⟨e, he, hStep⟩ := h
  have hRecache : ∀ c, step size { s with cache := c } e = some { s' with cache := c } →
      Serves size { s with cache := c } { s' with cache := c } := fun c hc => ⟨e, he, hc⟩
  simp only [mem_cons, not_mem_nil, or_false] at he
  obtain rfl | rfl | rfl := he
  · simp only [step] at hStep
    split at hStep
    · next fd count requests hServing hRequests =>
      cases hStep
      refine ⟨rfl, rfl, rfl, fun c => hRecache c ?_⟩
      simp only [step, hServing, hRequests]
    · cases hStep
  · simp only [step] at hStep
    split at hStep
    · next fd left got hServing =>
      obtain ⟨⟨bytes, q⟩, hRead, rfl⟩ := Option.map_eq_some_iff.mp hStep
      refine ⟨rfl, rfl, rfl, fun c => hRecache c ?_⟩
      simp only [step, hServing, hRead]
      rfl
    · cases hStep
  · simp only [step] at hStep
    split at hStep
    · next fd got hServing =>
      cases hStep
      refine ⟨rfl, rfl, rfl, fun c => hRecache c ?_⟩
      simp only [step, hServing]
    · cases hStep

theorem apart_of_serves (h : Relation.ReflTransGen (Serves size) s s') :
    Apart (Relation.ReflTransGen (Serves size)) s s' := by
  induction h with
  | refl => exact ⟨rfl, rfl, rfl, fun _ => .refl⟩
  | tail _ hStep ih =>
    have hApart := hStep.apart
    exact ⟨hApart.cache.trans ih.cache, hApart.actions.trans ih.actions, hApart.written.trans ih.written,
      fun c => (ih.recache c).tail (hApart.recache c)⟩

theorem shows_of_serves (hSize : 0 < size) (h : Shows size s v)
    (hServes : Relation.ReflTransGen (Serves size) s s') : ∃ v', Shows size s' v' := by
  induction hServes with
  | refl => exact ⟨v, h⟩
  | tail _ hStep ih =>
    obtain ⟨v1, h1⟩ := ih
    obtain ⟨e, -, he⟩ := hStep
    exact h1.step hSize he

def work (s : State) : Nat :=
  (s.serving.map fun r => r.2.1 + 1).getD 0 + (s.requests.map fun r => r.2 + 2).sum

theorem work_lt (hSize : 0 < size) (h : Serves size s s') : work s' < work s := by
  obtain ⟨e, he, hStep⟩ := h
  unfold work
  simp only [mem_cons, not_mem_nil, or_false] at he
  obtain rfl | rfl | rfl := he
  · grind [step]
  · simp only [step] at hStep
    grind [Option.map_eq_some_iff]
  · grind [step]

theorem exists_drained (hSize : 0 < size) (h : Shows size s v) (hActions : s.actions = []) :
    ∃ s', Relation.ReflTransGen (Serves size) s s' ∧ s'.requests = [] ∧ s'.serving = none := by
  induction hWork : work s using Nat.strong_induction_on generalizing s v with
  | h n ih =>
    by_cases hIdle : s.requests = [] ∧ s.serving = none
    · exact ⟨s, .refl, hIdle⟩
    have hBusy : s.actions ≠ [] ∨ s.serving ≠ none ∨ s.requests ≠ [] := by tauto
    obtain ⟨e, he, s1, hStep⟩ := h.progress hSize hBusy
    have hServes : Serves size s s1 := by
      refine ⟨e, (mem_cons.mp he).resolve_left ?_, hStep⟩
      rintro rfl
      simp only [step, hActions] at hStep
      cases hStep
    obtain ⟨v1, h1⟩ := h.step hSize hStep
    obtain ⟨s', hRest, hDrained⟩ := ih _ (hWork ▸ work_lt hSize hServes) h1
      (hServes.apart.actions.trans hActions) rfl
    exact ⟨s', .head hServes hRest, hDrained⟩

theorem delivers_iff (hSize : 0 < size) (h : Shows size s v) (hActions : s.actions = []) (c : WriteCache) :
    Delivers size { s with cache := c } ↔ s.cache.actualSize = 0 := by
  have hReserved : ∀ {s' : State} {v' : View}, Shows size s' v' →
      (s'.cache.reserved = false ↔ s'.cache.actualSize = 0) := by
    intro s' v' h'
    have hHolds := h'.cache
    cases hLine : v'.line' with
    | none =>
      rw [hLine] at hHolds
      exact ⟨fun _ => hHolds.actualSize, fun _ => hHolds.reserved⟩
    | some line =>
      rw [hLine] at hHolds
      have hFull := length_pos_iff.mpr (hHolds.partly line rfl).1
      have hActual : s'.cache.actualSize = line.length := hHolds.actualSize
      have hTrue : s'.cache.reserved = true := hHolds.reserved
      grind
  constructor
  · rintro ⟨s', hServes, hRequests, hServing, -, hQueue⟩
    have hApart := apart_of_serves hServes
    have hBack := hApart.recache s.cache
    obtain ⟨v', h'⟩ := shows_of_serves hSize h hBack
    grind [RingBuffer.length_toList, length_nil, h'.used, hApart.actions]
  · intro hFlushed
    obtain ⟨s', hServes, hRequests, hServing⟩ := exists_drained hSize h hActions
    have hApart := apart_of_serves hServes
    obtain ⟨v', h'⟩ := shows_of_serves hSize h hServes
    have hActions' := hApart.actions.trans hActions
    have hFlushed' : s'.cache.actualSize = 0 := by rw [hApart.cache, hFlushed]
    refine ⟨{ s' with cache := c }, hApart.recache c, hRequests, hServing, ?_, ?_⟩
    · exact (h'.drained hActions' hServing hRequests hFlushed').trans (congrArg tagged hApart.written)
    · have hUsed := h'.used hSize hActions' hServing
      grind [eq_nil_of_length_eq_zero, RingBuffer.length_toList]

end Capio.Posix.WriteStream
