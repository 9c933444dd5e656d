import Mathlib.Order.WellFounded

/-! # Threads that wait for each other

A set of threads is deadlocked if each of them waits for one of the set.  There is none if threads can
be given a rank that falls along the waits for threads that wait themselves.
-/
namespace Capio.Lib.WaitsFor

variable {τ ρ : Type*}

def Deadlocked (waitsFor : τ → τ → Prop) (T : Set τ) : Prop :=
  T.Nonempty ∧ ∀ t ∈ T, ∃ u ∈ T, waitsFor t u

theorem not_deadlocked_of_rank [LT ρ] [WellFoundedLT ρ] {waitsFor : τ → τ → Prop} (rank : τ → ρ)
    (h : ∀ t u v, waitsFor t u → waitsFor u v → rank u < rank t) (T : Set τ) : ¬ Deadlocked waitsFor T := by
  rintro ⟨hSome, hWaits⟩
  -- a thread of the set with the least rank waits for one that waits
  have hWell : WellFounded ((· < ·) : ρ → ρ → Prop) := wellFounded_lt
  obtain ⟨t, ht, hMin⟩ := (InvImage.wf rank hWell).has_min T hSome
  obtain ⟨u, hu, htu⟩ := hWaits t ht
  obtain ⟨v, -, huv⟩ := hWaits u hu
  exact hMin u hu (h t u v htu huv)

end Capio.Lib.WaitsFor
