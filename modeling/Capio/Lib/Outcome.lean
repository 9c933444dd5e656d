import Mathlib.Data.List.Basic

/-! # Pre- and postconditions for fallible steps

`Ends x P E` says what a computation that may fail comes to: a result with `P`, or an error
allowed by `E`.  The rules follow the ways computations are put together; the last part lifts a
property of single steps to every run of them.
-/
namespace Capio.Lib.Outcome

universe u

variable {ε ι : Type*} {α β σ : Type u}

def Ends (x : Except ε α) (P : α → Prop) (E : ε → Prop) : Prop :=
  match x with
  | .ok a => P a
  | .error e => E e

/-- Nothing is said about the errors. -/
abbrev Yields (x : Except ε α) (P : α → Prop) : Prop := Ends x P fun _ => True

/-- There is no error. -/
abbrev Returns (x : Except ε α) (P : α → Prop) : Prop := Ends x P fun _ => False

@[simp] theorem ends_pure (a : α) (P : α → Prop) (E : ε → Prop) :
    Ends (pure a : Except ε α) P E ↔ P a := Iff.rfl

variable {x : Except ε α} {f : α → Except ε β} {Q P : α → Prop} {E : ε → Prop} {I : σ → Prop}
  {l : List ι} {s : σ} {step : σ → ι → Except ε σ} {guard : σ → ι → Prop}

theorem Ends.bind {P : β → Prop} (hx : Ends x Q E) (hf : ∀ a, Q a → Ends (f a) P E) :
    Ends (x >>= f) P E := by
  cases x with
  | error e => exact hx
  | ok a => exact hf a hx

theorem ok_bind (a : α) (f : α → Except ε β) : (.ok a >>= f) = f a := rfl

theorem exists_of_bind_eq_ok {b : β} (h : x >>= f = .ok b) : ∃ a, x = .ok a ∧ f a = .ok b := by
  cases x with
  | error e => cases h
  | ok a => exact ⟨a, rfl, h⟩

theorem ends_ok_bind (a : α) (f : α → Except ε β) (P : β → Prop) (E : ε → Prop) :
    Ends (.ok a >>= f) P E ↔ Ends (f a) P E := Iff.rfl

theorem Ends.map {f : α → β} {P : β → Prop} (hx : Ends x (fun a => P (f a)) E) : Ends (f <$> x) P E := by
  cases x with
  | error e => exact hx
  | ok a => exact hx

theorem Ends.always (hP : ∀ a, P a) (x : Except ε α) : Ends x P fun _ => True := by
  cases x with
  | error e => trivial
  | ok a => exact hP a

theorem Ends.mono {F : ε → Prop} (h : Ends x P E) (hP : ∀ a, P a → Q a) (hE : ∀ e, E e → F e) :
    Ends x Q F := by
  cases x with
  | error e => exact hE e h
  | ok a => exact hP a h

theorem Ends.imp (h : Ends x P E) (hPQ : ∀ a, P a → Q a) : Ends x Q E := h.mono hPQ fun _ => id

theorem Ends.weaken (h : Ends x P E) : Ends x P fun _ => True := h.mono (fun _ => id) fun _ _ => trivial

/-- Nothing is said about the failures, and nothing is used of the first result. -/
theorem Ends.skip {P : β → Prop} (h : ∀ a, Ends (f a) P fun _ => True) : Ends (x >>= f) P fun _ => True :=
  (Ends.always (fun _ => trivial) x).bind fun a _ => h a

/-- A computation that cannot fail may stand among others that can. -/
theorem Ends.total (h : Ends x P fun _ => False) : Ends x P E :=
  h.mono (fun _ hP => hP) fun _ hE => hE.elim

theorem Ends.and {F : ε → Prop} (hP : Ends x P E) (hQ : Ends x Q F) : Ends x (fun a => P a ∧ Q a) E := by
  cases x with
  | error e => exact hP
  | ok a => exact ⟨hP, hQ⟩

theorem Ends.forall {ι : Sort*} {P : ι → α → Prop} (h : ∀ i, Ends x (P i) fun _ => True) :
    Ends x (fun a => ∀ i, P i a) fun _ => True := by
  cases x with
  | error e => trivial
  | ok a => exact h

theorem Ends.result (h : Ends x P E) {a : α} (hx : x = .ok a) : P a := by
  subst hx
  exact h

theorem Ends.failure (h : Ends x P E) {e : ε} (hx : x = .error e) : E e := by
  subst hx
  exact h

theorem Ends.exists (h : Ends x P fun _ => False) : ∃ a, x = .ok a ∧ P a := by
  cases x with
  | error e => exact h.elim
  | ok a => exact ⟨a, rfl, h⟩

theorem ends_of_exists (h : ∃ a, x = .ok a ∧ P a) : Ends x P E := by
  obtain ⟨a, rfl, ha⟩ := h
  exact ha

theorem ends_mapError {ε' : Type*} {f : ε → ε'} (h : Ends x P E) :
    Ends (x.mapError f) P fun e => ∃ e', e = f e' ∧ E e' := by
  cases x with
  | ok a => exact h
  | error e => exact ⟨e, rfl, h⟩

theorem eq_ok_of_mapError {ε' : Type*} {f : ε → ε'} {a : α} (h : x.mapError f = .ok a) : x = .ok a := by
  cases x with
  | ok b => exact congrArg Except.ok (Except.ok.inj h)
  | error e => cases h

theorem Ends.bind_congr {g : α → Except ε β} (hx : Ends x P E) (h : ∀ a, P a → f a = g a) :
    x >>= f = x >>= g := by
  cases x with
  | error e => rfl
  | ok a => exact h a hx

theorem Ends.ite {c : Prop} [Decidable c] {y : Except ε α} (hx : c → Ends x P E)
    (hy : ¬ c → Ends y P E) : Ends (if c then x else y) P E := by
  split
  · exact hx ‹_›
  · exact hy ‹_›

/-- The error a computation ends with; unlike its result it can always be compared. -/
def failure : Except ε α → Option ε
  | .ok _ => none
  | .error e => some e

theorem exists_of_failure_eq_none (h : failure x = none) : ∃ a, x = .ok a := by
  cases x with
  | error e => cases h
  | ok a => exact ⟨a, rfl⟩

/-- A result with a property is found by evaluation, also where results cannot be compared. -/
instance decidableExistsOk : (x : Except ε α) → (P : α → Prop) → [DecidablePred P] →
    Decidable (∃ a, x = .ok a ∧ P a)
  | .error _, _, _ => .isFalse fun h => h.elim fun _ ha => nomatch ha.1
  | .ok a, P, _ =>
    decidable_of_iff (P a) ⟨fun h => ⟨a, rfl, h⟩, fun h => h.elim fun _ hb => Except.ok.inj hb.1 ▸ hb.2⟩

theorem exists_of_failure_bind {e : ε} (hx : failure x = none) (hf : failure (x >>= f) = some e) :
    ∃ a, x = .ok a ∧ f a = .error e := by
  obtain ⟨a, rfl⟩ := exists_of_failure_eq_none hx
  refine ⟨a, rfl, ?_⟩
  change failure (f a) = some e at hf
  cases hfa : f a with
  | error e' =>
    rw [hfa] at hf
    exact congrArg Except.error (Option.some.inj hf)
  | ok b =>
    rw [hfa] at hf
    cases hf

theorem Ends.foldlM {f : σ → ι → Except ε σ} (hf : ∀ i ∈ l, ∀ s, I s → Ends (f s i) I E) (hs : I s) :
    Ends (l.foldlM f s) I E := by
  induction l generalizing s with
  | nil => exact hs
  | cons i l ih =>
    exact (hf i List.mem_cons_self s hs).bind fun s' hs' =>
      ih (fun j hj => hf j (List.mem_cons_of_mem _ hj)) hs'

def Meets (guard : σ → ι → Prop) (step : σ → ι → Except ε σ) : σ → List ι → Prop
  | _, [] => True
  | s, i :: l => guard s i ∧ ∀ s', step s i = .ok s' → Meets guard step s' l

instance decidableForallOk : (x : Except ε α) → (P : α → Prop) → [DecidablePred P] →
    Decidable (∀ a, x = .ok a → P a)
  | .error _, _, _ => .isTrue fun _ h => nomatch h
  | .ok a, P, _ => decidable_of_iff (P a) ⟨fun h _ ha => Except.ok.inj ha ▸ h, fun h => h a rfl⟩

instance Meets.decidable (guard : σ → ι → Prop) [∀ s i, Decidable (guard s i)]
    (step : σ → ι → Except ε σ) : ∀ s l, Decidable (Meets guard step s l)
  | _, [] => .isTrue trivial
  | s, i :: l =>
    have : DecidablePred fun s' => Meets guard step s' l := fun s' => Meets.decidable guard step s' l
    inferInstanceAs (Decidable (guard s i ∧ ∀ s', step s i = .ok s' → Meets guard step s' l))

theorem meets_true (step : σ → ι → Except ε σ) (s : σ) (l : List ι) : Meets (fun _ _ => True) step s l := by
  induction l generalizing s with
  | nil => trivial
  | cons i l ih => exact ⟨trivial, fun s' _ => ih s'⟩

theorem Meets.imp {guard' : σ → ι → Prop} (hGuard : ∀ s i, I s → guard s i → guard' s i)
    (hStep : ∀ s i, I s → guard' s i → Ends (step s i) I E) (hs : I s) (hl : Meets guard step s l) :
    Meets guard' step s l := by
  induction l generalizing s with
  | nil => trivial
  | cons i l ih =>
    have hi := hGuard s i hs hl.1
    exact ⟨hi, fun s' hs' => ih ((hStep s i hs hi).result hs') (hl.2 s' hs')⟩

/-- Steps that keep an invariant under the guard keep it over every run that meets the guard. -/
theorem run_ends (hStep : ∀ s i, I s → guard s i → Ends (step s i) I E) (hs : I s) (l : List ι)
    (hl : Meets guard step s l) : Ends (l.foldlM step s) I E := by
  induction l generalizing s with
  | nil => exact hs
  | cons i l ih =>
    rw [List.foldlM_cons]
    have hFirst := hStep s i hs hl.1
    cases hi : step s i with
    | error e => exact hFirst.failure hi
    | ok s' => exact ih (hFirst.result hi) (hl.2 s' hi)

/-- If under an invariant a step has a property exactly when it meets the guard, and keeps the
invariant then, all steps of a run have the property exactly when all meet the guard. -/
theorem Meets.iff_of_inv {allowed keeps : σ → ι → Prop}
    (hKeeps : ∀ s i, I s → allowed s i → (keeps s i ↔ guard s i))
    (hStep : ∀ s i, I s → allowed s i → guard s i → Ends (step s i) I E) (hs : I s)
    (hl : Meets allowed step s l) : Meets keeps step s l ↔ Meets guard step s l := by
  induction l generalizing s with
  | nil => exact Iff.rfl
  | cons i l ih =>
    have hRest : guard s i → ∀ s', step s i = .ok s' → (Meets keeps step s' l ↔ Meets guard step s' l) :=
      fun hGuard s' hs' => ih ((hStep s i hs hl.1 hGuard).result hs') (hl.2 s' hs')
    constructor
    · rintro ⟨hFirst, hLater⟩
      have hGuard := (hKeeps s i hs hl.1).mp hFirst
      exact ⟨hGuard, fun s' hs' => (hRest hGuard s' hs').mp (hLater s' hs')⟩
    · rintro ⟨hGuard, hLater⟩
      exact ⟨(hKeeps s i hs hl.1).mpr hGuard, fun s' hs' => (hRest hGuard s' hs').mpr (hLater s' hs')⟩

theorem Meets.and_of_forall {P : ι → Prop} (hP : ∀ i ∈ l, P i) (hl : Meets guard step s l) :
    Meets (fun s i => P i ∧ guard s i) step s l := by
  induction l generalizing s with
  | nil => trivial
  | cons i l ih =>
    exact ⟨⟨hP i List.mem_cons_self, hl.1⟩, fun s' hs' =>
      ih (fun j hj => hP j (List.mem_cons_of_mem _ hj)) (hl.2 s' hs')⟩

/-- What a step does from a state of the invariant holds for the last step of every run that meets
the guard. -/
theorem last_step {R : σ → σ → Prop}
    (hStep : ∀ s i, I s → guard s i → Ends (step s i) (fun s' => I s' ∧ R s s') E) {t t' : σ}
    (hs : I s) {i : ι} (hl : Meets guard step s (l ++ [i])) (hRun : l.foldlM step s = .ok t)
    (hLast : step t i = .ok t') : R t t' := by
  induction l generalizing s with
  | nil =>
    obtain rfl : s = t := Except.ok.inj hRun
    exact ((hStep s i hs hl.1).result hLast).2
  | cons j l ih =>
    obtain ⟨s1, hj, hRest⟩ := exists_of_bind_eq_ok hRun
    exact ih ((hStep s j hs hl.1).result hj).1 (hl.2 s1 hj) hRest

end Capio.Lib.Outcome
