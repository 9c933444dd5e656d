import Mathlib.Data.List.Basic

/-! # Streams of frames

A stream that carries transfers, each as a header and the messages that belong to it.  A reader that
is inside a frame knows the messages it still expects; behind them the stream holds whole frames.
-/
namespace Capio.Lib.Framing

open List

variable {T M α β : Type*} {header : T → M} {body : T → List M} {m m' : M} {rest stream : List M}

def frame (header : T → M) (body : T → List M) (t : T) : List M := header t :: body t

def Framed (header : T → M) (body : T → List M) (rest stream : List M) : Prop :=
  ∃ ts : List T, stream = rest ++ ts.flatMap (frame header body)

theorem framed_nil : Framed header body [] [] := ⟨[], rfl⟩

theorem Framed.append (h : Framed header body rest stream) (t : T) :
    Framed header body rest (stream ++ frame header body t) := by
  obtain ⟨ts, rfl⟩ := h
  refine ⟨ts ++ [t], ?_⟩
  rw [flatMap_append, flatMap_singleton, append_assoc]

theorem Framed.head (h : Framed header body [] (m :: stream)) :
    ∃ t, m = header t ∧ Framed header body (body t) stream := by
  obtain ⟨ts, hStream⟩ := h
  cases ts with
  | nil => cases hStream
  | cons t ts =>
    obtain ⟨rfl, rfl⟩ := cons.inj hStream
    exact ⟨t, rfl, ts, rfl⟩

theorem Framed.next (h : Framed header body (m' :: rest) (m :: stream)) :
    m = m' ∧ Framed header body rest stream := by
  obtain ⟨ts, hStream⟩ := h
  obtain ⟨rfl, rfl⟩ := cons.inj hStream
  exact ⟨rfl, ts, rfl⟩

theorem flatMap_eq_of_others {l : List α} {k : Nat} {x : α} {f : α → List β} (hk : l[k]? = some x)
    (hOthers : ∀ j y, j ≠ k → l[j]? = some y → f y = []) : l.flatMap f = f x := by
  induction l generalizing k with
  | nil => cases hk
  | cons a l ih =>
    rw [flatMap_cons]
    cases k with
    | zero =>
      cases hk
      have hRest : l.flatMap f = [] := flatMap_eq_nil_iff.mpr fun y hy => by
        obtain ⟨j, hj⟩ := mem_iff_getElem?.mp hy
        exact hOthers (j + 1) y (Nat.succ_ne_zero j) hj
      rw [hRest, append_nil]
    | succ k =>
      rw [hOthers 0 a (Nat.succ_ne_zero k).symm rfl, nil_append]
      exact ih hk fun j y hj hy => hOthers (j + 1) y (fun he => hj (Nat.succ.inj he)) hy

theorem flatMap_set_of_eq {l : List α} {k : Nat} {x y : α} {f : α → List β} (hk : l[k]? = some x)
    (hf : f y = f x) : (l.set k y).flatMap f = l.flatMap f := by
  induction l generalizing k with
  | nil => rfl
  | cons a l ih =>
    cases k with
    | zero => grind
    | succ k =>
      rw [set_cons_succ, flatMap_cons, flatMap_cons, ih hk]

end Capio.Lib.Framing
