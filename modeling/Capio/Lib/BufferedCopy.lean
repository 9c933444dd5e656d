import Capio.Lib.Outcome

/-! # A copy through a buffer

A loop that reads a chunk from a source and writes it to a sink.  A read and a write may do less than they
are asked for, and both may fail.  The rule for the loop is about a relation that says how much was read and
how much of it was written; what was read and could not be written is given back.
-/
namespace Capio.Lib.BufferedCopy

open Lib.Outcome

universe u v

variable {σ α : Type u} {ε : Type v} (read : σ → Nat → Except ε (Int × List α × σ))
  (write : σ → List α → Except ε (Int × σ)) (unread : σ → Nat → σ)

/-- Writes what is left again after a short write; gives how much was written, and a negative code if a write
failed, which is `stuck` for one that wrote nothing. -/
def writeAll (stuck : Int) : Nat → σ → List α → Except ε (Nat × Int × σ)
  | 0, s, _ => pure (0, 0, s)
  | fuel + 1, s, rest =>
    if rest.isEmpty then pure (0, 0, s)
    else do
      let (res, s) ← write s rest
      if res ≤ 0 then pure (0, if res = 0 then stuck else res, s)
      else do
        let (written, error, s) ← writeAll stuck fuel s (rest.drop res.toNat)
        pure (res.toNat + written, error, s)

/-- Copies until the count is reached, the source ends, or a read or a write fails. -/
def copyThrough (stuck : Int) (chunk : Nat) : Nat → σ → Nat → Except ε (Nat × Int × σ)
  | 0, s, _ => pure (0, 0, s)
  | fuel + 1, s, left =>
    if left = 0 then pure (0, 0, s)
    else do
      let (res, items, s) ← read s (min left chunk)
      if res = 0 then pure (0, 0, s)
      else if res < 0 then pure (0, res, s)
      else do
        let items := items.take res.toNat
        let (written, error, s) ← writeAll write stuck items.length s items
        if written < res.toNat then pure (written, error, unread s (res.toNat - written))
        else do
          let (copied, error, s) ← copyThrough stuck chunk fuel s (left - written)
          pure (written + copied, error, s)

/-- What the source and the sink do: `I i j` says that `i` items of `items` were read and `j` of them
written. -/
structure Moves (chunk : Nat) (items : List α) (I : Nat → Nat → σ → Prop) (Failed : σ → Prop)
    (Ended : Nat → Prop) (E : ε → Prop) : Prop where
  read : ∀ s k count, I k k s → k ≤ items.length → 0 < count → count ≤ chunk → Ends (read s count) (fun r =>
    r.1 < 0 ∧ I k k r.2.2 ∧ Failed r.2.2 ∨
    ∃ n : Nat, r.1 = n ∧ n ≤ count ∧ r.2.1 = (items.drop k).take n ∧ k + n ≤ items.length ∧
      I (k + n) k r.2.2 ∧ (n = 0 → Ended k)) E
  write : ∀ s i j, I i j s → j < i → i ≤ items.length →
    Ends (write s ((items.drop j).take (i - j))) (fun r =>
      r.1 ≤ 0 ∧ I i j r.2 ∧ Failed r.2 ∨ ∃ n : Nat, r.1 = n ∧ 0 < n ∧ j + n ≤ i ∧ I i (j + n) r.2) E
  unread : ∀ s i j, I i j s → j < i → I j j (unread s (i - j)) ∧ (Failed s → Failed (unread s (i - j)))

section

variable {read write unread} {chunk : Nat} {items : List α} {I : Nat → Nat → σ → Prop} {Failed : σ → Prop}
  {Ended : Nat → Prop} {E : ε → Prop} {stuck : Int}

theorem writeAll_ends (h : Moves read write unread chunk items I Failed Ended E) (hStuck : stuck < 0)
    {fuel i j : Nat} {s : σ} (hs : I i j s) (hj : j ≤ i) (hi : i ≤ items.length) (hFuel : i - j ≤ fuel) :
    Ends (writeAll write stuck fuel s ((items.drop j).take (i - j))) (fun r =>
      j + r.1 ≤ i ∧ I i (j + r.1) r.2.2 ∧ (j + r.1 < i → r.2.1 < 0 ∧ Failed r.2.2)) E := by
  have hLength : ((items.drop j).take (i - j)).length = i - j := by
    rw [List.length_take, List.length_drop]
    omega
  -- on the number of writes: each one that goes on has written something
  induction fuel generalizing j s with
  | zero =>
    refine ⟨?_, hs, fun hLt => ?_⟩
    · omega
    · omega
  | succ fuel ih =>
    refine .ite (fun hDone => ?_) fun hRest => ?_
    · rw [List.isEmpty_iff, ← List.length_eq_zero_iff, hLength] at hDone
      refine ⟨?_, hs, fun hLt => ?_⟩
      · omega
      · omega
    · have hLt : j < i := by
        rw [List.isEmpty_iff, ← List.length_eq_zero_iff, hLength] at hRest
        omega
      refine (h.write s i j hs hLt hi).bind ?_
      rintro ⟨res, s1⟩ hWrite
      dsimp only at hWrite ⊢
      rcases hWrite with ⟨hRes, hs1, hFailed⟩ | ⟨n, rfl, hn, hLe, hs1⟩
      · rw [if_pos hRes]
        refine ⟨hj, hs1, fun _ => ⟨?_, hFailed⟩⟩
        dsimp only
        split
        · exact hStuck
        · omega
      · rw [if_neg (by omega), Int.toNat_natCast, List.drop_take, List.drop_drop, Nat.sub_sub]
        refine (ih hs1 hLe (by omega) ?_).bind ?_
        · rw [List.length_take, List.length_drop]
          omega
        · simp [Nat.add_assoc]

/-- What is copied was read and written, a code tells of a failure, and the copy is short only after one or
at the end of the source. -/
theorem copyThrough_ends (h : Moves read write unread chunk items I Failed Ended E) (hStuck : stuck < 0)
    (hChunk : 0 < chunk) {fuel k left : Nat} {s : σ} (hs : I k k s) (hk : k ≤ items.length)
    (hFuel : left ≤ fuel) : Ends (copyThrough read write unread stuck chunk fuel s left) (fun r =>
      r.1 ≤ left ∧ k + r.1 ≤ items.length ∧ I (k + r.1) (k + r.1) r.2.2 ∧
        (r.2.1 < 0 → Failed r.2.2) ∧ (r.1 < left → r.2.1 < 0 ∨ Ended (k + r.1))) E := by
  induction fuel generalizing k left s with
  | zero =>
    refine ⟨Nat.zero_le _, hk, hs, fun hNeg => absurd hNeg (Int.lt_irrefl 0), fun hLt => ?_⟩
    omega
  | succ fuel ih =>
    refine .ite (fun hDone => ?_) fun hMore => ?_
    · refine ⟨Nat.zero_le _, hk, hs, fun hNeg => absurd hNeg (Int.lt_irrefl 0), fun hLt => ?_⟩
      omega
    refine (h.read s k (min left chunk) hs hk (by omega) (Nat.min_le_right _ _)).bind ?_
    rintro ⟨res, got, s1⟩ hRead
    dsimp only at hRead ⊢
    rcases hRead with ⟨hRes, hs1, hFailed⟩ | ⟨n, rfl, hn, rfl, hEnd, hs1, hEnded⟩
    · rw [if_neg (Int.ne_of_lt hRes), if_pos hRes]
      exact ⟨Nat.zero_le _, hk, hs1, fun _ => hFailed, fun _ => .inl hRes⟩
    refine .ite (fun hZero => ?_) fun hSome => ?_
    · obtain rfl : n = 0 := by omega
      exact ⟨Nat.zero_le _, hk, hs1, fun hNeg => absurd hNeg (Int.lt_irrefl 0), fun _ => .inr (hEnded rfl)⟩
    rw [if_neg (by omega), Int.toNat_natCast, List.take_take, Nat.min_self]
    have hFuel' : k + n - k ≤ ((items.drop k).take n).length := by
      rw [List.length_take, List.length_drop]
      omega
    have hWrite := writeAll_ends h hStuck hs1 (Nat.le_add_right k n) hEnd hFuel'
    rw [Nat.add_sub_cancel_left] at hWrite
    refine hWrite.bind ?_
    rintro ⟨written, error, s2⟩ ⟨hLe, hs2, hShort⟩
    refine .ite (fun hLt => ?_) fun hAll => ?_
    · obtain ⟨hError, hFailed⟩ := hShort (by omega)
      obtain ⟨hGiven, hKeeps⟩ := h.unread s2 (k + n) (k + written) hs2 (by omega)
      rw [Nat.add_sub_add_left] at hGiven hKeeps
      exact ⟨by dsimp only; omega, by dsimp only; omega, hGiven, fun _ => hKeeps hFailed,
        fun _ => .inl hError⟩
    · obtain rfl : written = n := by omega
      refine (ih hs2 (by omega) (by omega)).bind ?_
      rintro ⟨copied, error', s3⟩ ⟨hTotal, hItems, hs3, hFailed, hRest⟩
      rw [Nat.add_assoc] at hItems hs3 hRest
      refine ⟨?_, hItems, hs3, hFailed, fun hLt => hRest ?_⟩
      · omega
      · omega

end

end Capio.Lib.BufferedCopy
