import Capio.Storage.CopyLoop

/-! # `copy_file_range` within one file

`capio_copy_file_range` looks at both ends, refuses what the kernel would refuse, and copies on the
server if both descriptors are of CAPIO.  A range of a file is not copied onto itself: the check
compares the ranges with the size at the start, while each request looks at the size at its time.
-/
namespace Capio.Posix.CopyFileRange

open Common Lib.Outcome Lib.Segments Storage Storage.Sectors
open Storage.ByteStore Storage.CopyLoop List

def O_ACCMODE : BitVec 32 := 3

def O_RDONLY : BitVec 32 := 0

def O_WRONLY : BitVec 32 := 1

def O_RDWR : BitVec 32 := 2

def O_APPEND : BitVec 32 := 0x400

def O_PATH : BitVec 32 := 0x200000

structure CopyEnd where
  fd : Fd := -1
  offset : Option Int := none
  isCapio : Bool := false
  isOpen : Bool := false
  flags : BitVec 32 := 0
  isDir : Bool := false
  isRegular : Bool := false
  size : Int := 0
  position : Int := 0
  savedFdOffset : Int := 0

def CopyEnd.isReadable (e : CopyEnd) : Bool :=
  let mode := e.flags &&& O_ACCMODE
  e.flags &&& O_PATH == 0 && (mode == O_RDONLY || mode == O_RDWR)

def CopyEnd.isWritable (e : CopyEnd) : Bool :=
  let mode := e.flags &&& O_ACCMODE
  e.flags &&& O_PATH == 0 && (mode == O_WRONLY || mode == O_RDWR)

inductive Errno
  | EBADF
  | EINVAL
  | EISDIR
  | EOVERFLOW
  | ENOMEM
  | EIO
  /-- A code of a call of the kernel. -/
  | kernel (code : Int)
  deriving DecidableEq

def wraps (position : Int) (len : Nat) : Bool :=
  let start := (position % 18446744073709551616).toNat
  decide ((start + len) % 18446744073709551616 < start)

def refusal (copyIn copyOut : CopyEnd) (len : Nat) (flags : BitVec 32) : Option Errno :=
  if flags ≠ 0 then some .EINVAL
  else if !copyIn.isOpen then some .EBADF
  else if !copyOut.isOpen then some .EBADF
  else if copyIn.isDir || copyOut.isDir then some .EISDIR
  else if !copyIn.isRegular || !copyOut.isRegular then some .EINVAL
  else if !copyIn.isReadable then some .EBADF
  else if !copyOut.isWritable || copyOut.flags &&& O_APPEND != 0 then some .EBADF
  else if wraps copyIn.position len || wraps copyOut.position len then some .EOVERFLOW
  else if copyIn.position < 0 ∨ copyOut.position < 0 then some .EINVAL
  else none

def overlaps (copyIn copyOut : CopyEnd) (len : Nat) : Bool :=
  let overlapCount :=
    if copyIn.position ≥ copyIn.size then 0 else min (len : Int) (copyIn.size - copyIn.position)
  decide (copyOut.position + overlapCount > copyIn.position ∧
    copyOut.position < copyIn.position + overlapCount)

inductive Answer
  | failed (e : Errno)
  | copied (n : Nat)
  deriving DecidableEq

def capioMaxRwCount (pageSize : Nat) : Nat :=
  (0x7fffffff#64 &&& ~~~(BitVec.ofNat 64 pageSize - 1)).toNat

section

variable (g : CopyLoop.Setting)

def copyWithinRequest (i : Nat) (f : CapioFile) (posIn posOut count : Nat) :
    Except Halt (Nat × CapioFile) :=
  match localCopy g.firable f posIn count g.isProd with
  | .waitForCommit | .waitForData => throw .waits
  | .endOfFile | .send _ =>
    let n := f.bytesCopied posIn count
    if 0 < n then do
      let (_, f) ← (f.copyData (g.os i 0) (g.os i 1) true f posIn posOut n).mapError .server
      pure (n, f)
    else pure (0, f)

def capioCopyFileRange (pageSize : Nat) (copyIn copyOut : CopyEnd) (len : Nat) (flags : BitVec 32)
    (f : CapioFile) : Except Halt (Answer × CapioFile) :=
  match refusal copyIn copyOut len flags with
  | some e => pure (.failed e, f)
  | none =>
    if len = 0 then pure (.copied 0, f)
    else if overlaps copyIn copyOut len then pure (.failed .EINVAL, f)
    else do
      let count := min len (capioMaxRwCount pageSize)
      let (copied, f) ← copyUntil (copyWithinRequest g) count f copyIn.position.toNat
        copyOut.position.toNat count
      pure (.copied copied, f)

end

structure Usable (copyIn copyOut : CopyEnd) : Prop where
  capio : copyIn.isCapio = true ∧ copyOut.isCapio = true
  isOpen : copyIn.isOpen = true ∧ copyOut.isOpen = true
  isDir : copyIn.isDir = false ∧ copyOut.isDir = false
  isRegular : copyIn.isRegular = true ∧ copyOut.isRegular = true
  readable : copyIn.isReadable = true
  writable : copyOut.isWritable = true
  append : copyOut.flags &&& O_APPEND = 0

structure Contiguous (f : CapioFile) (S : Nat) : Prop where
  sectors : f.sectors = [(0, S)] ∨ S = 0 ∧ f.sectors = []
  represents : Represents f fun b => if b < S then f.buffer.bytes[b]? else none

structure CopiedWithin (f : CapioFile) (S posIn posOut n : Nat) (f' : CapioFile) : Prop where
  data : ∀ b, Covers f'.sectors b ↔ b < S ∨ posOut ≤ b ∧ b < posOut + n
  copied : ∀ k < n, f'.buffer.bytes[posOut + k]? = f.buffer.bytes[posIn + k]?
  others : ∀ b < S, ¬ (posOut ≤ b ∧ b < posOut + n) → f'.buffer.bytes[b]? = f.buffer.bytes[b]?

section

variable {g : CopyLoop.Setting} {f : CapioFile} {S posIn posOut count : Nat}

theorem insertSector_single (S a b : Nat) (hab : a ≤ b) : insertSector [(0, S)] a b =
    if a ≤ S then [(0, max S b)] else [(0, S), (a, b)] := by
  have hUpper : ∀ c, upperBound [(0, S)] c = 1 := fun c => by simp [upperBound, findIdx_cons]
  rcases Nat.eq_zero_or_pos a with rfl | ha
  · have hLower : lowerBound [(0, S)] 0 = 0 := by simp [lowerBound, findIdx_cons]
    have hLast : (if b < S then S else b) = max S b := by
      split <;> omega
    simp [insertSector, absorbLeft, absorbRight, hLower, hUpper, Sectors.emplace, hLast]
  · have hLower : lowerBound [(0, S)] a = 1 := by
      simp [lowerBound, findIdx_cons, Nat.pos_iff_ne_zero.mp ha]
    by_cases hS : a ≤ S
    · simp [insertSector, absorbLeft, absorbRight, hLower, hUpper, Sectors.emplace, hS, max_comm]
    · have hLast : ¬ b < S := by omega
      simp [insertSector, absorbLeft, absorbRight, hLower, hUpper, Sectors.emplace, hS, hLast]

theorem bytesCopied_contiguous (h : Contiguous f S) (posIn count : Nat) :
    f.bytesCopied posIn count = min count (S - posIn) := by
  unfold CapioFile.bytesCopied
  rcases h.sectors with hOne | ⟨rfl, hNone⟩
  · have hSep := h.represents.separated
    rw [hOne] at hSep ⊢
    by_cases hIn : posIn ≤ S
    · rw [getSectorEnd_of_mem hSep mem_cons_self (Nat.zero_le posIn) hIn]
    · have hEnd : getSectorEnd [(0, S)] posIn = none := by
        cases hEnd : getSectorEnd [(0, S)] posIn with
        | none => rfl
        | some stop =>
          obtain ⟨t, ht, -, hLe, rfl⟩ := getSectorEnd_eq_some hEnd
          rw [mem_singleton.mp ht] at hLe
          exact absurd hLe hIn
      rw [hEnd]
      dsimp only
      omega
  · rw [hNone]
    change 0 = _
    omega

theorem copyWithinRequest_ends (h : Represents f m) (hProd : g.isProd = true) (i : Nat) :
    Ends (copyWithinRequest g i f posIn posOut count) (fun r => r.1 = f.bytesCopied posIn count ∧
      (r.1 = 0 → r.2 = f) ∧ (r.1 ≠ 0 → ∃ bytes, ByteStore.Copied m posIn r.1 bytes ∧
        Represents r.2 (m.put posOut bytes) ∧
        r.2.sectors = insertSector f.sectors posOut (posOut + r.1))) Refuses := by
  have hServed : localCopy g.firable f posIn count g.isProd = .send (f.bytesCopied posIn count) := by
    unfold localCopy
    simp [hProd]
  unfold copyWithinRequest
  rw [hServed]
  refine .ite (fun hPos => ?_) fun hNone => ?_
  · have hSame : true = true → f = f ∧ m = m := fun _ => ⟨rfl, rfl⟩
    have hCopy := (copyData_represents (g.os i 0) (g.os i 1) h h hSame posOut hPos).and
      (CapioFile.copyData_rebuffers (g.os i 0) (g.os i 1) true f f posIn posOut _)
    refine ((ends_mapError hCopy).mono (fun _ => id) fun _ => Refused.refuses).bind ?_
    rintro ⟨bytes, f'⟩ ⟨⟨hCopied, hRepresents, -⟩, f1, ⟨_, _, rfl⟩, hEq⟩
    refine ⟨rfl, fun hZero => absurd hZero hPos.ne', fun _ => ⟨bytes, hCopied, hRepresents, ?_⟩⟩
    rw [hEq]
    rfl
  · exact ⟨(Nat.eq_zero_of_not_pos hNone).symm, fun _ => rfl, fun hNe => absurd rfl hNe⟩

theorem copyUntil_represents (hProd : g.isProd = true) (fuel : Nat) (h : Represents f m) :
    Ends (copyUntil (copyWithinRequest g) fuel f posIn posOut count) (fun r => ∃ m', Represents r.2 m')
      Refuses := by
  induction fuel generalizing f m posIn posOut count with
  | zero => exact ⟨m, h⟩
  | succ fuel ih =>
    refine .ite (fun _ => ⟨m, h⟩) fun _ => ?_
    refine (copyWithinRequest_ends h hProd fuel).bind ?_
    rintro ⟨n, f1⟩ ⟨-, hStay, hMove⟩
    dsimp only at hStay hMove ⊢
    refine .ite (fun hZero => ?_) fun hNe => ?_
    · rw [hStay hZero]
      exact ⟨m, h⟩
    · obtain ⟨bytes, -, hRepresents, -⟩ := hMove hNe
      exact (ih hRepresents).bind fun r hr => hr

theorem copyUntil_pos (hProd : g.isProd = true) (h : Represents f m) (hFuel : 0 < fuel)
    (hPos : 0 < f.bytesCopied posIn count) :
    Ends (copyUntil (copyWithinRequest g) fuel f posIn posOut count) (fun r => 0 < r.1) Refuses := by
  obtain ⟨k, rfl⟩ := Nat.exists_eq_succ_of_ne_zero hFuel.ne'
  have hSome : count ≠ 0 := by grind [bytesCopied_zero]
  unfold copyUntil
  rw [if_neg hSome]
  refine (copyWithinRequest_ends h hProd k).bind ?_
  rintro ⟨n, f1⟩ ⟨hn, -, hMove⟩
  dsimp only at hn hMove ⊢
  have hNe : n ≠ 0 := by omega
  obtain ⟨bytes, -, hRepresents, -⟩ := hMove hNe
  rw [if_neg hNe]
  refine (copyUntil_represents hProd k hRepresents).bind fun r _ => ?_
  change 0 < n + r.1
  omega

section

variable (h : Contiguous f S)
include h

theorem Contiguous.byte (hb : b < S) : ∃ v, f.buffer.bytes[b]? = some v := by
  have hOne : f.sectors = [(0, S)] := h.sectors.resolve_right (by omega)
  have hFits : S ≤ f.getBufSize := h.represents.fits (0, S) (hOne ▸ mem_cons_self)
  have hLen : f.buffer.bytes.length = f.getBufSize := h.represents.sized.length_bytes
  exact ⟨_, getElem?_eq_getElem (by omega)⟩

theorem covers_contiguous (b : Nat) : Covers f.sectors b ↔ b < S := by
  rcases h.sectors with hOne | ⟨rfl, hNone⟩
  · rw [hOne]
    simp [Covers]
  · rw [hNone]
    simp [Covers]

theorem copiedWithin_nothing : CopiedWithin f S posIn posOut 0 f where
  data b := by
    rw [covers_contiguous h]
    omega
  copied k hk := absurd hk k.not_lt_zero
  others _ _ _ := rfl

theorem copiedWithin_put (hIn : posIn + n ≤ S) (hSome : n ≠ 0)
    (hCopied : ByteStore.Copied (fun b => if b < S then f.buffer.bytes[b]? else none) posIn n bytes)
    (hRepresents : Represents f'
      (SparseMap.put (fun b => if b < S then f.buffer.bytes[b]? else none) posOut bytes))
    (hSectors : f'.sectors = insertSector f.sectors posOut (posOut + n)) :
    CopiedWithin f S posIn posOut n f' := by
  obtain ⟨hLen, hBytes⟩ := hCopied
  have hOne : f.sectors = [(0, S)] := h.sectors.resolve_right (by omega)
  refine ⟨fun b => ?_, fun k hk => ?_, fun b hb hOut => ?_⟩
  · rw [hSectors, hOne, insertSector_single S _ _ (by omega)]
    by_cases hReach : posOut ≤ S
    · rw [if_pos hReach]
      simp [Covers]
      omega
    · rw [if_neg hReach]
      simp [Covers]
  · obtain ⟨v, hv⟩ := h.byte (show posIn + k < S by omega)
    have hByte : bytes[k]? = some v := hBytes k hk v ((if_pos (by omega)).trans hv)
    rw [hv]
    refine hRepresents.agrees _ v ((if_pos (by omega)).trans ?_)
    rwa [Nat.add_sub_cancel_left]
  · obtain ⟨v, hv⟩ := h.byte hb
    rw [hv]
    refine hRepresents.agrees b v ((if_neg (by omega)).trans ?_)
    exact (if_pos hb).trans hv

theorem copyWithinRequest_contiguous (hProd : g.isProd = true) (i : Nat) :
    Ends (copyWithinRequest g i f posIn posOut count) (fun r => r.1 = min count (S - posIn) ∧
      CopiedWithin f S posIn posOut r.1 r.2 ∧ (∃ m, Represents r.2 m) ∧
      (r.1 ≠ 0 → r.2.sectors = insertSector [(0, S)] posOut (posOut + r.1))) Refuses := by
  refine (copyWithinRequest_ends h.represents hProd i).imp ?_
  rintro ⟨n, f'⟩ ⟨hn, hStay, hMove⟩
  rw [bytesCopied_contiguous h] at hn
  refine ⟨hn, ?_⟩
  rcases Nat.eq_zero_or_pos n with rfl | hPos
  · rw [hStay rfl]
    exact ⟨copiedWithin_nothing h, ⟨_, h.represents⟩, fun hNe => absurd rfl hNe⟩
  · obtain ⟨bytes, hCopied, hRepresents, hSectors⟩ := hMove hPos.ne'
    have hOne : f.sectors = [(0, S)] := h.sectors.resolve_right (by omega)
    refine ⟨copiedWithin_put h (by omega) hPos.ne' hCopied hRepresents hSectors, ⟨_, hRepresents⟩, ?_⟩
    intro _
    rw [hSectors, hOne]

end

theorem bytesCopied_behind (h' : Represents f' m) (hIn : posIn + n ≤ S)
    (hSectors : f'.sectors = insertSector [(0, S)] posOut (posOut + n)) : f'.bytesCopied (posIn + n) count =
      min count ((if posOut ≤ S then max S (posOut + n) else S) - (posIn + n)) := by
  have hFirst : (0, if posOut ≤ S then max S (posOut + n) else S) ∈ f'.sectors := by
    rw [hSectors, insertSector_single S _ _ (Nat.le_add_right posOut n)]
    split <;> exact mem_cons_self
  unfold CapioFile.bytesCopied
  rw [getSectorEnd_of_mem h'.separated hFirst (Nat.zero_le _) ?_]
  split <;> omega

/-- The output starts where the data end, and the input ends before the copy does. -/
def ReadsBack (S posIn posOut count : Nat) : Prop :=
  posOut = S ∧ posIn < S ∧ S - posIn < count

instance : Decidable (ReadsBack S posIn posOut count) :=
  inferInstanceAs (Decidable (posOut = S ∧ posIn < S ∧ S - posIn < count))

theorem copyUntil_nothing (hProd : g.isProd = true) (fuel : Nat) (hNone : f.bytesCopied posIn count = 0) :
    copyUntil (copyWithinRequest g) fuel f posIn posOut count = .ok (0, f) := by
  cases fuel with
  | zero => rfl
  | succ fuel =>
    have hRequest : copyWithinRequest g fuel f posIn posOut count = .ok (0, f) := by
      unfold copyWithinRequest localCopy
      simp [hProd, hNone]
      rfl
    unfold copyUntil
    rw [hRequest]
    split <;> rfl

theorem copyUntil_within (h : Contiguous f S) (hProd : g.isProd = true)
    (hApart : posOut + min count (S - posIn) ≤ posIn ∨ posIn + min count (S - posIn) ≤ posOut) :
    Ends (copyUntil (copyWithinRequest g) count f posIn posOut count) (fun r =>
      if ReadsBack S posIn posOut count then min count (S - posIn) < r.1
      else r.1 = min count (S - posIn) ∧ CopiedWithin f S posIn posOut r.1 r.2) Refuses := by
  cases count with
  | zero =>
    exact (if_neg fun hBack => Nat.not_lt_zero _ hBack.2.2).mpr
      ⟨(Nat.zero_min _).symm, copiedWithin_nothing h⟩
  | succ k =>
    unfold copyUntil
    refine (copyWithinRequest_contiguous h hProd k).bind ?_
    rintro ⟨n, f1⟩ ⟨hn, hCopied, ⟨m, hRepresents⟩, hSectors⟩
    dsimp only at hn hCopied hRepresents hSectors ⊢
    by_cases hBack : ReadsBack S posIn posOut (k + 1)
    · -- the second request finds the bytes the first one wrote
      obtain ⟨rfl, hBefore, hLonger⟩ := id hBack
      have hSome : n ≠ 0 := by omega
      have hMore : 0 < f1.bytesCopied (posIn + n) (k + 1 - n) := by
        rw [bytesCopied_behind hRepresents (by omega) (hSectors hSome), if_pos le_rfl]
        omega
      rw [if_neg hSome]
      refine (copyUntil_pos hProd hRepresents (by omega) hMore).bind fun r hr => (if_pos hBack).mpr ?_
      omega
    · refine .ite (fun hZero => (if_neg hBack).mpr ?_) fun hSome => ?_
      · subst hZero
        exact ⟨hn, hCopied⟩
      · have hNone : f1.bytesCopied (posIn + n) (k + 1 - n) = 0 := by
          rw [bytesCopied_behind hRepresents (by omega) (hSectors hSome)]
          unfold ReadsBack at hBack
          split <;> omega
        rw [copyUntil_nothing hProd k hNone]
        exact (if_neg hBack).mpr ⟨hn, hCopied⟩

end

theorem wraps_iff {position len : Nat} (hPosition : position < 2 ^ 63) (hLen : len < 2 ^ 64) :
    wraps position len = true ↔ 2 ^ 64 ≤ position + len := by
  unfold wraps
  rw [decide_eq_true_iff]
  omega

theorem overlaps_iff {copyIn copyOut : CopyEnd} {S posIn posOut : Nat} (hSize : copyIn.size = S)
    (hIn : copyIn.position = posIn) (hOut : copyOut.position = posOut) (len : Nat) :
    overlaps copyIn copyOut len = true ↔
      posIn < posOut + min len (S - posIn) ∧ posOut < posIn + min len (S - posIn) := by
  unfold overlaps
  rw [hSize, hIn, hOut]
  simp only [decide_eq_true_iff]
  split <;> omega

theorem refusal_eq {copyIn copyOut : CopyEnd} {posIn posOut : Nat} (hUsable : Usable copyIn copyOut)
    (hIn : copyIn.position = posIn) (hOut : copyOut.position = posOut) (len : Nat) :
    refusal copyIn copyOut len 0 =
      if wraps posIn len || wraps posOut len then some .EOVERFLOW else none := by
  obtain ⟨_, ⟨hOpenIn, hOpenOut⟩, ⟨hDirIn, hDirOut⟩, ⟨hRegIn, hRegOut⟩, hReadable, hWritable,
    hAppend⟩ := hUsable
  grind [refusal]

def CopiesWhatWasThere (f : CapioFile) (S posIn posOut limit : Nat) (r : Answer × CapioFile) : Prop :=
  r.1 = .copied (min limit (S - posIn)) ∧ CopiedWithin f S posIn posOut (min limit (S - posIn)) r.2

theorem copies_within_iff (g : CopyLoop.Setting) (hProd : g.isProd = true) {f : CapioFile} {S : Nat}
    (h : Contiguous f S) {copyIn copyOut : CopyEnd} (hUsable : Usable copyIn copyOut)
    (hSize : copyIn.size = S) {posIn posOut : Nat} (hIn : copyIn.position = posIn)
    (hOut : copyOut.position = posOut) (hInMax : posIn < 2 ^ 63) (hOutMax : posOut < 2 ^ 63)
    (pageSize : Nat) {len : Nat} (hLen : len < 2 ^ 64)
    (hApart : ¬ (refusal copyIn copyOut len 0 = none ∧ overlaps copyIn copyOut len = true)) :
    Ends (capioCopyFileRange g pageSize copyIn copyOut len 0 f) (fun r =>
      CopiesWhatWasThere f S posIn posOut (min len (capioMaxRwCount pageSize)) r ↔
        posIn + len < 2 ^ 64 ∧ posOut + len < 2 ^ 64 ∧
          ¬ ReadsBack S posIn posOut (min len (capioMaxRwCount pageSize))) Refuses := by
  have hRefusal := refusal_eq hUsable hIn hOut len
  have hWrapsIff : (wraps posIn len || wraps posOut len) = true ↔
      ¬ (posIn + len < 2 ^ 64 ∧ posOut + len < 2 ^ 64) := by
    rw [Bool.or_eq_true, wraps_iff hInMax hLen, wraps_iff hOutMax hLen]
    omega
  unfold capioCopyFileRange
  by_cases hWraps : (wraps posIn len || wraps posOut len) = true
  · rw [hRefusal, if_pos hWraps]
    refine Ends.total ⟨fun hCopies => ?_, fun hRight => ?_⟩
    · exact absurd hCopies.1 nofun
    · exact absurd ⟨hRight.1, hRight.2.1⟩ (hWrapsIff.mp hWraps)
  · have hFits : posIn + len < 2 ^ 64 ∧ posOut + len < 2 ^ 64 := not_not.mp (hWrapsIff.not.mp hWraps)
    rw [if_neg hWraps] at hRefusal
    have hSeparate : ¬ overlaps copyIn copyOut len = true := fun hOverlaps =>
      hApart ⟨hRefusal, hOverlaps⟩
    rw [hRefusal]
    refine Ends.ite (fun hZero => ?_) fun hSome => ?_
    · subst hZero
      have hNot : ¬ ReadsBack S posIn posOut (min 0 (capioMaxRwCount pageSize)) := by
        exact fun hBack => Nat.not_lt_zero _ hBack.2.2
      refine Ends.total ⟨fun _ => ⟨hFits.1, hFits.2, hNot⟩, fun _ => ?_⟩
      unfold CopiesWhatWasThere
      exact ⟨rfl, copiedWithin_nothing h⟩
    · rw [if_neg hSeparate]
      rw [overlaps_iff hSize hIn hOut] at hSeparate
      rw [hIn, hOut, Int.toNat_natCast, Int.toNat_natCast]
      refine (copyUntil_within h hProd (by omega)).bind fun r hr => ?_
      refine Ends.total ⟨fun hCopies => ⟨hFits.1, hFits.2, fun hBack => ?_⟩, fun hRight => ?_⟩
      · rw [if_pos hBack] at hr
        exact absurd (Answer.copied.inj hCopies.1) hr.ne'
      · rw [if_neg hRight.2.2] at hr
        refine ⟨congrArg Answer.copied hr.1, ?_⟩
        rw [← hr.1]
        exact hr.2

def threeBytesFile : CapioFile :=
  (threeBytes []).src

def producing : CopyLoop.Setting := ⟨false, true, fun _ _ => Os.plain 64⟩

def endAt (position : Int) : CopyEnd where
  fd := 3
  isCapio := true
  isOpen := true
  flags := O_RDWR
  isRegular := true
  size := 3
  position := position

theorem contiguous_threeBytesFile : Contiguous threeBytesFile 3 := by
  refine ⟨Or.inl rfl, ⟨by decide, by decide⟩, rfl, by decide, fun b v hb => ?_, fun b v hb => ?_⟩
  · split at hb
    · next hLt => exact ⟨(0, 3), mem_cons_self, Nat.zero_le b, hLt⟩
    · cases hb
  · split at hb
    · exact hb
    · cases hb

theorem usable_endAt : Usable (endAt 1) (endAt 3) :=
  ⟨⟨rfl, rfl⟩, ⟨rfl, rfl⟩, ⟨rfl, rfl⟩, ⟨rfl, rfl⟩, by decide, by decide, by decide⟩

/-- Two bytes are copied to the end of the file. -/
theorem copies_within_at_end :
    ∃ r, capioCopyFileRange producing 4096 (endAt 1) (endAt 3) 2 0 threeBytesFile = .ok r ∧
      CopiesWhatWasThere threeBytesFile 3 1 3 2 r := by
  obtain ⟨r, hr⟩ : ∃ r, capioCopyFileRange producing 4096 (endAt 1) (endAt 3) 2 0 threeBytesFile =
    .ok r := ⟨_, rfl⟩
  have hIff := copies_within_iff producing rfl contiguous_threeBytesFile usable_endAt rfl rfl rfl
    (by decide) (by decide) 4096 (show 2 < 2 ^ 64 by decide) (by decide)
  exact ⟨r, hr, (hIff.result hr).mpr (by decide)⟩

/-- Four bytes are asked for: the two bytes that the call has written are copied again. -/
theorem copy_reads_back : overlaps (endAt 1) (endAt 3) 4 = false ∧
      ((capioCopyFileRange producing 4096 (endAt 1) (endAt 3) 4 0 threeBytesFile).toOption.map fun r =>
        (r.1, r.2.sectors, r.2.buffer.bytes.take 7)) =
      some (.copied 4, [(0, 7)], [1, 2, 3, 2, 3, 2, 3]) := by
  decide +kernel

end Capio.Posix.CopyFileRange
