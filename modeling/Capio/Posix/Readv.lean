import Capio.Posix.ReadTransparency
import Capio.Posix.Seek

/-! # A read into several buffers

The loop of `capio_readv` makes one read for each buffer and goes on after a read that returned less
than its buffer takes.  The server answers each read with as many bytes as it has by then.  A buffer is
a block of memory of its own, and of what stands in it behind the bytes a read returned nothing is
known.  What each read returns is determined by the lengths, the cached bytes and the answers.
-/
namespace Capio.Posix.Readv

open Common Lib.Outcome Session Seek List

/-- A buffer, and how many bytes the server has when it is asked for those of the buffer. -/
structure Iovec where
  len : Nat
  answer : Nat

/-- A buffer after the call: its length and the bytes that were returned for it. -/
structure Part where
  len : Nat
  bytes : List Byte

def Iovec.untouched (v : Iovec) : Part := ⟨v.len, []⟩

def answering (g : Setting) (content : Fd → List Byte) (answer : Nat) : Setting :=
  { g with supply := fun fd offset => ((content fd).drop offset.toNat).take answer }

def capioRead (g : Setting) (s : Session) (fd : Fd) (count : Int) : Except Stop (Int × List Byte × Session) :=
  if (s.files fd).isNone then pure (CAPIO_POSIX_SYSCALL_REQUEST_SKIP, [], s)
  else if count ≥ SSIZE_MAX then .error .exit
  else s.capioCachedRead g fd count

def readvLoop (g : Setting) (content : Fd → List Byte) (fd : Fd) :
    List Iovec → Int → Int → Session → Except Stop (Int × List Part × Session)
  | [], _, totBytes, s => pure (totBytes, [], s)
  | v :: iov, res, totBytes, s =>
    if res < 0 then pure (totBytes, (v :: iov).map Iovec.untouched, s)
    else if v.len = 0 then do
      let (n, parts, s) ← readvLoop g content fd iov res totBytes s
      pure (n, v.untouched :: parts, s)
    else do
      let (res, bytes, s) ← capioRead (answering g content v.answer) s fd (asOff64 v.len)
      if res = -1 then pure (CAPIO_POSIX_SYSCALL_ERRNO, (v :: iov).map Iovec.untouched, s)
      else do
        let (n, parts, s) ← readvLoop g content fd iov res (totBytes + res) s
        pure (n, ⟨v.len, bytes⟩ :: parts, s)

def capioReadv (g : Setting) (content : Fd → List Byte) (s : Session) (fd : Fd) (iov : List Iovec) :
    Except Stop (Int × List Part × Session) :=
  if (s.files fd).isNone then pure (CAPIO_POSIX_SYSCALL_REQUEST_SKIP, iov.map Iovec.untouched, s)
  else readvLoop g content fd iov 0 0 s

/-- The memory of a buffer begins with the bytes that were returned for it. -/
def Part.Holds (p : Part) (memory : List Byte) : Prop := memory.length = p.len ∧ p.bytes <+: memory

instance (p : Part) (memory : List Byte) : Decidable (p.Holds memory) :=
  inferInstanceAs (Decidable (_ ∧ _))

/-- Whatever the buffers hold behind the returned bytes, together they begin with as many bytes of the
file as the call reports. -/
structure Contiguous (content : Fd → List Byte) (fd : Fd) (o : Int) (r : Int × List Part × Session) :
    Prop where
  bytes : ∃ x : List Byte, (x.length : Int) = r.1 ∧ x <+: (content fd).drop o.toNat ∧
    ∀ memory, List.Forall₂ Part.Holds r.2.1 memory → x <+: memory.flatten
  offset : r.2.2.offset fd = .ok (o + r.1)

/-- A read of the loop: the bytes that are cached when it begins and those the server sends for it. -/
structure Planned where
  len : Nat
  cached : Nat
  sent : Nat

def served (maxLineSize size o cached : Nat) (v : Iovec) : Nat :=
  if v.len ≤ cached then 0
  else min (max (v.len - cached) maxLineSize) (min v.answer (size - (o + cached)))

/-- The reads for a file of the given size, from the offset and the cached bytes before the call. -/
def planned (maxLineSize size : Nat) : (o cached : Nat) → List Iovec → List Planned
  | _, _, [] => []
  | o, cached, v :: iov =>
    let sent := served maxLineSize size o cached v
    let n := min v.len (cached + sent)
    ⟨v.len, cached, sent⟩ :: planned maxLineSize size (o + n) (cached + sent - n) iov

/-- The read is one that the cache serves right. -/
def Planned.Fits (maxLineSize : Nat) (p : Planned) : Prop :=
  (p.cached = 0 ∨ p.len ≤ p.cached + maxLineSize) ∧
    min maxLineSize p.sent ≤ INT_MAX ∧ p.sent / maxLineSize ≤ INT_MAX

instance (maxLineSize : Nat) (p : Planned) : Decidable (p.Fits maxLineSize) :=
  inferInstanceAs (Decidable (_ ∧ _))

/-- The length of a buffer and the number of bytes that its read returns. -/
def Planned.shape (p : Planned) : Nat × Nat := (p.len, min p.len (p.cached + p.sent))

def Part.shape (p : Part) : Nat × Nat := (p.len, p.bytes.length)

/-- After a read that returned less than its buffer takes, the others return nothing. -/
def Unbroken : List (Nat × Nat) → Prop
  | [] => True
  | (len, n) :: reads => n = len ∧ Unbroken reads ∨ ∀ read ∈ reads, read.2 = 0

/-- The number of bytes before the first place that no read has filled. -/
def filled : List Part → Nat
  | [] => 0
  | p :: parts => if p.bytes.length = p.len then p.len + filled parts else p.bytes.length

section

variable {parts : List Part}

def returned (parts : List Part) : List Byte := parts.flatMap Part.bytes

theorem unbroken_iff (parts : List Part) :
    Unbroken (parts.map Part.shape) ↔ (returned parts).length ≤ filled parts := by
  induction parts with
  | nil => exact iff_of_true trivial (Nat.le_refl 0)
  | cons p parts ih =>
    have hNone : (∀ read ∈ parts.map Part.shape, read.2 = 0) ↔ (returned parts).length = 0 := by
      rw [length_eq_zero_iff, returned, flatMap_eq_nil_iff, forall_mem_map]
      exact forall₂_congr fun p _ => length_eq_zero_iff
    have hCons : (returned (p :: parts)).length = p.bytes.length + (returned parts).length := length_append
    rw [map_cons, Part.shape, Unbroken, ih, hNone, hCons, filled]
    split <;> omega

theorem returned_take_filled (h : List.Forall₂ Part.Holds parts memory) :
    (returned parts).take (filled parts) <+: memory.flatten := by
  induction h with
  | nil => exact nil_prefix
  | @cons p m parts memory hp _ ih =>
    rw [returned, flatMap_cons, flatten_cons, filled]
    split
    case isTrue hFull =>
      have hm : p.bytes = m := hp.2.eq_of_length (hFull.trans hp.1.symm)
      rw [← hFull, take_append, take_of_length_le (Nat.le_add_right _ _), Nat.add_sub_cancel_left, hm]
      exact (prefix_append_right_inj m).mpr ih
    case isFalse hShort =>
      rw [take_left]
      exact hp.2.trans (prefix_append m _)

/-- The buffers with the byte `b` at every place that no read has filled. -/
def memoryWith (b : Byte) (parts : List Part) : List (List Byte) :=
  parts.map fun p => p.bytes ++ replicate (p.len - p.bytes.length) b

theorem memoryWith_holds (b : Byte) (hParts : ∀ p ∈ parts, p.bytes.length ≤ p.len) :
    List.Forall₂ Part.Holds parts (memoryWith b parts) := by
  rw [memoryWith, forall₂_map_right_iff, forall₂_same]
  intro p hp
  refine ⟨?_, prefix_append _ _⟩
  rw [length_append, length_replicate]
  exact Nat.add_sub_cancel' (hParts p hp)

theorem memoryWith_filled (b : Byte) (hParts : ∀ p ∈ parts, p.bytes.length ≤ p.len)
    (hGap : filled parts < (memoryWith b parts).flatten.length) :
    (memoryWith b parts).flatten[filled parts]? = some b := by
  induction parts with
  | nil => exact absurd hGap (Nat.lt_irrefl 0)
  | cons p parts ih =>
    have hp := hParts p mem_cons_self
    rw [memoryWith, map_cons, flatten_cons, ← memoryWith, filled] at *
    by_cases hFull : p.bytes.length = p.len
    · rw [if_pos hFull, ← hFull, Nat.sub_self, replicate_zero, append_nil] at hGap ⊢
      grind
    · rw [if_neg hFull, append_assoc, getElem?_append_right (Nat.le_refl _), Nat.sub_self,
        getElem?_append_left (by rw [length_replicate]; omega), getElem?_replicate_of_lt (by omega)]

end

section

variable {g : Setting} {content : Fd → List Byte} {s : Session} {fd : Fd} {o totBytes cached : Nat}

/-- The reads return as many bytes as was planned, those of the file from the offset on, and the offset
has moved behind them. -/
structure Fills (content : Fd → List Byte) (fd : Fd) (o totBytes : Nat) (plan : List Planned)
    (r : Int × List Part × Session) : Prop where
  shapes : r.2.1.map Part.shape = plan.map Planned.shape
  bytes : returned r.2.1 <+: (content fd).drop o
  total : r.1 = (totBytes + (returned r.2.1).length : Nat)
  offset : r.2.2.offset fd = .ok (o + (returned r.2.1).length : Nat)

theorem Fills.contiguous_iff (h : Fills content fd o 0 plan r) :
    Contiguous content fd o r ↔ Unbroken (plan.map Planned.shape) := by
  have hTotal := h.total
  rw [← h.shapes, unbroken_iff]
  have hShort : ∀ p ∈ r.2.1, p.bytes.length ≤ p.len := by
    intro p hp
    have hShape : p.shape ∈ plan.map Planned.shape := h.shapes ▸ mem_map_of_mem hp
    obtain ⟨q, -, hq⟩ := mem_map.mp hShape
    obtain ⟨hLen, hBytes⟩ := Prod.mk.inj hq
    omega
  constructor
  · rintro ⟨⟨x, hLength, -, hx⟩, -⟩
    by_contra hGap
    have hByte (b : Byte) : x[filled r.2.1]? = some b := by
      have hPrefix := hx _ (memoryWith_holds b hShort)
      have hLt : filled r.2.1 < x.length := by omega
      rw [← memoryWith_filled b hShort (hLt.trans_le hPrefix.length_le)]
      obtain ⟨rest, hRest⟩ := hPrefix
      rw [← hRest, getElem?_append_left hLt]
    exact absurd ((hByte 0).symm.trans (hByte 1)) (by decide)
  · intro hFilled
    refine ⟨⟨returned r.2.1, by omega, h.bytes, fun memory hMemory => ?_⟩, ?_⟩
    · have hMemory := returned_take_filled hMemory
      rwa [take_of_length_le hFilled] at hMemory
    · rw [h.offset, hTotal, Nat.zero_add]
      rfl

/-- The read of a buffer comes before those of the next ones. -/
theorem Fills.cons {plan : List Planned} {bytes : List Byte} {n : Int} {parts : List Part}
    (hBytes : bytes <+: (content fd).drop o) (hLength : bytes.length = p.shape.2)
    (h : Fills content fd (o + bytes.length) (totBytes + bytes.length) plan (n, parts, s)) :
    Fills content fd o totBytes (p :: plan) (n, ⟨p.len, bytes⟩ :: parts, s) := by
  have hReturned : returned (⟨p.len, bytes⟩ :: parts) = bytes ++ returned parts := flatMap_cons
  refine ⟨?_, ?_, ?_, ?_⟩
  · rw [map_cons, map_cons, h.shapes, Part.shape, hLength]
    rfl
  · obtain ⟨rest, hRest⟩ := hBytes
    grind [drop_drop, drop_left, h.bytes, prefix_append_right_inj]
  · rw [hReturned, length_append, ← Nat.add_assoc]
    exact h.total
  · rw [hReturned, length_append, ← Nat.add_assoc]
    exact h.offset

/-- Once the bytes it has written are flushed, the caches of the thread hold nothing but bytes of the
file. -/
structure Settled (g : Setting) (content : Fd → List Byte) (s : Session) : Prop where
  agrees : Agrees g.tid s
  flushed : Ends (s.flushWrite g) (Faithful g.tid content) fun _ => False

theorem flushWrite_of_flushed (h : s.write.actualSize = 0) : s.flushWrite g = .ok s := by
  have hFlush : s.write.flush = (s.write, []) := if_neg (not_not.mpr h)
  rw [flushWrite, hFlush]
  rfl

theorem settled_of_faithful (h : Faithful g.tid content s) : Settled g content s := by
  refine ⟨h.agrees, ?_⟩
  rw [flushWrite_of_flushed h.flushed]
  exact h

/-- A read flushes what was written, so it is that of a thread that has nothing to flush. -/
theorem Settled.cachedRead {E : Stop → Prop} (h : Settled g content s) {count : Int} (answer : Nat)
    (hRead : ∀ s1, Faithful g.tid content s1 → s1.files = s.files → s1.read = s.read →
      s1.offset fd = s.offset fd → Ends (s1.cachedRead (answering g content answer) fd count) P E) :
    Ends (s.cachedRead (answering g content answer) fd count) P E := by
  refine .bind (Q := fun s1 => Faithful g.tid content s1 ∧ WriteFlushed s s1)
    (h.flushed.and ((flushWrite_ends h.agrees).imp fun _ hs => hs.2)).total ?_
  rintro s1 ⟨hs1, hFlushed⟩
  have hOffset : s1.offset fd = s.offset fd := by rw [offset, offset, hFlushed.files, hFlushed.offsets]
  have hEnds := hRead s1 hs1 hFlushed.files hFlushed.read hOffset
  rw [Session.cachedRead, flushWrite_of_flushed hs1.flushed] at hEnds
  exact hEnds

theorem length_sent (g : Setting) (content : Fd → List Byte) (hOffset : s.offset fd = .ok (o : Int))
    (hCached : s.remaining fd = cached) (v : Iovec) :
    (s.sent (answering g content v.answer) fd v.len).length =
      served g.maxLineSize (content fd).length o cached v := by
  rw [sent, hOffset, hCached, served]
  dsimp only
  by_cases hLe : v.len ≤ cached
  · rw [if_pos hLe, if_pos (Int.ofNat_le.mpr hLe)]
    rfl
  · rw [if_neg hLe, if_neg (mt Int.ofNat_le.mp hLe)]
    simp only [answering, length_take, length_drop]
    omega

/-- A read of a buffer returns what is cached and sent for it. -/
theorem capioRead_settled (h : Settled g content s) (hf : s.files fd = some f) (hL : 0 < g.maxLineSize)
    (hOffset : s.offset fd = .ok (o : Int)) (hCached : s.remaining fd = cached) {v : Iovec}
    (hLen : v.len < SSIZE_MAX) {p : Planned}
    (hp : p = ⟨v.len, cached, served g.maxLineSize (content fd).length o cached v⟩)
    (hFits : p.Fits g.maxLineSize) :
    Returns (capioRead (answering g content v.answer) s fd (asOff64 v.len)) (fun r =>
      Settled g content r.2.2 ∧ r.2.2.files fd ≠ none ∧ r.1 = p.shape.2 ∧ r.2.1.length = p.shape.2 ∧
        r.2.1 <+: (content fd).drop o ∧ r.2.2.offset fd = .ok (o + p.shape.2 : Nat) ∧
        r.2.2.remaining fd = (cached + p.sent - p.shape.2 : Nat)) := by
  have hCount : asOff64 v.len = v.len := by
    unfold SSIZE_MAX at hLen
    exact Int.bmod_eq_of_le (by omega) (by omega)
  have hSent := length_sent g content hOffset hCached v
  rw [hCount, capioRead, if_neg (by rw [hf]; exact Bool.false_ne_true), if_neg (Int.not_le.mpr hLen)]
  subst hp
  refine .ite (fun _ => h.cachedRead v.answer fun s1 hs1 hFiles hRead hOffset1 => ?_) fun hNot =>
    absurd (by rw [IntSized, hSent]; exact hFits.2) hNot
  rw [hOffset] at hOffset1
  have hCached1 : s1.remaining fd = cached := by rw [← hCached, remaining, remaining, leftover, leftover, hRead]
  have hReadFits : Session.Fits g.maxLineSize s1 fd v.len :=
    ⟨Int.natCast_nonneg _, hCached1 ▸ hFits.1.imp Int.ofNat_eq_zero.mpr fun hLe => by dsimp only at hLe; omega⟩
  refine (cachedRead_gives (g := answering g content v.answer) hs1 hL (fun _ _ => take_prefix _ _)
    (hFiles ▸ hf) (Int.natCast_nonneg _)).mono ?_ fun _ hNot => hNot hReadFits
  rintro ⟨k, bytes, s2⟩ ⟨hs2, hFiles2, -, ⟨hk, hMost⟩, ⟨hTotal, hFull⟩, o', ho', hOffset', hMoved, hEnd, hBytes,
    hSize⟩
  cases hOffset1.symm.trans hOffset'
  have hSize := hSize hReadFits
  rw [hCached1, length_sent g content hOffset1 hCached1] at hTotal
  have hLeft : 0 ≤ s2.remaining fd := by
    unfold remaining
    split
    · exact hs2.agrees.caches.leftover_nonneg
    · exact Int.le_refl 0
  have hBytes : ((content fd).drop o).take k.toNat = bytes :=
    hBytes.eq_of_length (by dsimp only at *; rw [length_take, length_drop]; omega)
  dsimp only [Planned.shape] at hTotal hFull hSize hMost ⊢
  obtain rfl : k = (min v.len (cached + served g.maxLineSize (content fd).length o cached v) : Nat) := by omega
  refine ⟨settled_of_faithful hs2, ?_, rfl, by omega, ?_, hMoved, by omega⟩
  · rw [hFiles2, hFiles, hf]
    exact Option.some_ne_none f
  · exact hBytes ▸ take_prefix _ _

theorem readvLoop_fills (hL : 0 < g.maxLineSize) (iov : List Iovec) (hRes : 0 ≤ res)
    (h : Settled g content s) (hOpen : s.files fd ≠ none) (hOffset : s.offset fd = .ok (o : Int))
    (hCached : s.remaining fd = cached) (hLen : ∀ v ∈ iov, (v.len : Int) < SSIZE_MAX)
    (hFits : ∀ p ∈ planned g.maxLineSize (content fd).length o cached iov, p.Fits g.maxLineSize) :
    Returns (readvLoop g content fd iov res totBytes s)
      (Fills content fd o totBytes (planned g.maxLineSize (content fd).length o cached iov)) := by
  induction iov generalizing s o res totBytes cached with
  | nil => exact ⟨rfl, nil_prefix, rfl, hOffset⟩
  | cons v iov ih =>
    obtain ⟨hv, hLen⟩ := forall_mem_cons.mp hLen
    obtain ⟨hp, hFits⟩ := forall_mem_cons.mp hFits
    rw [readvLoop, if_neg (Int.not_lt.mpr hRes)]
    refine .ite (fun hZero => ?_) fun _ => ?_
    · have hNone : served g.maxLineSize (content fd).length o cached v = 0 := if_pos (hZero ▸ Nat.zero_le _)
      rw [hNone, hZero, Nat.zero_min, Nat.add_zero, Nat.add_zero, Nat.sub_zero] at hFits
      refine (ih hRes h hOpen hOffset hCached hLen hFits).bind ?_
      rintro ⟨n, parts, s'⟩ hFills
      rw [planned, hNone, hZero, Nat.zero_min, Nat.add_zero, Nat.add_zero, Nat.sub_zero, Iovec.untouched, hZero]
      exact Fills.cons (p := ⟨0, cached, 0⟩) nil_prefix (Nat.zero_min _).symm hFills
    · obtain ⟨f, hf⟩ := Option.ne_none_iff_exists'.mp hOpen
      refine (capioRead_settled h hf hL hOffset hCached hv rfl hp).bind ?_
      rintro ⟨k, bytes, s1⟩ ⟨hs1, hOpen1, rfl, hLength, hBytes, hMoved, hLeft⟩
      dsimp only
      rw [if_neg (by omega), ← Int.natCast_add]
      refine (ih (Int.natCast_nonneg _) hs1 hOpen1 hMoved hLeft hLen hFits).bind ?_
      rintro ⟨n, parts, s2⟩ hFills
      refine Fills.cons (p := ⟨v.len, cached, _⟩) hBytes hLength ?_
      dsimp only at hLength
      rw [hLength]
      exact hFills

end

/-- If the cache serves each read of the call right, the call returns, and the buffers begin with the
bytes of the file that it reports exactly if the reads behind a short one return nothing. -/
theorem readv_contiguous_iff {g : Setting} {content : Fd → List Byte} {s : Session} {fd : Fd}
    (hL : 0 < g.maxLineSize) (h : Settled g content s) (hOpen : s.files fd ≠ none) (iov : List Iovec)
    (hLen : ∀ v ∈ iov, (v.len : Int) < SSIZE_MAX) : ∃ o : Nat, s.offset fd = .ok (o : Int) ∧ ∀ plan,
      plan = planned g.maxLineSize (content fd).length o (s.remaining fd).toNat iov →
      (∀ p ∈ plan, p.Fits g.maxLineSize) → Returns (capioReadv g content s fd iov) (fun r =>
        r.2.1.map Part.shape = plan.map Planned.shape ∧
          (Contiguous content fd o r ↔ Unbroken (plan.map Planned.shape))) := by
  obtain ⟨f, hf⟩ := Option.ne_none_iff_exists'.mp hOpen
  obtain ⟨s1, -, hs1, -, hFlushed⟩ := (h.flushed.and (flushWrite_ends h.agrees)).exists
  obtain ⟨cell, o, hAt⟩ := hs1.agrees.at (hFlushed.files ▸ hf)
  obtain ⟨o, rfl⟩ := Int.eq_ofNat_of_zero_le (hs1.natural f.cell o hAt.clientAt)
  have hOffset : s.offset fd = .ok (o : Int) := by
    rw [← offset_eq hAt, offset, offset, hFlushed.files, hFlushed.offsets]
  have hCached : 0 ≤ s.remaining fd := by
    unfold remaining
    split
    · exact h.agrees.caches.leftover_nonneg
    · exact Int.le_refl 0
  refine ⟨o, hOffset, ?_⟩
  rintro _ rfl hFits
  rw [capioReadv, if_neg (by rw [hf]; exact Bool.false_ne_true)]
  have hLoop : Returns (readvLoop g content fd iov 0 0 s) _ := readvLoop_fills hL iov (Int.le_refl 0) h hOpen
    hOffset (Int.toNat_of_nonneg hCached).symm hLen hFits
  exact hLoop.imp fun r hr => ⟨hr.shapes, hr.contiguous_iff⟩

/-- The third buffer is not filled, and nothing comes behind it. -/
theorem contiguous_up_to_a_short_read : ∃ r,
    capioReadv shortLines letters twoOpen 3 [⟨3, 9⟩, ⟨0, 9⟩, ⟨4, 2⟩] = .ok r ∧ Contiguous letters 3 0 r := by
  obtain ⟨o, hOffset, hRead⟩ := @readv_contiguous_iff shortLines letters twoOpen 3 (by decide)
    (settled_of_faithful (idle_twoOpen.faithful letters)) (by decide +kernel) [⟨3, 9⟩, ⟨0, 9⟩, ⟨4, 2⟩] (by decide)
  obtain rfl : o = 0 := Int.ofNat.inj (Except.ok.inj (hOffset.symm.trans rfl))
  obtain ⟨r, hr, -, hContiguous⟩ := (hRead _ rfl (by decide +kernel)).exists
  exact ⟨r, hr, hContiguous.mpr (by simp +decide [Unbroken, planned, served, Planned.shape])⟩

/-- The server has two of the first four bytes and then the next four: the call reports six, but two
places of the first buffer are not filled. -/
theorem bytes_behind_a_short_read : ∃ r, capioReadv shortLines letters twoOpen 3 [⟨4, 2⟩, ⟨4, 4⟩] = .ok r ∧
    r.1 = 6 ∧ filled r.2.1 = 2 ∧ ¬ Contiguous letters 3 0 r := by
  refine ⟨_, rfl, rfl, rfl, fun hContiguous => ?_⟩
  obtain ⟨x, hLength, hFile, hx⟩ := hContiguous.bytes
  have hx := hx [[97, 98, 0, 0], [99, 100, 101, 102]] (.cons (by decide) (.cons (by decide) .nil))
  have hTake := (List.prefix_iff_eq_take.mp hFile).symm.trans (List.prefix_iff_eq_take.mp hx)
  rw [show x.length = 6 from Int.ofNat.inj hLength] at hTake
  exact absurd hTake (by decide)

end Capio.Posix.Readv
