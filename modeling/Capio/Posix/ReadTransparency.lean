import Capio.Posix.Offsets

/-! # The read cache is transparent

A server that sends the bytes of a file from its offset on, and a thread that only reads and seeks.
A call gives the bytes at the offset of the client as long as no bytes are left in the cache when
the rest of the request is longer than a line.
-/
namespace Capio.Posix

open Common Lib.Memory Lib.Outcome Lib.Pieces List

variable {o count : Int}

def Setting.serving (g : Setting) (content : Fd → List Byte) : Setting :=
  { g with supply := fun fd offset => (content fd).drop offset.toNat }

/-- A server sends nothing but the bytes of the files, as far as it has them. -/
def Setting.Truthful (g : Setting) (content : Fd → List Byte) : Prop :=
  ∀ fd offset, g.supply fd offset <+: (content fd).drop offset.toNat

namespace Session

structure Caching (s : Session) (x : List Byte) : Prop where
  start : 0 ≤ s.read.cacheOffset
  length : s.leftover ≤ x.length
  bytes : (s.read.cache.drop s.read.cacheOffset.toNat).take s.leftover.toNat = x.take s.leftover.toNat

theorem takeElements_splitLengths (stale : Nat → Byte) (rest : List (List Byte)) (h : ns.sum ≤ data.length) :
    takeElements stale ns (ns.splitLengths data ++ rest) = some (data.take ns.sum, rest) := by
  induction ns generalizing data with
  | nil => simp [takeElements]
  | cons n ns ih =>
    rw [sum_cons] at h
    have hRest : ns.sum ≤ (data.drop n).length := by
      rw [length_drop]
      omega
    have hFirst : (data.take n ++ fresh stale n).take n = data.take n := by grind
    rw [splitLengths_cons, cons_append, takeElements, ih hRest, Option.map_some, hFirst, sum_cons,
      take_add]

theorem takeElements_pieces (stale : Nat → Byte) (size : Nat) (data : List Byte) :
    takeElements stale (sizes size data.length) (pieces size data) = some (data, []) := by
  have h := takeElements_splitLengths stale [] (Nat.le_of_eq (sum_sizes size data.length))
  rwa [append_nil, sum_sizes, take_length] at h

/-- A reader that asks for more than was sent gets all of it, and junk behind it. -/
theorem takeElements_overrun {size : Nat} (hSize : 0 < size) {data bytes : List Byte} {m : Nat}
    {queue : List (List Byte)} (hm : data.length ≤ m)
    (h : takeElements stale (sizes size m) (pieces size data) = some (bytes, queue)) :
    data <+: bytes ∧ queue = [] := by
  induction hn : data.length using Nat.strong_induction_on generalizing data bytes m queue with
  | h n ih =>
    by_cases hData : data = []
    · subst hData
      rw [pieces_nil] at h
      cases hSizes : sizes size m with
      | nil =>
        rw [hSizes] at h
        cases h
        exact ⟨prefix_refl _, rfl⟩
      | cons k ks =>
        rw [hSizes] at h
        cases h
    · have hPos := length_pos_iff.mpr hData
      rw [pieces_cons hSize hData] at h
      by_cases hLine : m ≤ size
      · rw [sizes_of_le hSize (by omega) hLine, drop_of_length_le (by omega), pieces_nil,
          take_of_length_le (by omega)] at h
        cases h
        grind
      · obtain ⟨k, rfl⟩ := Nat.exists_eq_add_of_le (Nat.le_of_not_le hLine)
        rw [sizes_add hSize] at h
        obtain ⟨⟨more, rest⟩, hMore, hEq⟩ := Option.map_eq_some_iff.mp h
        cases hEq
        have hRest := ih (data.drop size).length (by rw [length_drop]; omega)
          (by rw [length_drop]; omega) hMore rfl
        refine ⟨?_, hRest.2⟩
        by_cases hFull : size ≤ data.length
        · rw [take_append_of_le_length (by rw [length_take]; omega), take_take, Nat.min_self]
          nth_rewrite 1 [← take_append_drop size data]
          exact (prefix_append_right_inj _).mpr hRest.1
        · rw [take_of_length_le (by omega : data.length ≤ size), take_append,
            take_of_length_le (by omega), append_assoc]
          exact prefix_append data _

theorem length_takeElements {ns : List Nat} {queue queue' : List (List Byte)} {bytes : List Byte}
    (h : takeElements stale ns queue = some (bytes, queue')) : bytes.length = ns.sum := by
  induction ns generalizing queue queue' bytes with
  | nil =>
    cases h
    rfl
  | cons n ns ih =>
    cases queue with
    | nil => cases h
    | cons element queue =>
      obtain ⟨⟨bytes1, queue1⟩, h1, h2⟩ := Option.map_eq_some_iff.mp h
      cases h2
      rw [length_append, ih h1, sum_cons, length_take, length_append, length_fresh]
      omega

section

variable {g : Setting} {content : Fd → List Byte} {s s' : Session} {fd : Fd} {f : File} {cell : Nat}
    {x : List Byte}

theorem caching_of_leftover (hStart : 0 ≤ s.read.cacheOffset) (h : s.leftover = 0) (x : List Byte) :
    Caching s x := by
  refine ⟨hStart, by omega, ?_⟩
  rw [h, Int.toNat_zero, take_zero, take_zero]

theorem leftover_copyCached (s : Session) (hk : 0 ≤ k) :
    (s.copyCached g k).2.leftover = s.leftover - k := by
  rw [copyCached_state s hk]
  exact (Int.sub_sub ..).symm

theorem copyCached_bytes (h : Caching s x) (hk : 0 ≤ k) (hLe : k ≤ s.leftover) :
    (s.copyCached g k).1 = x.take k.toNat ∧ Caching (s.copyCached g k).2 (x.drop k.toNat) := by
  obtain ⟨hStart, hLength, hBytes⟩ := h
  set c := s.read.cache.drop s.read.cacheOffset.toNat with hc
  have hLong : s.leftover.toNat ≤ c.length := by grind [length_take]
  have hFront : c.take k.toNat = x.take k.toNat := by
    have hTake := congrArg (take k.toNat) hBytes
    rwa [take_take, take_take, Nat.min_eq_left (by omega)] at hTake
  refine ⟨?_, ?_⟩
  · unfold copyCached
    split
    · grind
    · rw [show k = 0 by omega]
      rfl
  · have hLeft := leftover_copyCached (g := g) s hk
    rw [copyCached_state s hk] at hLeft ⊢
    refine ⟨Int.add_nonneg hStart hk, ?_, ?_⟩
    · rw [hLeft, length_drop]
      omega
    · rw [hLeft, show (s.leftover - k).toNat = s.leftover.toNat - k.toNat by omega]
      rw [Int.toNat_add hStart hk, ← drop_drop, ← hc, ← drop_take, ← drop_take, hBytes]

/-- What a read gives, up to the move of the offset: `n` bytes, of which the first were cached; behind
them may be others unless it is `exact`. What was `available` and is not given stays in the cache. -/
structure Gives (exact : Prop) (available : Int) (x : List Byte) (remaining count : Int)
    (r : Int × List Byte × Session) : Prop where
  least : remaining ≤ r.1
  most : r.1 ≤ count
  length : r.1 ≤ x.length
  bytes : (x.drop remaining.toNat).take (r.1 - remaining).toNat <+: r.2.1
  size : exact → (r.2.1.length : Int) = r.1 - remaining
  caching : Caching r.2.2 (x.drop r.1.toNat)
  queue : r.2.2.queue = []
  total : r.1 + r.2.2.leftover = available
  full : r.1 < count → r.2.2.leftover = 0

theorem readRequest_sends {offset : Int} (hAt : At g.tid s fd f cell o offset) (hQueue : s.queue = [])
    (k : Int) :
    ∃ s1, s1.read = s.read ∧ s1.queue = pieces g.maxLineSize ((g.supply fd offset).take k.toNat) ∧
      s.readRequest g fd k = .ok (offset + ((g.supply fd offset).take k.toNat).length, s1) := by
  have hSend := sendData_eq hAt fun offset => (g.supply fd offset).take k.toNat
  rw [hQueue, nil_append] at hSend
  refine ⟨_, ?_, ?_, hSend⟩
  · rfl
  · rfl

theorem fetch_caching (hL : 0 < g.maxLineSize) (hLine : data.length ≤ g.maxLineSize)
    (hData : data = x.take data.length) (hQueue : s.queue = pieces g.maxLineSize data)
    (hSize : s.read.actualSize = data.length) (hStart : s.read.cacheOffset = 0) :
    Returns (if (data.length : Int) > 0 then s.fetch else pure s)
      (fun s' => s'.leftover = data.length ∧ Caching s' x ∧ s'.queue = []) := by
  have hLeft : s.read.actualSize - s.read.cacheOffset = data.length := by omega
  refine .ite (fun hSome => ?_) fun hNone => ?_
  · have hElement : pieces g.maxLineSize data = [data] :=
      pieces_of_le hL (length_pos_iff.mp (by omega)) hLine
    unfold fetch
    rw [hQueue, hElement]
    refine ⟨hLeft, ⟨hStart.ge, ?_, ?_⟩, rfl⟩
    · change s.read.actualSize - s.read.cacheOffset ≤ _
      grind
    · change (data.drop s.read.cacheOffset.toNat).take (s.read.actualSize - s.read.cacheOffset).toNat =
        x.take (s.read.actualSize - s.read.cacheOffset).toNat
      rw [hLeft, hStart, Int.toNat_zero, Int.toNat_natCast, drop_zero, take_length]
      exact hData
  · have hEmpty : data = [] := length_eq_zero_iff.mp (by omega)
    have hZero : s.leftover = 0 := hLeft.trans (by rw [hEmpty]; rfl)
    refine ⟨hLeft, caching_of_leftover hStart.ge hZero x, ?_⟩
    rw [hQueue, hEmpty, pieces_nil]

theorem copyCached_gives {exact : Prop} {remaining k n : Int}
    (hCaching : Caching s (x.drop remaining.toNat)) (hQueue : s.queue = []) (hRemaining : 0 ≤ remaining)
    (hLength : remaining ≤ x.length) (hk : 0 ≤ k) (hLe : k ≤ s.leftover) (hn : n = remaining + k)
    (hMost : n ≤ count) (hFull : n < count → k = s.leftover) :
    Gives exact (remaining + s.leftover) x remaining count (n, s.copyCached g k) := by
  have hLeft := leftover_copyCached (g := g) s hk
  obtain ⟨hBytes, hRest⟩ := copyCached_bytes (g := g) hCaching hk hLe
  have hCached := hCaching.length
  rw [length_drop] at hCached
  subst hn
  refine ⟨?_, hMost, ?_, ?_, fun _ => ?_, ?_, ?_, ?_, fun hLt => ?_⟩
  all_goals dsimp only
  · omega
  · omega
  · rw [hBytes, show remaining + k - remaining = k by omega]
  · rw [hBytes, length_take, length_drop]
    omega
  · rwa [drop_drop, ← Int.toNat_add hRemaining hk] at hRest
  · rw [copyCached_state s hk]
    exact hQueue
  · omega
  · have := hFull hLt
    omega

theorem readMore_gives (hL : 0 < g.maxLineSize)
    (hSupply : g.supply fd (o + remaining) <+: x.drop remaining.toNat)
    (hAt : At g.tid s fd f cell o (o + remaining)) (hStart : 0 ≤ s.read.cacheOffset)
    (hLeftover : s.leftover = 0) (hQueue : s.queue = []) (hRemaining : 0 ≤ remaining)
    (hLe : remaining ≤ x.length) (hMore : remaining < count) :
    Ends (s.readMore g fd o remaining count false)
      (Gives (remaining = 0 ∨ count - remaining ≤ g.maxLineSize) (remaining + ((g.supply fd (o + remaining)).take
        (max (count - remaining) g.maxLineSize).toNat).length) x remaining count)
      fun _ => ¬ (remaining = 0 ∨ count - remaining ≤ g.maxLineSize) := by
  have hSent := readRequest_sends hAt hQueue
  refine .ite (fun hLong => ?_) fun hShort => ?_
  · -- the request is for exactly the rest, and the queue is asked for what was cached as well
    rw [max_eq_left (by grind)]
    obtain ⟨s1, hRead, hQueue1, hSent⟩ := hSent (count - remaining)
    have hTake := take_prefix (count - remaining).toNat (g.supply fd (o + remaining))
    have hData := hTake.trans hSupply
    have hSize := length_take_le (count - remaining).toNat (g.supply fd (o + remaining))
    generalize (g.supply fd (o + remaining)).take (count - remaining).toNat = data at *
    have hDataLength := hData.length_le
    rw [length_drop] at hDataLength
    rw [if_neg Bool.false_ne_true, hSent, ends_ok_bind]
    dsimp only
    rw [show o + remaining + (data.length : Int) - o = ((remaining.toNat + data.length : Nat) : Int) by omega,
      readQueue, Int.toNat_natCast, hQueue1]
    cases hTake : takeElements g.stale (sizes g.maxLineSize (remaining.toNat + data.length))
        (pieces g.maxLineSize data) with
    | none =>
      intro hExact
      have hZero : remaining.toNat = 0 := by grind
      rw [hZero, Nat.zero_add, takeElements_pieces] at hTake
      cases hTake
    | some r =>
      obtain ⟨hBytes, hEmpty⟩ := takeElements_overrun hL (Nat.le_add_left _ _) hTake
      have hLength := length_takeElements hTake
      rw [sum_sizes] at hLength
      have hSame : leftover { s1 with queue := r.2 } = 0 := by
        rw [← hLeftover, leftover, leftover, hRead]
      refine ⟨?_, ?_, ?_, ?_, fun hExact => ?_, ?_, hEmpty, ?_, fun _ => hSame⟩
      all_goals dsimp only
      · omega
      · omega
      · omega
      · rw [show ((remaining.toNat + data.length : Nat) - remaining : Int).toNat = data.length by omega,
          ← prefix_iff_eq_take.mp hData]
        exact hBytes
      · rw [hLength]
        grind
      · exact caching_of_leftover (hRead ▸ hStart) hSame _
      · omega
  · rw [max_eq_right (by grind)]
    obtain ⟨s1, -, hQueue1, hSent⟩ := hSent g.maxLineSize
    have hTake := take_prefix (g.maxLineSize : Int).toNat (g.supply fd (o + remaining))
    have hData := hTake.trans hSupply
    have hSize := length_take_le (g.maxLineSize : Int).toNat (g.supply fd (o + remaining))
    generalize (g.supply fd (o + remaining)).take (g.maxLineSize : Int).toNat = data at *
    rw [hSent, ends_ok_bind]
    dsimp only
    rw [show o + remaining + data.length - o - remaining = (data.length : Int) by omega]
    refine (fetch_caching (s := { s1 with
      read := { s1.read with actualSize := data.length, cacheOffset := 0 } }) hL (by omega)
      (prefix_iff_eq_take.mp hData) hQueue1 rfl rfl).total.bind ?_
    rintro s2 ⟨hLeft, hCaching, hQueue2⟩
    rw [← hLeft]
    refine .ite (fun hLess => ?_) fun hAll => ?_
    · exact copyCached_gives hCaching hQueue2 hRemaining hLe (by omega) (by omega) (by omega)
        (Int.le_refl _) fun hLt => absurd hLt (Int.lt_irrefl _)
    · exact copyCached_gives hCaching hQueue2 hRemaining hLe (by omega) (Int.le_refl _) rfl (by omega)
        fun _ => rfl

theorem readFrom_gives (hL : 0 < g.maxLineSize)
    (hSupply : g.supply fd (o + s.leftover) <+: x.drop s.leftover.toNat)
    (hAt : At g.tid s fd f cell o (o + s.leftover)) (hCaching : Caching s x) (hQueue : s.queue = [])
    (hNonneg : 0 ≤ s.leftover) (hCount : 0 ≤ count) : Ends (s.readFrom g fd o s.leftover count false)
      (Gives (s.leftover = 0 ∨ count - s.leftover ≤ g.maxLineSize)
        (s.leftover + (if count ≤ s.leftover then [] else (g.supply fd (o + s.leftover)).take
          (max (count - s.leftover) g.maxLineSize).toNat).length) x 0 count)
      fun _ => ¬ (s.leftover = 0 ∨ count - s.leftover ≤ g.maxLineSize) := by
  have hCached := hCaching.length
  refine .ite (fun hLe => ?_) fun hMore => ?_
  · rw [if_pos hLe, length_nil, Int.natCast_zero, Int.add_comm]
    exact copyCached_gives (by rwa [Int.toNat_zero, drop_zero]) hQueue (Int.le_refl 0) (by omega) hCount hLe
      (Int.zero_add count).symm (Int.le_refl _) fun hLt => absurd hLt (Int.lt_irrefl _)
  · rw [if_neg hMore]
    obtain ⟨hBytes, hRest⟩ := copyCached_bytes (g := g) hCaching hNonneg (Int.le_refl _)
    have hCopy := copyCached_state (g := g) s hNonneg
    generalize s.copyCached g s.leftover = r at hBytes hRest hCopy ⊢
    obtain ⟨cached, s1⟩ := r
    obtain rfl : s1 = _ := hCopy
    obtain rfl : cached = _ := hBytes
    set s1 : Session := { s with read := { s.read with cacheOffset := s.read.cacheOffset + s.leftover } } with hs1
    have hAt1 : At g.tid s1 fd f cell o (o + s.leftover) :=
      ⟨hAt.file, hAt.mapped, hAt.clientAt, hAt.serverAt⟩
    have hEmpty : s1.leftover = 0 := by
      change s.read.actualSize - (s.read.cacheOffset + (s.read.actualSize - s.read.cacheOffset)) = 0
      omega
    refine (readMore_gives hL hSupply hAt1 hRest.start hEmpty hQueue hNonneg hCached
      (Int.not_le.mp hMore)).bind ?_
    rintro ⟨n, bytes, s2⟩ ⟨hLeast, hMost, hLength, hMoreBytes, hSize, hNext, hQueue2, hTotal, hFull⟩
    refine ⟨Int.le_trans hNonneg hLeast, hMost, hLength, ?_, fun hExact => ?_, hNext, hQueue2, hTotal, hFull⟩
    all_goals dsimp only at hLeast hMoreBytes hSize ⊢
    · have hSplit : n.toNat = s.leftover.toNat + (n - s.leftover).toNat := by omega
      rw [Int.toNat_zero, drop_zero, Int.sub_zero, hSplit, take_add]
      exact (prefix_append_right_inj _).mpr hMoreBytes
    · rw [length_append, length_take]
      omega

theorem readFrom_nothing (hL : 0 < g.maxLineSize)
    (hSupply : g.supply fd (o + s.leftover) = x.drop s.leftover.toNat)
    (hAt : At g.tid s fd f cell o (o + s.leftover)) (hQueue : s.queue = [])
    (hNonneg : 0 ≤ s.leftover) (hCount : 0 < count) (hLine : count ≤ g.maxLineSize) :
    Yields (s.readFrom g fd o s.leftover count false) (fun r => r.1 = 0 → x = []) := by
  refine .ite (fun _ hZero => absurd hZero (ne_of_gt hCount)) fun hMore => ?_
  have hCopy := copyCached_state (g := g) s hNonneg
  generalize s.copyCached g s.leftover = r at hCopy ⊢
  obtain ⟨cached, s1⟩ := r
  obtain rfl : s1 = _ := hCopy
  have hAt1 : At g.tid { s with read := { s.read with cacheOffset := s.read.cacheOffset + s.leftover } } fd f
      cell o (o + s.leftover) := ⟨hAt.file, hAt.mapped, hAt.clientAt, hAt.serverAt⟩
  obtain ⟨s2, -, -, hSent⟩ := readRequest_sends hAt1 hQueue g.maxLineSize
  rw [hSupply] at hSent
  refine .bind (Q := fun r : Int × List Byte × Session => r.1 = 0 → x = []) ?_ fun r hr => hr
  unfold readMore
  rw [if_neg (by simp only [Bool.false_eq_true, or_false]; omega), hSent, ends_ok_bind]
  refine .skip fun s3 => ?_
  refine .ite (fun _ hZero => absurd hZero (ne_of_gt hCount)) fun _ hZero => ?_
  -- nothing was cached, and a line from here on has no bytes
  have hLeft : s.leftover.toNat = 0 := by omega
  have hNone : ((x.drop s.leftover.toNat).take (g.maxLineSize : Int).toNat).length = 0 := by omega
  grind

theorem readFrom_overruns (hAt : At g.tid s fd f cell o (o + s.leftover)) (hSome : 0 < s.leftover)
    (hLong : g.maxLineSize < count - s.leftover) :
    Yields (s.readFrom g fd o s.leftover count false) (fun r => (r.2.1.length : Int) ≠ r.1) := by
  unfold readFrom
  rw [if_neg (by omega)]
  have hCopy := copyCached_state (g := g) s hSome.le
  have hLength : ((s.copyCached g s.leftover).1.length : Int) = s.leftover := by
    grind [copyCached, length_fresh]
  generalize s.copyCached g s.leftover = r at hLength hCopy ⊢
  obtain ⟨cached, s1⟩ := r
  obtain rfl : s1 = _ := hCopy
  set s1 : Session := { s with read := { s.read with cacheOffset := s.read.cacheOffset + s.leftover } } with hs1
  have hAt1 : At g.tid s1 fd f cell o (o + s.leftover) :=
    ⟨hAt.file, hAt.mapped, hAt.clientAt, hAt.serverAt⟩
  refine .bind (Q := fun r => (r.2.1.length : Int) = r.1) ?_ ?_
  · unfold readMore
    rw [if_pos (.inl hLong), if_neg Bool.false_ne_true]
    have hSent : ∃ (k : Nat) (s2 : Session),
        s1.readRequest g fd (count - s.leftover) = .ok (o + s.leftover + k, s2) :=
      ⟨_, _, sendData_eq hAt1 _⟩
    obtain ⟨k, s2, hSent⟩ := hSent
    rw [hSent, ends_ok_bind]
    refine .bind (Q := fun r : List Byte × Session => (r.1.length : Int) = o + s.leftover + k - o) ?_
      fun r hr => hr
    unfold readQueue
    split
    · rename_i bytes queue hTake
      change (bytes.length : Int) = _
      rw [length_takeElements hTake, sum_sizes]
      omega
    · trivial
  · rintro ⟨n, bytes, s2⟩ hBytes
    change ((cached ++ bytes).length : Int) ≠ n
    dsimp only at hBytes hLength
    rw [length_append]
    omega

end

/-- A thread whose caches hold nothing but bytes of the file at the offset of the client. -/
structure Faithful (tid : Tid) (content : Fd → List Byte) (s : Session) : Prop where
  agrees : Agrees tid s
  flushed : s.write.actualSize = 0
  queue : s.queue = []
  natural : ∀ (c : Nat) v, s.offsets[c]? = some v → 0 ≤ v
  start : 0 ≤ s.read.cacheOffset
  caching : ∀ o, s.offset s.read.lastFd = .ok o → Caching s ((content s.read.lastFd).drop o.toNat)

def remaining (s : Session) (fd : Fd) : Int := if s.read.lastFd = fd then s.leftover else 0

/-- What the server sends for a read. -/
def sent (g : Setting) (s : Session) (fd : Fd) (count : Int) : List Byte :=
  match s.offset fd with
  | .ok o =>
    if count ≤ s.remaining fd then []
    else (g.supply fd (o + s.remaining fd)).take (max (count - s.remaining fd) g.maxLineSize).toNat
  | .error _ => []

/-- No bytes are cached for the descriptor, or the rest of the request is not longer than a line. -/
def Fits (maxLineSize : Nat) (s : Session) (fd : Fd) (count : Int) : Prop :=
  0 ≤ count ∧ (s.remaining fd = 0 ∨ count - s.remaining fd ≤ maxLineSize)

structure Transparent (content : Fd → List Byte) (s : Session) (fd : Fd) (count : Int)
    (r : Int × List Byte × Session) : Prop where
  most : r.1 ≤ count
  bytes : ∃ o, s.offset fd = .ok o ∧ r.2.1 = ((content fd).drop o.toNat).take r.1.toNat ∧
    (r.2.1.length : Int) = r.1 ∧ r.2.2.offset fd = .ok (o + r.1)
  queue : r.2.2.queue = s.queue

section

variable {g : Setting} {content : Fd → List Byte} {s s' : Session} {fd : Fd} {f : File}

structure Turned (tid : Tid) (content : Fd → List Byte) (fd : Fd) (f : File) (s : Session)
    (cell : Nat) (o : Int)
    (s1 : Session) : Prop where
  agrees : Agrees tid s1
  located : At tid s1 fd f cell o (o + s1.leftover)
  caching : Caching s1 ((content fd).drop o.toNat)
  offset : s.offset fd = .ok o
  nonneg : 0 ≤ o
  lastFd : s1.read.lastFd = fd
  leftover : s1.leftover = s.remaining fd
  flushed : s1.write.actualSize = 0
  queue : s1.queue = []
  files : s1.files = s.files
  offsets : s1.offsets = s.offsets

theorem Turned.supply (h : Turned g.tid content fd f s cell o s1) (g : Setting) :
    (g.serving content).supply fd (o + s1.leftover) =
      ((content fd).drop o.toNat).drop s1.leftover.toNat := by
  rw [drop_drop, ← Int.toNat_add h.nonneg h.agrees.caches.leftover_nonneg]
  rfl

section

variable (h : Faithful g.tid content s)
include h

theorem cachedRead_turned (hf : s.files fd = some f)
    (hRead : ∀ s1 cell o, Turned g.tid content fd f s cell o s1 →
      Ends (s1.readFrom g fd o s1.leftover count false >>= fun r =>
        r.2.2.setOffset fd (o + r.1) >>= fun s' => pure (r.1, r.2.1, s')) P E) :
    Ends (s.cachedRead g fd count) P E := by
  refine (flushWrite_ends h.agrees).total.bind fun s1 ⟨h1, hs1⟩ => ?_
  refine (switchRead_ends h1 fd).total.bind fun s2 ⟨h2, hs2⟩ => ?_
  have hFiles : s2.files = s.files := hs2.files.trans hs1.files
  have hOffsets : s2.offsets = s.offsets := hs2.offsets.trans hs1.offsets
  have hFlushed : s2.write.actualSize = 0 := by rw [hs2.write, hs1.actualSize]
  have hStart : 0 ≤ s2.read.cacheOffset := hs2.start (hs1.read ▸ h.start)
  obtain ⟨cell, o, hAt⟩ := h2.at (hFiles ▸ hf)
  rw [prefetched_lastFd (hs2.lastFd ▸ hAt.file), unflushed_of_actualSize hFlushed, Int.sub_zero] at hAt
  have hOffset : s.offset fd = .ok o := by
    have := offset_eq hAt
    rwa [offset, hFiles, hOffsets] at this
  have hCached : s2.leftover = s.remaining fd ∧ Caching s2 ((content fd).drop o.toNat) := by
    unfold remaining
    by_cases hLast : s.read.lastFd = fd
    · cases hs2.same (hs1.read ▸ hLast)
      have hCaching := h.caching o (hLast ▸ hOffset)
      rw [hLast] at hCaching
      have hLeftover : s1.leftover = s.leftover := by rw [leftover, hs1.read, leftover]
      refine ⟨by rw [if_pos hLast, hLeftover], hStart, hLeftover ▸ hCaching.length, ?_⟩
      rw [hLeftover, hs1.read]
      exact hCaching.bytes
    · have hLeftover := hs2.flushed (hs1.read ▸ hLast)
      rw [if_neg hLast]
      exact ⟨hLeftover, caching_of_leftover hStart hLeftover _⟩
  rw [offset_eq hAt, ends_ok_bind]
  exact hRead s2 cell o ⟨h2, hAt, hCached.2, hOffset, h.natural _ _ (hOffsets ▸ hAt.clientAt),
    hs2.lastFd, hCached.1,
    hFlushed, (hs2.queue.trans hs1.queue).trans h.queue, hFiles, hOffsets⟩

/-- A read gives bytes of the file from the offset on, which moves behind them.  If it does not fit, it
may put others behind these, or not return. -/
theorem cachedRead_gives (hL : 0 < g.maxLineSize) (hTrue : g.Truthful content) (hf : s.files fd = some f)
    (hCount : 0 ≤ count) : Ends (s.cachedRead g fd count)
      (fun r => Faithful g.tid content r.2.2 ∧ r.2.2.files = s.files ∧ r.2.2.queue = [] ∧
        (0 ≤ r.1 ∧ r.1 ≤ count) ∧
        (r.1 + r.2.2.remaining fd = s.remaining fd + (s.sent g fd count).length ∧
          (r.1 < count → r.2.2.remaining fd = 0)) ∧ ∃ o, 0 ≤ o ∧ s.offset fd = .ok o ∧ r.2.2.offset fd = .ok (o + r.1) ∧
          o + r.1 ≤ max o (content fd).length ∧
          ((content fd).drop o.toNat).take r.1.toNat <+: r.2.1 ∧
          (Fits g.maxLineSize s fd count → (r.2.1.length : Int) = r.1))
      fun _ => ¬ Fits g.maxLineSize s fd count := by
  refine cachedRead_turned h hf fun s1 cell o hs1 => ?_
  have hNonneg := hs1.agrees.caches.leftover_nonneg
  have hSupply : g.supply fd (o + s1.leftover) <+: ((content fd).drop o.toNat).drop s1.leftover.toNat := by
    rw [drop_drop, ← Int.toNat_add hs1.nonneg hNonneg]
    exact hTrue fd _
  have hExact (hFits : Fits g.maxLineSize s fd count) :
      s1.leftover = 0 ∨ count - s1.leftover ≤ g.maxLineSize := hs1.leftover ▸ hFits.2
  refine (((readFrom_gives hL hSupply hs1.located hs1.caching hs1.queue hNonneg hCount).and
    (readFrom_ends hs1.located hs1.lastFd hNonneg hCount false)).mono (fun _ => id)
      fun _ hNot hFits => hNot (hExact hFits)).bind ?_
  rintro ⟨n, bytes, s2⟩ ⟨hGives, hs2⟩
  obtain ⟨hn, hMost, hLength, hBytes, hSize, hCaching, hQueue, hTotal, hFull⟩ := hGives
  rw [setOffset_eq hs2.located.file, ends_ok_bind]
  rw [Int.toNat_zero, drop_zero, Int.sub_zero] at hBytes
  rw [length_drop] at hLength
  dsimp only at hn hMost hLength hSize
  have hTouches := hs2.touches.trans (touches_setOffset f.cell cell (o + n))
  have hAt := hs2.located.setOffset (o + n)
  have hAgrees := hs1.agrees.consume hs1.located hs1.lastFd hs1.flushed hTouches hs2.lastFd
    hs2.write hAt hs2.nonneg
  refine ⟨⟨hAgrees, ?_, hQueue, fun c v hv => ?_, hCaching.start, fun o' ho' => ?_⟩,
    hTouches.files.trans hs1.files, hQueue, ⟨hn, hMost⟩, ⟨?_, fun hLt => ?_⟩, o, hs1.nonneg, hs1.offset, offset_eq hAt, ?_, hBytes,
    fun hFits => ?_⟩
  · exact hs2.write ▸ hs1.flushed
  · by_cases hc : c = f.cell
    · subst hc
      cases hv.symm.trans hAt.clientAt
      exact Int.add_nonneg hs1.nonneg hn
    · rw [hTouches.offsets c hc, hs1.offsets] at hv
      exact h.natural c v hv
  · rw [hs2.lastFd] at ho' ⊢
    cases (offset_eq hAt).symm.trans ho'
    rw [drop_drop, ← Int.toNat_add hs1.nonneg hn] at hCaching
    exact ⟨hCaching.start, hCaching.length, hCaching.bytes⟩
  · rw [sent, hs1.offset, ← hs1.leftover, ← hTotal]
    exact congrArg (n + ·) (if_pos hs2.lastFd)
  · exact (if_pos hs2.lastFd).trans (hFull hLt)
  · have := hs1.nonneg
    dsimp only
    omega
  · rw [hSize (hExact hFits), Int.sub_zero]

theorem cachedRead_transparent (hL : 0 < g.maxLineSize) (hf : s.files fd = some f)
    (hFits : Fits g.maxLineSize s fd count) : Returns (s.cachedRead (g.serving content) fd count)
      (fun r => Faithful g.tid content r.2.2 ∧ r.2.2.files = s.files ∧ Transparent content s fd count r) := by
  refine (cachedRead_gives (g := g.serving content) h hL (fun _ _ => prefix_refl _) hf hFits.1).mono ?_
    fun _ hNot => hNot hFits
  rintro r ⟨hFaithful, hFiles, hQueue, ⟨hn, hMost⟩, -, o, hNonneg, hOffset, hMoved, hLength, hBytes, hSize⟩
  have hSize := hSize hFits
  have hBytes := hBytes.eq_of_length (by rw [length_take, length_drop]; omega)
  exact ⟨hFaithful, hFiles, hMost, ⟨o, hOffset, hBytes.symm, hSize, hMoved⟩, hQueue.trans h.queue.symm⟩

theorem cachedRead_nothing (hL : 0 < g.maxLineSize)
    (hf : s.files fd = some f) (hCount : 0 < count) (hLine : count ≤ g.maxLineSize) :
    Yields (s.cachedRead (g.serving content) fd count) (fun r => r.1 = 0 → ∀ o, s.offset fd = .ok o →
      (content fd).length ≤ o.toNat) := by
  refine cachedRead_turned (g := g.serving content) h hf fun s1 cell o hs1 => ?_
  have hNonneg := hs1.agrees.caches.leftover_nonneg
  have hSupply := hs1.supply g
  refine (readFrom_nothing (g := g.serving content) hL hSupply hs1.located hs1.queue hNonneg hCount hLine).bind
    fun r hr => ?_
  refine .bind (Q := fun _ => True) (Ends.always (fun _ => trivial) _) fun s' _ hZero o' ho' => ?_
  cases hs1.offset.symm.trans ho'
  exact drop_eq_nil_iff.mp (hr hZero)

theorem cachedRead_not_transparent (hf : s.files fd = some f) (hFits : ¬ Fits g.maxLineSize s fd count) :
    Yields (s.cachedRead (g.serving content) fd count) (fun r => ¬ Transparent content s fd count r) := by
  by_cases hCount : 0 ≤ count
  · refine cachedRead_turned (g := g.serving content) h hf fun s1 cell o hs1 => ?_
    have hNonneg := hs1.agrees.caches.leftover_nonneg
    have hLong : s1.leftover ≠ 0 ∧ g.maxLineSize < count - s1.leftover := by
      rw [hs1.leftover]
      refine ⟨fun he => hFits ⟨hCount, .inl he⟩, ?_⟩
      exact Int.not_le.mp fun hLe => hFits ⟨hCount, .inr hLe⟩
    refine (readFrom_overruns (g := g.serving content) hs1.located (by omega) hLong.2).bind fun r hr => ?_
    refine .bind (Q := fun _ => True) (Ends.always (fun _ => trivial) _) fun s' _ hTransparent => ?_
    obtain ⟨_, _, _, hLength, _⟩ := hTransparent.bytes
    exact hr hLength
  · refine .always (fun r hTransparent => hCount ?_) _
    obtain ⟨_, _, _, hLength, _⟩ := hTransparent.bytes
    have := hTransparent.most
    omega

theorem setFdOffset_faithful (hf : s.files fd = some f) (offset : Nat) :
    Returns (s.setFdOffset g fd offset) (fun s' => Faithful g.tid content s' ∧ s'.files = s.files) := by
  refine (setFdOffset_ends h.agrees hf offset).imp ?_
  rintro s' ⟨hAgrees, hs'⟩
  have hStart := hs'.start h.start
  refine ⟨⟨hAgrees, hs'.actualSize, hs'.queue.trans h.queue, fun c v hv => ?_, hStart,
    fun o _ => caching_of_leftover hStart hs'.leftover _⟩, hs'.files⟩
  rw [hs'.offsets, getElem?_set] at hv
  split at hv
  · grind
  · exact h.natural c v hv

end

end

/-- `_write` and `_read` take the size of an element as an `int`, and the elements are counted with one. -/
def IntSized (maxLineSize : Nat) (bytes : List Byte) : Prop :=
  min maxLineSize bytes.length ≤ INT_MAX ∧ bytes.length / maxLineSize ≤ INT_MAX

instance (maxLineSize : Nat) (bytes : List Byte) : Decidable (IntSized maxLineSize bytes) :=
  inferInstanceAs (Decidable (_ ∧ _))

/-- `capio_cached_read`: a size that is negative as an `int` is a very large one for `memcpy`. -/
def capioCachedRead (g : Setting) (s : Session) (fd : Fd) (count : Int) :
    Except Stop (Int × List Byte × Session) :=
  if IntSized g.maxLineSize (s.sent g fd count) then s.cachedRead g fd count else .error .exit

inductive ReadCall
  | read (fd : Fd) (count : Int)
  | seek (fd : Fd) (offset : Nat)

def readStep (g : Setting) (s : Session) : ReadCall → Except Stop Session
  | .read fd count => (fun r => r.2.2) <$> s.capioCachedRead g fd count
  | .seek fd offset => s.setFdOffset g fd offset

def ReadCall.Fits (g : Setting) (s : Session) : ReadCall → Prop
  | .read fd count =>
    s.files fd ≠ none ∧ s.Fits g.maxLineSize fd count ∧ IntSized g.maxLineSize (s.sent g fd count)
  | .seek fd _ => s.files fd ≠ none

theorem readStep_ends {g : Setting} (hL : 0 < g.maxLineSize) (h : Faithful g.tid content s)
    (hc : c.Fits (g.serving content) s) :
    Returns (readStep (g.serving content) s c) (Faithful g.tid content) := by
  cases c with
  | read fd count =>
    obtain ⟨f, hf⟩ := Option.ne_none_iff_exists'.mp hc.1
    refine .map (.ite (fun _ => ?_) fun hNot => absurd hc.2.2 hNot)
    exact (cachedRead_transparent h hL hf hc.2.1).imp (fun _ hr => hr.1)
  | seek fd offset =>
    obtain ⟨f, hf⟩ := Option.ne_none_iff_exists'.mp hc
    exact (setFdOffset_faithful (g := g.serving content) h hf offset).imp (fun _ hs => hs.1)

/-- A thread that has nothing in its caches, for instance after it has opened its files. -/
structure Idle (tid : Tid) (s : Session) : Prop where
  agrees : Agrees tid s
  read : s.read.actualSize = s.read.cacheOffset ∧ 0 ≤ s.read.cacheOffset
  flushed : s.write.actualSize = 0
  queue : s.queue = []
  natural : ∀ o ∈ s.offsets, 0 ≤ o

theorem Idle.faithful (h : Idle tid s) (content : Fd → List Byte) : Faithful tid content s := by
  have hLeftover : s.leftover = 0 := Int.sub_eq_zero.mpr h.read.1
  exact ⟨h.agrees, h.flushed, h.queue, fun c v hv => h.natural v (mem_of_getElem? hv), h.read.2,
    fun o _ => caching_of_leftover h.read.2 hLeftover _⟩

/-- Calls that fit return, and a read after them is transparent exactly if it fits too. -/
theorem cached_read_transparent_iff {g : Setting} {content : Fd → List Byte} {s0 : Session}
    (hL : 0 < g.maxLineSize) (hStart : Idle g.tid s0) {calls : List ReadCall}
    (hCalls : Meets (fun s c => c.Fits (g.serving content) s) (readStep (g.serving content)) s0 calls) :
    ∃ s, calls.foldlM (readStep (g.serving content)) s0 = .ok s ∧ ∀ fd count, s.files fd ≠ none →
      (Ends (s.capioCachedRead (g.serving content) fd count) (Transparent content s fd count)
          (fun _ => False) ↔
        s.Fits g.maxLineSize fd count ∧ IntSized g.maxLineSize (s.sent (g.serving content) fd count)) := by
  have hRun := run_ends (fun _ _ h hc => readStep_ends hL h hc) (hStart.faithful content) calls hCalls
  cases hs : calls.foldlM (readStep (g.serving content)) s0 with
  | error e => exact (hRun.failure hs).elim
  | ok s =>
    have h := hRun.result hs
    refine ⟨s, rfl, fun fd count hOpen => ?_⟩
    obtain ⟨f, hf⟩ := Option.ne_none_iff_exists'.mp hOpen
    by_cases hInt : IntSized g.maxLineSize (s.sent (g.serving content) fd count)
    swap
    · have hExit : s.capioCachedRead (g.serving content) fd count = .error .exit := if_neg hInt
      rw [hExit]
      exact iff_of_false id fun hBoth => hInt hBoth.2
    have hRead : s.capioCachedRead (g.serving content) fd count = s.cachedRead (g.serving content) fd count :=
      if_pos hInt
    rw [hRead]
    refine Iff.trans ?_ (and_iff_left hInt).symm
    constructor
    · intro hRead
      by_contra hFits
      have hNot := cachedRead_not_transparent h hf hFits
      cases hr : s.cachedRead (g.serving content) fd count with
      | error e => exact hRead.failure hr
      | ok r => exact hNot.result hr (hRead.result hr)
    · intro hFits
      exact (cachedRead_transparent h hL hf hFits).imp (fun _ hr => hr.2.2)

instance (g : Setting) (s : Session) : (c : ReadCall) → Decidable (c.Fits g s) :=
  fun c => by cases c <;> dsimp only [ReadCall.Fits, Fits] <;> infer_instance

def twoOpens : List Input :=
  [⟨.openat .existing 3 "/d/f".toList false, fun _ _ => []⟩, ⟨.openat .existing 4 "/d/g".toList false, fun _ _ => []⟩]

def twoOpen : Session := (twoOpens.foldlM (step shortLines) {}).toOption.getD {}

theorem idle_twoOpen : Idle 7 twoOpen := by
  have hRun : twoOpens.foldlM (step shortLines) {} = .ok twoOpen := rfl
  have hAgrees :=
    (agrees_run (g := shortLines) (agrees_start 7 {}) twoOpens (by decide +kernel)).result hRun
  exact ⟨hAgrees, by decide +kernel, by decide +kernel, by decide +kernel, by decide +kernel⟩

def letters : Fd → List Byte := fun _ => [97, 98, 99, 100, 101, 102, 103, 104, 105, 106]

def shortReads : List ReadCall := [.read 3 1, .read 3 5, .seek 4 2, .read 4 7]

theorem transparent_after_shortReads : ∃ s,
    shortReads.foldlM (readStep (shortLines.serving letters)) twoOpen = .ok s ∧
      ∀ fd count, s.files fd ≠ none →
      (Ends (s.capioCachedRead (shortLines.serving letters) fd count) (Transparent letters s fd count)
          (fun _ => False) ↔
        s.Fits 4 fd count ∧ IntSized 4 (s.sent (shortLines.serving letters) fd count)) :=
  cached_read_transparent_iff (g := shortLines) (by decide) idle_twoOpen (by decide +kernel)

/-- With three bytes in the cache, a read of eight puts eleven into the buffer and one of nine does
not return. -/
theorem long_read_behind_cached_bytes :
    ∃ s, readStep (shortLines.serving letters) twoOpen (.read 3 1) = .ok s ∧
    (∃ bytes s', s.capioCachedRead (shortLines.serving letters) 3 8 = .ok (8, bytes, s') ∧ bytes.length = 11 ∧
      ¬ Transparent letters s 3 8 (8, bytes, s')) ∧
    s.capioCachedRead (shortLines.serving letters) 3 9 = .error .blocked := by
  refine ⟨_, rfl, ⟨_, _, rfl, rfl, fun h => ?_⟩, rfl⟩
  obtain ⟨_, _, _, hLength, _⟩ := h.bytes
  exact absurd hLength (by decide +kernel)

end Session

end Capio.Posix
