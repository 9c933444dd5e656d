import Capio.Remote.SharedFile
import Capio.Storage.Served

/-! # Reads of a complete file

On the node that stores a file, and for a copy that is as good as the file, a read is answered at
once with the bytes up to the end of the sector at its offset.  A client that reads on until an
answer is empty therefore obtains the whole file exactly when no byte before its end is missing.
-/
namespace Capio.Remote

open Common Lib.Outcome Lib.Segments Storage Storage.ByteStore
open Storage.Sectors

namespace SharedFile

def answer (g : Sharing) (s : SharedFile) (c : Client) (f : CapioFile) (offset : Int) (data : List Byte) :
    SharedFile :=
  receive g { s.setCopy c.node f with offsets := Function.update s.offsets c offset } c data

end SharedFile

section

open SharedFile

variable {g : Sharing} {s : SharedFile} {c : Client} {offset count n : Nat}

theorem answer_self (hOffset : s.offsets c = offset) :
    s.answer g c (s.copies c.node) offset [] = s.receive g c [] := by
  unfold answer setCopy
  rw [Function.update_eq_self, ← hOffset, Function.update_eq_self]

theorem sendRead_answers (os : Os) (h : (s.copies c.node).Sound) (offset n : Nat)
    (hCovered : ∀ b, offset ≤ b → b < offset + n → Covers (s.copies c.node).sectors b) :
    ∃ f data, s.sendRead g os c offset n = .ok (s.answer g c f (offset + n : Nat) data) ∧
      (s.copies c.node).Kept f ∧ Copied (s.copies c.node).contents offset n data := by
  obtain ⟨f, hCreate, hKept, -⟩ := h.createBuffer os
  obtain ⟨data, hSend, hData⟩ := hKept.sound.sendBytes offset n
    fun b hb hlt => hKept.sectors ▸ hCovered b hb hlt
  refine ⟨f, data, ?_, hKept, hKept.contents ▸ hData⟩
  unfold sendRead
  rw [hCreate]
  change (f.sendBytes offset n >>= _) = _
  rw [hSend]
  rfl

theorem handleLocalRead_answers (os : Os) (count : Nat) (isProd : Bool) (h : (s.copies c.node).Sound)
    (hComplete : ((s.copies c.node).committed || isProd) = true) (hOffset : s.offsets c = offset) :
    ∃ f data, s.handleLocalRead g os c count isProd =
        .ok (s.answer g c f (offset + (s.copies c.node).bytesCopied offset count : Nat) data) ∧
      (s.copies c.node).Kept f ∧
      Copied (s.copies c.node).contents offset ((s.copies c.node).bytesCopied offset count) data := by
  unfold SharedFile.handleLocalRead
  rw [hOffset]
  obtain ⟨hService, hNone⟩ | hService := localRead_complete g.firable hComplete offset count
  · refine ⟨s.copies c.node, [], ?_, h.kept, hNone ▸ copied_nil _ _⟩
    rw [hService, hNone, Nat.add_zero, answer_self hOffset]
    rfl
  · rw [hService]
    exact sendRead_answers os h _ _ fun b hb hlt => bytesCopied_covered hb hlt

end

section

variable (g : Sharing) (c : Client) (isProd : Bool)

/-- The reads of a client, one after the other, up to the first answer without a byte: what it
obtains and whether there was such an answer. -/
def readToEnd : List (Nat × Os) → SharedFile → Except Failure (List Byte × Bool)
  | [], _ => pure ([], false)
  | (count, os) :: reads, s => do
    let s ← SharedFile.handleLocalRead g os { s with receipts := [] } c count isProd
    match s.receipts with
    | [] => pure ([], false)
    | r :: _ =>
      if r.data = [] then pure ([], true)
      else do
        let (data, ended) ← readToEnd reads s
        pure (r.data ++ data, ended)

/-- However much is asked for each time, the reads end, and when they do the client has the whole
file with every byte of the map at its own offset. -/
def ReadsWhole (s : SharedFile) (m : SparseMap) : Prop :=
  ∀ reads : List (Nat × Os), (∀ r ∈ reads, 0 < r.1) →
    ∃ data ended, readToEnd g c isProd reads s = .ok (data, ended) ∧
      (ended = true → Copied m 0 (s.copies c.node).getStoredSize data) ∧
      ((s.copies c.node).getStoredSize < reads.length → ended = true)

end

section

variable {g : Sharing} {s : SharedFile} {c : Client} {isProd : Bool}

theorem readToEnd_ends (h : (s.copies c.node).Sound)
    (hComplete : ((s.copies c.node).committed || isProd) = true) {offset : Nat}
    (hOffset : s.offsets c = offset) (reads : List (Nat × Os)) (hReads : ∀ r ∈ reads, 0 < r.1) :
    ∃ data ended, readToEnd g c isProd reads s = .ok (data, ended) ∧
      Copied (s.copies c.node).contents offset data.length data ∧
      (∀ b, offset ≤ b → b < offset + data.length → Covers (s.copies c.node).sectors b) ∧
      (ended = true → ¬ Covers (s.copies c.node).sectors (offset + data.length)) ∧
      (ended = false → reads.length ≤ data.length) := by
  induction reads generalizing s offset with
  | nil =>
    refine ⟨[], false, rfl, copied_nil _ _, ?_, ?_, fun _ => Nat.le_refl _⟩
    · grind
    · exact fun hEnded => absurd hEnded Bool.false_ne_true
  | cons r reads ih =>
    obtain ⟨count, os⟩ := r
    have hCount : 0 < count := hReads _ List.mem_cons_self
    obtain ⟨f, data, hRun, hKept, hData⟩ := handleLocalRead_answers (g := g)
      (s := { s with receipts := [] }) os count isProd h hComplete hOffset
    unfold readToEnd
    rw [hRun]
    change ∃ all ended, (if data = [] then pure ([], true) else do
      let (data', ended) ← readToEnd g c isProd reads _
      pure (data ++ data', ended)) = Except.ok (all, ended) ∧ _
    have hPos : 0 < (s.copies c.node).bytesCopied offset count ↔
        Covers (s.copies c.node).sectors offset :=
      bytesCopied_pos_iff h.separated hCount
    by_cases hNil : data = []
    · rw [if_pos hNil]
      have hZero : (s.copies c.node).bytesCopied offset count = 0 := by
        rw [← hData.1, hNil]
        rfl
      refine ⟨[], true, rfl, copied_nil _ _, ?_, ?_, fun hEnded => absurd hEnded.symm Bool.false_ne_true⟩
      · grind
      · intro _ hCovers
        exact (hPos.mpr hCovers).ne' hZero
    · rw [if_neg hNil]
      have hCopies : (({ s with receipts := [] } : SharedFile).answer g c f
          (offset + (s.copies c.node).bytesCopied offset count : Nat) data).copies c.node = f :=
        Function.update_self ..
      obtain ⟨data', ended, hRest, hData', hCovered, hEnd, hLong⟩ := ih (hCopies ▸ hKept.sound)
        (by rw [hCopies, hKept.committed]; exact hComplete) (Function.update_self ..)
        fun r hr => hReads r (List.mem_cons_of_mem _ hr)
      rw [hCopies, hKept.contents] at hData'
      rw [hCopies, hKept.sectors] at hCovered hEnd
      rw [← hData.1, Nat.add_assoc, ← List.length_append] at hCovered hEnd
      rw [hRest]
      refine ⟨data ++ data', ended, rfl, ?_, ?_, hEnd, ?_⟩
      · rw [List.length_append, hData.1]
        exact hData.append hData'
      · intro b hb hlt
        rcases Nat.lt_or_ge b (offset + data.length) with hlt' | hge
        · exact bytesCopied_covered hb (hData.1 ▸ hlt')
        · exact hCovered b hge hlt
      · intro hEnded
        have hLength : 0 < data.length := List.length_pos_iff.mpr hNil
        have := hLong hEnded
        simp only [List.length_cons, List.length_append]
        omega

/-- Reading a committed file to its end gives the whole file if and only if every byte before the
end is in a sector. -/
theorem readsWhole_iff (h : Represents (s.copies c.node) m)
    (hCommitted : (s.copies c.node).committed = true) (hOffset : s.offsets c = 0) :
    ReadsWhole g c isProd s m ↔
      ∀ b < (s.copies c.node).getStoredSize, Covers (s.copies c.node).sectors b := by
  have hComplete : ((s.copies c.node).committed || isProd) = true := by
    rw [hCommitted]
    rfl
  have hEnds := readToEnd_ends (g := g) h.sound hComplete (hOffset.trans Int.natCast_zero.symm)
  simp only [Nat.zero_add] at hEnds
  constructor
  · intro hWhole b hb
    -- one byte at a time, and once more
    have hReads : ∀ r ∈ List.replicate ((s.copies c.node).getStoredSize + 1) (1, Os.plain 0),
        0 < r.1 := by simp
    obtain ⟨data, ended, hRun, hData, hEnded⟩ := hWhole _ hReads
    obtain ⟨data', ended', hRun', -, hCovered, -⟩ := hEnds _ hReads
    obtain ⟨rfl, rfl⟩ := Prod.mk.inj (Except.ok.inj (hRun.symm.trans hRun'))
    have hAll := hData (hEnded (by rw [List.length_replicate]; exact Nat.lt_succ_self _))
    exact hCovered b (Nat.zero_le b) (hAll.1.symm ▸ hb)
  · intro hCovers reads hReads
    obtain ⟨data, ended, hRun, hData, hCovered, hEnd, hLong⟩ := hEnds reads hReads
    have hLe : data.length ≤ (s.copies c.node).getStoredSize := by
      rcases Nat.eq_zero_or_pos data.length with hZero | hPos
      · omega
      · have := covers_lt_getStoredSize h.separated (hCovered (data.length - 1) (Nat.zero_le _)
          (by omega))
        omega
    refine ⟨data, ended, hRun, fun hEnded => ?_, fun hMany => ?_⟩
    · have hLength : data.length = (s.copies c.node).getStoredSize := by
        refine le_antisymm hLe (not_lt.mp fun hlt => ?_)
        exact hEnd hEnded (hCovers _ hlt)
      exact hLength ▸ hData.mono fun b v hv => h.contents hv
    · grind

end

def streamed : Sharing := ⟨['a'], true, .onTermination, 0, 4⟩

def reader : Client := ⟨['a'], 2, 3⟩

def twoBytes : CapioFile := { buffer := ⟨some [7, 9], 2, .heap⟩, committed := true, sectors := [(0, 2)] }

theorem twoBytes_represents : Represents twoBytes twoBytes.contents :=
  represents_contents ⟨by decide, by decide⟩ rfl (by decide)

theorem readsWhole_twoBytes :
    ReadsWhole streamed reader false { copies := fun _ => twoBytes } twoBytes.contents :=
  (readsWhole_iff twoBytes_represents rfl rfl).mpr (by decide)

def writeAroundHole : List Event :=
  [.write producer [7], .seek producer 2, .write producer [9], .terminate ['a']]

theorem readToEnd_stops_at_hole : ∃ s, (inputs writeAroundHole).foldlM (step streamed) noData = .ok s ∧
    (s.copies ['a']).committed = true ∧ (s.copies ['a']).getStoredSize = 3 ∧
    readToEnd streamed reader false [(8, Os.plain 0), (8, Os.plain 0)] s = .ok ([7], true) ∧
    ¬ ReadsWhole streamed reader false s (s.copies ['a']).contents := by
  refine ⟨_, rfl, rfl, rfl, rfl, fun hWhole => ?_⟩
  obtain ⟨data, ended, hRun, hData, -⟩ := hWhole [(8, Os.plain 0), (8, Os.plain 0)] (by decide)
  obtain ⟨rfl, rfl⟩ := Prod.mk.inj (Except.ok.inj hRun)
  exact absurd (hData rfl).1 (by decide)

end Capio.Remote
