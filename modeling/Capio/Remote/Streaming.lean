import Capio.Remote.Visibility
import Capio.Remote.HomeReads

/-! # Reads of a file that is being written

A firable file may be read on its home node before it is committed.  A read that goes beyond the
sector at its offset waits until the file is large enough, and is then answered with the bytes of the
sector at its offset.  The size of the file is that of its last sector, so the two agree as long as no
waiting read is overtaken by a write that leaves a hole at its offset.
-/
namespace Capio.Remote

open Common Lib.Outcome Lib.Segments Lib.Memory Storage
open Storage.Sectors Function List

def LocalReads (g : Sharing) (i : Input) : Prop :=
  match i.event with
  | .read c count located => c.node = g.home ∧ 0 < count ∧ located = true
  | .copyFileRange _ _ _ _ => False
  | _ => True

def HasByteAt (f : CapioFile) (offset : Int) : Prop := 0 ≤ offset ∧ Covers f.sectors offset.toNat

def Thread.NotOvertaken (f : CapioFile) : Thread → Prop
  | .readData _ offset _ => f.committed = false → offset < f.getStoredSize → HasByteAt f offset
  | _ => True

/-- The offset of a waiting read that goes on before the commit does not lie in a hole. -/
def NotOvertaken (g : Sharing) (s : SharedFile) (i : Input) : Prop :=
  match i.event with
  | .resume k _ => ∀ t ∈ s.threads[k]?, t.NotOvertaken (s.copies g.home)
  | _ => True

/-- A step that answers a client which is no producer, before the commit, gives it a byte, and the
byte at the offset of the read is written. -/
def AnswersWithData (g : Sharing) (s s' : SharedFile) : Prop :=
  ∀ r, s'.receipts = r :: s.receipts → r.producer = false → r.committed = false →
    r.data ≠ [] ∧ HasByteAt (s.copies g.home) (s'.offsets r.client - r.data.length)

structure Streaming (g : Sharing) (s : SharedFile) : Prop where
  separated : Separated (s.copies g.home).sectors
  threads : ∀ t ∈ s.threads, ∃ c offset count, t = .readData c offset count ∧ c.node = g.home ∧ 0 < count
  idle : s.network = []

section

variable {f : CapioFile} {o : Int} {count : Nat}

theorem hasByteAt_of_lt_sectorEnd (h : o < sectorEnd f o) (hFound : sectorEnd f o ≠ -1) :
    HasByteAt f o := by
  have hOffset : 0 ≤ o := by
    by_contra hNegative
    exact hFound (if_pos (Int.not_le.mp hNegative))
  obtain ⟨n, rfl⟩ := Int.eq_ofNat_of_zero_le hOffset
  obtain ⟨hNone, -⟩ | ⟨t, ht, hStart, -, hEnd, -⟩ := sectorEnd_cases f n 0
  · exact absurd hNone hFound
  · exact ⟨hOffset, t, ht, hStart, by rw [hEnd] at h; exact Int.ofNat_lt.mp h⟩

def Prompt (f : CapioFile) (offset : Int) (count : Nat) (isProd : Bool) : Service → Prop
  | .waitForCommit => False
  | .waitForData => True
  | .endOfFile => (f.committed || isProd) = true
  | .send n => (f.committed || isProd) = true ∨ HasByteAt f offset ∧ n = count

theorem localRead_prompt (hCount : 0 < count) (isProd : Bool) :
    Prompt f o count isProd (localRead true f o count isProd) := by
  unfold localRead
  cases hComplete : f.committed || isProd with
  | true =>
    simp only [Bool.true_or, Bool.not_true, Bool.false_eq_true, if_false, and_true, and_false]
    split
    · exact hComplete
    · exact .inl hComplete
  | false =>
    simp only [Bool.or_true, Bool.not_true, Bool.false_eq_true, if_false, and_false, Bool.not_false,
      and_true]
    split
    · trivial
    · next hWhole =>
      obtain ⟨hFound, hEnd⟩ := not_or.mp hWhole
      refine .inr ⟨hasByteAt_of_lt_sectorEnd (by omega) hFound, ?_⟩
      omega

theorem pendingRead_pos (hS : Separated f.sectors) (hByte : HasByteAt f o) (hCount : 0 < count) :
    0 < pendingRead f o count := by
  obtain ⟨hOffset, t, ht, hStart, hStop⟩ := hByte
  grind [Int.toNat_natCast, pendingRead, Int.eq_ofNat_of_zero_le, sectorEnd_of_mem]

theorem sendBytes_length (f : CapioFile) (offset : Int) (n : Nat) :
    Yields (f.sendBytes offset n) (fun data => data.length = n) := by
  refine .ite (fun hn => hn.symm) fun _ => .ite (fun _ => trivial) fun _ => ?_
  unfold CapioFile.loadBytes
  split
  · trivial
  · split
    · next hLoad => exact length_of_load hLoad
    · trivial

end

section

open SharedFile

theorem answersWithData_of_same (h : s'.receipts = s.receipts) : AnswersWithData g s s' := by
  intro r hr
  rw [h] at hr
  exact absurd hr.symm (cons_ne_self r s.receipts)

theorem Streaming.setCopy (h : Streaming g s) (hf : n = g.home → Separated f.sectors) :
    Streaming g (s.setCopy n f) := by
  refine ⟨?_, h.threads, h.idle⟩
  change Separated (update s.copies n f g.home).sectors
  by_cases hn : n = g.home
  · subst hn
    rw [update_self]
    exact hf rfl
  · rw [update_of_ne fun he => hn he.symm]
    exact h.separated

theorem Streaming.sameSectors (h : Streaming g s) (hf : f.sectors = (s.copies n).sectors) :
    Streaming g (s.setCopy n f) :=
  h.setCopy fun hn => by rw [hf, hn]; exact h.separated

def Serves (g : Sharing) (s s' : SharedFile) : Prop := Streaming g s' ∧ AnswersWithData g s s'

theorem Streaming.serves (h : Streaming g s') (hReceipts : s'.receipts = s.receipts) : Serves g s s' :=
  ⟨h, answersWithData_of_same hReceipts⟩

theorem sendRead_serves (h : Streaming g s) (os : Os)
    (hData : s.producers c = false → (s.copies g.home).committed = false →
      HasByteAt (s.copies g.home) offset ∧ 0 < n) : Yields (s.sendRead g os c offset n) (Serves g s) := by
  refine (createBuffer_sameData os _ false).bind fun f hf => ?_
  refine (sendBytes_length f offset n).bind fun data hLength => ?_
  have h1 := h.sameSectors hf.1
  refine ⟨⟨h1.separated, h1.threads, h1.idle⟩, fun r hr hProducer hCommitted => ?_⟩
  obtain rfl := (cons.inj hr).1.symm
  obtain ⟨hByte, hPos⟩ := hData hProducer ((committed_setCopy hf).symm.trans hCommitted)
  refine ⟨ne_nil_of_length_pos (hLength ▸ hPos), ?_⟩
  change HasByteAt _ (update s.offsets c (offset + n) c - data.length)
  rw [update_self, hLength, Int.add_sub_cancel]
  exact hByte

theorem handleLocalRead_serves (hFirable : g.firable = true) (h : Streaming g s) (os : Os) {c : Client}
    (hNode : c.node = g.home) {count : Nat} (hCount : 0 < count) :
    Yields (s.handleLocalRead g os c count (s.producers c)) (Serves g s) := by
  unfold SharedFile.handleLocalRead
  have hPrompt := localRead_prompt (f := s.copies c.node) (o := s.offsets c) hCount (s.producers c)
  rw [hFirable]
  rw [hNode] at hPrompt ⊢
  -- a file that is complete for the reader is committed, or the reader is a producer
  have hIncomplete : s.producers c = false → (s.copies g.home).committed = false →
      ((s.copies g.home).committed || s.producers c) ≠ true := by grind
  cases hService : localRead true (s.copies g.home) (s.offsets c) count (s.producers c) with
  | waitForCommit =>
    rw [hService] at hPrompt
    exact hPrompt.elim
  | waitForData =>
    refine Streaming.serves ⟨h.separated, fun t ht => ?_, h.idle⟩ rfl
    obtain hOld | hNew := mem_append.mp ht
    · exact h.threads t hOld
    · exact ⟨c, s.offsets c, count, mem_singleton.mp hNew, hNode, hCount⟩
  | endOfFile =>
    rw [hService] at hPrompt
    refine ⟨⟨h.separated, h.threads, h.idle⟩, fun r hr hProducer hCommitted => ?_⟩
    obtain rfl := (cons.inj hr).1.symm
    exact absurd hPrompt (hIncomplete hProducer hCommitted)
  | send n =>
    rw [hService] at hPrompt
    refine sendRead_serves h os fun hProducer hCommitted => ?_
    obtain ⟨hByte, rfl⟩ := hPrompt.resolve_left (hIncomplete hProducer hCommitted)
    exact ⟨hByte, hCount⟩

theorem resume_serves (h : Streaming g s) (os : Nat → Os) (own : Bool) {offset : Int} {count : Nat}
    (hNode : c.node = g.home) (hCount : 0 < count)
    (hNotOvertaken : (Thread.readData c offset count).NotOvertaken (s.copies g.home)) :
    Yields (s.resume g os own (.readData c offset count)) (fun r => ∀ s' ∈ r, Serves g s s') := by
  change Ends (if (s.copies c.node).dataReady (offset + count) then
    some <$> s.handlePendingRead g (os 0) c offset count else pure none) _ _
  rw [hNode]
  refine .ite (fun hReady => ?_) fun _ s' hs' => (nomatch hs')
  refine .map ((sendRead_serves h (os 0) fun _ hCommitted => ?_).imp ?_)
  · have hSize : offset + count ≤ (s.copies g.home).getStoredSize := by
      grind [CapioFile.dataReady]
    have hByte := hNotOvertaken hCommitted (by omega)
    grind [pendingRead_pos, h.separated]
  · rintro s1 hs1 s' hs'
    cases hs'
    exact hs1

theorem handleClose_serves (h : Streaming g s) (n : Node) : Yields (s.handleClose g n) (Serves g s) := by
  refine .bind (Q := fun f => f.sectors = (s.copies n).sectors) ?_ fun f hf =>
    (h.sameSectors hf).serves rfl
  exact .ite (fun _ => (commit_ends (s.copies n).close).imp (fun f hf => hf.1))
    fun _ => rfl

theorem commitOnTermination_serves (h : Streaming g s) (n : Node) :
    Yields (s.commitOnTermination g n) (Serves g s) := by
  refine .ite (fun _ => ?_) fun _ => h.serves rfl
  refine (commit_ends (s.copies n)).bind fun f hf => ?_
  have h1 : Streaming g (s.setCopy n f.close) := h.sameSectors hf.1
  exact h1.serves rfl

theorem writeHandler_serves (h : Streaming g s) (os : Nat → Os) (c : Client) (data : List Byte) :
    Yields (s.writeHandler os c data) (Serves g s) := by
  refine .ite (fun _ => trivial) fun _ => ?_
  refine (writeData_ends (os 0) (os 1) _ _ data).bind fun f hf => ?_
  have h1 : Streaming g (s.setCopy c.node f) := h.setCopy fun hn => by
    rw [hf.1, hn]
    exact insertSector_separated h.separated (Nat.le_add_right _ _)
  exact Streaming.serves ⟨h1.separated, h1.threads, h1.idle⟩ rfl

theorem step_serves (hFirable : g.firable = true) (h : Streaming g s) {i : Input} (hReads : LocalReads g i)
    (hi : NotOvertaken g s i) : Yields (step g s i) (Serves g s) := by
  obtain ⟨event, os⟩ := i
  cases event with
  | openFile n =>
    have h1 : Streaming g (s.setCopy n (s.copies n).openFile) := h.sameSectors rfl
    exact h1.serves rfl
  | close n => exact handleClose_serves h n
  | terminate n => exact commitOnTermination_serves h n
  | produce c => exact Streaming.serves ⟨h.separated, h.threads, h.idle⟩ rfl
  | write c data => exact writeHandler_serves h os c data
  | seek c offset => exact Streaming.serves ⟨h.separated, h.threads, h.idle⟩ rfl
  | read c count located =>
    obtain ⟨hNode, hCount, rfl⟩ := hReads
    change Ends (s.handleRead g (os 0) c count true) _ _
    grind [SharedFile.handleRead, handleLocalRead_serves]
  | copyFileRange c offsetIn count located => exact hReads.elim
  | resume k own =>
    simp only [step]
    split
    · exact h.serves rfl
    · next t ht =>
      have h1 : Streaming g { s with threads := s.threads.eraseIdx k } :=
        ⟨h.separated, fun t' ht' => h.threads t' (mem_of_mem_eraseIdx ht'), h.idle⟩
      obtain ⟨c, offset, count, rfl, hNode, hCount⟩ := h.threads t (mem_of_getElem? ht)
      refine (resume_serves h1 os own hNode hCount (hi _ ht)).bind fun r hr => ?_
      cases r with
      | none => exact h.serves rfl
      | some s' => exact hr s' rfl
  | deliver k =>
    simp only [step, h.idle, getElem?_nil]
    exact h.serves rfl

theorem streaming_start {copies : Node → CapioFile} (hSectors : Separated (copies g.home).sectors) :
    Streaming g { copies := copies } :=
  ⟨hSectors, fun _ ht => (nomatch ht), rfl⟩

/-- In every run in which no waiting read is overtaken, a client that is no producer is not told
before the commit that the file ends. -/
theorem no_end_before_commit {copies : Node → CapioFile} {inputs : List Input} {i : Input}
    (hFirable : g.firable = true) (hSectors : Separated (copies g.home).sectors)
    (hReads : ∀ j ∈ inputs ++ [i], LocalReads g j)
    (hInputs : Meets (NotOvertaken g) (step g) { copies := copies } (inputs ++ [i]))
    (hRun : inputs.foldlM (step g) { copies := copies } = .ok s) (hStep : step g s i = .ok s') :
    AnswersWithData g s s' :=
  last_step (fun _ _ h hi => step_serves hFirable h hi.1 hi.2)
    (streaming_start hSectors) (hInputs.and_of_forall hReads) hRun hStep

end

instance (g : Sharing) : DecidablePred (LocalReads g)
  | ⟨op, os⟩ => by
    apply Event.casesOn (motive := fun op => Decidable (LocalReads g ⟨op, os⟩)) op <;> intros <;>
      dsimp only [LocalReads] <;> infer_instance

instance (f : CapioFile) (offset : Int) : Decidable (HasByteAt f offset) :=
  inferInstanceAs (Decidable (_ ∧ _))

instance (f : CapioFile) : DecidablePred (Thread.NotOvertaken f) :=
  fun t => by
    apply Thread.casesOn (motive := fun t => Decidable (t.NotOvertaken f)) t <;> intros <;>
      dsimp only [Thread.NotOvertaken] <;> infer_instance

instance (g : Sharing) (s : SharedFile) : DecidablePred (NotOvertaken g s)
  | ⟨op, os⟩ => by
    apply Event.casesOn (motive := fun op => Decidable (NotOvertaken g s ⟨op, os⟩)) op <;> intros <;>
      dsimp only [NotOvertaken] <;> infer_instance

def waitForByte : List Input := inputs [.read reader 1 true, .write producer [42]]

theorem read_waits_for_byte : ∃ s s', waitForByte.foldlM (step streamed) noData = .ok s ∧
    step streamed s ⟨.resume 0 true, fun _ => Os.plain 0⟩ = .ok s' ∧
    s'.receipts = [⟨reader, [42], false, false⟩] ∧ AnswersWithData streamed s s' := by
  have hInputs : Meets (NotOvertaken streamed) (step streamed) { copies := noData.copies }
    (waitForByte ++ [⟨.resume 0 true, fun _ => Os.plain 0⟩]) := by decide
  exact ⟨_, _, rfl, rfl, rfl, no_end_before_commit rfl separated_nil (by decide) hInputs rfl rfl⟩

/-- A write far behind the offset of a waiting read. -/
theorem read_ends_in_hole : ∃ s, (inputs [.seek producer 10, .write producer [42], .read reader 5 true,
      .resume 0 true]).foldlM (step streamed) noData = .ok s ∧
    s.receipts = [⟨reader, [], false, false⟩] :=
  ⟨_, rfl, rfl⟩

end Capio.Remote
