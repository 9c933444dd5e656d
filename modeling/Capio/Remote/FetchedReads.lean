import Capio.Remote.HomeReads

/-! # Reads on other nodes

A node that is not the home of a file asks there for what it does not have, and records the bytes it
receives in its own object.  A reply reaches up to the stored size of the file, whatever is written
before it, and it is recorded even if it is empty; what later reads obtain depends on all of this.
-/
namespace Capio.Remote

open Common Lib.Outcome Lib.Segments Storage Storage.ByteStore
open Storage.Coverage Storage.Sectors Function List

variable {f h : CapioFile} {data : List Byte} {offset count : Nat}

structure RemoteRead where
  client : Client
  offset : Nat
  count : Nat
  os : Nat → Nat → Os

def RemoteRead.inputs (r : RemoteRead) : List Input :=
  [⟨.seek r.client r.offset, r.os 0⟩, ⟨.read r.client r.count true, r.os 1⟩, ⟨.deliver 0, r.os 2⟩,
    ⟨.deliver 0, r.os 3⟩]

def completeRead (g : Sharing) (s : SharedFile) (r : RemoteRead) : Except Failure SharedFile :=
  r.inputs.foldlM (step g) s

def RemoteRead.sought (r : RemoteRead) (s : SharedFile) : SharedFile :=
  { s with offsets := update s.offsets r.client r.offset }

section

open SharedFile

variable {g : Sharing} {s : SharedFile} {c : Client} {f : CapioFile} {offset size : Nat}
  {data : List Byte}

theorem storeReply_sound (os : Nat → Os) (h : f.Sound) (hOpen : ¬ f.buffer.Closed) (size : Nat)
    (complete : Bool) (hNone : ∀ b, ¬ Swallowed f.sectors offset (offset + data.length) b) :
    ∃ f', storeReply os f offset size complete data = .ok f' ∧ f'.Sound ∧ ¬ f'.buffer.Closed ∧
      f'.contents = f.contents.put offset data ∧
      f'.sectors = insertSector f.sectors offset (offset + data.length) ∧
      f'.committed = complete ∧ f'.realFileSize = size := by
  obtain ⟨f1, hCreate, h1, hBlock1⟩ := h.createBuffer (os 0)
  have hStore : ∃ f2, (if data ≠ [] then do
        let f ← (if offset + data.length > f1.getBufSize then
          f1.expandBuffer (os 1) (offset + data.length) else pure f1)
        f.storeBytes offset data
      else pure f1) = .ok f2 ∧ ¬ f2.buffer.Closed ∧ f2.sectors = f.sectors ∧
      (f2.insertSector offset (offset + data.length)).Sound ∧
      (f2.insertSector offset (offset + data.length)).contents = f.contents.put offset data := by
    split
    · obtain ⟨f2, hRoom, h2, hBlock2, hSize⟩ : ∃ f2, (if offset + data.length > f1.getBufSize then
          f1.expandBuffer (os 1) (offset + data.length) else pure f1) = .ok f2 ∧ f.Kept f2 ∧
          f2.buffer.data ≠ none ∧ offset + data.length ≤ f2.getBufSize := by
        split
        · obtain ⟨f2, hGrow, h2, hBlock, hSize⟩ :=
            h1.sound.expandBuffer (os 1) (fun hc => hOpen (h1.closed hc))
            ‹_›
          exact ⟨f2, hGrow, h1.trans h2, hBlock, hSize⟩
        · exact ⟨f1, rfl, h1, hBlock1, Nat.not_lt.mp ‹_›⟩
      obtain ⟨buffer, hBytes, hStorage, -, hSound, hContents⟩ := h2.sound.storeBytes hBlock2 hSize
        (by rwa [h2.sectors])
      refine ⟨{ f2 with buffer := buffer }, ?_, ?_, h2.sectors, hSound, h2.contents ▸ hContents⟩
      · rw [hRoom]
        exact hBytes
      · exact fun ⟨len, hLen⟩ => hOpen (h2.closed ⟨len, hStorage.symm.trans hLen⟩)
    · have hNil : data = [] := not_not.mp ‹_›
      subst hNil
      refine ⟨f1, rfl, fun hc => hOpen (h1.closed hc), h1.sectors, ?_⟩
      rw [← h1.contents]
      refine h1.sound.insertSector h1.sound.sized (by rwa [h1.sectors]) ?_
      grind [SparseMap.put, contents_of_covers]
  obtain ⟨f2, hRun, hOpen2, hSectors, hSound, hContents⟩ := hStore
  refine ⟨((f2.setRealFileSize size).insertSector offset (offset + data.length)).setCommitted complete,
    ?_, ?_⟩
  · unfold storeReply
    rw [hCreate, ok_bind, hRun]
    rfl
  · rw [CapioFile.setCommitted_eq]
    refine ⟨⟨hSound.separated, hSound.sized, hSound.inBuffer⟩, hOpen2, hContents, ?_, rfl, rfl⟩
    exact congrArg (insertSector · offset (offset + data.length)) hSectors

theorem handleRemoteReadReply_answers (os : Nat → Os) (count size : Nat) (complete : Bool)
    (h : (s.copies c.node).Sound) (hOpen : ¬ (s.copies c.node).buffer.Closed)
    (hOffset : s.offsets c = offset)
    (hNone : ∀ b, ¬ Swallowed (s.copies c.node).sectors offset (offset + data.length) b) :
    ∃ (f f' : CapioFile) (data' : List Byte), s.handleRemoteReadReply g os c count size complete data =
        .ok (s.answer g c f' (offset + f.bytesCopied offset count : Nat) data') ∧
      f.Sound ∧ ¬ f.buffer.Closed ∧ f.contents = (s.copies c.node).contents.put offset data ∧
      f.sectors = insertSector (s.copies c.node).sectors offset (offset + data.length) ∧
      f.committed = complete ∧ f.realFileSize = size ∧ f.Kept f' ∧
      Copied f.contents offset (f.bytesCopied offset count) data' := by
  obtain ⟨f, hStore, hf, hOpen', hContents, hSectors, hCommitted, hReal⟩ :=
    storeReply_sound os h hOpen size complete hNone
  obtain ⟨t, ht, hStart, hStop⟩ := exists_mem_insertSector h.separated
    (Nat.le_add_right offset data.length)
  rw [← hSectors] at ht
  have hEnd := sectorEnd_of_mem hf.separated ht hStart (by omega)
  have hBytes := bytesCopied_of_mem hf.separated ht hStart (by omega) count
  have hCopies : (s.setCopy c.node f).copies c.node = f := update_self ..
  obtain ⟨f', data', hSend, hKept, hData⟩ := sendRead_answers (g := g) (s := s.setCopy c.node f) (c := c)
    (os 2) (by rwa [hCopies]) offset (f.bytesCopied offset count)
    (by rw [hCopies]; exact fun b hb hlt => bytesCopied_covered hb hlt)
  rw [hCopies] at hKept hData
  refine ⟨f, f', data', ?_, hf, hOpen', hContents, hSectors, hCommitted, hReal, hKept, hData⟩
  have hRead : (if sectorEnd f offset > (offset : Int) + count then (count : Int)
      else sectorEnd f offset - offset) = f.bytesCopied offset count := by
    split <;> omega
  have hAnswer : (s.setCopy c.node f).answer g c f' (offset + f.bytesCopied offset count : Nat) data' =
      s.answer g c f' (offset + f.bytesCopied offset count : Nat) data' := by
    unfold answer setCopy
    rw [update_idem]
  unfold handleRemoteReadReply
  simp only [hOffset]
  grind [Int.toNat_natCast, ok_bind]

theorem handleRemoteReadReply_negative (os : Nat → Os) {count : Int} (hCount : count < 0) (size : Nat)
    (complete : Bool) (h : (s.copies c.node).Sound) (hOpen : ¬ (s.copies c.node).buffer.Closed)
    (hOffset : s.offsets c = offset)
    (hNone : ∀ b, ¬ Swallowed (s.copies c.node).sectors offset (offset + data.length) b) :
    Yields (s.handleRemoteReadReply g os c count size complete data)
      (fun s' => s'.offsets c = offset + count) := by
  obtain ⟨f, hStore, hf, -, -, hSectors, -⟩ := storeReply_sound os h hOpen size complete hNone
  obtain ⟨t, ht, hStart, hStop⟩ := exists_mem_insertSector h.separated
    (Nat.le_add_right offset data.length)
  rw [← hSectors] at ht
  have hEnd := sectorEnd_of_mem hf.separated ht hStart (by omega)
  have hRead : (if sectorEnd f offset > (offset : Int) + count then count
      else sectorEnd f offset - offset) = count := if_pos (by omega)
  unfold handleRemoteReadReply
  simp only [hOffset]
  rw [if_neg (by omega), Int.toNat_natCast, hStore, ok_bind, hRead, if_pos hCount]
  exact .ite (fun _ => update_self ..) fun _ => trivial

end

section

open SharedFile

variable {g : Sharing} {s : SharedFile} {r : RemoteRead}

theorem sought_offset (r : RemoteRead) (s : SharedFile) : (r.sought s).offsets r.client = r.offset :=
  update_self ..

theorem completeRead_eq (hNode : r.client.node ≠ g.home) (hConsumer : s.producers r.client = false) :
    completeRead g s r = (r.sought s).requestRemoteRead g (r.os 1 0) r.client r.count >>= fun s =>
      step g s ⟨.deliver 0, r.os 2⟩ >>= fun s => step g s ⟨.deliver 0, r.os 3⟩ := by
  have hRead : step g (r.sought s) ⟨.read r.client r.count true, r.os 1⟩ =
      (r.sought s).requestRemoteRead g (r.os 1 0) r.client r.count := by
    change (r.sought s).handleRead g (r.os 1 0) r.client r.count true = _
    have hProducer : (r.sought s).producers r.client = false := hConsumer
    simp [handleRead, hProducer, hNode]
  change (step g (r.sought s) ⟨.read r.client r.count true, r.os 1⟩ >>= fun s =>
    step g s ⟨.deliver 0, r.os 2⟩ >>= fun s => step g s ⟨.deliver 0, r.os 3⟩ >>= pure) = _
  rw [hRead]
  simp only [bind_pure]

theorem requestRemoteRead_eq (os : Os) : (r.sought s).requestRemoteRead g os r.client r.count =
    match remoteSource (s.copies r.client.node) r.offset r.count with
    | .localRead => (r.sought s).handleLocalRead g os r.client r.count true
    | .here => (r.sought s).sendRead g os r.client r.offset r.count
    | .home => pure ((r.sought s).post (.read r.client r.count r.offset)) := by
  unfold requestRemoteRead
  rw [sought_offset]
  rfl

theorem step_deliver_idle (hIdle : s.network = []) (os : Nat → Os) : step g s ⟨.deliver 0, os⟩ = .ok s := by
  simp only [step, hIdle]
  rfl

theorem completeRead_here (hNode : r.client.node ≠ g.home) (hConsumer : s.producers r.client = false)
    (hIdle : s.network = []) (hRead : (r.sought s).requestRemoteRead g (r.os 1 0) r.client r.count =
      .ok ((r.sought s).answer g r.client f offset data)) :
    completeRead g s r = .ok ((r.sought s).answer g r.client f offset data) := by
  have hDeliver := fun os => step_deliver_idle (g := g)
    (s := (r.sought s).answer g r.client f offset data) hIdle os
  rw [completeRead_eq hNode hConsumer, hRead, ok_bind, hDeliver, ok_bind, hDeliver]

theorem completeRead_home (hNode : r.client.node ≠ g.home) (hConsumer : s.producers r.client = false)
    (hIdle : s.network = []) (hCommitted : (s.copies g.home).committed = true)
    (hSource : remoteSource (s.copies r.client.node) r.offset r.count = .home)
    (hSend : (s.copies g.home).sendBytes r.offset
      (remoteReplySize g.prefetchDataSize (s.copies g.home) r.offset) = .ok data) :
    completeRead g s r = (r.sought s).handleRemoteReadReply g (r.os 3) r.client (asInt r.count)
      (s.copies g.home).getStoredSize true data := by
  have hRequest : (r.sought s).requestRemoteRead g (r.os 1 0) r.client r.count =
      .ok ((r.sought s).post (.read r.client r.count r.offset)) := by
    rw [requestRemoteRead_eq, hSource]
    rfl
  have hServe : step g ((r.sought s).post (.read r.client r.count r.offset)) ⟨.deliver 0, r.os 2⟩ =
      .ok ((r.sought s).post
        (.readReply r.client (asInt r.count) (s.copies g.home).getStoredSize true data)) := by
    have hNetwork : ((r.sought s).post (.read r.client r.count r.offset)).network =
        [.read r.client r.count r.offset] := by
      change s.network ++ _ = _
      rw [hIdle]
      rfl
    simp only [step, hNetwork, getElem?_cons_zero, eraseIdx_zero, tail_cons]
    change (if servesAtOnce g.firable (s.copies g.home) r.offset r.count = true then _ else _) = _
    rw [if_pos (by rw [servesAtOnce, hCommitted, Bool.true_or])]
    change ((s.copies g.home).sendBytes r.offset
      (remoteReplySize g.prefetchDataSize (s.copies g.home) r.offset) >>= _) = _
    rw [hSend, ok_bind]
    change Except.ok _ = Except.ok _
    simp only [post, RemoteRead.sought, hIdle, hCommitted]
  rw [completeRead_eq hNode hConsumer, hRequest, ok_bind, hServe, ok_bind]
  have hNetwork : ((r.sought s).post (.readReply r.client (asInt r.count)
      (s.copies g.home).getStoredSize true data)).network =
      [.readReply r.client (asInt r.count) (s.copies g.home).getStoredSize true data] := by
    change s.network ++ _ = _
    rw [hIdle]
    rfl
  simp only [step, hNetwork, getElem?_cons_zero, eraseIdx_zero, tail_cons]
  rw [← hIdle]
  rfl

theorem remoteReplySize_of_zero (f : CapioFile) (offset : Nat) :
    remoteReplySize 0 f offset = f.getStoredSize - offset := by
  unfold remoteReplySize
  rw [if_neg (by simp)]
  omega

end

section

open SharedFile

def Obtains (s s' : SharedFile) (c : Client) (data : List Byte) (offset : Int) : Prop :=
  ∃ producer committed, s'.receipts = ⟨c, data, producer, committed⟩ :: s.receipts ∧ s'.offsets c = offset

/-- The read obtains what `c` would obtain on the home node, and the node of the client then has no
byte recorded that the home node has not. -/
def AgreesWithLocal (g : Sharing) (s : SharedFile) (r : RemoteRead) (c : Client) (isProd : Bool) : Prop :=
  ∃ s1 s2 data offset, completeRead g s r = .ok s1 ∧ Obtains s s1 r.client data offset ∧
    ({ s with offsets := update s.offsets c r.offset } : SharedFile).handleLocalRead g
      (r.os 1 0) c
      r.count isProd = .ok s2 ∧ Obtains s s2 c data offset ∧
    ∀ b, Covers (s1.copies r.client.node).sectors b → Covers (s.copies g.home).sectors b

variable {g : Sharing} {s : SharedFile} {r : RemoteRead} {c : Client} {m : SparseMap}

structure Unread (f : CapioFile) : Prop where
  sectors : f.sectors = []
  uncommitted : f.committed = false
  sized : f.buffer.Sized
  not_closed : ¬ f.buffer.Closed

structure FirstRead (g : Sharing) (s : SharedFile) (r : RemoteRead) : Prop where
  node : r.client.node ≠ g.home
  consumer : s.producers r.client = false
  idle : s.network = []
  unread : Unread (s.copies r.client.node)
  count_pos : 0 < r.count

theorem answer_obtains (offset : Int) (data : List Byte) (s0 : SharedFile)
    (hReceipts : s.receipts = s0.receipts) : Obtains s0 (s.answer g c f offset data) c data offset :=
  ⟨_, _, congrArg (_ :: ·) hReceipts, update_self ..⟩

theorem Obtains.offset_eq {s1 : SharedFile} {data' : List Byte} {offset offset' : Int}
    (h : Obtains s s1 c data offset) (h' : Obtains s s1 c data' offset') : offset = offset' := by
  obtain ⟨-, -, -, hOffset⟩ := h
  obtain ⟨-, -, -, hOffset'⟩ := h'
  exact hOffset.symm.trans hOffset'

theorem Unread.sound (h : Unread f) : f.Sound := by
  refine ⟨h.sectors ▸ separated_nil, h.sized, fun b hb => ?_⟩
  rw [h.sectors] at hb
  exact absurd hb (covers_nil b)

theorem FirstRead.source (h : FirstRead g s r) :
    remoteSource (s.copies r.client.node) r.offset r.count = .home := by
  have hEnd : sectorEnd (s.copies r.client.node) r.offset = -1 := by
    rw [sectorEnd_eq, h.unread.sectors]
    rfl
  grind [remoteSource, h.unread.uncommitted]

theorem bytesCopied_of_covered (hS : Separated f.sectors)
    (hCovered : ∀ b, offset ≤ b → b < f.getStoredSize → Covers f.sectors b) :
    f.bytesCopied offset count = min count (f.getStoredSize - offset) := by
  rcases Nat.lt_or_ge offset f.getStoredSize with hLt | hGe
  · obtain ⟨t, ht, hStart, hStop⟩ := hCovered offset (Nat.le_refl _) hLt
    have hEnd : t.2 = f.getStoredSize := by
      refine le_antisymm (le_getFileSize hS ht) (not_lt.mp fun hlt => ?_)
      exact hS.not_covers_end ht (hCovered t.2 hStop.le hlt)
    rw [bytesCopied_of_mem hS ht hStart hStop.le, hEnd]
  · obtain ⟨-, hNone⟩ | ⟨t, ht, -, -, -, hSome⟩ := sectorEnd_cases f offset count
    · omega
    · have := le_getFileSize hS ht
      have : t.2 ≤ f.getStoredSize := this
      omega

theorem insertSector_nil (s e : Nat) : insertSector [] s e = [(s, e)] := rfl

theorem swallowed_nil (s e b : Nat) : ¬ Swallowed [] s e b := by
  rintro ⟨⟨u, hu, -⟩, -⟩
  cases hu

theorem FirstRead.completes (h : FirstRead g s r) (hHome : Represents (s.copies g.home) m)
    (hCommitted : (s.copies g.home).committed = true) (hPrefetch : g.prefetchDataSize = 0) :
    ∃ sent, Copied (fun b => (s.copies g.home).buffer.bytes[b]?) r.offset
        ((s.copies g.home).getStoredSize - r.offset) sent ∧
      completeRead g s r = (r.sought s).handleRemoteReadReply g (r.os 3) r.client (asInt r.count)
        (s.copies g.home).getStoredSize true sent := by
  have hSize : (s.copies g.home).getStoredSize ≤ (s.copies g.home).getBufSize := getFileSize_le hHome.fits
  obtain ⟨sent, hSend, hSent⟩ := CapioFile.sendBytes_inside hHome.sized r.offset
    ((s.copies g.home).getStoredSize - r.offset) (by omega)
  refine ⟨sent, hSent, completeRead_home h.node h.consumer h.idle hCommitted h.source ?_⟩
  rw [hPrefetch, remoteReplySize_of_zero, hSend]

theorem FirstRead.fetches (h : FirstRead g s r) (hHome : Represents (s.copies g.home) m)
    (hCommitted : (s.copies g.home).committed = true) (hPrefetch : g.prefetchDataSize = 0)
    (hCount : asInt r.count = count) : ∃ s' data, completeRead g s r = .ok s' ∧ Obtains s s' r.client data
        (r.offset + min count ((s.copies g.home).getStoredSize - r.offset) : Nat) ∧
      (s'.copies r.client.node).sectors =
        [(r.offset, r.offset + ((s.copies g.home).getStoredSize - r.offset))] ∧
      Copied (fun b => (s.copies g.home).buffer.bytes[b]?) r.offset
        (min count ((s.copies g.home).getStoredSize - r.offset)) data := by
  obtain ⟨sent, hSent, hRun⟩ := h.completes hHome hCommitted hPrefetch
  obtain ⟨f, f', data, hReply, hSound, -, hContents, hSectors, -, -, hKept, hData⟩ :=
    handleRemoteReadReply_answers (g := g) (s := r.sought s) (c := r.client) (r.os 3) count
      (s.copies g.home).getStoredSize true h.unread.sound h.unread.not_closed
      (sought_offset r s) fun b => h.unread.sectors ▸ swallowed_nil _ (r.offset + sent.length) b
  rw [← hCount, ← hRun] at hReply
  change f.sectors = insertSector (s.copies r.client.node).sectors _ _ at hSectors
  rw [h.unread.sectors, insertSector_nil, hSent.1] at hSectors
  have hBytes : f.bytesCopied r.offset count =
      min count ((s.copies g.home).getStoredSize - r.offset) := by
    rw [bytesCopied_of_mem hSound.separated (t := (r.offset, r.offset +
      ((s.copies g.home).getStoredSize - r.offset))) (by rw [hSectors]; exact mem_singleton_self _)
      (Nat.le_refl _) (Nat.le_add_right _ _) count]
    omega
  rw [hBytes] at hReply hData
  refine ⟨_, data, hReply, answer_obtains _ data s rfl, ?_, hData.1, fun k hk v hv => hData.2 k hk v ?_⟩
  · change (update s.copies r.client.node f' r.client.node).sectors = _
    rw [update_self]
    exact hKept.sectors.trans hSectors
  · have hLength := hSent.1
    rw [hContents, SparseMap.put, if_pos (by omega), Nat.add_sub_cancel_left]
    exact hSent.2 k (by omega) v hv

theorem localRead_obtains (hHome : Represents (s.copies g.home) m)
    (hCommitted : (s.copies g.home).committed = true) (hLocal : c.node = g.home) (os : Os)
    (offset count : Nat) (isProd : Bool) :
    ∃ s' data, ({ s with offsets := update s.offsets c offset } : SharedFile).handleLocalRead g
        os c count isProd = .ok s' ∧
      Obtains s s' c data (offset + (s.copies g.home).bytesCopied offset count : Nat) ∧
      Copied (s.copies g.home).contents offset ((s.copies g.home).bytesCopied offset count) data := by
  obtain ⟨f, data, hRun, -, hData⟩ := handleLocalRead_answers (g := g)
    (s := { s with offsets := update s.offsets c offset }) (c := c) os count isProd
    (hLocal ▸ hHome.sound) (by rw [hLocal, hCommitted]; rfl) (update_self ..)
  rw [hLocal] at hRun hData
  exact ⟨_, data, hRun, answer_obtains _ data s rfl, hData⟩

theorem FirstRead.negative (h : FirstRead g s r) (hHome : Represents (s.copies g.home) m)
    (hCommitted : (s.copies g.home).committed = true) (hPrefetch : g.prefetchDataSize = 0)
    (hCount : asInt r.count < 0) :
    Yields (completeRead g s r) (fun s' => s'.offsets r.client = r.offset + asInt r.count) := by
  obtain ⟨sent, hSent, hRun⟩ := h.completes hHome hCommitted hPrefetch
  rw [hRun]
  exact handleRemoteReadReply_negative (r.os 3) hCount _ true h.unread.sound h.unread.not_closed
    (sought_offset r s) fun b => h.unread.sectors ▸ swallowed_nil _ (r.offset + sent.length) b

theorem FirstRead.not_agrees (h : FirstRead g s r) (hHome : Represents (s.copies g.home) m)
    (hCommitted : (s.copies g.home).committed = true) (hPrefetch : g.prefetchDataSize = 0)
    (hLocal : c.node = g.home) (hCount : asInt r.count < 0) : ¬ AgreesWithLocal g s r c isProd := by
  rintro ⟨s1, s2, data, offset, hRun1, ⟨-, -, -, hOffset⟩, hRun2, hObtains2, -⟩
  obtain ⟨t, data2, hLocalRun, hObtains, -⟩ :=
    localRead_obtains hHome hCommitted hLocal (r.os 1 0) r.offset r.count isProd
  cases Except.ok.inj (hRun2.symm.trans hLocalRun)
  have hAfter := hObtains2.offset_eq hObtains
  have hBefore := (h.negative hHome hCommitted hPrefetch hCount).result hRun1
  omega

/-- With replies of any size, the first read on another node agrees with a read on the home node if
and only if no hole follows its offset and its count is not cut by the conversion to an `int`. -/
theorem firstRead_agrees_iff (h : FirstRead g s r) (hHome : Represents (s.copies g.home) m)
    (hCommitted : (s.copies g.home).committed = true) (hPrefetch : g.prefetchDataSize = 0)
    (hLocal : c.node = g.home) : AgreesWithLocal g s r c isProd ↔
      (∀ b, r.offset ≤ b → b < (s.copies g.home).getStoredSize → Covers (s.copies g.home).sectors b) ∧
        (asInt r.count = r.count ∨
          (((s.copies g.home).getStoredSize - r.offset : Nat) : Int) ≤ asInt r.count) := by
  rcases Int.lt_or_le (asInt r.count) 0 with hNegative | hCount
  · refine iff_of_false (h.not_agrees hHome hCommitted hPrefetch hLocal hNegative) ?_
    rintro ⟨-, hSame | hLarge⟩
    · omega
    · omega
  obtain ⟨count, hNat⟩ := Int.eq_ofNat_of_zero_le hCount
  obtain ⟨s1, data1, hRun1, hObtains1, hSectors, hData1⟩ := h.fetches hHome hCommitted hPrefetch hNat
  obtain ⟨s2, data2, hRun2, hObtains2, hData2⟩ :=
    localRead_obtains hHome hCommitted hLocal (r.os 1 0) r.offset r.count isProd
  have hLe : asInt r.count ≤ r.count := asInt_le (Int.natCast_nonneg _)
  constructor
  · rintro ⟨t1, t2, data, offset, hRun1', hBefore, hRun2', hAfter, hCovers⟩
    cases Except.ok.inj (hRun1'.symm.trans hRun1)
    cases Except.ok.inj (hRun2'.symm.trans hRun2)
    rw [hSectors] at hCovers
    have hCovered : ∀ b, r.offset ≤ b → b < (s.copies g.home).getStoredSize →
        Covers (s.copies g.home).sectors b := by
      intro b hb hlt
      refine hCovers b ((covers_cons _ _ b).mpr (.inl ⟨hb, ?_⟩))
      omega
    refine ⟨hCovered, ?_⟩
    -- the offsets of the two clients tell how many bytes each of them obtained
    have hSame := (hObtains1.offset_eq hBefore).trans (hAfter.offset_eq hObtains2)
    rw [bytesCopied_of_covered hHome.separated hCovered] at hSame
    omega
  · rintro ⟨hCovered, hWhole⟩
    have hSame : (s.copies g.home).bytesCopied r.offset r.count =
        min count ((s.copies g.home).getStoredSize - r.offset) := by
      rw [bytesCopied_of_covered hHome.separated hCovered]
      omega
    rw [hSame] at hData2 hObtains2
    have hInside : ∀ k < min count ((s.copies g.home).getStoredSize - r.offset),
        Covers (s.copies g.home).sectors (r.offset + k) :=
      fun k hk => hCovered _ (Nat.le_add_right _ _) (by omega)
    have hData : data1 = data2 := by
      refine Copied.eq (m := (s.copies g.home).contents) ⟨hData1.1, fun k hk v hv => ?_⟩ hData2
        fun k hk => hHome.sound.contents_ne_none (hInside k hk)
      rw [contents_of_covers (hInside k hk)] at hv
      exact hData1.2 k hk v hv
    refine ⟨s1, s2, data1, _, hRun1, hObtains1, hRun2, hData ▸ hObtains2, fun b hb => ?_⟩
    rw [hSectors, covers_cons] at hb
    obtain ⟨hStart, hStop⟩ := hb.resolve_right (covers_nil b)
    exact hCovered b hStart (by omega)

def twoBytesAway : SharedFile :=
  { copies := fun n => if n = ['a'] then twoBytes else .new false 0 false 4 0 }

def readAt (offset count : Nat) : RemoteRead := ⟨consumer, offset, count, fun _ _ => Os.plain 0⟩

theorem unread_new (initSize nCloseExpected : Nat) : Unread (.new false 0 false initSize nCloseExpected) :=
  ⟨rfl, rfl, ⟨rfl, rfl⟩, FileBuffer.not_closed_of_heap rfl⟩

theorem firstRead_agrees_twoBytes : AgreesWithLocal streamed twoBytesAway (readAt 1 8) reader false :=
  (firstRead_agrees_iff ⟨by decide, rfl, rfl, unread_new 4 0, by decide⟩ twoBytes_represents rfl
    rfl rfl).mpr
    ⟨by decide, .inl (by decide)⟩

theorem firstRead_sends_hole : ∃ s s1 s2, (inputs writeAroundHole).foldlM (step streamed) noData = .ok s ∧
    (s.copies ['a']).committed = true ∧ ¬ Covers (s.copies ['a']).sectors 1 ∧
    completeRead streamed s (readAt 0 8) = .ok s1 ∧ s1.receipts = [⟨consumer, [7, 0, 9], false, true⟩] ∧
    Covers (s1.copies ['b']).sectors 1 ∧
    s.handleLocalRead streamed (Os.plain 0) reader 8 false = .ok s2 ∧
    s2.receipts = [⟨reader, [7], false, true⟩] ∧
      ¬ AgreesWithLocal streamed s (readAt 0 8) reader false := by
  refine ⟨_, _, _, rfl, rfl, by decide, rfl, rfl, by decide, rfl, rfl, ?_⟩
  rintro ⟨s1, s2, data, offset, hRun, -, -, -, hCovers⟩
  cases Except.ok.inj hRun
  exact absurd (hCovers 1 (by decide)) (by decide)

end

/-- What a node has of a file: no byte that is not the file's, and no sector that ends behind it. -/
structure CopyOf (f h : CapioFile) : Prop where
  sound : h.Sound
  not_closed : ¬ h.buffer.Closed
  within : ∀ t ∈ h.sectors, t.2 ≤ f.getStoredSize
  agrees : ∀ b v, h.contents b = some v → f.contents b = some v
  real : h.committed = true → h.realFileSize = f.getStoredSize

structure Cached (g : Sharing) (s : SharedFile) : Prop where
  sound : (s.copies g.home).Sound
  committed : (s.copies g.home).committed = true
  whole : (s.copies g.home).sectors = [(0, (s.copies g.home).getStoredSize)]
  idle : s.network = []
  consumers : ∀ c, c.node ≠ g.home → s.producers c = false
  copies : ∀ n ≠ g.home, CopyOf (s.copies g.home) (s.copies n)

/-- A read that asks the home node does not begin behind the end of the file, its count stays
positive as an `int`, and recording the reply closes no hole of what its node has. -/
def Careful (g : Sharing) (s : SharedFile) (r : RemoteRead) : Prop :=
  remoteSource (s.copies r.client.node) r.offset r.count = .home →
    r.offset ≤ (s.copies g.home).getStoredSize ∧ 0 < asInt r.count ∧
      ¬ ClosesGap (s.copies r.client.node).sectors r.offset
        (r.offset + remoteReplySize g.prefetchDataSize (s.copies g.home) r.offset)

def FromElsewhere (g : Sharing) (r : RemoteRead) : Prop := r.client.node ≠ g.home ∧ 0 < r.count

/-- The bytes are those of the file at the offset, as many as there are up to the count, and at least
one if there is one; the node does not go beyond the end of the file, which stays as it is. -/
structure ExactRead (g : Sharing) (s : SharedFile) (r : RemoteRead) (s' : SharedFile) : Prop where
  obtains : ∃ data, Obtains s s' r.client data (r.offset + data.length) ∧
    data = ((s.copies g.home).buffer.bytes.drop r.offset).take data.length ∧
    data.length ≤ min r.count ((s.copies g.home).getStoredSize - r.offset) ∧
    (r.offset < (s.copies g.home).getStoredSize → 0 < data.length)
  covered : ∀ b, Covers (s'.copies r.client.node).sectors b → b < (s.copies g.home).getStoredSize
  size : (s'.copies r.client.node).getStoredSize ≤ (s.copies g.home).getStoredSize
  home : s'.copies g.home = s.copies g.home

structure Recorded (r : RemoteRead) (s' : SharedFile) (S : List Sector) : Prop where
  sectors : (s'.copies r.client.node).sectors = S
  covers : ∀ b, r.offset ≤ b → (b : Int) < s'.offsets r.client → Covers S b

def recordedSectors (g : Sharing) (s : SharedFile) (r : RemoteRead) : List Sector :=
  if remoteSource (s.copies r.client.node) r.offset r.count = .home then
    insertSector (s.copies r.client.node).sectors r.offset
      (r.offset + remoteReplySize g.prefetchDataSize (s.copies g.home) r.offset)
  else (s.copies r.client.node).sectors

instance (g : Sharing) (s : SharedFile) (r : RemoteRead) : Decidable (Careful g s r) :=
  inferInstanceAs (Decidable (_ → _))

section

open SharedFile

theorem Cached.covers_iff (h : Cached g s) (b : Nat) :
    Covers (s.copies g.home).sectors b ↔ b < (s.copies g.home).getStoredSize := by simp [h.whole]

theorem CopyOf.covers_lt (hCopy : CopyOf f h) (hb : Covers h.sectors b) : b < f.getStoredSize := by
  obtain ⟨t, ht, -, hlt⟩ := hb
  exact hlt.trans_le (hCopy.within t ht)

theorem CopyOf.kept (hCopy : CopyOf f h) (hKept : h.Kept h') : CopyOf f h' :=
  ⟨hKept.sound, fun hc => hCopy.not_closed (hKept.closed hc), hKept.sectors ▸ hCopy.within,
    hKept.contents ▸ hCopy.agrees, fun hc => hKept.realFileSize.trans (hCopy.real (hKept.committed ▸ hc))⟩

theorem Cached.exact (h : Cached g s) (hNode : r.client.node ≠ g.home) {f' : CapioFile}
    (hf : CopyOf (s.copies g.home) f) (hKept : f.Kept f') {n : Nat}
    (hData : Copied f.contents r.offset n data)
    (hCovered : ∀ b, r.offset ≤ b → b < r.offset + n → Covers f.sectors b) (hCount : n ≤ r.count)
    (hPos : r.offset < (s.copies g.home).getStoredSize → 0 < n) :
    Cached g ((r.sought s).answer g r.client f' (r.offset + n : Nat) data) ∧
      ExactRead g s r ((r.sought s).answer g r.client f' (r.offset + n : Nat) data) ∧
      Recorded r ((r.sought s).answer g r.client f' (r.offset + n : Nat) data) f.sectors := by
  have hf' := hf.kept hKept
  have hHome : ((r.sought s).answer g r.client f' (r.offset + n : Nat) data).copies g.home =
      s.copies g.home := update_of_ne hNode.symm ..
  have hHere : ((r.sought s).answer g r.client f' (r.offset + n : Nat) data).copies r.client.node = f' :=
    update_self ..
  have hWithin : n ≤ (s.copies g.home).getStoredSize - r.offset := by
    rcases Nat.eq_zero_or_pos n with rfl | hn
    · exact Nat.zero_le _
    · have := hf.covers_lt (hCovered (r.offset + n - 1) (by omega) (by omega))
      omega
  have hOffset : ((r.sought s).answer g r.client f' (r.offset + n : Nat) data).offsets r.client =
      (r.offset + n : Nat) := update_self ..
  refine ⟨⟨?_, ?_, ?_, h.idle, h.consumers, fun k hk => ?_⟩, ⟨⟨data, ?_, ?_, ?_, ?_⟩, ?_, ?_, hHome⟩,
    ⟨?_, fun b hb hlt => hCovered b hb (by rw [hOffset] at hlt; omega)⟩⟩
  · exact hHome.symm ▸ h.sound
  · exact hHome.symm ▸ h.committed
  · rw [hHome]
    exact h.whole
  · rw [hHome]
    by_cases hkn : k = r.client.node
    · rw [hkn, hHere]
      exact hf'
    · have hOther : ((r.sought s).answer g r.client f' (r.offset + n : Nat) data).copies k = s.copies k :=
        update_of_ne hkn ..
      rw [hOther]
      exact h.copies k hk
  · rw [hData.1]
    exact answer_obtains _ _ s rfl
  · refine ext_getElem? fun k => ?_
    rcases Nat.lt_or_ge k n with hk | hk
    · obtain ⟨v, hv⟩ := Option.ne_none_iff_exists'.mp
        (hf.sound.contents_ne_none (hCovered (r.offset + k) (by omega) (by omega)))
      have hSource := hf.agrees _ v hv
      rw [contents_of_covers ((h.covers_iff _).mpr (by omega))] at hSource
      rw [hData.2 k hk v hv, getElem?_take_of_lt (hData.1.symm ▸ hk), getElem?_drop, hSource]
    · rw [getElem?_eq_none (hData.1.trans_le hk), getElem?_eq_none]
      exact (length_take_le _ _).trans (hData.1.trans_le hk)
  · rw [hData.1]
    exact le_min hCount hWithin
  · rw [hData.1]
    exact hPos
  · rw [hHere]
    exact fun b hb => hf'.covers_lt hb
  · rw [hHere]
    exact getFileSize_le hf'.within
  · rw [hHere]
    exact hKept.sectors

theorem bytesCopied_pos_of_end (hCount : 0 < count) (hOffset : offset < size)
    (hEnd : (offset + count : Int) ≤ sectorEnd h offset ∨ max (sectorEnd h offset) 0 = size) :
    0 < h.bytesCopied offset count := by
  grind [sectorEnd_cases]

theorem completeRead_fromCopy (h : Cached g s) (hRead : FromElsewhere g r)
    (hSource : remoteSource (s.copies r.client.node) r.offset r.count ≠ .home) :
    ∃ s', completeRead g s r = .ok s' ∧ Cached g s' ∧ ExactRead g s r s' ∧
      Recorded r s' (s.copies r.client.node).sectors := by
  obtain ⟨hNode, hCount⟩ := hRead
  have hCopy := h.copies _ hNode
  have hRequest := requestRemoteRead_eq (g := g) (s := s) (r := r) (r.os 1 0)
  cases hHere : remoteSource (s.copies r.client.node) r.offset r.count with
  | home => exact absurd hHere hSource
  | localRead =>
    obtain ⟨hCommitted, hEnd⟩ : (s.copies r.client.node).committed = true ∧
        ((r.offset + r.count : Int) ≤ sectorEnd (s.copies r.client.node) r.offset ∨
          max (sectorEnd (s.copies r.client.node) r.offset) 0 =
            (s.copies r.client.node).realFileSize) := by
      grind [remoteSource]
    rw [hCopy.real hCommitted] at hEnd
    obtain ⟨f, data, hRun, hKept, hData⟩ := handleLocalRead_answers (g := g) (s := r.sought s)
      (c := r.client) (r.os 1 0) r.count true hCopy.sound (Bool.or_true _)
      (sought_offset r s)
    rw [hHere] at hRequest
    exact ⟨_, completeRead_here hNode (h.consumers _ hNode) h.idle (hRequest.trans hRun),
      h.exact hNode hCopy hKept hData (fun b hb hlt => bytesCopied_covered hb hlt)
        (bytesCopied_le _ _ _) fun hlt => bytesCopied_pos_of_end hCount hlt hEnd⟩
  | here =>
    have hEnd : (r.offset + r.count : Int) ≤ sectorEnd (s.copies r.client.node) r.offset := by
      grind [remoteSource]
    have hCovered : ∀ b, r.offset ≤ b → b < r.offset + r.count →
        Covers (s.copies r.client.node).sectors b := by
      obtain ⟨hNone, -⟩ | ⟨t, ht, hStart, -, hSome, -⟩ :=
        sectorEnd_cases (s.copies r.client.node) r.offset r.count
      · omega
      · exact fun b hb hlt => ⟨t, ht, hStart.trans hb, by omega⟩
    obtain ⟨f, data, hRun, hKept, hData⟩ := sendRead_answers (g := g) (s := r.sought s) (c := r.client)
      (r.os 1 0) hCopy.sound r.offset r.count hCovered
    rw [hHere] at hRequest
    exact ⟨_, completeRead_here hNode (h.consumers _ hNode) h.idle (hRequest.trans hRun),
      h.exact hNode hCopy hKept hData hCovered (Nat.le_refl _) fun _ => hCount⟩

theorem remoteReplySize_le (prefetch : Nat) (f : CapioFile) (offset : Nat) :
    remoteReplySize prefetch f offset ≤ f.getStoredSize - offset := by
  unfold remoteReplySize
  dsimp only
  split <;> omega

theorem remoteReplySize_pos (prefetch : Nat) (h : offset < f.getStoredSize) :
    0 < remoteReplySize prefetch f offset := by
  unfold remoteReplySize
  dsimp only
  split <;> omega

theorem CopyOf.stored (hCopy : CopyOf f h) (hSound : h'.Sound) (hOpen : ¬ h'.buffer.Closed)
    (hContents : h'.contents = h.contents.put offset data)
    (hSectors : h'.sectors = insertSector h.sectors offset (offset + data.length))
    (hReal : h'.realFileSize = f.getStoredSize) (hEnd : offset + data.length ≤ f.getStoredSize)
    (hData : ∀ k < data.length, data[k]? = f.contents (offset + k)) : CopyOf f h' := by
  refine ⟨hSound, hOpen, ?_, fun b v hv => ?_, fun _ => hReal⟩
  · rw [hSectors]
    exact insertSector_le hCopy.sound.separated (Nat.le_add_right _ _) hCopy.within hEnd
  · rw [hContents, SparseMap.put] at hv
    split at hv
    · grind
    · exact hCopy.agrees b v hv

theorem completeRead_fromHome (h : Cached g s) (hRead : FromElsewhere g r)
    (hSource : remoteSource (s.copies r.client.node) r.offset r.count = .home) (hCareful : Careful g s r) :
    ∃ s', completeRead g s r = .ok s' ∧ Cached g s' ∧ ExactRead g s r s' ∧
      Recorded r s' (insertSector (s.copies r.client.node).sectors r.offset
        (r.offset + remoteReplySize g.prefetchDataSize (s.copies g.home) r.offset)) := by
  obtain ⟨hNode, -⟩ := hRead
  obtain ⟨hOffset, hCount, hGap⟩ := hCareful hSource
  have hCopy := h.copies _ hNode
  have hLe := remoteReplySize_le g.prefetchDataSize (s.copies g.home) r.offset
  obtain ⟨sent, hSend, hSent⟩ := h.sound.sendBytes r.offset
    (remoteReplySize g.prefetchDataSize (s.copies g.home) r.offset)
    fun b _ hlt => (h.covers_iff b).mpr (by omega)
  obtain ⟨count, hNat⟩ := Int.eq_ofNat_of_zero_le hCount.le
  have hCut : asInt r.count ≤ r.count := asInt_le (Int.natCast_nonneg _)
  obtain ⟨f, f', data, hReply, hSound, hOpen, hContents, hSectors, -, hReal, hKept, hData⟩ :=
    handleRemoteReadReply_answers (g := g) (s := r.sought s) (c := r.client) (r.os 3) count
      (s.copies g.home).getStoredSize true hCopy.sound hCopy.not_closed
      (sought_offset r s) fun b hb => hGap (hSent.1 ▸ hb.closesGap)
  have hStored : CopyOf (s.copies g.home) f := by
    refine hCopy.stored hSound hOpen hContents hSectors hReal (by rw [hSent.1]; omega) fun k hk => ?_
    rw [hSent.1] at hk
    obtain ⟨v, hv⟩ := Option.ne_none_iff_exists'.mp
      (h.sound.contents_ne_none ((h.covers_iff (r.offset + k)).mpr (by omega)))
    rw [hv, hSent.2 k hk v hv]
  have hPos : r.offset < (s.copies g.home).getStoredSize → 0 < f.bytesCopied r.offset count := by
    intro hlt
    have hSize := remoteReplySize_pos g.prefetchDataSize hlt
    have hFirst : Covers f.sectors r.offset := by
      rw [hSectors]
      exact (covers_insertSector_iff hCopy.sound.separated (Nat.le_add_right _ _) _).mpr
        (.inr (.inl ⟨Nat.le_refl _, by rw [hSent.1]; omega⟩))
    exact (bytesCopied_pos_iff hSound.separated (by omega)).mpr hFirst
  have hRecorded : insertSector (s.copies r.client.node).sectors r.offset (r.offset +
      remoteReplySize g.prefetchDataSize (s.copies g.home) r.offset) = f.sectors := by
    rw [hSectors, hSent.1]
    rfl
  rw [hRecorded]
  refine ⟨_, ?_, h.exact hNode hStored hKept hData (fun b hb hlt => bytesCopied_covered hb hlt)
    ((bytesCopied_le f r.offset count).trans (by omega)) hPos⟩
  grind [completeRead_home, h.consumers, h.idle, h.committed]

theorem completeRead_exact (h : Cached g s) (hRead : FromElsewhere g r) (hCareful : Careful g s r) :
    ∃ s', completeRead g s r = .ok s' ∧ Cached g s' ∧ ExactRead g s r s' ∧
      Recorded r s' (recordedSectors g s r) := by
  unfold recordedSectors
  grind [completeRead_fromHome, completeRead_fromCopy]

theorem Unread.copyOf (hUnread : Unread h) : CopyOf f h := by
  refine ⟨hUnread.sound, hUnread.not_closed, ?_, fun b v hv => ?_, fun hc => ?_⟩
  · simp [hUnread.sectors]
  · rw [contents_of_not_covers (by rw [hUnread.sectors]; exact covers_nil b)] at hv
    exact absurd hv (Option.some_ne_none v).symm
  · exact absurd (hUnread.uncommitted.symm.trans hc) Bool.false_ne_true

theorem remote_reads_exact (h : Cached g s) (reads : List RemoteRead)
    (hReads : ∀ r' ∈ reads ++ [r], FromElsewhere g r')
    (hCareful : Meets (Careful g) (completeRead g) s (reads ++ [r])) :
    ∃ t s', reads.foldlM (completeRead g) s = .ok t ∧ t.copies g.home = s.copies g.home ∧
      completeRead g t r = .ok s' ∧ ExactRead g t r s' := by
  induction reads generalizing s with
  | nil =>
    obtain ⟨s', hRun, -, hExact, -⟩ := completeRead_exact h (hReads r mem_cons_self) hCareful.1
    exact ⟨s, s', rfl, rfl, hRun, hExact⟩
  | cons q reads ih =>
    obtain ⟨s1, hRun, h1, hExact, -⟩ := completeRead_exact h (hReads q mem_cons_self) hCareful.1
    obtain ⟨t, s', hRest, hHome, hLast⟩ := ih h1 (fun r' hr => hReads r' (List.mem_cons_of_mem _ hr))
      (hCareful.2 s1 hRun)
    refine ⟨t, s', ?_, hHome.trans hExact.home, hLast⟩
    rw [List.foldlM_cons, hRun]
    exact hRest

theorem twoBytesAway_cached : Cached streamed twoBytesAway := by
  refine ⟨twoBytes_represents.sound, rfl, rfl, rfl, fun _ _ => rfl, fun n hn => Unread.copyOf ?_⟩
  have hNew : twoBytesAway.copies n = .new false 0 false 4 0 := if_neg hn
  rw [hNew]
  exact unread_new 4 0

theorem remote_reads_twoBytes : ∃ t s', [readAt 1 8].foldlM (completeRead streamed) twoBytesAway = .ok t ∧
    t.copies ['a'] = twoBytes ∧ completeRead streamed t (readAt 0 1) = .ok s' ∧
    ExactRead streamed t (readAt 0 1) s' :=
  remote_reads_exact twoBytesAway_cached [readAt 1 8]
    (by simp [readAt, FromElsewhere, consumer, streamed])
    (by decide)

def oneByteReplies : Sharing := ⟨['a'], true, .onTermination, 1, 4⟩

def threeBytesAway : SharedFile :=
  { copies := fun n => if n = ['a'] then
      { buffer := ⟨some [7, 8, 9], 3, .heap⟩, committed := true, sectors := [(0, 3)] }
      else .new false 0 false 4 0 }

/-- A read behind the end of the file; and a byte that was never received, between two that were. -/
theorem remote_reads_inexact :
    (∃ s, completeRead streamed twoBytesAway (readAt 5 1) = .ok s ∧ (s.copies ['b']).getStoredSize = 5) ∧
    ∃ s, [readAt 2 1, readAt 0 3].foldlM (completeRead oneByteReplies) threeBytesAway = .ok s ∧
      s.receipts = [⟨consumer, [7, 0, 9], false, true⟩, ⟨consumer, [9], false, true⟩] :=
  ⟨⟨_, rfl, rfl⟩, _, rfl, rfl⟩

end

end Capio.Remote
