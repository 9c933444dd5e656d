import Capio.Remote.FetchedReads
import Capio.Remote.MtclBackend
import Capio.Remote.Requests

/-! # Replies with the data of a large file

A server answers a remote read or copy with the bytes of the file from the offset on, at most
`CAPIO_PREFETCH_DATA_SIZE` of them if that is set, and `MTCLBackend::send_file` refuses more than 4 GiB.
The reads of a client that reads a file from its beginning are followed through the replies; what the
file has not been given a value for is sent as it is in the buffer.
-/
namespace Capio.Remote.LargeReplies

open Common Lib.Outcome Lib.Segments Lib.Format Storage
open Storage.ByteStore Storage.Coverage Storage.Sectors MtclBackend SharedFile Function List

def messageBytes (text : List Char) : List Byte := (text ++ [nul]).map fun c => .ofNat c.toNat

inductive Stop
  | server (e : Failure)
  | backend (e : Fault)
  deriving DecidableEq

variable {m : SparseMap} {n : Node} {count : Nat}

section

variable (prefetchDataSize : Nat) (f : CapioFile)

def sendReadReply (tid fd count : Int) (offset : Nat) (isGetdents : Bool) : Except Stop (List Byte) := do
  let data ← (f.sendBytes offset (remoteReplySize prefetchDataSize f offset)).mapError .server
  let message := Requests.serveRemoteReadRequest tid fd count data.length f.getStoredSize f.committed
    isGetdents
  (sendFile (messageBytes message) data).mapError .backend

/-- The closure `serve` of `handle_remote_copy_file_range_data` with the MTCL backend. -/
def sendCopyReply (tid fdIn fdOut : Int) (offsetIn : Nat) (offsetOut count : Int) :
    Except Stop (List Byte) := do
  let data ← (f.sendBytes offsetIn (remoteReplySize prefetchDataSize f offsetIn)).mapError .server
  let message := Requests.serveRemoteCopyFileRangeRequest tid fdIn fdOut offsetIn offsetOut count
    data.length f.getStoredSize f.committed
  (sendFile (messageBytes message) data).mapError .backend

def Sendable (size offset : Nat) : Prop :=
  size - offset ≤ MTCL_MAX_FILE_TRANSFER_SIZE ∨
    0 < prefetchDataSize ∧ prefetchDataSize ≤ MTCL_MAX_FILE_TRANSFER_SIZE

variable {prefetchDataSize f}

theorem remoteReplySize_eq (offset : Nat) : remoteReplySize prefetchDataSize f offset =
    if prefetchDataSize ≠ 0 ∧ f.getStoredSize - offset > prefetchDataSize then prefetchDataSize
    else f.getStoredSize - offset := by grind [remoteReplySize]

theorem remoteReplySize_le_iff (offset : Nat) :
    remoteReplySize prefetchDataSize f offset ≤ MTCL_MAX_FILE_TRANSFER_SIZE ↔
      Sendable prefetchDataSize f.getStoredSize offset := by
  unfold Sendable
  rw [remoteReplySize_eq]
  split <;> omega

theorem exists_sendBytes (hf : Represents f m) (prefetchDataSize offset : Nat) :
    ∃ data, f.sendBytes offset (remoteReplySize prefetchDataSize f offset) = .ok data ∧
      data.length = remoteReplySize prefetchDataSize f offset := by
  have hSize : f.getStoredSize ≤ f.getBufSize := getFileSize_le hf.fits
  have hLe := remoteReplySize_le prefetchDataSize f offset
  obtain ⟨data, hSend, hData⟩ := CapioFile.sendBytes_inside hf.sized offset
    (remoteReplySize prefetchDataSize f offset) (by omega)
  exact ⟨data, hSend, hData.1⟩

theorem fits_long_of_int {n : Int} (h : Width.int.Fits n) : Width.long.Fits n := by
  obtain ⟨hLow, hHigh⟩ := h
  exact ⟨by omega, by omega⟩

theorem fits_long_bool (b : Bool) : Width.long.Fits b.toNat := fits_long_of_int (fits_bool b)

theorem fits_long_natCast {n : Nat} (h : n < 2 ^ 63) : Width.long.Fits n := ⟨by omega, by omega⟩

theorem sendFile_text_iff (hLength : fs.length ≤ 100)
    (hArgs : ∀ a ∈ args, ∃ n, a = .int n ∧ Width.long.Fits n) (data : List Byte) :
    (∃ frame, sendFile (messageBytes (printf fs args)) data = .ok frame) ↔
      data.length ≤ MTCL_MAX_FILE_TRANSFER_SIZE := by
  have hText := length_printf_le hArgs fs
  have hBytes : (messageBytes (printf fs args)).length = (printf fs args).length + 1 := by
    rw [messageBytes, length_map, length_append, length_singleton]
  have hMax : CAPIO_SERVER_REQUEST_MAX_SIZE = 86016 := rfl
  unfold sendFile
  split
  · next hInvalid =>
    refine iff_of_false ?_ (by omega)
    rintro ⟨frame, hFrame⟩
    cases hFrame
  · exact iff_of_true ⟨_, rfl⟩ (by omega)

theorem mapError_eq_ok {α ε ε' : Type} {x : Except ε α} {h : ε → ε'} {a : α} :
    x.mapError h = .ok a ↔ x = .ok a := by
  cases x with
  | error e => exact ⟨fun he => (by cases he), fun he => (by cases he)⟩
  | ok b => exact ⟨fun hb => congrArg _ (Except.ok.inj hb), fun hb => congrArg _ (Except.ok.inj hb)⟩

theorem sendReadReply_refused (hf : Represents f m) (tid fd count : Int) (offset : Nat)
    (isGetdents : Bool) (hLarge : ¬ Sendable prefetchDataSize f.getStoredSize offset) :
    sendReadReply prefetchDataSize f tid fd count offset isGetdents =
      .error (.backend .invalidRequestOrFile) := by
  obtain ⟨data, hSend, hLength⟩ := exists_sendBytes hf prefetchDataSize offset
  rw [← remoteReplySize_le_iff, ← hLength] at hLarge
  unfold sendReadReply sendFile
  rw [hSend]
  change Except.mapError Stop.backend (if _ then _ else _) = _
  rw [if_pos (.inr (.inr (Nat.lt_of_not_le hLarge)))]
  rfl

section

variable {m : SparseMap} (hf : Represents f m) (hSize : f.getStoredSize < 2 ^ 63)

include hf hSize

theorem exists_reply_iff (text : Nat → List Char) (hText : ∀ n < 2 ^ 63, ∀ data,
      (∃ frame, sendFile (messageBytes (text n)) data = .ok frame) ↔
        data.length ≤ MTCL_MAX_FILE_TRANSFER_SIZE) (offset : Nat) :
    (∃ frame, ((f.sendBytes offset (remoteReplySize prefetchDataSize f offset)).mapError Stop.server >>=
      fun data => (sendFile (messageBytes (text data.length)) data).mapError Stop.backend) = .ok frame) ↔
      Sendable prefetchDataSize f.getStoredSize offset := by
  obtain ⟨data, hSend, hLength⟩ := exists_sendBytes hf prefetchDataSize offset
  have hLe := remoteReplySize_le prefetchDataSize f offset
  rw [hSend, ← remoteReplySize_le_iff, ← hLength, ← hText data.length (by omega) data]
  exact exists_congr fun frame => mapError_eq_ok

variable {tid : Int} (hTid : Width.int.Fits tid)

include hTid

theorem sendReadReply_iff {fd : Int} (hFd : Width.int.Fits fd) (count : Int) (offset : Nat)
    (isGetdents : Bool) :
    (∃ frame, sendReadReply prefetchDataSize f tid fd count offset isGetdents = .ok frame) ↔
      Sendable prefetchDataSize f.getStoredSize offset := by
  refine exists_reply_iff hf hSize (fun n => Requests.serveRemoteReadRequest tid fd count n
    f.getStoredSize f.committed isGetdents) (fun n hn data => sendFile_text_iff (by decide) ?_ data) offset
  simp only [forall_mem_cons, boolArg, Arg.int.injEq, exists_eq_left']
  grind [fits_long_of_int, Requests.fits_asInt, fits_long_natCast, fits_long_bool]

theorem sendCopyReply_iff {fdIn fdOut : Int} (hIn : Width.int.Fits fdIn) (hOut : Width.int.Fits fdOut)
    {offset : Nat} (hOffset : offset < 2 ^ 63) {offsetOut count : Int} (hOffsetOut : Width.long.Fits offsetOut)
    (hCount : Width.long.Fits count) :
    (∃ frame, sendCopyReply prefetchDataSize f tid fdIn fdOut offset offsetOut count = .ok frame) ↔
      Sendable prefetchDataSize f.getStoredSize offset := by
  refine exists_reply_iff hf hSize (fun n => Requests.serveRemoteCopyFileRangeRequest tid fdIn fdOut
    offset offsetOut count n f.getStoredSize f.committed)
    (fun n hn data => sendFile_text_iff (by decide) ?_ data) offset
  simp only [forall_mem_cons, boolArg, Arg.int.injEq, exists_eq_left']
  exact ⟨by decide, fits_long_of_int hTid, fits_long_of_int hIn, fits_long_of_int hOut,
    fits_long_natCast hOffset, hOffsetOut, hCount, fits_long_natCast hn, fits_long_natCast hSize,
    fits_long_bool _, fun a ha => absurd ha not_mem_nil⟩

end

end

/-! ## What other nodes read of a file with holes

The home node sends the bytes of its buffer, so that a client on another node reads the file as if it
had been written without a hole. -/

section

variable {g : Sharing} {s : SharedFile} {c : Client} {f : CapioFile} {r : RemoteRead}

structure SendsAs (f f' : CapioFile) : Prop where
  buffer : f'.buffer = f.buffer
  size : f'.getStoredSize = f.getStoredSize
  committed : f'.committed = f.committed

theorem SendsAs.sendBytes (h : SendsAs f f') (offset : Int) (n : Nat) :
    f'.sendBytes offset n = f.sendBytes offset n := by
  unfold CapioFile.sendBytes CapioFile.loadBytes
  rw [h.buffer]

theorem SendsAs.remoteReplySize (h : SendsAs f f') (prefetchDataSize : Nat) (offset : Int) :
    remoteReplySize prefetchDataSize f' offset = remoteReplySize prefetchDataSize f offset := by
  unfold Storage.remoteReplySize
  rw [h.size]

theorem setCopy_comm (hNe : n ≠ n') (f f' : CapioFile) :
    (s.setCopy n f).setCopy n' f' = (s.setCopy n' f').setCopy n f := by
  unfold setCopy
  rw [update_comm hNe]

theorem SendsAs.setCopy (h : SendsAs (s.copies g.home) f) (hNe : n ≠ g.home) (f' : CapioFile) :
    SendsAs ((s.setCopy n f').copies g.home) f := by
  have hHome : (s.setCopy n f').copies g.home = s.copies g.home := update_of_ne hNe.symm ..
  rw [hHome]
  exact h

theorem copies_setHome (hNe : n ≠ g.home) : (s.setCopy g.home f).copies n = s.copies n :=
  update_of_ne hNe ..

theorem receive_setHome (h : SendsAs (s.copies g.home) f) (data : List Byte) :
    (s.setCopy g.home f).receive g c data = (s.receive g c data).setCopy g.home f := by
  have hMark : ((s.setCopy g.home f).copies g.home).committed = (s.copies g.home).committed := by
    rw [← h.committed]
    exact congrArg _ (update_self ..)
  unfold receive
  rw [hMark]
  rfl

theorem sendNegative_setHome (h : SendsAs (s.copies g.home) f) (offset bytesRead : Int) :
    (s.setCopy g.home f).sendNegative g c offset bytesRead =
      (s.sendNegative g c offset bytesRead).map (setCopy · g.home f) := by
  unfold sendNegative
  split
  · exact congrArg Except.ok (receive_setHome (s := { s with
      offsets := update s.offsets c (offset + bytesRead) }) h [])
  · rfl

section

variable (hNode : c.node ≠ g.home)

include hNode

section

variable (h : SendsAs (s.copies g.home) f)
include h

theorem sendRead_setHome (os : Os) (offset : Int) (n : Nat) :
    (s.setCopy g.home f).sendRead g os c offset n = (s.sendRead g os c offset n).map (setCopy · g.home f) := by
  unfold sendRead
  rw [copies_setHome hNode]
  cases (s.copies c.node).createBuffer os false with
  | error e => rfl
  | ok f1 =>
    rw [ok_bind, ok_bind]
    cases f1.sendBytes offset n with
    | error e => rfl
    | ok data =>
      rw [setCopy_comm hNode.symm]
      exact congrArg Except.ok (receive_setHome (s := { s.setCopy c.node f1 with
        offsets := update s.offsets c (offset + n) }) (h.setCopy hNode f1) data)

theorem handleLocalRead_setHome (os : Os) (count : Nat) (isProd : Bool) :
    (s.setCopy g.home f).handleLocalRead g os c count isProd =
      (s.handleLocalRead g os c count isProd).map (setCopy · g.home f) := by
  have hOffset : (s.setCopy g.home f).offsets c = s.offsets c := rfl
  unfold handleLocalRead
  rw [copies_setHome hNode, hOffset]
  cases localRead g.firable (s.copies c.node) (s.offsets c) count isProd with
  | waitForCommit => rfl
  | waitForData => rfl
  | endOfFile => exact congrArg Except.ok (receive_setHome h [])
  | send n => exact sendRead_setHome hNode h os (s.offsets c) n

theorem requestRemoteRead_setHome (os : Os) (count : Nat) :
    (s.setCopy g.home f).requestRemoteRead g os c count =
      (s.requestRemoteRead g os c count).map (setCopy · g.home f) := by
  have hOffset : (s.setCopy g.home f).offsets c = s.offsets c := rfl
  unfold requestRemoteRead
  rw [copies_setHome hNode, hOffset]
  cases remoteSource (s.copies c.node) (s.offsets c) count with
  | localRead => exact handleLocalRead_setHome hNode h os count true
  | here => exact sendRead_setHome hNode h os (s.offsets c) count
  | home => rfl

theorem handleRemoteReadReply_setHome (os : Nat → Os) (count : Int) (fileSize : Nat) (complete : Bool)
    (data : List Byte) : (s.setCopy g.home f).handleRemoteReadReply g os c count fileSize complete data =
      (s.handleRemoteReadReply g os c count fileSize complete data).map (setCopy · g.home f) := by
  have hOffset : (s.setCopy g.home f).offsets c = s.offsets c := rfl
  unfold handleRemoteReadReply
  rw [copies_setHome hNode, hOffset]
  dsimp only
  by_cases hNegative : s.offsets c < 0
  · rw [if_pos hNegative, if_pos hNegative]
    rfl
  · rw [if_neg hNegative, if_neg hNegative]
    cases storeReply os (s.copies c.node) (s.offsets c).toNat fileSize complete data with
    | error e => rfl
    | ok f1 =>
      have hSame := h.setCopy hNode f1
      rw [ok_bind, ok_bind, setCopy_comm hNode.symm]
      generalize (if sectorEnd f1 (s.offsets c) > s.offsets c + count then count
        else sectorEnd f1 (s.offsets c) - s.offsets c) = bytesRead
      by_cases hBytes : bytesRead < 0
      · rw [if_pos hBytes, if_pos hBytes]
        exact sendNegative_setHome hSame (s.offsets c) bytesRead
      · rw [if_neg hBytes, if_neg hBytes]
        exact sendRead_setHome hNode hSame (os 2) (s.offsets c) bytesRead.toNat

end

end

theorem requestRemoteRead_network (hSource : remoteSource (s.copies c.node) (s.offsets c) count ≠ .home)
    (hRequest : s.requestRemoteRead g os c count = .ok s') : s'.network = s.network := by
  have hSend : ∀ offset n s', s.sendRead g os c offset n = .ok s' → s'.network = s.network := by
    intro offset n s' hRun
    obtain ⟨f, -, hRun⟩ := exists_of_bind_eq_ok hRun
    obtain ⟨data, -, hRun⟩ := exists_of_bind_eq_ok hRun
    cases hRun
    rfl
  unfold requestRemoteRead at hRequest
  split at hRequest
  · unfold handleLocalRead at hRequest
    split at hRequest
    · cases hRequest
      rfl
    · cases hRequest
      rfl
    · cases hRequest
      rfl
    · exact hSend _ _ _ hRequest
  · exact hSend _ _ _ hRequest
  · next hHome => exact absurd hHome hSource

theorem completeRead_setHome (hNode : r.client.node ≠ g.home) (hConsumer : s.producers r.client = false)
    (hIdle : s.network = []) (hCommitted : (s.copies g.home).committed = true)
    (h : SendsAs (s.copies g.home) f) (hSend : (s.copies g.home).sendBytes r.offset
      (remoteReplySize g.prefetchDataSize (s.copies g.home) r.offset) = .ok data) :
    completeRead g (s.setCopy g.home f) r = (completeRead g s r).map (setCopy · g.home f) := by
  have hSought : SendsAs ((r.sought s).copies g.home) f := h
  have hHome : (s.setCopy g.home f).copies g.home = f := update_self ..
  have hConsumer' : (s.setCopy g.home f).producers r.client = false := hConsumer
  have hIdle' : (s.setCopy g.home f).network = [] := hIdle
  by_cases hSource : remoteSource (s.copies r.client.node) r.offset r.count = .home
  · have hSent : ((s.setCopy g.home f).copies g.home).sendBytes r.offset (remoteReplySize g.prefetchDataSize
        ((s.setCopy g.home f).copies g.home) r.offset) = .ok data := by
      rw [hHome, h.remoteReplySize, h.sendBytes, hSend]
    have hMark : ((s.setCopy g.home f).copies g.home).committed = true := by
      rw [hHome, h.committed, hCommitted]
    rw [completeRead_home hNode hConsumer hIdle hCommitted hSource hSend,
      completeRead_home hNode hConsumer' hIdle' hMark ((copies_setHome hNode).symm ▸ hSource) hSent,
      hHome, h.size]
    exact handleRemoteReadReply_setHome hNode hSought (r.os 3) _ _ true data
  · have hRequest := requestRemoteRead_setHome hNode hSought (r.os 1 0) r.count
    rw [completeRead_eq hNode hConsumer, completeRead_eq hNode hConsumer']
    change SharedFile.requestRemoteRead g (r.os 1 0) ((r.sought s).setCopy g.home f) r.client r.count >>= _ = _
    rw [hRequest]
    cases hRun : (r.sought s).requestRemoteRead g (r.os 1 0) r.client r.count with
    | error e => rfl
    | ok s1 =>
      have hNetwork : s1.network = [] := by
        rw [requestRemoteRead_network (by rw [sought_offset]; exact hSource) hRun]
        exact hIdle
      have hLater : (s1.setCopy g.home f).network = [] := hNetwork
      change (step g (s1.setCopy g.home f) ⟨.deliver 0, r.os 2⟩ >>= _) =
        Except.map _ (step g s1 ⟨.deliver 0, r.os 2⟩ >>= _)
      rw [step_deliver_idle hLater, step_deliver_idle hNetwork, ok_bind, ok_bind, step_deliver_idle hLater,
        step_deliver_idle hNetwork]
      rfl

def filled (f : CapioFile) : CapioFile := { f with sectors := [(0, f.getStoredSize)] }

theorem filled_sendsAs (f : CapioFile) : SendsAs (filled f) f := ⟨rfl, rfl, rfl⟩

theorem filled_sound (hf : Represents f m) : (filled f).Sound := by
  have hFits : f.getStoredSize ≤ f.getBufSize := getFileSize_le hf.fits
  refine ⟨?_, hf.sized, fun b hb => ?_⟩
  · refine ⟨fun t ht => ?_, pairwise_singleton _ _⟩
    rw [mem_singleton.mp ht]
    exact Nat.zero_le _
  obtain ⟨-, hLt⟩ := ((covers_cons _ _ _).mp hb).resolve_right (covers_nil b)
  change b < f.buffer.bytes.length
  rw [hf.sized.length_bytes]
  exact hLt.trans_le hFits

end

/-- A read on another node with the MTCL backend: the home node, if it is asked, sends its reply before
the node of the client receives it. -/
def readThroughMtcl (g : Sharing) (s : SharedFile) (r : RemoteRead) : Except Stop SharedFile := do
  if remoteSource (s.copies r.client.node) r.offset r.count = .home then
    let _ ← sendReadReply g.prefetchDataSize (s.copies g.home) r.client.tid r.client.fd r.count r.offset false
  (completeRead g s r).mapError .server

def readOn (g : Sharing) (c : Client) (s : SharedFile) (q : Nat × (Nat → Nat → Os)) :
    Except Stop SharedFile :=
  readThroughMtcl g s ⟨c, (s.offsets c).toNat, q.1, q.2⟩

def received (s : SharedFile) (c : Client) : List Byte :=
  ((s.receipts.filter (·.client = c)).map Receipt.data).reverse.flatten

structure Reading (g : Sharing) (c : Client) (f : CapioFile) (s : SharedFile) (pos : Nat) : Prop where
  cached : Cached g (s.setCopy g.home (filled f))
  home : s.copies g.home = f
  offset : s.offsets c = pos
  le : pos ≤ f.getStoredSize
  starts : ∀ t ∈ (s.copies c.node).sectors, t.1 = 0
  covers : ∀ b < pos, Covers (s.copies c.node).sectors b
  bytes : received s c = f.buffer.bytes.take pos

section

variable {g : Sharing} {s : SharedFile} {c : Client} {f : CapioFile} {m : SparseMap} {pos : Nat}

theorem insertSector_starts (hS : Separated S) (hStarts : ∀ t ∈ S, t.1 = 0) (hStop : pos ≤ stop)
    (hCovers : ∀ b < pos, Covers S b) : ∀ t ∈ insertSector S pos stop, t.1 = 0 := by
  obtain ⟨p, hInsert⟩ := exists_splice hS hStop
  -- a sector that reaches the new one is merged with it
  have hStart : p.start = 0 := by
    rcases Nat.eq_zero_or_pos pos with rfl | hPos
    · exact Nat.le_zero.mp p.start_le
    · obtain ⟨t, ht, -, hLt⟩ := hCovers (pos - 1) (by omega)
      have hZero := hStarts t ht
      have hLe := p.start_le
      rw [p.split, mem_append, mem_append] at ht
      obtain hBefore | hMerged | hAfter := ht
      · have := p.before_lt t hBefore
        omega
      · have := (p.merged_start t hMerged).1
        omega
      · have := (p.after_lt t hAfter).1
        omega
  intro t ht
  grind [p.split, mem_append_left, mem_append_right]

theorem setCopy_self (hHome : s.copies g.home = f) (f' : CapioFile) :
    (s.setCopy g.home f').setCopy g.home f = s := by
  unfold setCopy
  rw [update_idem, ← hHome, update_eq_self]

theorem received_of_obtains (h : Obtains s s' c data offset) : received s' c = received s c ++ data := by
  obtain ⟨producer, committed, hReceipts, -⟩ := h
  unfold received
  rw [hReceipts, filter_cons_of_pos (by simp), map_cons, reverse_cons, flatten_append, flatten_singleton]

section

variable (hNode : c.node ≠ g.home)

include hNode

theorem Reading.recorded (h : Reading g c f s pos) (count : Nat) (os : Nat → Nat → Os) :
    (∀ t ∈ recordedSectors g (s.setCopy g.home (filled f)) ⟨c, pos, count, os⟩, t.1 = 0) ∧
      ∀ b < pos, Covers (recordedSectors g (s.setCopy g.home (filled f)) ⟨c, pos, count, os⟩) b := by
  have hCopy := (h.cached.copies c.node hNode).sound.separated
  unfold recordedSectors
  rw [copies_setHome hNode] at hCopy ⊢
  split
  · refine ⟨insertSector_starts hCopy h.starts (Nat.le_add_right _ _) h.covers, fun b hb => ?_⟩
    exact (covers_insertSector_iff hCopy (Nat.le_add_right _ _) b).mpr (.inl (h.covers b hb))
  · exact ⟨h.starts, h.covers⟩

theorem Reading.careful (h : Reading g c f s pos) (hCount : 0 < count) (hInt : count < 2 ^ 31)
    (os : Nat → Nat → Os) : Careful g (s.setCopy g.home (filled f)) ⟨c, pos, count, os⟩ := by
  have hHome : (s.setCopy g.home (filled f)).copies g.home = filled f := update_self ..
  intro _
  rw [hHome, copies_setHome hNode]
  refine ⟨h.le, ?_, ?_⟩
  · rw [asInt_natCast (by omega)]
    exact Int.natCast_pos.mpr hCount
  · rintro ⟨u, hu, hGap | ⟨t, -, -, -, hGap⟩⟩
    · have := h.starts u hu
      omega
    · have := h.starts u hu
      omega

theorem Reading.step (hf : Represents f m) (hSize : f.getStoredSize < 2 ^ 63)
    (h : Reading g c f s pos) (hTid : Width.int.Fits c.tid) (hFd : Width.int.Fits c.fd)
    (hSendable : Sendable g.prefetchDataSize f.getStoredSize pos) (hCount : 0 < count)
    (hInt : count < 2 ^ 31) (os : Nat → Nat → Os) :
    ∃ s' pos', readOn g c s (count, os) = .ok s' ∧ Reading g c f s' pos' ∧ pos ≤ pos' ∧
      (pos < f.getStoredSize → pos < pos') := by
  have hHome : (s.setCopy g.home (filled f)).copies g.home = filled f := update_self ..
  obtain ⟨sent, hSend, -⟩ := exists_sendBytes hf g.prefetchDataSize pos
  obtain ⟨t, hRun, hCached, hExact, hRecorded⟩ := completeRead_exact h.cached
    (r := ⟨c, pos, count, os⟩) ⟨hNode, hCount⟩ (h.careful hNode hCount hInt os)
  have hHomeAfter : t.copies g.home = filled f := hExact.home.trans hHome
  obtain ⟨data, hObtains, hData, hLength, hPos⟩ := hExact.obtains
  rw [hHome] at hData hLength hPos
  have hOffset : t.offsets c = (pos + data.length : Nat) := by
    obtain ⟨-, -, -, hOffset⟩ := hObtains
    rw [hOffset, Nat.cast_add]
  -- the same read with the file as it is
  have hRead : completeRead g s ⟨c, pos, count, os⟩ = .ok (t.setCopy g.home f) := by
    have hSame : SendsAs ((s.setCopy g.home (filled f)).copies g.home) f := by
      rw [hHome]
      exact filled_sendsAs f
    have hComplete := completeRead_setHome (r := ⟨c, pos, count, os⟩) hNode (h.cached.consumers c hNode)
      h.cached.idle h.cached.committed hSame
      (by rw [← hSame.remoteReplySize, ← hSame.sendBytes]; exact hSend)
    rw [setCopy_self h.home, hRun] at hComplete
    exact hComplete
  have hOn : readOn g c s (count, os) = .ok (t.setCopy g.home f) := by
    obtain ⟨frame, hFrame⟩ := (sendReadReply_iff hf hSize hTid hFd count pos false).mpr hSendable
    unfold readOn readThroughMtcl
    rw [h.offset, Int.toNat_natCast, h.home, hRead, hFrame]
    split <;> rfl
  obtain ⟨hStarts, hCovers⟩ := h.recorded hNode count os
  have hSectors : ((t.setCopy g.home f).copies c.node).sectors =
      recordedSectors g (s.setCopy g.home (filled f)) ⟨c, pos, count, os⟩ := by
    rw [copies_setHome hNode]
    exact hRecorded.sectors
  refine ⟨_, pos + data.length, hOn, ⟨?_, update_self .., hOffset, ?_, ?_, fun b hb => ?_, ?_⟩,
    Nat.le_add_right _ _, ?_⟩
  · rw [setCopy_self hHomeAfter]
    exact hCached
  · have hFilled : (filled f).getStoredSize = f.getStoredSize := rfl
    have := h.le
    dsimp only at hLength
    omega
  · rw [hSectors]
    exact hStarts
  · rw [hSectors]
    rcases Nat.lt_or_ge b pos with hLt | hGe
    · exact hCovers b hLt
    · refine hRecorded.covers b hGe ?_
      rw [hOffset]
      exact Int.ofNat_lt.mpr hb
  · have hReceived : received t c = received s c ++ data := received_of_obtains hObtains
    change received t c = _
    rw [hReceived, h.bytes, take_add]
    exact congrArg _ hData
  · intro hLt
    have := hPos hLt
    omega

end

theorem Reading.run (hf : Represents f m) (hSize : f.getStoredSize < 2 ^ 63) (hNode : c.node ≠ g.home)
    (hTid : Width.int.Fits c.tid) (hFd : Width.int.Fits c.fd)
    (hSendable : ∀ offset, Sendable g.prefetchDataSize f.getStoredSize offset)
    {reads : List (Nat × (Nat → Nat → Os))} (hReads : ∀ q ∈ reads, 0 < q.1 ∧ q.1 < 2 ^ 31)
    (h : Reading g c f s pos) : ∃ s' pos', reads.foldlM (readOn g c) s = .ok s' ∧ Reading g c f s' pos' ∧
      (f.getStoredSize ≤ pos' ∨ pos + reads.length ≤ pos') := by
  induction reads generalizing s pos with
  | nil => exact ⟨s, pos, rfl, h, .inr (Nat.le_refl _)⟩
  | cons q reads ih =>
    obtain ⟨hCount, hInt⟩ := hReads q mem_cons_self
    obtain ⟨s1, pos1, hFirst, h1, hOn, hMore⟩ := h.step hNode hf hSize hTid hFd (hSendable pos) hCount hInt q.2
    obtain ⟨s', pos', hRest, h', hLe⟩ := ih (fun p hp => hReads p (mem_cons_of_mem _ hp)) h1
    refine ⟨s', pos', ?_, h', ?_⟩
    · rw [foldlM_cons, hFirst]
      exact hRest
    · grind

/-- A client of another node that has not begun to read a committed file, which may have holes. -/
structure Unbegun (g : Sharing) (s : SharedFile) : Prop where
  stored : Represents (s.copies g.home) (s.copies g.home).contents
  size : (s.copies g.home).getStoredSize < 2 ^ 63
  committed : (s.copies g.home).committed = true
  idle : s.network = []
  consumers : ∀ c, c.node ≠ g.home → s.producers c = false
  unread : ∀ n ≠ g.home, Unread (s.copies n)
  offsets : ∀ c, s.offsets c = 0
  receipts : s.receipts = []

theorem Unbegun.reading (h : Unbegun g s) (hNode : c.node ≠ g.home) :
    Reading g c (s.copies g.home) s 0 := by
  have hHome : (s.setCopy g.home (filled (s.copies g.home))).copies g.home = filled (s.copies g.home) :=
    update_self ..
  have hSectors := (h.unread c.node hNode).sectors
  refine ⟨⟨?_, ?_, ?_, h.idle, h.consumers, fun n hn => ?_⟩, rfl, h.offsets c, Nat.zero_le _, ?_,
    fun b hb => absurd hb (Nat.not_lt_zero b), ?_⟩
  · rw [hHome]
    exact filled_sound h.stored
  · rw [hHome]
    exact h.committed
  · rw [hHome]
    rfl
  · rw [copies_setHome hn]
    exact (h.unread n hn).copyOf
  · rw [hSectors]
    exact fun t ht => absurd ht not_mem_nil
  · unfold received
    rw [h.receipts]
    rfl

/-- Every reply with data of the file is taken by the backend, and any reads from its beginning, as many
as the file has bytes, deliver the whole file. -/
structure RepliesDeliver (g : Sharing) (s : SharedFile) : Prop where
  read : ∀ tid fd count offset isGetdents, Width.int.Fits tid → Width.int.Fits fd →
    ∃ frame, sendReadReply g.prefetchDataSize (s.copies g.home) tid fd count offset isGetdents = .ok frame
  copy : ∀ tid fdIn fdOut offsetIn offsetOut count, Width.int.Fits tid → Width.int.Fits fdIn →
    Width.int.Fits fdOut → offsetIn < 2 ^ 63 → Width.long.Fits offsetOut → Width.long.Fits count →
    ∃ frame, sendCopyReply g.prefetchDataSize (s.copies g.home) tid fdIn fdOut offsetIn offsetOut count =
      .ok frame
  whole : ∀ (c : Client) (reads : List (Nat × (Nat → Nat → Os))), c.node ≠ g.home → Width.int.Fits c.tid → Width.int.Fits c.fd →
    (∀ q ∈ reads, 0 < q.1 ∧ q.1 < 2 ^ 31) → (s.copies g.home).getStoredSize ≤ reads.length →
    ∃ s', reads.foldlM (readOn g c) s = .ok s' ∧
      received s' c = (s.copies g.home).buffer.bytes.take (s.copies g.home).getStoredSize

/-- The whole file fits into a reply, or the replies are limited to what the backend takes. -/
theorem replies_deliver_iff (h : Unbegun g s) : RepliesDeliver g s ↔
    (s.copies g.home).getStoredSize ≤ MTCL_MAX_FILE_TRANSFER_SIZE ∨
      0 < g.prefetchDataSize ∧ g.prefetchDataSize ≤ MTCL_MAX_FILE_TRANSFER_SIZE := by
  constructor
  · intro hDeliver
    have hFirst := (sendReadReply_iff h.stored h.size (by decide) (by decide) 1 0 false).mp
      (hDeliver.read 0 0 1 0 false (by decide) (by decide))
    unfold Sendable at hFirst
    omega
  · intro hFits
    have hSendable : ∀ offset, Sendable g.prefetchDataSize (s.copies g.home).getStoredSize offset := by
      unfold Sendable
      omega
    refine ⟨fun tid fd count offset isGetdents hTid hFd => ?_,
      fun tid fdIn fdOut offsetIn offsetOut count hTid hIn hOut hOffset hOffsetOut hCount => ?_,
      fun c reads hNode hTid hFd hReads hLength => ?_⟩
    · exact (sendReadReply_iff h.stored h.size hTid hFd count offset isGetdents).mpr (hSendable offset)
    · exact (sendCopyReply_iff h.stored h.size hTid hIn hOut hOffset hOffsetOut hCount).mpr (hSendable offsetIn)
    · obtain ⟨s', pos, hRun, hEnd, hPos⟩ := (h.reading hNode).run h.stored h.size hNode hTid hFd hSendable hReads
      have hLe := hEnd.le
      obtain rfl : pos = (s.copies g.home).getStoredSize := by omega
      exact ⟨s', hRun, hEnd.bytes⟩

theorem twoBytesAway_unbegun : Unbegun streamed twoBytesAway := by
  refine ⟨twoBytes_represents, by decide, rfl, rfl, fun _ _ => rfl, fun n hn => ?_, fun _ => rfl, rfl⟩
  have hNew : twoBytesAway.copies n = .new false 0 false 4 0 := if_neg hn
  rw [hNew]
  exact unread_new 4 0

theorem replies_deliver_twoBytes : RepliesDeliver streamed twoBytesAway :=
  (replies_deliver_iff twoBytesAway_unbegun).mpr (.inl (by decide))

def zeros (n : Nat) : CapioFile where
  buffer := ⟨some (replicate n 0), n, .heap⟩
  committed := true
  sectors := [(0, n)]

def zerosAway (n : Nat) : SharedFile :=
  { copies := fun node => if node = ['a'] then zeros n else .new false 0 false 4 0 }

theorem zerosAway_unbegun {n : Nat} (hSize : n < 2 ^ 63) : Unbegun streamed (zerosAway n) := by
  refine ⟨?_, hSize, rfl, rfl, fun _ _ => rfl, fun node hn => ?_, fun _ => rfl, rfl⟩
  · refine represents_contents ⟨fun t ht => ?_, pairwise_singleton _ _⟩ length_replicate
      fun t ht => ?_
    · rw [mem_singleton.mp ht]
      exact Nat.zero_le _
    · rw [mem_singleton.mp ht]
      exact Nat.le_refl _
  · have hNew : (zerosAway n).copies node = .new false 0 false 4 0 := if_neg hn
    rw [hNew]
    exact unread_new 4 0

/-- A file with one byte more than the backend takes, with the size of the replies not set. -/
theorem large_reply_refused : ∃ s, Unbegun streamed s ∧
    (s.copies ['a']).getStoredSize = 4 * 1024 * 1024 * 1024 + 1 ∧ streamed.prefetchDataSize = 0 ∧
    sendReadReply 0 (s.copies ['a']) 2 3 1 0 false = .error (.backend .invalidRequestOrFile) ∧
    ¬ RepliesDeliver streamed s := by
  have h : Unbegun streamed (zerosAway (4 * 1024 * 1024 * 1024 + 1)) := zerosAway_unbegun (by decide)
  have hLarge : ¬ Sendable 0 (4 * 1024 * 1024 * 1024 + 1) 0 := by
    rintro (hSize | hSet)
    · exact absurd hSize (by decide)
    · exact absurd hSet.1 (by decide)
  have hRefused := sendReadReply_refused h.stored 2 3 1 0 false hLarge
  refine ⟨_, h, rfl, rfl, hRefused, fun hDeliver => ?_⟩
  obtain ⟨frame, hFrame⟩ := hDeliver.read 2 3 1 0 false (by decide) (by decide)
  cases hRefused.symm.trans hFrame

end

end Capio.Remote.LargeReplies
