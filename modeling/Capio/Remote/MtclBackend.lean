import Capio.Common.Types
import Capio.Lib.BigEndian

/-! # Frames through MTCL

A request to another server and the bytes it announces are one MTCL message, with a header that has
the type of the message and the two sizes.  The receiving server checks the header before it takes
the request, and keeps the frame for `recv_file` when bytes follow the request.  MTCL delivers a
message whole.
-/
namespace Capio.Remote.MtclBackend

open Common Lib.BigEndian List

variable {request payload frame : List Byte} {source : Node}

def CAPIO_SERVER_REQUEST_MAX_SIZE : Nat := 4096 + 81920

def MTCL_HEADER_SIZE : Nat := 17

def MTCL_MAX_FILE_TRANSFER_SIZE : Nat := 4 * 1024 * 1024 * 1024

def MTCL_MAX_FRAME_SIZE : Nat :=
  MTCL_HEADER_SIZE + CAPIO_SERVER_REQUEST_MAX_SIZE + MTCL_MAX_FILE_TRANSFER_SIZE

inductive MessageType
  | request
  | requestWithFile
  deriving DecidableEq

def MessageType.code : MessageType → Byte
  | .request => 1
  | .requestWithFile => 2

/-- The loop of `write_u64`, which writes the last of `i` bytes first. -/
def writeBytes : Nat → UInt64 → List Byte
  | 0, _ => []
  | i + 1, value => writeBytes i (value >>> 8) ++ [value.toUInt8]

def writeU64 (value : UInt64) : List Byte := writeBytes 8 value

def readU64 (source : List Byte) : UInt64 :=
  (source.take 8).foldl (fun value byte => (value <<< 8) ||| byte.toUInt64) 0

def sendFrame (message : List Byte) (file : Option (List Byte)) : List Byte :=
  let type := if file.isNone then MessageType.request else MessageType.requestWithFile
  let bytes := file.getD []
  [type.code] ++ writeU64 (.ofNat message.length) ++ writeU64 (.ofNat bytes.length) ++ message ++
    bytes

/-- `std::invalid_argument`, and the `std::runtime_error` of `recv_file`. -/
inductive Fault
  | invalidRequest
  | invalidRequestOrFile
  | invalidDestination
  | fileMismatch
  deriving DecidableEq

def sendRequest (message : List Byte) : Except Fault (List Byte) :=
  if message.length = 0 ∨ CAPIO_SERVER_REQUEST_MAX_SIZE < message.length then throw .invalidRequest
  else pure (sendFrame message none)

def sendFile (message shm : List Byte) : Except Fault (List Byte) :=
  if message.length = 0 ∨ CAPIO_SERVER_REQUEST_MAX_SIZE < message.length ∨
      MTCL_MAX_FILE_TRANSFER_SIZE < shm.length then throw .invalidRequestOrFile
  else pure (sendFrame message (if shm.length = 0 then none else some shm))

structure Header where
  type : Byte
  requestSize : UInt64
  fileSize : UInt64
  deriving DecidableEq

def readHeader (frame : List Byte) : Header :=
  ⟨frame.headD 0, readU64 (frame.drop 1), readU64 (frame.drop 9)⟩

inductive Rejection
  | frameSize
  | messageType
  | requestSize
  | fileSize
  | fileExpected
  | payloadSize
  deriving DecidableEq

def Header.expectsFile (h : Header) : Bool := h.type == MessageType.requestWithFile.code

def Header.hasFile (h : Header) : Bool := h.fileSize != 0

def Header.check (h : Header) : Except Rejection Unit :=
  if h.type ≠ MessageType.request.code ∧ h.type ≠ MessageType.requestWithFile.code then
    throw .messageType
  else if h.requestSize.toNat = 0 ∨ CAPIO_SERVER_REQUEST_MAX_SIZE < h.requestSize.toNat then
    throw .requestSize
  else if MTCL_MAX_FILE_TRANSFER_SIZE < h.fileSize.toNat then throw .fileSize
  else if h.expectsFile ≠ h.hasFile then throw .fileExpected
  else pure ()

/-- `PendingFile`: the frame holds the bytes, from `offset` on. -/
structure PendingFile where
  source : Node
  frame : List Byte
  offset : Nat
  deriving DecidableEq

def PendingFile.bytes (p : PendingFile) : List Byte := p.frame.drop p.offset

/-- What `read_next_request` does with one frame: a rejection removes the connection of its sender,
otherwise the request is returned and the file, if there is one, waits for `recv_file`. -/
def receiveFrame (source : Node) (frame : List Byte) :
    Except Rejection (List Byte × Option PendingFile) :=
  if frame.length < MTCL_HEADER_SIZE ∨ MTCL_MAX_FRAME_SIZE < frame.length then throw .frameSize
  else
    let h := readHeader frame
    match h.check with
    | .error r => throw r
    | .ok () =>
      -- the sum is one of two `uint64_t`
      if (h.requestSize + h.fileSize).toNat ≠ frame.length - MTCL_HEADER_SIZE then throw .payloadSize
      else
        let fileBegin := MTCL_HEADER_SIZE + h.requestSize.toNat
        pure ((frame.take fileBegin).drop MTCL_HEADER_SIZE,
          if h.expectsFile then some ⟨source, frame, fileBegin⟩ else none)

def recvFile (pending : Option PendingFile) (bytesExpected : Int) (source : Node) :
    Except Fault (List Byte × Option PendingFile) :=
  if bytesExpected < 0 then throw .invalidDestination
  else
    match pending with
    | none => throw .fileMismatch
    | some p =>
      if p.source ≠ source ∨ ((p.frame.length - p.offset : Nat) : Int) ≠ bytesExpected then
        throw .fileMismatch
      else pure ((p.frame.drop p.offset).take bytesExpected.toNat, none)

structure State where
  pendingFile : Option PendingFile := none
  openConnections : List Node := []

def nextRequest (s : State) : List (Node × List Byte) →
    Option (List Byte × Node) × State × List (Node × List Byte)
  | [] => (none, s, [])
  | (source, frame) :: rest =>
    match receiveFrame source frame with
    | .ok (request, pending) => (some (request, source), { s with pendingFile := pending }, rest)
    | .error _ => nextRequest { s with openConnections := s.openConnections.erase source } rest

def readNextRequest (s : State) (messages : List (Node × List Byte)) :
    Option (List Byte × Node) × State × List (Node × List Byte) :=
  nextRequest { s with pendingFile := none } messages

theorem writeBytes_eq (i : Nat) (value : UInt64) : writeBytes i value = encode i value.toNat := by
  induction i generalizing value with
  | zero => rfl
  | succ i ih =>
      have hShift : (value >>> 8).toNat = value.toNat / 256 := by simp [Nat.shiftRight_eq_div_pow]
      have hLast : value.toUInt8 = UInt8.ofNat value.toNat := by
        apply UInt8.toNat_inj.mp
        simp
      rw [writeBytes, encode, ih, hShift, hLast]

@[simp] theorem length_writeU64 (value : UInt64) : (writeU64 value).length = 8 := by
  rw [writeU64, writeBytes_eq, length_encode]

theorem toNat_shift_or (value : UInt64) (byte : Byte) (hValue : value.toNat < bound 7) :
    ((value <<< 8) ||| byte.toUInt64).toNat = value.toNat * 256 + byte.toNat := by
  have hBound : bound 7 = 72057594037927936 := by decide
  have hByte := byte.toNat_lt
  have hShift : (value <<< 8).toNat = value.toNat <<< 8 := by grind [UInt64.toNat_shiftLeft, Nat.shiftLeft_eq]
  rw [UInt64.toNat_or, hShift, UInt8.toNat_toUInt64,
    ← Nat.shiftLeft_add_eq_or_of_lt (by simpa using hByte),
    Nat.shiftLeft_eq]

theorem toNat_foldl (bytes : List Byte) (hLength : bytes.length ≤ 8) :
    (bytes.foldl (fun (value : UInt64) byte => (value <<< 8) ||| byte.toUInt64) 0).toNat =
      decode bytes := by
  induction bytes using reverseRecOn with
  | nil => rfl
  | append_singleton bytes byte ih =>
      simp only [length_append, length_singleton] at hLength
      have hRest := ih (by omega)
      have hLt : decode bytes < bound 7 := Nat.lt_of_lt_of_le (decode_lt bytes) (bound_mono (by omega))
      rw [foldl_append, foldl_cons, foldl_nil, toNat_shift_or _ _ (hRest ▸ hLt), hRest,
        decode_append_singleton]

theorem toNat_readU64 (source : List Byte) : (readU64 source).toNat = decode (source.take 8) :=
  toNat_foldl _ (length_take_le 8 source)

theorem readU64_writeU64 (value : UInt64) (rest : List Byte) :
    readU64 (writeU64 value ++ rest) = value := by
  apply UInt64.toNat_inj.mp
  rw [toNat_readU64, take_left' (length_writeU64 value), writeU64, writeBytes_eq, decode_encode]
  exact value.toNat_lt

theorem writeU64_readU64 (source : List Byte) (hLength : 8 ≤ source.length) :
    writeU64 (readU64 source) = source.take 8 := by
  have hDecode := encode_decode (source.take 8)
  rw [length_take, Nat.min_eq_left hLength] at hDecode
  rw [writeU64, writeBytes_eq, toNat_readU64, hDecode]

structure ValidTransfer (request payload : List Byte) : Prop where
  request_pos : 0 < request.length
  request_le : request.length ≤ CAPIO_SERVER_REQUEST_MAX_SIZE
  payload_le : payload.length ≤ MTCL_MAX_FILE_TRANSFER_SIZE

instance (request payload : List Byte) : Decidable (ValidTransfer request payload) :=
  decidable_of_iff (0 < request.length ∧ request.length ≤ CAPIO_SERVER_REQUEST_MAX_SIZE ∧
      payload.length ≤ MTCL_MAX_FILE_TRANSFER_SIZE)
    ⟨fun h => ⟨h.1, h.2.1, h.2.2⟩, fun h => ⟨h.1, h.2, h.3⟩⟩

def frameOf (request payload : List Byte) : List Byte :=
  sendFrame request (if payload.length = 0 then none else some payload)

def frameType (payload : List Byte) : MessageType :=
  if payload.length = 0 then .request else .requestWithFile

theorem sendFile_eq (hValid : ValidTransfer request payload) :
    sendFile request payload = .ok (frameOf request payload) := by
  obtain ⟨hPos, hLe, hFile⟩ := hValid
  exact if_neg (by omega)

theorem sendRequest_eq (hValid : ValidTransfer request []) :
    sendRequest request = .ok (frameOf request []) := by
  obtain ⟨hPos, hLe, -⟩ := hValid
  exact if_neg (by omega)

theorem frameOf_eq (request payload : List Byte) :
    frameOf request payload = [(frameType payload).code] ++ writeU64 (.ofNat request.length) ++
      writeU64 (.ofNat payload.length) ++ (request ++ payload) := by
  unfold frameOf frameType sendFrame
  split
  · next hEmpty =>
    obtain rfl := eq_nil_of_length_eq_zero hEmpty
    simp
  · simp

theorem length_frameOf (request payload : List Byte) :
    (frameOf request payload).length = MTCL_HEADER_SIZE + request.length + payload.length := by
  simp only [frameOf_eq, length_append, length_singleton, length_writeU64, MTCL_HEADER_SIZE]
  omega

theorem readHeader_frameOf (request payload : List Byte) : readHeader (frameOf request payload) =
      ⟨(frameType payload).code, .ofNat request.length, .ofNat payload.length⟩ := by
  have hDrop : (frameOf request payload).drop 9 =
      writeU64 (.ofNat payload.length) ++ (request ++ payload) := by
    rw [frameOf_eq, append_assoc, drop_left' (by simp)]
  unfold readHeader
  rw [hDrop, readU64_writeU64, frameOf_eq]
  simp only [append_assoc, cons_append, headD_cons, drop_one, tail_cons, nil_append, readU64_writeU64]

structure Header.Accepted (h : Header) : Prop where
  type_eq : h.type = if h.fileSize.toNat = 0 then MessageType.request.code
    else MessageType.requestWithFile.code
  request_pos : 0 < h.requestSize.toNat
  request_le : h.requestSize.toNat ≤ CAPIO_SERVER_REQUEST_MAX_SIZE
  file_le : h.fileSize.toNat ≤ MTCL_MAX_FILE_TRANSFER_SIZE

theorem Header.check_eq_ok_iff (h : Header) : h.check = .ok () ↔ h.Accepted := by
  have hFile : h.hasFile = false ↔ h.fileSize.toNat = 0 := by
    rw [Header.hasFile, bne_eq_false_iff_eq, ← UInt64.toNat_inj]
    rfl
  constructor
  · intro hCheck
    unfold Header.check at hCheck
    split at hCheck
    · contradiction
    split at hCheck
    · contradiction
    split at hCheck
    · contradiction
    split at hCheck
    · contradiction
    next hType hRequest hMax hExpected =>
      refine ⟨?_, by omega, by omega, by omega⟩
      grind [Header.expectsFile]
  · rintro ⟨hType, hPos, hLe, hMax⟩
    have hExpected : h.expectsFile = h.hasFile := by
      unfold Header.expectsFile
      split at hType
      · next hZero => rw [hType, hFile.mpr hZero]; rfl
      · next hNonzero => rw [hType, eq_true_of_ne_false (mt hFile.mp hNonzero)]; rfl
    unfold Header.check
    rw [if_neg, if_neg (by omega), if_neg (by omega), if_neg (not_not.mpr hExpected)]
    · rfl
    · grind

theorem Header.Accepted.toNat_add {h : Header} (hAccepted : h.Accepted) :
    (h.requestSize + h.fileSize).toNat = h.requestSize.toNat + h.fileSize.toNat := by
  obtain ⟨-, -, hLe, hMax⟩ := hAccepted
  rw [UInt64.toNat_add]
  apply Nat.mod_eq_of_lt
  simp only [CAPIO_SERVER_REQUEST_MAX_SIZE, MTCL_MAX_FILE_TRANSFER_SIZE] at hLe hMax
  omega

theorem ValidTransfer.accepted (hValid : ValidTransfer request payload) :
    (readHeader (frameOf request payload)).Accepted ∧
      (readHeader (frameOf request payload)).requestSize.toNat = request.length ∧
      (readHeader (frameOf request payload)).fileSize.toNat = payload.length := by
  obtain ⟨hPos, hLe, hFile⟩ := hValid
  have hRequestMax : CAPIO_SERVER_REQUEST_MAX_SIZE = 86016 := rfl
  have hFileMax : MTCL_MAX_FILE_TRANSFER_SIZE = 4294967296 := rfl
  have hRequest : (UInt64.ofNat request.length).toNat = request.length :=
    UInt64.toNat_ofNat_of_lt' (by simp only [UInt64.size]; omega)
  have hPayload : (UInt64.ofNat payload.length).toNat = payload.length :=
    UInt64.toNat_ofNat_of_lt' (by simp only [UInt64.size]; omega)
  rw [readHeader_frameOf]
  refine ⟨⟨?_, ?_, ?_, ?_⟩, hRequest, hPayload⟩
  · simp only [hPayload, frameType]
    split <;> rfl
  · simpa only [hRequest] using hPos
  · simpa only [hRequest] using hLe
  · simpa only [hPayload] using hFile

theorem Header.Accepted.expectsFile_iff {h : Header} (hAccepted : h.Accepted) :
    h.expectsFile = true ↔ h.fileSize.toNat ≠ 0 := by
  simp [Header.expectsFile, hAccepted.type_eq, MessageType.code]

theorem receiveFrame_eq_ok_iff : receiveFrame source frame = .ok result ↔
      MTCL_HEADER_SIZE ≤ frame.length ∧ (readHeader frame).Accepted ∧
      (readHeader frame).requestSize.toNat + (readHeader frame).fileSize.toNat =
        frame.length - MTCL_HEADER_SIZE ∧
      result = ((frame.drop MTCL_HEADER_SIZE).take (readHeader frame).requestSize.toNat,
        if (readHeader frame).fileSize.toNat = 0 then none
        else some ⟨source, frame, MTCL_HEADER_SIZE + (readHeader frame).requestSize.toNat⟩) := by
  have hValue (h : Header) (hAccepted : h.Accepted) :
      ((frame.take (MTCL_HEADER_SIZE + h.requestSize.toNat)).drop MTCL_HEADER_SIZE, if h.expectsFile then
          some (PendingFile.mk source frame (MTCL_HEADER_SIZE + h.requestSize.toNat)) else none) =
      ((frame.drop MTCL_HEADER_SIZE).take h.requestSize.toNat, if h.fileSize.toNat = 0 then none
        else some ⟨source, frame, MTCL_HEADER_SIZE + h.requestSize.toNat⟩) := by
    rw [drop_take, Nat.add_sub_cancel_left]
    have hExpects := hAccepted.expectsFile_iff
    grind
  unfold receiveFrame
  constructor
  · intro hOk
    split at hOk
    · contradiction
    next hSize =>
    dsimp only at hOk
    split at hOk
    · contradiction
    next hCheck =>
    have hAccepted := (Header.check_eq_ok_iff _).mp hCheck
    split at hOk
    · contradiction
    next hSum =>
    rw [hAccepted.toNat_add, ne_eq, not_not] at hSum
    refine ⟨by omega, hAccepted, hSum, ?_⟩
    rw [← Except.ok.inj hOk]
    exact hValue _ hAccepted
  · rintro ⟨hSize, hAccepted, hSum, rfl⟩
    have hMax : ¬(frame.length < MTCL_HEADER_SIZE ∨ MTCL_MAX_FRAME_SIZE < frame.length) := by
      have hRequest := hAccepted.request_le
      have hFile := hAccepted.file_le
      simp only [MTCL_MAX_FRAME_SIZE]
      omega
    have hCheck := (Header.check_eq_ok_iff _).mpr hAccepted
    rw [if_neg hMax]
    dsimp only
    rw [hCheck]
    rw [if_neg (by rw [hAccepted.toNat_add]; exact not_not.mpr hSum), hValue _ hAccepted]
    rfl

def pendingOf (source : Node) (request payload : List Byte) : Option PendingFile :=
  if payload.length = 0 then none
  else some ⟨source, frameOf request payload, MTCL_HEADER_SIZE + request.length⟩

theorem drop_header_frameOf (request payload : List Byte) :
    (frameOf request payload).drop MTCL_HEADER_SIZE = request ++ payload := by
  rw [frameOf_eq, drop_left' (by simp [MTCL_HEADER_SIZE])]

theorem receiveFrame_frameOf (source : Node) (hValid : ValidTransfer request payload) :
    receiveFrame source (frameOf request payload) = .ok (request, pendingOf source request payload) := by
  obtain ⟨hAccepted, hRequest, hFile⟩ := hValid.accepted
  rw [receiveFrame_eq_ok_iff, hRequest, hFile, drop_header_frameOf, length_frameOf]
  refine ⟨by omega, hAccepted, by omega, ?_⟩
  rw [take_left' rfl]
  rfl

def pendingBytes : Option PendingFile → List Byte
  | some p => p.bytes
  | none => []

theorem pendingBytes_pendingOf (source : Node) (request payload : List Byte) :
    pendingBytes (pendingOf source request payload) = payload := by
  unfold pendingOf
  split
  · next hEmpty => exact (eq_nil_of_length_eq_zero hEmpty).symm
  · rw [pendingBytes, PendingFile.bytes, ← drop_drop, drop_header_frameOf, drop_left' rfl]

theorem recvFile_some (p : PendingFile) :
    recvFile (some p) p.bytes.length p.source = .ok (p.bytes, none) := by
  have hLength : p.bytes.length = p.frame.length - p.offset := by simp [PendingFile.bytes]
  unfold recvFile
  rw [if_neg (by omega)]
  dsimp only
  rw [if_neg (by rw [hLength]; simp), Int.toNat_natCast, ← PendingFile.bytes, take_length]
  rfl

theorem header_append_rest (hLength : 0 < frame.length) :
    [frame.headD 0] ++ (frame.drop 1).take 8 ++ (frame.drop 9).take 8 ++
      frame.drop MTCL_HEADER_SIZE = frame := by
  obtain ⟨byte, rest, rfl⟩ := exists_cons_of_length_pos hLength
  have hRest : (rest.drop 8).take 8 ++ (rest.drop 8).drop 8 = rest.drop 8 := take_append_drop 8 _
  rw [drop_drop] at hRest
  simp only [headD_cons, drop_succ_cons, drop_zero, MTCL_HEADER_SIZE,
    append_assoc, hRest, cons_append, nil_append, take_append_drop]

theorem frameOf_of_receiveFrame (hOk : receiveFrame source frame = .ok (request, pending)) :
    ValidTransfer request (pendingBytes pending) ∧ frameOf request (pendingBytes pending) = frame := by
  obtain ⟨hSize, hAccepted, hSum, hResult⟩ := receiveFrame_eq_ok_iff.mp hOk
  have hHeader : MTCL_HEADER_SIZE = 17 := rfl
  obtain ⟨rfl, rfl⟩ := Prod.mk.inj hResult
  have hPayload : pendingBytes (if (readHeader frame).fileSize.toNat = 0 then none
      else some ⟨source, frame, MTCL_HEADER_SIZE + (readHeader frame).requestSize.toNat⟩) =
      (frame.drop MTCL_HEADER_SIZE).drop (readHeader frame).requestSize.toNat := by
    split
    · rw [drop_drop, drop_eq_nil_of_le (by omega)]
      rfl
    · rw [drop_drop]
      rfl
  have hRequestLength : ((frame.drop MTCL_HEADER_SIZE).take
      (readHeader frame).requestSize.toNat).length = (readHeader frame).requestSize.toNat := by
    simp only [length_take, length_drop]
    omega
  have hPayloadLength : ((frame.drop MTCL_HEADER_SIZE).drop
      (readHeader frame).requestSize.toNat).length = (readHeader frame).fileSize.toNat := by
    simp only [length_drop]
    omega
  rw [hPayload]
  refine ⟨⟨?_, ?_, ?_⟩, ?_⟩
  · rw [hRequestLength]
    exact hAccepted.request_pos
  · rw [hRequestLength]
    exact hAccepted.request_le
  · rw [hPayloadLength]
    exact hAccepted.file_le
  · have hType : (frameType ((frame.drop MTCL_HEADER_SIZE).drop
        (readHeader frame).requestSize.toNat)).code = frame.headD 0 := by
      have hEq : frame.headD 0 = _ := hAccepted.type_eq
      rw [hEq, frameType, hPayloadLength]
      split <;> rfl
    -- the two sizes are written as they were read
    grind [readHeader, frameOf_eq, UInt64.ofNat_toNat, take_append_drop, length_drop, writeU64_readU64, header_append_rest]

theorem nextRequest_of_ok (hOk : receiveFrame source frame = .ok (request, pending)) :
    nextRequest s ((source, frame) :: rest) =
      (some (request, source), { s with pendingFile := pending }, rest) := by
  simp only [nextRequest, hOk]

/-- A frame and its request and bytes determine each other, and the checks take exactly the frames;
after the checks of the header no sum of sizes wraps. -/
theorem framing_bijective :
    (∀ (source : Node) (request payload : List Byte), ValidTransfer request payload →
      ∃ frame pending, sendFile request payload = .ok frame ∧
        (payload = [] → sendRequest request = .ok frame) ∧
        receiveFrame source frame = .ok (request, pending) ∧
        (∀ s rest, readNextRequest s ((source, frame) :: rest) =
          (some (request, source), { s with pendingFile := pending }, rest)) ∧
        (payload = [] → pending = none) ∧
        (payload ≠ [] → (∃ p, pending = some p ∧ p.source = source ∧ p.bytes = payload) ∧
          recvFile pending payload.length source = .ok (payload, none))) ∧
    (∀ (source : Node) (frame : List Byte), (∃ result, receiveFrame source frame = .ok result) ↔
        ∃ request payload, ValidTransfer request payload ∧ sendFile request payload = .ok frame) ∧
    (∀ (source : Node) (frame request : List Byte) (pending : Option PendingFile),
      receiveFrame source frame = .ok (request, pending) →
        sendFile request (pendingBytes pending) = .ok frame) ∧
    (∀ header : List Byte, header.length = MTCL_HEADER_SIZE → (readHeader header).check = .ok () →
        ((readHeader header).requestSize + (readHeader header).fileSize).toNat =
          (readHeader header).requestSize.toNat + (readHeader header).fileSize.toNat ∧
        MTCL_HEADER_SIZE + (readHeader header).requestSize.toNat < UInt64.size) := by
  refine ⟨?_, ?_, ?_, ?_⟩
  · intro source request payload hValid
    have hReceive := receiveFrame_frameOf source hValid
    refine ⟨_, _, sendFile_eq hValid, ?_, hReceive, fun _ _ => nextRequest_of_ok hReceive, ?_, ?_⟩
    · rintro rfl
      exact sendRequest_eq hValid
    · rintro rfl
      rfl
    · intro hPayload
      have hPending := pendingBytes_pendingOf source request payload
      unfold pendingOf at hPending ⊢
      rw [if_neg (mt List.eq_nil_of_length_eq_zero hPayload)] at hPending ⊢
      refine ⟨⟨_, rfl, rfl, hPending⟩, ?_⟩
      have hRecv := recvFile_some ⟨source, frameOf request payload, MTCL_HEADER_SIZE + request.length⟩
      rwa [show PendingFile.bytes _ = payload from hPending] at hRecv
  · intro source frame
    constructor
    · rintro ⟨⟨request, pending⟩, hOk⟩
      obtain ⟨hValid, hFrame⟩ := frameOf_of_receiveFrame hOk
      exact ⟨request, _, hValid, hFrame ▸ sendFile_eq hValid⟩
    · rintro ⟨request, payload, hValid, hSend⟩
      rw [sendFile_eq hValid] at hSend
      exact ⟨_, Except.ok.inj hSend ▸ receiveFrame_frameOf source hValid⟩
  · intro source frame request pending hOk
    obtain ⟨hValid, hFrame⟩ := frameOf_of_receiveFrame hOk
    rw [sendFile_eq hValid, hFrame]
  · intro header _ hCheck
    have hAccepted := (Header.check_eq_ok_iff _).mp hCheck
    refine ⟨hAccepted.toNat_add, ?_⟩
    have hLe := hAccepted.request_le
    simp only [CAPIO_SERVER_REQUEST_MAX_SIZE, MTCL_HEADER_SIZE, UInt64.size] at hLe ⊢
    omega

theorem framing_bijective_two_bytes :
    ValidTransfer [48] [7, 8] ∧ ∃ frame pending, sendFile [48] [7, 8] = .ok frame ∧
      receiveFrame "n".toList frame = .ok ([48], pending) ∧
      recvFile pending 2 "n".toList = .ok ([7, 8], none) := by
  have hValid : ValidTransfer [48] [7, 8] := by decide
  obtain ⟨frame, pending, hSend, -, hReceive, -, -, hFile⟩ :=
    framing_bijective.1 "n".toList [48] [7, 8] hValid
  exact ⟨hValid, frame, pending, hSend, hReceive, (hFile (by decide)).2⟩

end Capio.Remote.MtclBackend
