import Capio.Posix.Requests
import Capio.Remote.Requests
import Capio.Server.OffsetOrder

/-! # The turns of the threads of a server

For one request the request thread, detached threads, the listener and the threads of other servers
take turns: a thread writes replies, and then it ends, starts another thread or sends a message.  What a
thread finds in the tables and in the files at its turn is arbitrary.
-/
namespace Capio.Server.Turns

open Common Storage

open OffsetOrder (entryAt)

structure Client where
  node : Node
  tid : Int
  deriving DecidableEq

structure Settings where
  engine : CapioCLEngine
  capioDir : Path
  prefetchDataSize : Nat

/-- What a thread finds: the file of the request, which is the input for a copy, and whether it is stored
under the path; whether its location is in the table, whether it can be loaded, and the node it names;
what two addresses of the name of that node compare to; whether the client is a producer, to the engine
and to the client manager; the path and the offset of the descriptor; the result of an operation on the
tables; and whether a cloned thread may continue. -/
structure View where
  file : CapioFile
  stored : Bool
  located : Bool
  loaded : Bool
  location : Node
  own : Bool
  isProducer : Bool
  produced : Bool
  path : Path
  offset : Int
  result : Int
  allowed : Bool

structure Copy where
  tid : Int
  fdIn : Int
  fdOut : Int
  offsetIn : Int
  offsetOut : Int
  count : Int
  pathIn : Path

/-- The detached threads with what they were started with.  The last three run on the node of the file.
Those that have no name in the source wait for the commit or the data of a file that is read or copied,
or for the location of one that is copied or of a directory, and the cloned child for its parent. -/
inductive Thread
  | waitForFile (path : Path) (tid fd count : Int)
  | pendingRead (commit : Bool) (tid fd processOffset count : Int)
  | waitForDirents (tid fd count : Int) (path : Path)
  | waitForDirentData (waitSize tid fd count : Int)
  | waitForFileCompletion (tid : Int) (path : Path)
  | waitForFileCreation (path : Path) (tid fd : Int)
  | locateCopy (copy : Copy)
  | pendingCopy (copy : Copy) (commit : Bool)
  | clonedChild (tid : Int)
  | waitForData (path : Path) (dest : Node) (tid fd count offset : Int) (isGetdents : Bool)
  | waitForCompletion (path : Path) (sourceTid : Int) (dest : Node)
  | pendingRemoteCopy (copy : Copy) (dest : Node)

inductive Turn
  | finish
  | reply (tid value : Int) (next : Turn)
  | registerClient (tid : Int) (next : Turn)
  | removeClient (tid : Int) (next : Turn)
  | detach (t : Thread)
  | post (dest : Node) (m : Remote.Requests.Message)

section

variable (g : Settings) (node : Node) (v : View)

/-! ## Reads -/

def handlePendingRead (tid processOffset count : Int) : Turn :=
  let endOfSector := sectorEnd v.file processOffset
  let bytesRead :=
    if endOfSector > processOffset + count then count
    else if endOfSector = -1 then 0
    else endOfSector - processOffset
  .reply tid (processOffset + bytesRead) .finish

def handleLocalRead (tid fd count : Int) (isProd : Bool) : Turn :=
  let fileComplete := v.file.committed || isProd
  if !(fileComplete || g.engine.isFirable v.path) then .detach (.pendingRead true tid fd v.offset count)
  else
    let endOfSector := sectorEnd v.file v.offset
    if endOfSector = -1 ∧ fileComplete then .reply tid v.offset .finish
    else if (endOfSector = -1 ∨ v.offset + count > endOfSector) ∧ !fileComplete then
      .detach (.pendingRead false tid fd v.offset count)
    else .reply tid (v.offset + min count (endOfSector - v.offset)) .finish

def servedHere (count : Int) : Prop :=
  let endOfSector := sectorEnd v.file v.offset
  v.file.committed ∧ (v.offset + count ≤ endOfSector ∨ max endOfSector 0 = v.file.realFileSize)

instance (count : Int) : Decidable (servedHere v count) := inferInstanceAs (Decidable (_ ∧ _))

def handleRemoteReadRequest (tid fd count : Int) (isGetdents : Bool) : Turn :=
  .post v.location (.read v.path tid fd count v.offset isGetdents)

def requestRemoteRead (tid fd count : Int) : Turn :=
  if servedHere v count then handleLocalRead g v tid fd count true
  else if v.offset + count ≤ sectorEnd v.file v.offset then .reply tid (v.offset + count) .finish
  else handleRemoteReadRequest v tid fd count false

def waitForFile (tid fd count : Int) : Turn :=
  if v.location = node ∧ v.own then handleLocalRead g v tid fd count false
  else requestRemoteRead g v tid fd count

def handleRead (tid fd count : Int) : Turn :=
  let isProd := v.isProducer || v.produced
  if !v.located && !isProd then .detach (.waitForFile v.path tid fd count)
  else if isProd ∨ v.location = node ∨ SamePath g.capioDir v.path then
    handleLocalRead g v tid fd count isProd
  else requestRemoteRead g v tid fd count

/-! ## Directories -/

def sendDirentToClient (tid fd offset count : Int) : Turn :=
  let firstEntry := entryAt offset
  let lastEntry := entryAt (min (offset + count) v.file.getStoredSize)
  let actualSize := (lastEntry - firstEntry) * DIRENT_SIZE
  if actualSize > 0 then .reply tid (offset + actualSize) .finish
  else if !v.file.committed && g.engine.isFirable v.path then
    .detach (.waitForDirentData ((lastEntry + 1) * DIRENT_SIZE) tid fd (asInt count))
  else .reply tid offset .finish

def requestRemoteGetdents (tid fd count : Int) : Turn :=
  if servedHere v count then sendDirentToClient g v tid fd v.offset count
  else if v.offset + count ≤ sectorEnd v.file v.offset then .reply tid (v.offset + count) .finish
  else handleRemoteReadRequest v tid fd count true

def handleGetdents (tid fd count : Int) : Turn :=
  if !v.located && !v.isProducer then .detach (.waitForDirents tid fd count v.path)
  else if v.isProducer ∨ v.location = node ∨ SamePath g.capioDir v.path then
    sendDirentToClient g v tid fd v.offset count
  else requestRemoteGetdents g v tid fd count

def waitForDirents (tid fd count : Int) : Turn :=
  if v.location = node then handleGetdents g node v tid fd count
  else requestRemoteGetdents g v tid fd count

/-! ## Sizes and kinds -/

def isDir : Int := if v.file.directory then 1 else 0

def handleRemoteStatRequest (tid : Int) (path : Path) : Turn :=
  .post v.location (.stat tid node path)

def waitForFileCompletion (tid : Int) (path : Path) : Turn :=
  if v.file.committed ∨ g.engine.isFirable path ∨ v.location = node ∧ v.own then
    .reply tid v.file.getStoredSize (.reply tid (isDir v) .finish)
  else handleRemoteStatRequest node v tid path

def replyStat (tid : Int) (path : Path) : Turn :=
  if !v.located && !v.loaded then
    if v.isProducer then .reply tid (-1) (.reply tid (-1) .finish)
    else .detach (.waitForFileCompletion tid path)
  else if v.file.committed ∨ v.location = node ∨ g.engine.isFirable path ∨ SamePath g.capioDir path then
    .reply tid v.file.getStoredSize (.reply tid (isDir v) .finish)
  else handleRemoteStatRequest node v tid path

/-! ## Copies -/

def copyFileRangeData (copy : Copy) : Turn :=
  let endOfSector := sectorEnd v.file copy.offsetIn
  let bytesCopied := if endOfSector = -1 then 0 else min copy.count (endOfSector - copy.offsetIn)
  .reply copy.tid bytesCopied .finish

def handleLocalCopyFileRange (copy : Copy) (isProd : Bool) : Turn :=
  let fileComplete := v.file.committed || isProd
  let endOfSector := sectorEnd v.file copy.offsetIn
  let waitForCommit := !fileComplete && !g.engine.isFirable copy.pathIn
  let waitForData := !fileComplete &&
    decide (endOfSector = -1 ∨ copy.offsetIn + copy.count > endOfSector)
  if !waitForCommit && !waitForData then copyFileRangeData v copy
  else .detach (.pendingCopy copy waitForCommit)

def handleRemoteCopyFileRange (copy : Copy) : Turn :=
  let endOfSector := sectorEnd v.file copy.offsetIn
  let rangeHere := endOfSector ≠ -1 ∧ copy.offsetIn + copy.count ≤ endOfSector
  let allDataHere := v.file.committed ∧ max endOfSector 0 = v.file.realFileSize
  if rangeHere ∨ allDataHere then copyFileRangeData v copy
  else .post v.location (.copyFileRange copy.pathIn copy.tid copy.fdIn copy.fdOut copy.offsetIn
    copy.offsetOut copy.count)

def handleCopyFileRange (copy : Copy) (isProd : Bool) : Turn :=
  if isProd ∨ v.location = node then handleLocalCopyFileRange g v copy isProd
  else handleRemoteCopyFileRange v copy

def copyFileRangeHandler (tid fdIn fdOut offsetIn offsetOut count : Int) : Turn :=
  let copy : Copy := ⟨tid, fdIn, fdOut, offsetIn, offsetOut, count, v.path⟩
  let isProd := v.isProducer || v.produced
  if !isProd && !v.located then .detach (.locateCopy copy)
  else handleCopyFileRange g node v copy isProd

/-! ## The request thread -/

def unlessExcluded (path : Path) (tid : Int) (t : Turn) : Turn :=
  if g.engine.isExcluded path then .reply tid CAPIO_POSIX_SYSCALL_REQUEST_SKIP .finish else t

def handle : Posix.Requests.Request → Turn
  | .access path tid => unlessExcluded g path tid (.reply tid (if v.located then 0 else -1) .finish)
  | .clone _ _ | .close _ _ | .dup _ _ _ | .write _ _ _ => .finish
  | .rename tid _ _ => .reply tid (if v.stored then 0 else 1) .finish
  | .create _ path tid => unlessExcluded g path tid (.reply tid 0 .finish)
  | .createExclusive _ path tid =>
    unlessExcluded g path tid (.reply tid (if v.stored then 1 else 0) .finish)
  | .exitGroup tid => .removeClient tid .finish
  | .getdents fd count _ tid => handleGetdents g node v tid fd count
  | .handshakeAnonymous tid _ => .registerClient tid .finish
  | .handshakeNamed tid _ _ wait =>
    .registerClient tid (if wait then .detach (.clonedChild tid) else .finish)
  | .fstat _ tid => replyStat g node v tid v.path
  | .mkdir _ tid => .reply tid v.result .finish
  | .open fd path tid => unlessExcluded g path tid (if v.located || v.loaded then .reply tid 0 .finish
    else .detach (.waitForFileCreation path tid fd))
  | .copyFileRange fdIn fdOut offsetIn offsetOut count tid =>
    copyFileRangeHandler g node v tid fdIn fdOut offsetIn offsetOut count
  | .read fd count tid => handleRead g node v tid fd count
  | .seek _ offset tid => .reply tid offset .finish
  | .seekData _ _ tid | .seekHole _ _ tid => .reply tid v.result .finish
  | .seekEnd _ tid => replyStat g node v tid v.path
  | .stat path tid => unlessExcluded g path tid (replyStat g node v tid path)
  | .unlink path tid => unlessExcluded g path tid (.reply tid (if v.stored then 0 else -1) .finish)
  | .rmdir dirPath tid => unlessExcluded g dirPath tid (.reply tid v.result .finish)

/-! ## The listener -/

def serveRemoteRead (dest : Node) (tid fd count offset : Int) (isGetdents : Bool) : Turn :=
  .post dest (.readReply tid fd count (remoteReplySize g.prefetchDataSize v.file offset)
    v.file.getStoredSize v.file.committed isGetdents)

def handleRemoteRead (path : Path) (source : Node) (tid fd count offset : Int) (isGetdents : Bool) :
    Turn :=
  if v.file.committed ∨ g.engine.isFirable path ∧ offset + count ≤ v.file.getStoredSize then
    serveRemoteRead g v source tid fd count offset isGetdents
  else .detach (.waitForData path source tid fd count offset isGetdents)

def handleReadReply (tid fd count : Int) (isGetdents : Bool) : Turn :=
  let endOfSector := sectorEnd v.file v.offset
  let bytesRead := if endOfSector > v.offset + count then count else endOfSector - v.offset
  if isGetdents then sendDirentToClient g v tid fd v.offset bytesRead
  else .reply tid (v.offset + bytesRead) .finish

def serveRemoteStat (path : Path) (dest : Node) (sourceTid : Int) : Turn :=
  .post dest (.statReply path sourceTid v.file.getStoredSize v.file.directory)

def handleRemoteStat (sourceTid : Int) (path : Path) (dest : Node) : Turn :=
  if v.stored ∧ (v.file.committed ∨ g.engine.isFirable path) then serveRemoteStat v path dest sourceTid
  else .detach (.waitForCompletion path sourceTid dest)

def serveRemoteCopy (copy : Copy) (dest : Node) : Turn :=
  .post dest (.copyFileRangeReply copy.tid copy.fdIn copy.fdOut copy.offsetIn copy.offsetOut copy.count
    (remoteReplySize g.prefetchDataSize v.file copy.offsetIn) v.file.getStoredSize v.file.committed)

def handleRemoteCopyFileRangeData (copy : Copy) (dest : Node) : Turn :=
  if v.file.committed ∨ g.engine.isFirable copy.pathIn ∧
      copy.offsetIn + copy.count ≤ v.file.getStoredSize then
    serveRemoteCopy g v copy dest
  else .detach (.pendingRemoteCopy copy dest)

def receive (source : Node) : Remote.Requests.Message → Turn
  | .read path tid fd count offset isGetdents =>
    handleRemoteRead g v path source tid fd count offset isGetdents
  | .readReply tid fd count _ _ _ isGetdents => handleReadReply g v tid fd count isGetdents
  | .stat tid dest path => handleRemoteStat g v tid path dest
  | .statReply _ sourceTid size dir =>
    .reply sourceTid size (.reply sourceTid (if dir then 1 else 0) .finish)
  | .copyFileRange pathIn tid fdIn fdOut offsetIn offsetOut count =>
    handleRemoteCopyFileRangeData g v ⟨tid, fdIn, fdOut, offsetIn, offsetOut, count, pathIn⟩ source
  | .copyFileRangeReply tid fdIn fdOut offsetIn offsetOut count _ _ _ =>
    copyFileRangeData v ⟨tid, fdIn, fdOut, offsetIn, offsetOut, count, v.path⟩

/-! ## The detached threads -/

def Thread.ready : Thread → Bool
  | .waitForFile _ _ _ _ | .waitForDirents _ _ _ _ | .waitForFileCompletion _ _
  | .waitForFileCreation _ _ _ | .locateCopy _ => v.located
  | .pendingRead commit _ _ processOffset count =>
    if commit then v.file.committed else v.file.dataReady (processOffset + count)
  | .waitForDirentData waitSize _ _ _ => v.file.dataReady waitSize
  | .pendingCopy copy commit =>
    if commit then v.file.committed else v.file.dataReady (copy.offsetIn + copy.count)
  | .clonedChild _ => v.allowed
  | .waitForData _ _ _ _ count offset _ => v.file.dataReady (offset + count)
  | .waitForCompletion _ _ _ => v.file.committed
  | .pendingRemoteCopy copy _ => v.file.dataReady (copy.offsetIn + copy.count)

def Thread.resume : Thread → Turn
  | .waitForFile _ tid fd count => Turns.waitForFile g node v tid fd count
  | .pendingRead _ tid _ processOffset count => handlePendingRead v tid processOffset count
  | .waitForDirents tid fd count _ => Turns.waitForDirents g node v tid fd count
  | .waitForDirentData _ tid fd count => sendDirentToClient g v tid fd v.offset count
  | .waitForFileCompletion tid path => Turns.waitForFileCompletion g node v tid path
  | .waitForFileCreation _ tid _ => .reply tid 0 .finish
  | .locateCopy copy => handleCopyFileRange g node v copy false
  | .pendingCopy copy _ => copyFileRangeData v copy
  | .clonedChild tid => .reply tid 1 .finish
  | .waitForData _ dest tid fd count offset isGetdents =>
    serveRemoteRead g v dest tid fd count offset isGetdents
  | .waitForCompletion path sourceTid dest => serveRemoteStat v path dest sourceTid
  | .pendingRemoteCopy copy dest => serveRemoteCopy g v copy dest

end

/-! ## What a turn owes

A turn owes a client a number of replies if it comes to that number of replies to the client, itself or
through the threads it starts and the messages it sends. -/

def replies (engine : CapioCLEngine) : Posix.Requests.Request → Nat
  | .clone _ _ | .close _ _ | .dup _ _ _ | .exitGroup _ | .handshakeAnonymous _ _ | .write _ _ _ => 0
  | .handshakeNamed _ _ _ wait => if wait then 1 else 0
  | .fstat _ _ | .seekEnd _ _ => 2
  | .stat path _ => if engine.isExcluded path then 1 else 2
  | _ => 1

/-- The answer to a `stat` says with its first reply whether there is a second one. -/
def Value (engine : CapioCLEngine) : Posix.Requests.Request → Int → Prop
  | .stat path _, value => value = CAPIO_POSIX_SYSCALL_REQUEST_SKIP ↔ engine.isExcluded path = true
  | _, _ => True

/-- The values that may come in an answer of `k` replies. -/
def Admits (P : Int → Prop) (k : Nat) : Prop :=
  ∀ value, (k = 2 → value ≠ CAPIO_POSIX_SYSCALL_REQUEST_SKIP) → P value

def Thread.client (node : Node) : Thread → Client
  | .waitForFile _ tid _ _ | .pendingRead _ tid _ _ _ | .waitForDirents tid _ _ _
  | .waitForDirentData _ tid _ _ | .waitForFileCompletion tid _ | .waitForFileCreation _ tid _
  | .clonedChild tid => ⟨node, tid⟩
  | .locateCopy copy | .pendingCopy copy _ => ⟨node, copy.tid⟩
  | .waitForData _ dest tid _ _ _ _ => ⟨dest, tid⟩
  | .waitForCompletion _ sourceTid dest => ⟨dest, sourceTid⟩
  | .pendingRemoteCopy copy dest => ⟨dest, copy.tid⟩

def Thread.replies : Thread → Nat
  | .waitForFileCompletion _ _ | .waitForCompletion _ _ _ => 2
  | _ => 1

structure Thread.Owes (c : Client) (P : Int → Prop) (node : Node) (k : Nat) (t : Thread) : Prop where
  client : t.client node = c
  replies : t.replies = k
  admits : Admits P k

def recipient (source dest : Node) : Remote.Requests.Message → Client
  | .read _ tid _ _ _ _ => ⟨source, tid⟩
  | .readReply tid _ _ _ _ _ _ => ⟨dest, tid⟩
  | .stat tid node _ => ⟨node, tid⟩
  | .statReply _ sourceTid _ _ => ⟨dest, sourceTid⟩
  | .copyFileRange _ tid _ _ _ _ _ => ⟨source, tid⟩
  | .copyFileRangeReply tid _ _ _ _ _ _ _ _ => ⟨dest, tid⟩

def messageReplies : Remote.Requests.Message → Nat
  | .stat _ _ _ | .statReply _ _ _ _ => 2
  | _ => 1

def Sized : Remote.Requests.Message → Prop
  | .statReply _ _ fileSize _ => 0 ≤ fileSize
  | _ => True

structure MessageOwes (c : Client) (P : Int → Prop) (source dest : Node) (k : Nat)
    (m : Remote.Requests.Message) : Prop where
  client : recipient source dest m = c
  replies : messageReplies m = k
  admits : Admits P k
  sized : Sized m

def Turn.Owes (c : Client) (P : Int → Prop) (node : Node) : Nat → Turn → Prop
  | k, .finish => k = 0
  | 0, .reply _ _ _ => False
  | k + 1, .reply tid value next => ⟨node, tid⟩ = c ∧ P value ∧ next.Owes c P node k
  | k, .registerClient _ next => next.Owes c P node k
  | k, .removeClient _ next => next.Owes c P node k
  | k, .detach t => t.Owes c P node k
  | k, .post dest m => MessageOwes c P node dest k m

section

variable (g : Settings) (node : Node) (v : View)

theorem reply_owes (hP : P value) :
    (Turn.reply tid value .finish).Owes ⟨node, tid⟩ P node 1 := ⟨rfl, hP, rfl⟩

theorem one (hP : Admits P 1) (value : Int) : P value := hP value (by simp)

section

variable (hP : Admits P 1)

include hP

theorem handleLocalRead_owes (fd count : Int) (isProd : Bool) :
    (handleLocalRead g v tid fd count isProd).Owes ⟨node, tid⟩ P node 1 := by
  unfold handleLocalRead
  dsimp only
  split
  · exact ⟨rfl, rfl, hP⟩
  · split
    · exact reply_owes node (one hP _)
    · split
      · exact ⟨rfl, rfl, hP⟩
      · exact reply_owes node (one hP _)

theorem requestRemoteRead_owes (fd count : Int) :
    (requestRemoteRead g v tid fd count).Owes ⟨node, tid⟩ P node 1 := by
  unfold requestRemoteRead
  split
  · exact handleLocalRead_owes g node v hP fd count true
  · split
    · exact reply_owes node (one hP _)
    · exact ⟨rfl, rfl, hP, trivial⟩

theorem waitForFile_owes (fd count : Int) :
    (waitForFile g node v tid fd count).Owes ⟨node, tid⟩ P node 1 := by
  unfold waitForFile
  grind [handleLocalRead_owes, requestRemoteRead_owes]

theorem handleRead_owes (fd count : Int) :
    (handleRead g node v tid fd count).Owes ⟨node, tid⟩ P node 1 := by
  unfold handleRead
  dsimp only
  split
  · exact ⟨rfl, rfl, hP⟩
  · split
    · exact handleLocalRead_owes g node v hP fd count _
    · exact requestRemoteRead_owes g node v hP fd count

theorem sendDirentToClient_owes (fd offset count : Int) :
    (sendDirentToClient g v tid fd offset count).Owes ⟨node, tid⟩ P node 1 := by
  unfold sendDirentToClient
  dsimp only
  split
  · exact reply_owes node (one hP _)
  · split
    · exact ⟨rfl, rfl, hP⟩
    · exact reply_owes node (one hP _)

theorem requestRemoteGetdents_owes (fd count : Int) :
    (requestRemoteGetdents g v tid fd count).Owes ⟨node, tid⟩ P node 1 := by
  unfold requestRemoteGetdents
  split
  · exact sendDirentToClient_owes g node v hP fd _ count
  · split
    · exact reply_owes node (one hP _)
    · exact ⟨rfl, rfl, hP, trivial⟩

theorem handleGetdents_owes (fd count : Int) :
    (handleGetdents g node v tid fd count).Owes ⟨node, tid⟩ P node 1 := by
  unfold handleGetdents
  split
  · exact ⟨rfl, rfl, hP⟩
  · split
    · exact sendDirentToClient_owes g node v hP fd _ count
    · exact requestRemoteGetdents_owes g node v hP fd count

theorem waitForDirents_owes (fd count : Int) :
    (waitForDirents g node v tid fd count).Owes ⟨node, tid⟩ P node 1 := by
  unfold waitForDirents
  grind [handleGetdents_owes, requestRemoteGetdents_owes]

theorem handleRemoteRead_owes (path : Path) (source : Node) (fd count offset : Int) (isGetdents : Bool) :
    (handleRemoteRead g v path source tid fd count offset isGetdents).Owes ⟨source, tid⟩ P node 1 := by
  unfold handleRemoteRead
  split
  · exact ⟨rfl, rfl, hP, trivial⟩
  · exact ⟨rfl, rfl, hP⟩

theorem handleReadReply_owes (fd count : Int) (isGetdents : Bool) :
    (handleReadReply g v tid fd count isGetdents).Owes ⟨node, tid⟩ P node 1 := by
  unfold handleReadReply
  split
  · exact sendDirentToClient_owes g node v hP fd _ _
  · exact reply_owes node (one hP _)

end

section

variable (hP : Admits P 1)

include hP

theorem copyFileRangeData_owes (copy : Copy) :
    (copyFileRangeData v copy).Owes ⟨node, copy.tid⟩ P node 1 := reply_owes node (one hP _)

theorem handleCopyFileRange_owes (copy : Copy) (isProd : Bool) :
    (handleCopyFileRange g node v copy isProd).Owes ⟨node, copy.tid⟩ P node 1 := by
  unfold handleCopyFileRange
  split
  · unfold handleLocalCopyFileRange
    dsimp only
    split
    · exact copyFileRangeData_owes node v hP copy
    · exact ⟨rfl, rfl, hP⟩
  · unfold handleRemoteCopyFileRange
    dsimp only
    split
    · exact copyFileRangeData_owes node v hP copy
    · exact ⟨rfl, rfl, hP, trivial⟩

theorem copyFileRangeHandler_owes (fdIn fdOut offsetIn offsetOut count : Int) :
    (copyFileRangeHandler g node v tid fdIn fdOut offsetIn offsetOut count).Owes ⟨node, tid⟩ P
      node 1 := by
  unfold copyFileRangeHandler
  dsimp only
  split
  · exact ⟨rfl, rfl, hP⟩
  · exact handleCopyFileRange_owes g node v hP ⟨tid, fdIn, fdOut, offsetIn, offsetOut, count, v.path⟩ _

theorem handleRemoteCopyFileRangeData_owes (copy : Copy) (dest : Node) :
    (handleRemoteCopyFileRangeData g v copy dest).Owes ⟨dest, copy.tid⟩ P node 1 := by
  unfold handleRemoteCopyFileRangeData
  split
  · exact ⟨rfl, rfl, hP, trivial⟩
  · exact ⟨rfl, rfl, hP⟩

end

section

variable (hP : Admits P 2)

include hP

theorem stat_reply_owes (hSize : -1 ≤ size) (hDir : -1 ≤ dir) :
    (Turn.reply tid size (.reply tid dir .finish)).Owes ⟨node, tid⟩ P node 2 := by
  have hNumber {n : Int} (hn : -1 ≤ n) : P n := hP n fun _ => by
    unfold CAPIO_POSIX_SYSCALL_REQUEST_SKIP
    omega
  exact ⟨rfl, hNumber hSize, rfl, hNumber hDir, rfl⟩

theorem fileStat_owes : (Turn.reply tid v.file.getStoredSize (.reply tid (isDir v) .finish)).Owes
    ⟨node, tid⟩ P node 2 := by
  refine stat_reply_owes node hP (by omega) ?_
  unfold isDir
  split <;> omega

theorem waitForFileCompletion_owes (path : Path) :
    (waitForFileCompletion g node v tid path).Owes ⟨node, tid⟩ P node 2 := by
  unfold waitForFileCompletion
  split
  · exact fileStat_owes node v hP
  · exact ⟨rfl, rfl, hP, trivial⟩

theorem replyStat_owes (path : Path) : (replyStat g node v tid path).Owes ⟨node, tid⟩ P node 2 := by
  unfold replyStat
  split
  · split
    · exact stat_reply_owes node hP (by omega) (by omega)
    · exact ⟨rfl, rfl, hP⟩
  · split
    · exact fileStat_owes node v hP
    · exact ⟨rfl, rfl, hP, trivial⟩

theorem handleRemoteStat_owes (path : Path) (dest : Node) :
    (handleRemoteStat g v tid path dest).Owes ⟨dest, tid⟩ P node 2 := by
  unfold handleRemoteStat
  split
  · exact ⟨rfl, rfl, hP, Int.natCast_nonneg _⟩
  · exact ⟨rfl, rfl, hP⟩

end

theorem unlessExcluded_owes
    (hSkip : g.engine.isExcluded path = true → k = 1 ∧ P CAPIO_POSIX_SYSCALL_REQUEST_SKIP)
    (hTurn : g.engine.isExcluded path = false → t.Owes ⟨node, tid⟩ P node k) :
    (unlessExcluded g path tid t).Owes ⟨node, tid⟩ P node k := by
  grind [unlessExcluded, reply_owes]

theorem handle_owes (r : Posix.Requests.Request) :
    (handle g node v r).Owes ⟨node, r.tid⟩ (Value g.engine r) node (replies g.engine r) := by
  cases r with
  | clone | close | dup | write | exitGroup | handshakeAnonymous => rfl
  | access path tid | create fd path tid | createExclusive fd path tid | unlink path tid
  | rmdir dirPath tid =>
      exact unlessExcluded_owes g node (fun _ => ⟨rfl, trivial⟩) fun _ => reply_owes node trivial
  | rename | mkdir | seek | seekData | seekHole => exact reply_owes node trivial
  | getdents fd count is64bit tid => exact handleGetdents_owes g node v (fun _ _ => trivial) fd count
  | handshakeNamed tid pid appName wait =>
      cases wait with
      | false => rfl
      | true => exact ⟨rfl, rfl, fun _ _ => trivial⟩
  | fstat fd tid | seekEnd fd tid => exact replyStat_owes g node v (fun _ _ => trivial) v.path
  | «open» fd path tid =>
      refine unlessExcluded_owes g node (fun _ => ⟨rfl, trivial⟩) fun _ => ?_
      split
      · exact reply_owes node trivial
      · exact ⟨rfl, rfl, fun _ _ => trivial⟩
  | copyFileRange fdIn fdOut offsetIn offsetOut count tid =>
      exact copyFileRangeHandler_owes g node v (fun _ _ => trivial) fdIn fdOut offsetIn offsetOut count
  | read fd count tid => exact handleRead_owes g node v (fun _ _ => trivial) fd count
  | stat path tid =>
      refine unlessExcluded_owes g node (fun hExcluded => ?_) fun hIncluded => ?_
      · simp [replies, Value, hExcluded]
      · have hTwo : replies g.engine (.stat path tid) = 2 := by simp [replies, hIncluded]
        rw [hTwo]
        refine replyStat_owes g node v (fun value hValue => ?_) path
        simpa [Value, hIncluded] using hValue rfl

theorem receive_owes (hm : MessageOwes c P source node k m) : (receive g v source m).Owes c P node k := by
  obtain ⟨rfl, rfl, hP, hSized⟩ := hm
  cases m with
  | read path tid fd count offset isGetdents =>
      exact handleRemoteRead_owes g node v hP path source fd count offset isGetdents
  | readReply tid fd count nbytes fileSize complete isGetdents =>
      exact handleReadReply_owes g node v hP fd count isGetdents
  | stat tid dest path => exact handleRemoteStat_owes g node v hP path dest
  | statReply path sourceTid fileSize dir =>
      have hSize : 0 ≤ fileSize := hSized
      refine stat_reply_owes node hP (by omega) ?_
      split <;> omega
  | copyFileRange pathIn tid fdIn fdOut offsetIn offsetOut count =>
      exact handleRemoteCopyFileRangeData_owes g node v hP
        ⟨tid, fdIn, fdOut, offsetIn, offsetOut, count, pathIn⟩ source
  | copyFileRangeReply tid fdIn fdOut offsetIn offsetOut count nbytes fileSize complete =>
      exact copyFileRangeData_owes node v hP
        ⟨tid, fdIn, fdOut, offsetIn, offsetOut, count, v.path⟩

theorem Thread.resume_owes {k : Nat} {t : Thread} (ht : t.Owes c P node k) :
    (t.resume g node v).Owes c P node k := by
  obtain ⟨rfl, rfl, hP⟩ := ht
  cases t with
  | waitForFile path tid fd count => exact waitForFile_owes g node v hP fd count
  | pendingRead commit tid fd processOffset count => exact reply_owes node (one hP _)
  | waitForDirents tid fd count path => exact waitForDirents_owes g node v hP fd count
  | waitForDirentData waitSize tid fd count => exact sendDirentToClient_owes g node v hP fd _ count
  | waitForFileCompletion tid path => exact waitForFileCompletion_owes g node v hP path
  | waitForFileCreation path tid fd => exact reply_owes node (one hP _)
  | locateCopy copy => exact handleCopyFileRange_owes g node v hP copy false
  | pendingCopy copy commit => exact copyFileRangeData_owes node v hP copy
  | clonedChild tid => exact reply_owes node (one hP _)
  | waitForData path dest tid fd count offset isGetdents => exact ⟨rfl, rfl, hP, trivial⟩
  | waitForCompletion path sourceTid dest => exact ⟨rfl, rfl, hP, Int.natCast_nonneg _⟩
  | pendingRemoteCopy copy dest => exact ⟨rfl, rfl, hP, trivial⟩

end

end Capio.Server.Turns
