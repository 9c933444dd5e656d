import Capio.Storage.Service
import Capio.Server.StorageManager

/-! # Requests of the clients of one server

Each handler is a function on the state of the server.  A detached thread is an element of
`pending` with what its closure holds; it goes on when its condition is met.  Answers of other
servers are not part of this state machine: what is asked of them is kept in `outbox`.
-/
namespace Capio.Server

open Common Storage Storage.Sectors

structure CopyRequest where
  tid : Tid
  fdIn : Fd
  fdOut : Fd
  offsetIn : Nat
  offsetOut : Nat
  count : Nat
  pathIn : Path
  pathOut : Path

inductive Pending
  | openFile (path : Path) (tid : Tid) (fd : Fd)
  | readFile (path : Path) (tid : Tid) (fd : Fd) (count : Nat)
  | readCommit (file : Nat) (tid : Tid) (fd : Fd) (offset : Int) (count : Nat)
  | readData (file : Nat) (tid : Tid) (fd : Fd) (offset : Int) (count : Nat)
  | copyFile (copy : CopyRequest)
  | copyCommit (file : Nat) (copy : CopyRequest)
  | copyData (file : Nat) (copy : CopyRequest)
  | clonedChild (tid : Tid)

inductive Message
  | read (dest : Node) (path : Path) (tid : Tid) (fd : Fd) (count : Nat) (offset : Int)
  | copyFileRange (dest : Node) (copy : CopyRequest)

structure State where
  sm : StorageManager := {}
  cm : ClientManager := {}
  locations : Locations
  pending : List Pending := []
  outbox : List Message := []

namespace State

def reply (s : State) (tid : Tid) (offset : Int) : Except Failure State := do
  let cm ← s.cm.reply tid offset
  pure { s with cm := cm }

def wait (s : State) (p : Pending) : State :=
  { s with pending := s.pending ++ [p] }

def getPath (s : State) (tid : Tid) (fd : Fd) : Path × State :=
  let (path, sm) := s.sm.getPath tid fd
  (path, { s with sm := sm })

def writeLocation (env : Env) (s : State) (path : Path) : State :=
  { s with locations := writeFileLocation env.nodeName s.locations path }

def deleteLocation (env : Env) (s : State) (path : Path) : Except Failure (Nat × State) := do
  let (result, locations) ← deleteFromFilesLocation env.nodeName s.locations path
  pure (result, { s with locations := locations })

def load (env : Env) (s : State) (path : Path) : Bool × State :=
  let (found, locations) := loadFileLocation env.cluster s.locations path
  (found, { s with locations := locations })

def locate (env : Env) (s : State) (path : Path) : Bool × State :=
  match s.locations.table path with
  | some _ => (true, s)
  | none => s.load env path

def getFileLocation (s : State) (path : Path) : Except Failure LocationEntry :=
  match s.locations.table path with
  | some entry => .ok entry
  | none => .error (.locationNotFound path)

end State

def nameBytes (name : Path) : List Byte :=
  name.map fun c => UInt8.ofNat c.toNat

inductive ManagerDirEntryType
  | regularEntry
  | dotEntry
  | dotDotEntry

def ManagerDirEntryType.name (filePath : Path) : ManagerDirEntryType → Path
  | .regularEntry => filename filePath
  | .dotEntry => ['.']
  | .dotDotEntry => ['.', '.']

section

variable (env : Env) (os : Nat → Os)

def addDirectoryEntry (s : State) (tid : Tid) (filePath dir : Path) (type : ManagerDirEntryType) :
    Except Failure State := do
  let i ← s.sm.get dir
  let f ← s.sm.object i
  let (_, f) ← f.appendEntry (os 0) (os 1) (env.hash filePath) (nameBytes (type.name filePath))
  let cm := s.cm.registerProducedFile tid dir
  -- the rule is looked up for the entry, not for the directory
  let f := if f.nFiles = f.nFilesExpected ∧ env.engine.getCommitRule filePath = .onNFiles
    then f.setCommitted else f
  pure { s with sm := s.sm.setObject i f, cm := cm }

def updateDirectory (s : State) (tid : Tid) (filePath : Path) : Except Failure State := do
  let dir := getParentDirPath filePath
  let i ← s.sm.get dir
  let f ← s.sm.object i
  let s := if f.firstWrite then
      { s with sm := s.sm.setObject i f.registerFirstWrite }.writeLocation env dir
    else s
  addDirectoryEntry env os s tid filePath dir .regularEntry

def addDirectory (s : State) (tid : Tid) (path : Path) : Except Failure (Int × State) :=
  match s.locations.table path with
  | some _ => pure (1, s)
  | none => do
    let (i, sm) := s.sm.add env path true CAPIO_DEFAULT_DIR_INITIAL_SIZE
    let s := { s with sm := sm }
    let f ← s.sm.object i
    if f.firstWrite then
      let s := { s with sm := s.sm.setObject i f.registerFirstWrite }
      let s ← (if SamePath env.capioDir path then
          pure { s with locations := { s.locations with
            table := addFileLocation s.locations.table path ⟨env.nodeName, -1, true⟩ } }
        else updateDirectory env os (s.writeLocation env path) tid path)
      let s ← addDirectoryEntry env (fun k => os (k + 2)) s tid path path .dotEntry
      let s ← addDirectoryEntry env (fun k => os (k + 4)) s tid (getParentDirPath path) path .dotDotEntry
      pure (0, s)
    else pure (0, s)

def publish (s : State) (tid : Tid) (i : Nat) (path : Path) : Except Failure State := do
  let sm ← s.sm.modify i CapioFile.registerFirstWrite
  updateDirectory env os ({ s with sm := sm }.writeLocation env path) tid path

def updateFileMetadata (s : State) (path : Path) (tid : Tid) (fd : Fd) (isCreat : Bool) (offset : Int) :
    Except Failure State := do
  let (i, sm) := s.sm.add env path false env.fileInitialSize
  let sm ← sm.addFileToTid tid fd path offset
  let s := { s with sm := sm }
  let f ← s.sm.object i
  if f.firstWrite && isCreat then
    publish env os { s with cm := s.cm.registerProducedFile tid path } tid i path
  else pure s

def handleCreate (s : State) (tid : Tid) (fd : Fd) (path : Path) : Except Failure State := do
  let (found, s) := s.locate env path
  let s ← updateFileMetadata env os s path tid fd (!found) 0
  s.reply tid 0

def handleCreateExclusive (s : State) (tid : Tid) (fd : Fd) (path : Path) : Except Failure State :=
  match s.sm.tryGet path with
  | some _ => s.reply tid 1
  | none => do
    let s ← s.reply tid 0
    updateFileMetadata env os s path tid fd true 0

def handleOpen (s : State) (tid : Tid) (fd : Fd) (path : Path) : Except Failure State := do
  let (found, s) := s.locate env path
  if found then
    let s ← updateFileMetadata env os s path tid fd false 0
    s.reply tid 0
  else pure (s.wait (.openFile path tid fd))

def unlessExcluded (s : State) (tid : Tid) (path : Path) (handler : Except Failure State) :
    Except Failure State :=
  if env.engine.isExcluded path then s.reply tid CAPIO_POSIX_SYSCALL_REQUEST_SKIP else handler

def registerWrittenData (s : State) (tid : Tid) (i : Nat) (path : Path) (f : CapioFile) :
    Except Failure State :=
  let s := { s with cm := s.cm.registerProducedFile tid path, sm := s.sm.setObject i f }
  if f.firstWrite then publish env (fun k => os (k + 2)) s tid i path else pure s

def writeHandler (s : State) (tid : Tid) (fd : Fd) (data : List Byte) : Except Failure State := do
  let offset ← s.sm.getFileOffset tid fd
  let (path, s) := s.getPath tid fd
  let i ← s.sm.get path
  if s.cm.dataBuffers tid = false then throw (.noClientBuffers tid)
  else if offset < 0 then throw .outOfBounds
  else
    let f ← s.sm.object i
    let f ← f.writeData (os 0) (os 1) offset.toNat data
    let s ← registerWrittenData env os s tid i path f
    let sm ← s.sm.setFileOffset tid fd (offset + data.length)
    pure { s with sm := sm }

def sendRead (s : State) (tid : Tid) (fd : Fd) (i : Nat) (offset : Int) (n : Nat) :
    Except Failure State := do
  let f ← s.sm.object i
  let f ← f.createBuffer (os 0) false
  let bytes ← f.sendBytes offset n
  let cm ← s.cm.replyData tid offset bytes
  let sm ← (s.sm.setObject i f).setFileOffset tid fd (offset + n)
  pure { s with cm := cm, sm := sm }

def handlePendingRead (s : State) (tid : Tid) (fd : Fd) (offset : Int) (count : Nat) :
    Except Failure State := do
  let (path, s) := s.getPath tid fd
  let i ← s.sm.get path
  let f ← s.sm.object i
  sendRead os s tid fd i offset (pendingRead f offset count)

def handleLocalRead (s : State) (tid : Tid) (fd : Fd) (count : Nat) (isProd : Bool) :
    Except Failure State := do
  let (path, s) := s.getPath tid fd
  let i ← s.sm.get path
  let f ← s.sm.object i
  let offset ← s.sm.getFileOffset tid fd
  match localRead (env.engine.isFirable path) f offset count isProd with
  | .waitForCommit => pure (s.wait (.readCommit i tid fd offset count))
  | .waitForData => pure (s.wait (.readData i tid fd offset count))
  | .endOfFile => s.reply tid offset
  | .send n => sendRead os s tid fd i offset n

def requestRemoteRead (s : State) (tid : Tid) (fd : Fd) (count : Nat) : Except Failure State := do
  let (path, s) := s.getPath tid fd
  let i ← s.sm.get path
  let f ← s.sm.object i
  let offset ← s.sm.getFileOffset tid fd
  match remoteSource f offset count with
  | .localRead => handleLocalRead env os s tid fd count true
  | .here => sendRead os s tid fd i offset count
  | .home =>
    let entry ← s.getFileLocation path
    pure { s with outbox := s.outbox ++ [.read entry.node path tid fd count offset] }

def handleRead (s : State) (tid : Tid) (fd : Fd) (count : Nat) : Except Failure State :=
  let (path, s) := s.getPath tid fd
  let isProd := env.engine.isProducer path (s.cm.getAppName tid) || s.cm.isProducer tid path
  match s.locations.table path with
  | none =>
    if isProd then handleLocalRead env os s tid fd count isProd
    else pure (s.wait (.readFile path tid fd count))
  | some entry =>
    if isProd ∨ entry.node = env.nodeName ∨ SamePath env.capioDir path then
      handleLocalRead env os s tid fd count isProd
    else requestRemoteRead env os s tid fd count

def copyFileRangeData (s : State) (copy : CopyRequest) : Except Failure State := do
  let src ← s.sm.get copy.pathIn
  let fIn ← s.sm.object src
  let n := fIn.bytesCopied copy.offsetIn copy.count
  let s ← (if 0 < n then do
      let dst ← s.sm.get copy.pathOut
      let fOut ← s.sm.object dst
      let (_, fOut) ← fIn.copyData (os 0) (os 1) (src == dst) fOut copy.offsetIn copy.offsetOut n
      registerWrittenData env os s copy.tid dst copy.pathOut fOut
    else pure s)
  s.reply copy.tid n

def handleLocalCopyFileRange (s : State) (copy : CopyRequest) (isProd : Bool) : Except Failure State := do
  let i ← s.sm.get copy.pathIn
  let f ← s.sm.object i
  match localCopy (env.engine.isFirable copy.pathIn) f copy.offsetIn copy.count isProd with
  | .waitForCommit => pure (s.wait (.copyCommit i copy))
  | .waitForData => pure (s.wait (.copyData i copy))
  | .endOfFile | .send _ => copyFileRangeData env os s copy

def handleRemoteCopyFileRange (s : State) (copy : CopyRequest) : Except Failure State := do
  let i ← s.sm.get copy.pathIn
  let f ← s.sm.object i
  if copiesHere f copy.offsetIn copy.count then copyFileRangeData env os s copy
  else
    let entry ← s.getFileLocation copy.pathIn
    pure { s with outbox := s.outbox ++ [.copyFileRange entry.node copy] }

def handleCopyFileRange (s : State) (copy : CopyRequest) (isProd : Bool) : Except Failure State :=
  if isProd then handleLocalCopyFileRange env os s copy isProd
  else do
    let entry ← s.getFileLocation copy.pathIn
    if entry.node = env.nodeName then handleLocalCopyFileRange env os s copy isProd
    else handleRemoteCopyFileRange env os s copy

def copyFileRangeHandler (s : State) (tid : Tid) (fdIn fdOut : Fd) (offsetIn offsetOut count : Nat) :
    Except Failure State :=
  let (pathIn, s) := s.getPath tid fdIn
  let (pathOut, s) := s.getPath tid fdOut
  let copy : CopyRequest := ⟨tid, fdIn, fdOut, offsetIn, offsetOut, count, pathIn, pathOut⟩
  let isProd := env.engine.isProducer pathIn (s.cm.getAppName tid) || s.cm.isProducer tid pathIn
  if !isProd && (s.locations.table pathIn).isNone then pure (s.wait (.copyFile copy))
  else handleCopyFileRange env os s copy isProd

def mkdirHandler (s : State) (tid : Tid) (path : Path) : Except Failure State := do
  let (result, s) ← addDirectory env os s tid path
  s.reply tid result

def unlinkHandler (s : State) (tid : Tid) (path : Path) : Except Failure State :=
  unlessExcluded env s tid path do
    match s.sm.tryGet path with
    | none => s.reply tid (-1)
    | some i =>
      let f ← s.sm.object i
      let s ← (if f.deletable then do
          let sm ← s.sm.remove path
          let (_, s) ← { s with sm := sm }.deleteLocation env path
          pure s
        else pure s)
      s.reply tid 0

def rmdirHandler (s : State) (tid : Tid) (path : Path) : Except Failure State :=
  unlessExcluded env s tid path do
    let sm ← s.sm.remove path
    let (result, s) ← { s with sm := sm }.deleteLocation env path
    s.reply tid result

def handleRename (s : State) (tid : Tid) (oldpath newpath : Path) : Except Failure State :=
  match s.sm.tryGet oldpath with
  | none => s.reply tid 1
  | some _ => do
    let s := { s with sm := s.sm.rename oldpath newpath }
    let (_, s) ← s.deleteLocation env oldpath
    let s := if (s.locations.table newpath).isNone then s.writeLocation env newpath else s
    let s := { s with locations := { s.locations with
      table := renameFileLocation s.locations.table oldpath newpath } }
    s.reply tid 0

def handleClose (s : State) (tid : Tid) (fd : Fd) : Except Failure State :=
  let (path, s) := s.getPath tid fd
  if path = [] then pure s
  else do
    let i ← s.sm.getOfFd tid fd
    let f ← s.sm.object i
    let f := f.close
    let f ← (if env.engine.getCommitRule path = .onClose ∧ f.closed then f.setCommitted.dump else pure f)
    let sm ← (s.sm.setObject i f).removeFromTid tid fd
    pure { s with sm := sm }

def dupHandler (s : State) (tid : Tid) (oldFd newFd : Fd) : Except Failure State :=
  if oldFd ≠ newFd then do
    let sm ← s.sm.dup tid oldFd newFd
    pure { s with sm := sm }
  else pure s

def handleLseek (s : State) (tid : Tid) (fd : Fd) (offset : Int) : Except Failure State := do
  let sm ← s.sm.setFileOffset tid fd offset
  { s with sm := sm }.reply tid offset

def handshakeHandler (s : State) (tid : Tid) (appName : AppName) (wait : Bool) : State :=
  let s := { s with cm := s.cm.registerClient tid appName }
  if wait then s.wait (.clonedChild tid) else s

def cloneHandler (s : State) (parentTid childTid : Tid) : Except Failure State := do
  let sm ← s.sm.clone env parentTid childTid
  pure { s with sm := sm, cm := s.cm.unlockClonedChild childTid }

def commitOnTermination (s : State) (path : Path) : Except Failure State :=
  if env.engine.getCommitRule path = .onTermination then do
    let i ← s.sm.get path
    let f ← s.sm.object i
    let f ← (if f.directory then
        pure (if f.nFilesExpected ≤ f.nFiles then f.setCommitted else f)
      else f.setCommitted.dump)
    pure { s with sm := s.sm.setObject i f.close }
  else pure s

def handleExitGroup (s : State) (tid : Tid) : Except Failure State := do
  let (files, cm) := s.cm.getProducedFiles tid
  let s ← (env.pathOrder files).foldlM (commitOnTermination env) { s with cm := cm }
  let s ← (s.sm.getFileDescriptors env tid).foldlM (fun s fd => handleClose env s tid fd) s
  pure { s with cm := s.cm.removeClient tid }

/-- The comparison of two `const char *` in `wait_for_file` is one of addresses. -/
def resumeReadFile (s : State) (path : Path) (tid : Tid) (fd : Fd) (count : Nat) :
    Except Failure State := do
  let entry ← s.getFileLocation path
  if entry.own then handleLocalRead env os s tid fd count false
  else requestRemoteRead env os s tid fd count

def resume (s : State) : Pending → Except Failure (Option State)
  | .openFile path tid fd => do
    let (found, s) := s.load env path
    if found then
      let s ← updateFileMetadata env os s path tid fd false 0
      some <$> s.reply tid 0
    else pure none
  | .readFile path tid fd count => do
    let (found, s) := s.load env path
    if found then some <$> resumeReadFile env os s path tid fd count else pure none
  | .readCommit i tid fd offset count => do
    let f ← s.sm.object i
    if f.committed then some <$> handlePendingRead os s tid fd offset count else pure none
  | .readData i tid fd offset count => do
    let f ← s.sm.object i
    if f.dataReady (offset + count) then some <$> handlePendingRead os s tid fd offset count
    else pure none
  | .copyFile copy => do
    let (found, s) := s.load env copy.pathIn
    if found then some <$> handleCopyFileRange env os s copy false else pure none
  | .copyCommit i copy => do
    let f ← s.sm.object i
    if f.committed then some <$> copyFileRangeData env os s copy else pure none
  | .copyData i copy => do
    let f ← s.sm.object i
    if f.dataReady (copy.offsetIn + copy.count) then some <$> copyFileRangeData env os s copy
    else pure none
  | .clonedChild tid =>
    if tid ∈ s.cm.threadAllowedToContinue then do
      let s ← s.reply tid 1
      pure (some { s with cm := { s.cm with
        threadAllowedToContinue := s.cm.threadAllowedToContinue.erase tid } })
    else pure none

end

inductive Op
  | handshake (tid : Tid) (appName : AppName) (wait : Bool)
  | create (tid : Tid) (fd : Fd) (path : Path)
  | createExclusive (tid : Tid) (fd : Fd) (path : Path)
  | openFile (tid : Tid) (fd : Fd) (path : Path)
  | write (tid : Tid) (fd : Fd) (data : List Byte)
  | read (tid : Tid) (fd : Fd) (count : Nat)
  | copyFileRange (tid : Tid) (fdIn fdOut : Fd) (offsetIn offsetOut count : Nat)
  | mkdir (tid : Tid) (path : Path)
  | unlink (tid : Tid) (path : Path)
  | rmdir (tid : Tid) (path : Path)
  | rename (tid : Tid) (oldpath newpath : Path)
  | close (tid : Tid) (fd : Fd)
  | dup (tid : Tid) (oldFd newFd : Fd)
  | lseek (tid : Tid) (fd : Fd) (offset : Int)
  | clone (parentTid childTid : Tid)
  | exitGroup (tid : Tid)
  | resume (k : Nat)

structure Request where
  op : Op
  os : Nat → Os

/-- Requests with the same memory available at each allocation; runs on fixed inputs are made of
them. -/
def plainRequests (memAvailable : Nat) (ops : List Op) : List Request :=
  ops.map (Request.mk · fun _ => Os.plain memAvailable)

def step (env : Env) (s : State) (r : Request) : Except Failure State :=
  match r.op with
  | .handshake tid appName wait => pure (handshakeHandler s tid appName wait)
  | .create tid fd path => unlessExcluded env s tid path (handleCreate env r.os s tid fd path)
  | .createExclusive tid fd path =>
    unlessExcluded env s tid path (handleCreateExclusive env r.os s tid fd path)
  | .openFile tid fd path => unlessExcluded env s tid path (handleOpen env r.os s tid fd path)
  | .write tid fd data => writeHandler env r.os s tid fd data
  | .read tid fd count => handleRead env r.os s tid fd count
  | .copyFileRange tid fdIn fdOut offsetIn offsetOut count =>
    copyFileRangeHandler env r.os s tid fdIn fdOut offsetIn offsetOut count
  | .mkdir tid path => mkdirHandler env r.os s tid path
  | .unlink tid path => unlinkHandler env s tid path
  | .rmdir tid path => rmdirHandler env s tid path
  | .rename tid oldpath newpath => handleRename env s tid oldpath newpath
  | .close tid fd => handleClose env s tid fd
  | .dup tid oldFd newFd => dupHandler s tid oldFd newFd
  | .lseek tid fd offset => handleLseek s tid fd offset
  | .clone parentTid childTid => cloneHandler env s parentTid childTid
  | .exitGroup tid => handleExitGroup env s tid
  | .resume k =>
    match s.pending[k]? with
    | none => pure s
    | some p => do
      let resumed ← resume env r.os { s with pending := s.pending.eraseIdx k } p
      pure (resumed.getD s)

/-- The state in which the server starts to read requests: its storage holds `CAPIO_DIR`. -/
def boot (env : Env) (os : Nat → Os) (serverPid : Tid) (files : Node → List Char) :
    Except Failure State := do
  let (_, s) ← addDirectory env os { locations := ⟨files, fun _ => none⟩ } serverPid env.capioDir
  pure s

end Capio.Server
