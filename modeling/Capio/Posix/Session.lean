import Capio.Posix.WriteCache
import Capio.Server.StorageManager

/-! # A client thread and its offsets

The files and the caches of one client thread, together with what the server keeps for it: the
descriptors of the storage manager and the queue of bytes it has sent.  A request is handled before
the call that makes it goes on.  What the server has to send for a read is given by `supply`, since
other processes write the files.
-/
namespace Capio.Posix

open Common Lib.Memory Lib.Pieces Server

/-- The entries of `files` and `capio_files_descriptors` for a descriptor; `cell` is the shared
pointer to its offset. -/
structure File where
  cell : Nat
  path : Path
  deriving DecidableEq

/-- `cache` is the segment that `_cache` points to, from its first byte on. -/
structure ReadCache where
  cache : List Byte := []
  lastFd : Fd := -1
  actualSize : Int := 0
  cacheOffset : Int := 0

structure Session where
  files : Fd → Option File := fun _ => none
  offsets : List Int := []
  read : ReadCache := {}
  write : WriteCache := {}
  sm : StorageManager := {}
  queue : List (List Byte) := []

/-- The ways a call does not return: it waits for ever, `at` throws, it ends the process, or the
server does not answer. -/
inductive Stop
  | blocked
  | outOfRange (fd : Fd)
  | exit
  | server (e : Failure)
  deriving DecidableEq

/-- What the thread runs with: its id, the configuration of the server, the size of a line, the
bytes the server has at an offset of a descriptor, and the bytes a slot of the queue held before. -/
structure Setting where
  tid : Tid
  env : Env
  maxLineSize : Nat
  supply : Fd → Int → List Byte
  stale : Nat → Byte

def SSIZE_MAX : Int := 2 ^ 63 - 1

namespace Session

def offset (s : Session) (fd : Fd) : Except Stop Int :=
  match (s.files fd).bind fun f => s.offsets[f.cell]? with
  | some offset => .ok offset
  | none => .error (.outOfRange fd)

def setOffset (s : Session) (fd : Fd) (offset : Int) : Except Stop Session :=
  match s.files fd with
  | some f => .ok { s with offsets := s.offsets.set f.cell offset }
  | none => .error (.outOfRange fd)

def addFd (s : Session) (path : Path) (fd : Fd) (offset : Int) : Session :=
  { s with
    files := emplace s.files fd ⟨s.offsets.length, path⟩
    offsets := s.offsets ++ [offset] }

def dupFd (s : Session) (oldFd newFd : Fd) : Except Stop Session :=
  match s.files oldFd with
  | some f => .ok { s with files := emplace s.files newFd f }
  | none => .error (.outOfRange oldFd)

def deleteFd (s : Session) (fd : Fd) : Session :=
  { s with files := Function.update s.files fd none }

def ask {α : Type} (x : Except Failure α) : Except Stop α := x.mapError .server

section

variable (g : Setting)

def seekRequest (s : Session) (fd : Fd) (offset : Int) : Except Stop Session := do
  let sm ← ask (s.sm.setFileOffset g.tid fd offset)
  pure { s with sm := sm }

/-- The server sends bytes from its offset on and replies with its new offset. -/
def sendData (s : Session) (fd : Fd) (bytes : Int → List Byte) : Except Stop (Int × Session) := do
  let offset ← ask (s.sm.getFileOffset g.tid fd)
  let sm ← ask (s.sm.setFileOffset g.tid fd (offset + (bytes offset).length))
  pure (offset + (bytes offset).length,
    { s with sm := sm, queue := s.queue ++ pieces g.maxLineSize (bytes offset) })

def readRequest (s : Session) (fd : Fd) (count : Int) : Except Stop (Int × Session) :=
  s.sendData g fd fun offset => (g.supply fd offset).take count.toNat

/-- The entries sent may be more than was asked for, if the offset is not that of an entry. -/
def getdentsRequest (s : Session) (fd : Fd) : Except Stop (Int × Session) :=
  s.sendData g fd (g.supply fd)

def perform (s : Session) : CacheAction → Except Stop Session
  | .request fd count => do
    let offset ← ask (s.sm.getFileOffset g.tid fd)
    s.seekRequest g fd (offset + count)
  | .reserve | .store _ _ | .push _ => pure s

def applyWrite (s : Session) (r : WriteCache × List CacheAction) : Except Stop Session :=
  r.2.foldlM (perform g) { s with write := r.1 }

def flushWrite (s : Session) : Except Stop Session :=
  s.applyWrite g s.write.flush

def flushRead (s : Session) : Except Stop Session :=
  if s.read.cacheOffset ≠ s.read.actualSize then do
    let s := { s with read := { s.read with actualSize := 0, cacheOffset := 0 } }
    let offset ← s.offset s.read.lastFd
    s.seekRequest g s.read.lastFd offset
  else pure s

def copyCached (s : Session) (count : Int) : List Byte × Session :=
  if count > 0 then
    (((s.read.cache.drop s.read.cacheOffset.toNat) ++ fresh g.stale count.toNat).take count.toNat,
      { s with read := { s.read with cacheOffset := s.read.cacheOffset + count } })
  else ([], s)

/-- The reads of elements of the given sizes; behind the bytes of an element is what its slot held
before. -/
def takeElements (stale : Nat → Byte) :
    List Nat → List (List Byte) → Option (List Byte × List (List Byte))
  | [], queue => some ([], queue)
  | _ :: _, [] => none
  | n :: sizes, element :: queue =>
    (takeElements stale sizes queue).map fun (bytes, queue) =>
      ((element ++ fresh stale n).take n ++ bytes, queue)

def readQueue (s : Session) (numBytes : Int) : Except Stop (List Byte × Session) :=
  match takeElements g.stale (sizes g.maxLineSize numBytes.toNat) s.queue with
  | some (bytes, queue) => .ok (bytes, { s with queue := queue })
  | none => .error .blocked

def fetch (s : Session) : Except Stop Session :=
  match s.queue with
  | [] => .error .blocked
  | element :: queue => .ok { s with queue := queue, read := { s.read with cache := element } }

def switchRead (s : Session) (fd : Fd) : Except Stop Session :=
  if s.read.lastFd ≠ fd then do
    let s ← s.flushRead g
    pure { s with read := { s.read with lastFd := fd } }
  else pure s

def readMore (s : Session) (fd : Fd) (fileOffset remaining count : Int) (isGetdents : Bool) :
    Except Stop (Int × List Byte × Session) :=
  let readSize := count - remaining
  if readSize > g.maxLineSize ∨ isGetdents then do
    let (endOfRead, s) ← (if isGetdents then s.getdentsRequest g fd else s.readRequest g fd readSize)
    let bytesRead := endOfRead - fileOffset
    let (bytes, s) ← s.readQueue g bytesRead
    pure (bytesRead, bytes, s)
  else do
    let (endOfRead, s) ← s.readRequest g fd g.maxLineSize
    let actualSize := endOfRead - fileOffset - remaining
    let s := { s with read := { s.read with actualSize := actualSize, cacheOffset := 0 } }
    let s ← (if actualSize > 0 then s.fetch else pure s)
    if readSize < actualSize then
      let (bytes, s) := s.copyCached g readSize
      pure (count, bytes, s)
    else
      let (bytes, s) := s.copyCached g actualSize
      pure (remaining + actualSize, bytes, s)

def readFrom (s : Session) (fd : Fd) (fileOffset remaining count : Int) (isGetdents : Bool) :
    Except Stop (Int × List Byte × Session) :=
  if count ≤ remaining then
    let (bytes, s) := s.copyCached g count
    pure (count, bytes, s)
  else do
    let (cached, s) := s.copyCached g remaining
    let (bytesRead, bytes, s) ← s.readMore g fd fileOffset remaining count isGetdents
    pure (bytesRead, cached ++ bytes, s)

def readThrough (s : Session) (fd : Fd) (count : Int) (isGetdents : Bool) :
    Except Stop (Int × List Byte × Session) := do
  let s ← s.switchRead g fd
  let remaining := s.read.actualSize - s.read.cacheOffset
  let fileOffset ← s.offset fd
  let count := if isGetdents then count.tdiv DIRENT_SIZE * DIRENT_SIZE else count
  let (bytesRead, bytes, s) ← s.readFrom g fd fileOffset remaining count isGetdents
  let s ← s.setOffset fd (fileOffset + bytesRead)
  pure (bytesRead, bytes, s)

def cachedRead (s : Session) (fd : Fd) (count : Int) : Except Stop (Int × List Byte × Session) := do
  let s ← s.flushWrite g
  s.readThrough g fd count false

def cachesFileOf (s : Session) (fd : Fd) : Bool :=
  fd == s.read.lastFd ||
    match s.files s.read.lastFd, s.files fd with
    | some last, some f => f.path == last.path
    | _, _ => false

def cachedWrite (s : Session) (fd : Fd) (buffer : List Byte) (count : Int) : Except Stop Session := do
  let s ← (if s.cachesFileOf fd then s.flushRead g else pure s)
  let s ← s.applyWrite g (s.write.write g.maxLineSize fd buffer count)
  let offset ← s.offset fd
  s.setOffset fd (offset + count)

def setFdOffset (s : Session) (fd : Fd) (offset : Int) : Except Stop Session := do
  let s ← s.flushRead g
  let s ← s.flushWrite g
  let s ← s.setOffset fd offset
  s.seekRequest g fd offset

inductive Mode
  | create
  | exclusive
  | existing
  deriving DecidableEq

def openRequest (s : Session) (mode : Mode) (fd : Fd) (path : Path) : Except Stop (Int × Session) :=
  if g.env.engine.isExcluded path then pure (CAPIO_POSIX_SYSCALL_REQUEST_SKIP, s)
  else if mode = .exclusive ∧ (s.sm.tryGet path).isSome then pure (1, s)
  else do
    let (_, sm) := s.sm.add g.env path false g.env.fileInitialSize
    let sm ← ask (sm.addFileToTid g.tid fd path 0)
    pure (0, { s with sm := sm })

def openat (s : Session) (mode : Mode) (fd : Fd) (path : Path) (append : Bool) : Except Stop Session := do
  let (code, s) ← s.openRequest g mode fd path
  if code = 1 then pure s
  else
    let s := s.addFd path fd 0
    if append then
      -- `lseek(fd, 0, SEEK_END)`: the answer of the server is not used
      let s ← s.flushRead g
      let s ← s.flushWrite g
      let offset ← s.offset fd
      s.setOffset fd (offset + 0)
    else pure s

inductive Call
  | openat (mode : Mode) (fd : Fd) (path : Path) (append : Bool)
  | dup (oldFd newFd : Fd)
  | read (fd : Fd) (count : Int)
  | getdents (fd : Fd) (count : Int)
  | write (fd : Fd) (buffer : List Byte) (count : Int)
  | seekSet (fd : Fd) (offset : Int)
  | seekCur (fd : Fd) (offset : Int)
  | close (fd : Fd)

/-- `capio_lseek` with `SEEK_SET`, or with `SEEK_CUR` if `relative`. -/
def lseek (s : Session) (fd : Fd) (offset : Int) (relative : Bool) : Except Stop Session := do
  let s ← s.flushRead g
  let s ← s.flushWrite g
  let fileOffset ← s.offset fd
  let newOffset := if relative then fileOffset + offset else offset
  if newOffset ≥ 0 then s.setFdOffset g fd newOffset else pure s

def call (s : Session) : Call → Except Stop Session
  | .openat mode fd path append => s.openat g mode fd path append
  | .dup oldFd newFd =>
    match s.files oldFd with
    | none => pure s
    | some _ =>
      if oldFd = newFd then pure s
      else do
        let sm ← ask (s.sm.dup g.tid oldFd newFd)
        dupFd { s with sm := sm } oldFd newFd
  | .read fd count =>
    match s.files fd with
    | none => pure s
    | some _ =>
      if count ≥ SSIZE_MAX then throw .exit
      else do
        let (_, _, s) ← s.cachedRead g fd count
        pure s
  | .getdents fd count =>
    match s.files fd with
    | none => pure s
    | some _ =>
      if count ≥ SSIZE_MAX then throw .exit
      else do
        let s ← s.flushWrite g
        let (_, _, s) ← s.readThrough g fd count true
        pure s
  | .write fd buffer count =>
    match s.files fd with
    | none => pure s
    | some _ => if count > SSIZE_MAX then throw .exit else s.cachedWrite g fd buffer count
  | .seekSet fd offset =>
    match s.files fd with
    | none => pure s
    | some _ => s.lseek g fd offset false
  | .seekCur fd offset =>
    match s.files fd with
    | none => pure s
    | some _ => s.lseek g fd offset true
  | .close fd =>
    match s.files fd with
    | none => pure s
    | some _ => do
      let s ← s.flushWrite g
      let s ← s.flushRead g
      let sm ← ask (s.sm.removeFromTid g.tid fd)
      pure (deleteFd { s with sm := sm } fd)

end

end Session

end Capio.Posix
