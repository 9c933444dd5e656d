import Capio.Posix.Filesystem
import Capio.Posix.Keys
import Capio.Posix.WriteCache

/-! # The system calls of a client process

The handlers of the calls that use the descriptor tables.  The tables belong to the process, the
caches to its threads.  What the kernel and the server answer to a call is part of the call, and the
requests are recorded in the order they are sent.  Of the read cache only the sizes are kept: its
bytes decide nothing here.  Of the results only that of `open` is kept, which says whether the call is
left to the kernel.
-/
namespace Capio.Posix

open Common Lib.Outcome

structure ReadLine where
  lastFd : Fd := -1
  actualSize : Int := 0
  cacheOffset : Int := 0
  deriving DecidableEq

inductive Sent
  | create (tid : Tid) (fd : Fd) (path : Path)
  | createExclusive (tid : Tid) (fd : Fd) (path : Path)
  | openFile (tid : Tid) (fd : Fd) (path : Path)
  | read (tid : Tid) (fd : Fd) (count : Int)
  | write (tid : Tid) (fd : Fd) (count : Int)
  | seek (tid : Tid) (fd : Fd) (offset : Int)
  | seekEnd (tid : Tid) (fd : Fd)
  | seekData (tid : Tid) (fd : Fd) (offset : Int)
  | seekHole (tid : Tid) (fd : Fd) (offset : Int)
  | fstat (tid : Tid) (fd : Fd)
  | dup (tid : Tid) (oldFd newFd : Fd)
  | close (tid : Tid) (fd : Fd)
  | mkdir (tid : Tid) (path : Path)
  | rmdir (tid : Tid) (path : Path)
  | unlink (tid : Tid) (path : Path)
  | exitGroup (tid : Tid)
  deriving DecidableEq

structure Client where
  fs : Filesystem := {}
  read : Tid → ReadLine := fun _ => {}
  write : Tid → WriteCache := fun _ => {}
  sent : List Sent := []

namespace Client

/-- The ways a handler does not return: `at` throws, or it ends the process with `ERR_EXIT`. -/
inductive Stop
  | missing (entry : Missing)
  | exit
  deriving DecidableEq

def CAPIO_DEFAULT_FILE_INITIAL_SIZE : Int := 4 * 1024 * 1024 * 1024

def SSIZE_MAX : Int := 2 ^ 63 - 1

/-! The flags of `open`, on x86-64. -/

def O_CREAT : Nat := 64

def O_EXCL : Nat := 128

def O_APPEND : Nat := 1024

def O_LARGEFILE : Nat := 0

def O_DIRECTORY : Nat := 65536

def O_CLOEXEC : Nat := 524288

def hasFlag (flags flag : Nat) : Bool := flags &&& flag == flag

def actualFlags (flags : Nat) : Nat :=
  let flags' := flags ^^^ (flags &&& O_CLOEXEC)
  if hasFlag flags O_DIRECTORY then flags' ||| O_LARGEFILE else flags'

inductive Whence
  | SEEK_SET
  | SEEK_CUR
  | SEEK_END
  | SEEK_DATA
  | SEEK_HOLE
  | invalid
  deriving DecidableEq

inductive Result
  | skip
  | errno (e : Keys.Errno)
  | value (n : Int)

def see {α : Type} (x : Except Missing α) : Except Stop α := x.mapError .missing

def send (c : Client) (r : Sent) : Client := { c with sent := c.sent ++ [r] }

def withTables (c : Client) (x : Except Missing Filesystem) : Except Stop Client := do
  let fs ← see x
  pure { c with fs := fs }

def setRead (c : Client) (tid : Tid) (r : ReadLine) : Client :=
  { c with read := Function.update c.read tid r }

def requestsOf (tid : Tid) (actions : List CacheAction) : List Sent :=
  actions.filterMap fun
    | .request fd count => some (.write tid fd count)
    | _ => none

def applyWrite (c : Client) (tid : Tid) (r : WriteCache × List CacheAction) : Client :=
  { c with write := Function.update c.write tid r.1, sent := c.sent ++ requestsOf tid r.2 }

def flushWrite (c : Client) (tid : Tid) : Client := c.applyWrite tid (c.write tid).flush

def flushRead (c : Client) (tid : Tid) : Except Stop Client :=
  let r := c.read tid
  if r.cacheOffset ≠ r.actualSize then do
    let c := c.setRead tid { r with actualSize := 0, cacheOffset := 0 }
    let offset ← see (c.fs.getCapioFdOffset r.lastFd)
    pure (c.send (.seek tid r.lastFd offset))
  else pure c

def switchRead (c : Client) (tid : Tid) (fd : Fd) : Except Stop Client :=
  if (c.read tid).lastFd ≠ fd then do
    let c ← c.flushRead tid
    pure (c.setRead tid { c.read tid with lastFd := fd })
  else pure c

/-- What a read leaves in the cache, the number of bytes it returns, and the size it asks the server
for, if it does; `endOfRead` is the answer. -/
def readLine (maxLineSize : Nat) (r : ReadLine) (fileOffset count endOfRead : Int) :
    ReadLine × Int × Option Int :=
  let remaining := r.actualSize - r.cacheOffset
  let readSize := count - remaining
  if count ≤ remaining then
    ({ r with cacheOffset := r.cacheOffset + max count 0 }, count, none)
  else if readSize > maxLineSize then
    ({ r with cacheOffset := r.cacheOffset + max remaining 0 }, endOfRead - fileOffset, some readSize)
  else
    let actualSize := endOfRead - fileOffset - remaining
    if readSize < actualSize then
      ({ r with actualSize := actualSize, cacheOffset := max readSize 0 }, count, some maxLineSize)
    else
      ({ r with actualSize := actualSize, cacheOffset := max actualSize 0 }, remaining + actualSize,
        some maxLineSize)

def cachedRead (maxLineSize : Nat) (c : Client) (tid : Tid) (fd : Fd) (count endOfRead : Int) :
    Except Stop Client := do
  let c ← (c.flushWrite tid).switchRead tid fd
  let fileOffset ← see (c.fs.getCapioFdOffset fd)
  let (r, bytesRead, asked) := readLine maxLineSize (c.read tid) fileOffset count endOfRead
  let c := { c.setRead tid r with sent := c.sent ++ (asked.map (Sent.read tid fd)).toList }
  c.withTables (c.fs.setCapioFdOffset fd (fileOffset + bytesRead))

def cachesFileOf (c : Client) (tid : Tid) (fd : Fd) : Except Stop Bool :=
  let lastFd := (c.read tid).lastFd
  if fd = lastFd then pure true
  else if c.fs.existsCapioFd lastFd then do
    let path ← see (c.fs.getCapioFdPath fd)
    let lastPath ← see (c.fs.getCapioFdPath lastFd)
    pure (path == lastPath)
  else pure false

def cachedWrite (maxLineSize : Nat) (c : Client) (tid : Tid) (fd : Fd) (buffer : List Byte)
    (count : Int) : Except Stop Client := do
  let caches ← c.cachesFileOf tid fd
  let c ← (if caches then c.flushRead tid else pure c)
  let c := c.applyWrite tid ((c.write tid).write maxLineSize fd buffer count)
  let offset ← see (c.fs.getCapioFdOffset fd)
  c.withTables (c.fs.setCapioFdOffset fd (offset + count))

def setFdOffset (c : Client) (tid : Tid) (fd : Fd) (offset : Int) : Except Stop Client := do
  let c ← c.flushRead tid
  let c := c.flushWrite tid
  let c ← c.withTables (c.fs.setCapioFdOffset fd offset)
  pure (c.send (.seek tid fd offset))

def capioRead (maxLineSize : Nat) (c : Client) (tid : Tid) (fd : Fd) (count endOfRead : Int) :
    Except Stop Client :=
  if c.fs.existsCapioFd fd then
    if count ≥ SSIZE_MAX then throw .exit else c.cachedRead maxLineSize tid fd count endOfRead
  else pure c

def capioWrite (maxLineSize : Nat) (c : Client) (tid : Tid) (fd : Fd) (buffer : List Byte)
    (count : Int) : Except Stop Client :=
  if c.fs.existsCapioFd fd then
    if count > SSIZE_MAX then throw .exit else c.cachedWrite maxLineSize tid fd buffer count
  else pure c

/-- `answer` is what the server replies to a request for data or for a hole; the reply to a request
for the end of the file is not used. -/
def capioLseek (c : Client) (tid : Tid) (fd : Fd) (offset : Int) (whence : Whence) (answer : Int) :
    Except Stop Client :=
  if c.fs.existsCapioFd fd then do
    let c ← c.flushRead tid
    let c := c.flushWrite tid
    let fileOffset ← see (c.fs.getCapioFdOffset fd)
    match whence with
    | .SEEK_SET => if offset ≥ 0 then c.setFdOffset tid fd offset else pure c
    | .SEEK_CUR =>
      if fileOffset + offset ≥ 0 then c.setFdOffset tid fd (fileOffset + offset) else pure c
    | .SEEK_END =>
      let c := c.send (.seekEnd tid fd)
      c.withTables (c.fs.setCapioFdOffset fd (fileOffset + offset))
    | .SEEK_DATA =>
      let c := c.send (.seekData tid fd fileOffset)
      c.withTables (c.fs.setCapioFdOffset fd answer)
    | .SEEK_HOLE =>
      let c := c.send (.seekHole tid fd fileOffset)
      c.withTables (c.fs.setCapioFdOffset fd answer)
    | .invalid => pure c
  else pure c

def capioFstat (c : Client) (tid : Tid) (fd : Fd) (fileSize : Int) : Except Stop Client :=
  if c.fs.existsCapioFd fd then
    let c := (c.flushWrite tid).send (.fstat tid fd)
    if fileSize = -1 then pure c
    else do
      let _ ← see (c.fs.getCapioFdPath fd)
      pure c
  else pure c

def closeHandler (c : Client) (tid : Tid) (fd : Fd) : Except Stop Client :=
  if c.fs.existsCapioFd fd then do
    let c ← (c.flushWrite tid).flushRead tid
    let c := c.send (.close tid fd)
    c.withTables (c.fs.deleteCapioFd fd)
  else pure c

def duplicate (c : Client) (tid : Tid) (fd res : Fd) (isCloexec : Bool) : Except Stop Client :=
  let c := c.send (.dup tid fd res)
  c.withTables (c.fs.dupCapioFd fd res isCloexec)

def dupHandler (c : Client) (tid : Tid) (fd res : Fd) : Except Stop Client :=
  if c.fs.existsCapioFd fd then
    if res = -1 then pure c else c.duplicate tid fd res false
  else pure c

def dup2Handler (c : Client) (tid : Tid) (fd res : Fd) : Except Stop Client :=
  if c.fs.existsCapioFd fd then
    if res = -1 then pure c
    else if fd ≠ res then c.duplicate tid fd res false
    else pure c
  else pure c

def dup3Handler (c : Client) (tid : Tid) (fd fd2 : Fd) (flags : Nat) (res : Fd) : Except Stop Client :=
  if c.fs.existsCapioFd fd then
    if fd = fd2 then pure c
    else if res = -1 then pure c
    else c.duplicate tid fd res (hasFlag flags O_CLOEXEC)
  else pure c

def exitHandler (c : Client) (tid : Tid) : Except Stop Client := do
  let c ← c.flushRead tid
  pure ((c.flushWrite tid).send (.exitGroup tid))

section

variable (p : Keys.Process)

def resolver (c : Client) : Keys.Process :=
  { p with capioFilesDescriptors := c.fs.capioFilesDescriptors }

def openRequest (flags : Nat) (tid : Tid) (fd : Fd) (path : Path) : Sent :=
  if hasFlag flags O_EXCL then .createExclusive tid fd path
  else if hasFlag flags O_CREAT then .create tid fd path
  else .openFile tid fd path

def capioOpenat (c : Client) (tid : Tid) (dirfd : Option Fd) (pathname : Path) (flags : Nat) (fd : Fd)
    (code : Int) : Except Stop (Result × Client) :=
  match (c.resolver p).capioOpenat dirfd pathname with
  | .key path =>
    if fd = -1 then throw .exit
    else
      let c := c.send (openRequest flags tid fd path)
      if code = 1 then pure (.errno (if hasFlag flags O_EXCL then .EEXIST else .ENOENT), c)
      else do
        let c ← c.withTables (c.fs.addCapioFd path fd 0 CAPIO_DEFAULT_FILE_INITIAL_SIZE
          (actualFlags flags) (hasFlag flags O_CLOEXEC))
        let c ← (if hasFlag flags O_APPEND then c.capioLseek tid fd 0 .SEEK_END 0 else pure c)
        pure (.value fd, c)
  | _ => pure (.skip, c)

def capioMkdirat (c : Client) (tid : Tid) (dirfd : Option Fd) (pathname : Path) (res : Int) :
    Except Stop Client :=
  match (c.resolver p).capioMkdirat dirfd pathname with
  | .key path =>
    if c.fs.existsCapioPath path then pure c
    else
      let c := c.send (.mkdir tid path)
      if res = 1 then pure c else pure { c with fs := c.fs.addCapioPath path }
  | _ => pure c

def capioRmdir (c : Client) (tid : Tid) (pathname : Path) (res : Int) : Except Stop Client :=
  match (c.resolver p).capioRmdir pathname with
  | .key path =>
    if c.fs.existsCapioPath path then
      let c := c.send (.rmdir tid path)
      if res = CAPIO_POSIX_SYSCALL_REQUEST_SKIP ∨ res = 2 then pure c
      else c.withTables (c.fs.deleteCapioPath path)
    else pure c
  | _ => pure c

def unlinkResult (isDir : Bool) (answer : Int) : Int :=
  if isDir then
    if answer = 2 then -1
    else if answer ≠ CAPIO_POSIX_SYSCALL_REQUEST_SKIP then 0
    else answer
  else answer

def capioUnlinkat (c : Client) (tid : Tid) (dirfd : Option Fd) (pathname : Path) (isDir : Bool)
    (answer : Int) : Except Stop Client :=
  match (c.resolver p).capioUnlinkat dirfd pathname with
  | .key path =>
    let c := c.send (if isDir then .rmdir tid path else .unlink tid path)
    if unlinkResult isDir answer = -1 then pure c
    -- the path need not be one of the tables
    else c.withTables (c.fs.deleteCapioPath path)
  | .exit => throw .exit
  | _ => pure c

end

end Client

end Capio.Posix
