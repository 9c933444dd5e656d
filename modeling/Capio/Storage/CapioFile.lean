import Capio.Lib.Outcome
import Capio.Storage.FileBuffer

/-! # Files

One `CapioFile` with its sectors, its counters and its buffer.  Condition variables and mutexes
are left out: a method is one step, and a thread that waits is resumed when its condition holds.
-/
namespace Capio.Storage

open Common Lib.Memory Lib.Outcome Sectors

structure CapioFile where
  buffer : FileBuffer := {}
  requestedSize : Nat := 0
  nClose : Int := 0
  nOpens : Int := 0
  nFiles : Nat := 0
  nFilesExpected : Nat := 0
  nCloseExpected : Nat := 0
  homeNode : Bool := false
  committed : Bool := false
  directory : Bool := false
  permanent : Bool := false
  firstWrite : Bool := true
  sectors : List Sector := []
  realFileSize : Nat := 0
  threadsFd : List (Tid × Fd) := []
  deriving DecidableEq

namespace CapioFile

def new (directory : Bool) (nFilesExpected : Nat) (permanent : Bool) (initSize nCloseExpected : Nat) :
    CapioFile :=
  { requestedSize := initSize, nFilesExpected := nFilesExpected + 2,
    nCloseExpected := nCloseExpected, directory := directory, permanent := permanent }

def setCommitted (f : CapioFile) (commit : Bool := true) : CapioFile :=
  if f.committed ≠ commit then { f with committed := commit } else f

theorem setCommitted_eq (f : CapioFile) (commit : Bool) :
    f.setCommitted commit = { f with committed := commit } := by
  unfold setCommitted
  split
  · rfl
  · rename_i h
    rw [← not_not.mp h]

def addFd (f : CapioFile) (tid : Tid) (fd : Fd) : CapioFile :=
  { f with threadsFd := f.threadsFd ++ [(tid, fd)] }

def removeFd (f : CapioFile) (tid : Tid) (fd : Fd) : CapioFile :=
  { f with threadsFd := f.threadsFd.erase (tid, fd) }

def openFile (f : CapioFile) : CapioFile :=
  { f with nOpens := f.nOpens + 1 }

def close (f : CapioFile) : CapioFile :=
  { f with nClose := f.nClose + 1, nOpens := f.nOpens - 1 }

def closed (f : CapioFile) : Bool :=
  f.nCloseExpected == 0 || f.nClose == f.nCloseExpected

def deletable (f : CapioFile) : Bool :=
  decide (f.nOpens ≤ 0)

def registerFirstWrite (f : CapioFile) : CapioFile :=
  { f with firstWrite := false }

def incrementDirectoryFileCount (f : CapioFile) : CapioFile :=
  { f with nFiles := f.nFiles + 1 }

def setRealFileSize (f : CapioFile) (size : Nat) : CapioFile :=
  { f with realFileSize := size }

def insertSector (f : CapioFile) (newStart newEnd : Nat) : CapioFile :=
  { f with sectors := Sectors.insertSector f.sectors newStart newEnd }

def getStoredSize (f : CapioFile) : Nat := getFileSize f.sectors

def getBufSize (f : CapioFile) : Nat := f.buffer.size

/-- The condition `waitForData(offset)` waits for. -/
def dataReady (f : CapioFile) (offset : Int) : Bool :=
  decide (offset ≤ f.getStoredSize) || f.committed

def dump (f : CapioFile) : Except Failure CapioFile :=
  if f.permanent && !f.directory && f.homeNode then
    match f.buffer.storage with
    | .heap => .ok f
    | .mapped _ _ =>
      match f.buffer.commit f.getStoredSize with
      | some b => .ok { f with buffer := b }
      | none => .error .commitBuffer
  else .ok f

def createBuffer (os : Os) (f : CapioFile) (homeNode : Bool) : Except Failure CapioFile :=
  if f.buffer.empty then
    if f.permanent && homeNode && !f.directory then
      match allocateMapped os f.requestedSize with
      | some b => .ok { f with homeNode := homeNode, buffer := b }
      | none => .error .mmapBuffer
    else .ok { f with homeNode := homeNode, buffer := allocateHeap os f.requestedSize }
  else .ok f

def expandBuffer (os : Os) (f : CapioFile) (dataSize : Nat) : Except Failure CapioFile :=
  match f.buffer.grow os dataSize f.sectors with
  | .ok (some b) => .ok { f with buffer := b }
  | .ok none => .error .growBuffer
  | .error e => .error e

def loadBytes (f : CapioFile) (offset n : Nat) : Except Failure (List Byte) :=
  match f.buffer.data with
  | none => .error .nullPointer
  | some d =>
    match load d offset n with
    | some bytes => .ok bytes
    | none => .error .outOfBounds

/-- A copy of bytes into the buffer: what `readFromQueue`, `readFromNode`, `copyFromFile` and
`addDirectoryEntry` do once the bytes are known. -/
def storeBytes (f : CapioFile) (offset : Nat) (bytes : List Byte) : Except Failure CapioFile :=
  match f.buffer.data with
  | none => .error .nullPointer
  | some d =>
    match store d offset bytes with
    | some d' => .ok { f with buffer := { f.buffer with data := some d' } }
    | none => .error .outOfBounds

def makeRoom (os osGrow : Os) (f : CapioFile) (stop : Nat) : Except Failure CapioFile := do
  let f ← f.createBuffer os true
  if f.getBufSize < stop then f.expandBuffer osGrow stop else pure f

def writeData (os osGrow : Os) (f : CapioFile) (offset : Nat) (data : List Byte) :
    Except Failure CapioFile := do
  let f ← f.makeRoom os osGrow (offset + data.length)
  let f ← f.storeBytes offset data
  pure (f.insertSector offset (offset + data.length))

def bytesCopied (src : CapioFile) (offsetIn count : Nat) : Nat :=
  match getSectorEnd src.sectors offsetIn with
  | none => 0
  | some stop => min count (stop - offsetIn)

/-- What `copy_file_range_data` does to the output once there are bytes to copy: it returns them
with the new output.  `same` says that input and output are one object, which then moves with the
output's buffer. -/
def copyData (os osGrow : Os) (same : Bool) (src dst : CapioFile) (offsetIn offsetOut n : Nat) :
    Except Failure (List Byte × CapioFile) := do
  let dst ← dst.makeRoom os osGrow (offsetOut + n)
  let bytes ← (if same then dst else src).loadBytes offsetIn n
  let dst ← dst.storeBytes offsetOut bytes
  pure (bytes, dst.insertSector offsetOut (offsetOut + n))

def fieldBytes (width n : Nat) : List Byte :=
  (List.range width).map fun k => UInt8.ofNat (n >>> (8 * k))

/-- A `linux_dirent64` in memory; what `strcpy` leaves of `d_name`, and the padding, is not set. -/
def linuxDirent64 (os : Os) (ino off : Nat) (directory : Bool) (name : List Byte) : List Byte :=
  let fields := fieldBytes 8 ino ++ fieldBytes 8 off ++ fieldBytes 2 DIRENT_SIZE ++
    [if directory then 4 else 8] ++ name ++ [0]
  (fields ++ fresh os.junk DIRENT_SIZE).take DIRENT_SIZE

/-- What `addDirectoryEntry` does to the directory, up to the commit: it returns the record too. -/
def appendEntry (os osGrow : Os) (f : CapioFile) (ino : Nat) (name : List Byte) :
    Except Failure (List Byte × CapioFile) := do
  let fileSize := f.getStoredSize
  let f ← f.makeRoom os osGrow (fileSize + DIRENT_SIZE)
  let record := linuxDirent64 os ino (fileSize + DIRENT_SIZE) f.directory name
  let f ← f.storeBytes fileSize record
  pure (record, (f.insertSector fileSize (fileSize + DIRENT_SIZE)).incrementDirectoryFileCount)

def Rebuffered (f f' : CapioFile) : Prop :=
  ∃ buffer homeNode, f' = { f with buffer := buffer, homeNode := homeNode }

theorem Rebuffered.refl (f : CapioFile) : Rebuffered f f := ⟨f.buffer, f.homeNode, rfl⟩

theorem Rebuffered.trans (h : Rebuffered f f') (h' : Rebuffered f' f'') : Rebuffered f f'' := by
  obtain ⟨b, n, rfl⟩ := h
  obtain ⟨b', n', rfl⟩ := h'
  exact ⟨b', n', rfl⟩

theorem createBuffer_rebuffers (os : Os) (f : CapioFile) (homeNode : Bool) :
    Yields (f.createBuffer os homeNode) (Rebuffered f) := by
  refine .ite (fun _ => .ite (fun _ => ?_) fun _ => ⟨_, _, rfl⟩) fun _ => .refl f
  split
  · exact ⟨_, _, rfl⟩
  · trivial

theorem expandBuffer_rebuffers (os : Os) (f : CapioFile) (dataSize : Nat) :
    Yields (f.expandBuffer os dataSize) (Rebuffered f) := by
  unfold expandBuffer
  split
  · exact ⟨_, _, rfl⟩
  · trivial
  · trivial

theorem storeBytes_rebuffers (f : CapioFile) (offset : Nat) (bytes : List Byte) :
    Yields (f.storeBytes offset bytes) (Rebuffered f) := by
  unfold storeBytes
  split
  · trivial
  · split
    · exact ⟨_, _, rfl⟩
    · trivial

theorem dump_rebuffers (f : CapioFile) : Yields f.dump (Rebuffered f) := by
  refine .ite (fun _ => ?_) fun _ => .refl f
  split
  · exact .refl f
  · split
    · exact ⟨_, _, rfl⟩
    · trivial

theorem makeRoom_rebuffers (os osGrow : Os) (f : CapioFile) (stop : Nat) :
    Yields (f.makeRoom os osGrow stop) (Rebuffered f) := by
  refine (createBuffer_rebuffers os f true).bind fun f1 h1 => .ite (fun _ => ?_) fun _ => h1
  exact (expandBuffer_rebuffers osGrow f1 stop).imp (fun _ => h1.trans)

theorem writeData_rebuffers (os osGrow : Os) (f : CapioFile) (offset : Nat) (data : List Byte) :
    Yields (f.writeData os osGrow offset data) (fun f' => ∃ f1, Rebuffered f f1 ∧
      f' = f1.insertSector offset (offset + data.length)) := by
  refine (makeRoom_rebuffers os osGrow f _).bind fun f1 h1 => ?_
  exact (storeBytes_rebuffers f1 offset data).bind fun f2 h2 => ⟨f2, h1.trans h2, rfl⟩

theorem copyData_rebuffers (os osGrow : Os) (same : Bool) (src dst : CapioFile) (offsetIn offsetOut n : Nat) :
    Yields (copyData os osGrow same src dst offsetIn offsetOut n) (fun r => ∃ f1, Rebuffered dst f1 ∧
      r.2 = f1.insertSector offsetOut (offsetOut + n)) := by
  refine (makeRoom_rebuffers os osGrow dst _).bind fun f1 h1 => ?_
  refine .skip fun bytes => ?_
  exact (storeBytes_rebuffers f1 offsetOut bytes).bind fun f2 h2 => ⟨f2, h1.trans h2, rfl⟩

theorem appendEntry_rebuffers (os osGrow : Os) (f : CapioFile) (ino : Nat) (name : List Byte) :
    Yields (f.appendEntry os osGrow ino name) (fun r => ∃ f1, Rebuffered f f1 ∧ r.2 =
      (f1.insertSector f.getStoredSize (f.getStoredSize + DIRENT_SIZE)).incrementDirectoryFileCount) := by
  refine (makeRoom_rebuffers os osGrow f _).bind fun f1 h1 => ?_
  exact (storeBytes_rebuffers f1 _ _).bind fun f2 h2 => ⟨f2, h1.trans h2, rfl⟩

@[simp] theorem length_linuxDirent64 (os : Os) (ino off : Nat) (directory : Bool) (name : List Byte) :
    (linuxDirent64 os ino off directory name).length = DIRENT_SIZE := by
  simp only [linuxDirent64, List.length_take, List.length_append, length_fresh]
  omega

end CapioFile

end Capio.Storage
