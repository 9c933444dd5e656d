import Mathlib.Logic.Function.Basic
import Capio.Common.Types
import Capio.Lib.Lines

/-! # File locations

Every node appends the paths it stores to its own file `files_location_<node>.txt` and keeps a
table of the locations it knows.  A record is invalidated by overwriting its first letter.  A node
opens its own file with mode `w+` and those of the others with mode `a+`, where writes append.
A search seeks to the start of a stream, which does not read again what its buffer holds.
-/
namespace Capio.Server

open Common Lib.Lines

/-- The node that stores a path and the offset remembered for its record.  `own` says that the
name of the node is the very string of this server, whose address the source compares once. -/
structure LocationEntry where
  node : Node
  offset : Int
  own : Bool
  deriving DecidableEq

abbrev FilesLocation := Path → Option LocationEntry

/-- The nodes in the order of `get_nodes`, and the number of bytes a stream reads at a time. -/
structure Cluster where
  nodes : List Node
  bufferSize : Nat

structure Locations where
  files : Node → List Char
  table : FilesLocation

def CAPIO_SERVER_INVALIDATE_FILE_PATH_CHAR : Char := '#'

def addFileLocation (table : FilesLocation) (path : Path) (entry : LocationEntry) : FilesLocation :=
  match table path with
  | some _ => table
  | none => Function.update table path (some entry)

def eraseFromFilesLocation (table : FilesLocation) (path : Path) : FilesLocation :=
  Function.update table path none

def renameFileLocation (table : FilesLocation) (oldpath newpath : Path) : FilesLocation :=
  match table oldpath with
  | none => table
  | some entry => addFileLocation (eraseFromFilesLocation table oldpath) newpath entry

def recordedPath (line : List Char) : Path := line.takeWhile (· != ' ')

def records (path : Path) (line : List Char) : Bool :=
  line.head? != some CAPIO_SERVER_INVALIDATE_FILE_PATH_CHAR && decide (SamePath (recordedPath line) path)

def findRecord (file : List Char) (path : Path) : Option (Nat × Nat) :=
  findLine (records path) 0 (lines '\n' file)

/-- What a stream reads from the start on: its buffer, if that has the first bytes of the file, and then
the file as it is. -/
def streamText (buffer file : List Char) : List Char := buffer ++ file.drop buffer.length

def readerPosition (c : Cluster) (buffer file : List Char) (lineEnd : Nat) : Nat :=
  min file.length (buffer.length +
    (lineEnd - buffer.length + c.bufferSize - 1) / c.bufferSize * c.bufferSize)

/-- The node whose file records the path, the path as it is spelled there, and the position of the
reader. -/
def searchNodes (c : Cluster) (streams files : Node → List Char) (path : Path) :
    List Node → Option (Node × Path × Nat)
  | [] => none
  | node :: nodes =>
    match findRecord (streamText (streams node) (files node)) path with
    | some (lineStart, lineEnd) =>
      some (node, recordedPath (((streamText (streams node) (files node)).take lineEnd).drop lineStart),
        readerPosition c (streams node) (files node) lineEnd)
    | none => searchNodes c streams files path nodes

def keptBuffer (c : Cluster) (buffer file : List Char) (lineEnd : Nat) : List Char :=
  if lineEnd ≤ buffer.length then buffer
  else if buffer = [] ∧ lineEnd ≤ c.bufferSize then file.take c.bufferSize
  else []

/-- The buffers after a search: the end of a file drops its buffer, and so does a later block. -/
def streamsAfter (c : Cluster) (streams files : Node → List Char) (path : Path) :
    List Node → Node → List Char
  | [] => streams
  | node :: nodes =>
    match findRecord (streamText (streams node) (files node)) path with
    | some (_, lineEnd) =>
      Function.update streams node (keptBuffer c (streams node) (files node) lineEnd)
    | none => Function.update (streamsAfter c streams files path nodes) node []

/-- Without `streams` nothing is left in their buffers. -/
def loadFileLocation (c : Cluster) (l : Locations) (path : Path)
    (streams : Node → List Char := fun _ => []) : Bool × Locations :=
  match searchNodes c streams l.files path c.nodes with
  | some (node, recorded, offset) =>
    (true, { l with table := addFileLocation l.table recorded ⟨node, offset, false⟩ })
  | none => (false, l)

def locationLine (self : Node) (path : Path) : List Char :=
  path ++ [' '] ++ self ++ ['\n']

def writeFileLocation (self : Node) (l : Locations) (path : Path) : Locations where
  files := Function.update l.files self (l.files self ++ locationLine self path)
  table := addFileLocation l.table path ⟨self, (l.files self).length, true⟩

def invalidate (self node : Node) (file : List Char) (offset : Nat) : List Char :=
  if node = self then overwrite '\x00' file offset CAPIO_SERVER_INVALIDATE_FILE_PATH_CHAR
  else file ++ [CAPIO_SERVER_INVALIDATE_FILE_PATH_CHAR]

def deleteFromFilesLocation (self : Node) (l : Locations) (path : Path) :
    Except Failure (Nat × Locations) :=
  match l.table path with
  | none => .error (.locationNotFound path)
  | some ⟨node, offset, _⟩ =>
    let table := eraseFromFilesLocation l.table path
    if offset = -1 then
      match findRecord (l.files node) path with
      | some (lineStart, _) =>
        -- this branch writes through the node's own descriptor; only its own entries have -1
        .ok (1, ⟨Function.update l.files node (invalidate node node (l.files node) lineStart), table⟩)
      | none => .ok (2, { l with table := table })
    else
      .ok (1, ⟨Function.update l.files node (invalidate self node (l.files node) offset.toNat), table⟩)

theorem addFileLocation_eq_some (h : addFileLocation table path entry p = some e) :
    table p = some e ∨ (p = path ∧ e = entry) := by
  unfold addFileLocation at h
  cases hPath : table path with
  | some old =>
    simp only [hPath] at h
    exact .inl h
  | none =>
    simp only [hPath, Function.update_apply] at h
    grind

end Capio.Server
