import Capio.Common.Types
import Capio.Lib.Format

/-! # The requests of a client

A client writes a request with `sprintf` into a buffer of `CAPIO_REQ_MAX_SIZE` bytes, and sends the
whole buffer.  The server splits off the code and reads the rest with the `sscanf` of the handler for
that code.
-/
namespace Capio.Posix.Requests

open Common Lib.Format List Option

def CAPIO_REQ_MAX_SIZE : Nat := 256

inductive Request
  | access (path : Path) (tid : Int)
  | clone (parentTid childTid : Int)
  | close (fd tid : Int)
  | rename (tid : Int) (oldPath newPath : Path)
  | create (fd : Int) (path : Path) (tid : Int)
  | createExclusive (fd : Int) (path : Path) (tid : Int)
  | dup (oldFd newFd tid : Int)
  | exitGroup (tid : Int)
  | getdents (fd count : Int) (is64bit : Bool) (tid : Int)
  | handshakeAnonymous (tid pid : Int)
  | handshakeNamed (tid pid : Int) (appName : AppName) (wait : Bool)
  | fstat (fd tid : Int)
  | mkdir (path : Path) (tid : Int)
  | open (fd : Int) (path : Path) (tid : Int)
  | copyFileRange (fdIn fdOut offsetIn offsetOut count tid : Int)
  | read (fd count tid : Int)
  | seekData (fd offset tid : Int)
  | seekEnd (fd tid : Int)
  | seekHole (fd offset tid : Int)
  | seek (fd offset tid : Int)
  | stat (path : Path) (tid : Int)
  | unlink (path : Path) (tid : Int)
  | rmdir (dirPath : Path) (tid : Int)
  | write (fd count tid : Int)
  deriving DecidableEq

def Request.tid : Request → Int
  | .access _ tid | .clone tid _ | .close _ tid | .rename tid _ _ | .create _ _ tid
  | .createExclusive _ _ tid | .dup _ _ tid | .exitGroup tid | .getdents _ _ _ tid
  | .handshakeAnonymous tid _ | .handshakeNamed tid _ _ _ | .fstat _ tid | .mkdir _ tid
  | .open _ _ tid | .copyFileRange _ _ _ _ _ tid | .read _ _ tid | .seekData _ _ tid
  | .seekEnd _ tid | .seekHole _ _ tid | .seek _ _ tid | .stat _ tid | .unlink _ tid | .rmdir _ tid
  | .write _ _ tid => tid

def Request.reads : Request → List Int → Bool
  | .clone _ _, _ | .close _ _, _ | .dup _ _ _, _ | .exitGroup _, _ | .handshakeAnonymous _ _, _
  | .write _ _ _, _ => false
  | .handshakeNamed _ _ _ wait, got => wait && got.isEmpty
  | .fstat _ _, got | .seekEnd _ _, got => got.length < 2
  | .stat _ _, [] => true
  | .stat _ _, [fileSize] => fileSize != CAPIO_POSIX_SYSCALL_REQUEST_SKIP
  | .stat _ _, _ => false
  | _, got => got.isEmpty

inductive Var
  | tid
  | parentTid
  | childTid
  | pid
  | fd
  | oldFd
  | newFd
  | fdIn
  | fdOut
  | wait
  | count
  | offset
  | offsetIn
  | offsetOut
  | path
  | oldPath
  | newPath
  | dirPath
  | appName
  deriving DecidableEq

/-- The thread and process ids of a client are a `long`, with a value of a `pid_t`. -/
def Var.type : Var → CType
  | .count | .offset | .offsetIn | .offsetOut => .num .long
  | .path | .oldPath | .newPath | .dirPath | .appName => .string
  | _ => .num .int

structure Sprintf where
  format : List Directive
  code : Nat
  values : List (Var × Arg)

def Sprintf.args (f : Sprintf) : List Arg := f.values.map Prod.snd

def Sprintf.text (f : Sprintf) : List Char := printf f.format (.int f.code :: f.args)

def accessRequest (path : Path) (tid : Int) : Sprintf := ⟨printed "%04d %ld %s", 0, [(.tid, .int tid), (.path, .str path)]⟩

def cloneRequest (parentTid childTid : Int) : Sprintf :=
  ⟨printed "%04d  %ld %ld", 1, [(.parentTid, .int parentTid), (.childTid, .int childTid)]⟩

def closeRequest (fd tid : Int) : Sprintf := ⟨printed "%04d %ld %d", 2, [(.tid, .int tid), (.fd, .int fd)]⟩

def renameRequest (tid : Int) (oldPath newPath : Path) : Sprintf :=
  ⟨printed "%04d %s %s %ld", 15, [(.oldPath, .str oldPath), (.newPath, .str newPath), (.tid, .int tid)]⟩

def createRequest (fd : Int) (path : Path) (tid : Int) : Sprintf :=
  ⟨printed "%04d %ld %d %s", 3, [(.tid, .int tid), (.fd, .int fd), (.path, .str path)]⟩

def createExclusiveRequest (fd : Int) (path : Path) (tid : Int) : Sprintf :=
  ⟨printed "%04d %ld %d %s", 4, [(.tid, .int tid), (.fd, .int fd), (.path, .str path)]⟩

def dupRequest (oldFd newFd tid : Int) : Sprintf :=
  ⟨printed "%04d %ld %d %d", 5, [(.tid, .int tid), (.oldFd, .int oldFd), (.newFd, .int newFd)]⟩

def exitGroupRequest (tid : Int) : Sprintf := ⟨printed "%04d %ld", 6, [(.tid, .int tid)]⟩

def getdentsRequest (fd count : Int) (is64bit : Bool) (tid : Int) : Sprintf :=
  ⟨printed "%04d %ld %d %ld", if is64bit then 9 else 8, [(.tid, .int tid), (.fd, .int fd), (.count, .int count)]⟩

def handshakeAnonymousRequest (tid pid : Int) : Sprintf :=
  ⟨printed "%04d %ld %ld", 11, [(.tid, .int tid), (.pid, .int pid)]⟩

def handshakeNamedRequest (tid pid : Int) (appName : AppName) (wait : Bool) : Sprintf :=
  ⟨printed "%04d %ld %ld %s %d", 10, [(.tid, .int tid), (.pid, .int pid), (.appName, .str appName), (.wait, boolArg wait)]⟩

def fstatRequest (fd tid : Int) : Sprintf := ⟨printed "%04d %ld %d", 7, [(.tid, .int tid), (.fd, .int fd)]⟩

def mkdirRequest (path : Path) (tid : Int) : Sprintf := ⟨printed "%04d %ld %s", 12, [(.tid, .int tid), (.path, .str path)]⟩

def openRequest (fd : Int) (path : Path) (tid : Int) : Sprintf :=
  ⟨printed "%04d %ld %d %s", 13, [(.tid, .int tid), (.fd, .int fd), (.path, .str path)]⟩

def copyFileRangeRequest (fdIn fdOut offsetIn offsetOut count tid : Int) : Sprintf :=
  ⟨printed "%04d %ld %d %d %ld %ld %ld", 24,
    [(.tid, .int tid), (.fdIn, .int fdIn), (.fdOut, .int fdOut), (.offsetIn, .int offsetIn),
    (.offsetOut, .int offsetOut), (.count, .int count)]⟩

def readRequest (fd count tid : Int) : Sprintf :=
  ⟨printed "%04d %ld %d %ld", 14, [(.tid, .int tid), (.fd, .int fd), (.count, .int count)]⟩

def seekDataRequest (fd offset tid : Int) : Sprintf :=
  ⟨printed "%04d %ld %d %zu", 17, [(.tid, .int tid), (.fd, .int fd), (.offset, .int offset)]⟩

def seekEndRequest (fd tid : Int) : Sprintf := ⟨printed "%04d %ld %d", 18, [(.tid, .int tid), (.fd, .int fd)]⟩

def seekHoleRequest (fd offset tid : Int) : Sprintf :=
  ⟨printed "%04d %ld %d %zu", 19, [(.tid, .int tid), (.fd, .int fd), (.offset, .int offset)]⟩

def seekRequest (fd offset tid : Int) : Sprintf :=
  ⟨printed "%04d %ld %d %zu", 16, [(.tid, .int tid), (.fd, .int fd), (.offset, .int offset)]⟩

def statRequest (path : Path) (tid : Int) : Sprintf := ⟨printed "%04d %ld %s", 20, [(.tid, .int tid), (.path, .str path)]⟩

def unlinkRequest (path : Path) (tid : Int) : Sprintf := ⟨printed "%04d %ld %s", 21, [(.tid, .int tid), (.path, .str path)]⟩

def rmdirRequest (dirPath : Path) (tid : Int) : Sprintf :=
  ⟨printed "%04d %s %ld", 23, [(.dirPath, .str dirPath), (.tid, .int tid)]⟩

def writeRequest (fd count tid : Int) : Sprintf :=
  ⟨printed "%04d %ld %d %ld", 22, [(.tid, .int tid), (.fd, .int fd), (.count, .int count)]⟩

def Request.sprintf : Request → Sprintf
  | .access path tid => accessRequest path tid
  | .clone parentTid childTid => cloneRequest parentTid childTid
  | .close fd tid => closeRequest fd tid
  | .rename tid oldPath newPath => renameRequest tid oldPath newPath
  | .create fd path tid => createRequest fd path tid
  | .createExclusive fd path tid => createExclusiveRequest fd path tid
  | .dup oldFd newFd tid => dupRequest oldFd newFd tid
  | .exitGroup tid => exitGroupRequest tid
  | .getdents fd count is64bit tid => getdentsRequest fd count is64bit tid
  | .handshakeAnonymous tid pid => handshakeAnonymousRequest tid pid
  | .handshakeNamed tid pid appName wait => handshakeNamedRequest tid pid appName wait
  | .fstat fd tid => fstatRequest fd tid
  | .mkdir path tid => mkdirRequest path tid
  | .open fd path tid => openRequest fd path tid
  | .copyFileRange fdIn fdOut offsetIn offsetOut count tid =>
    copyFileRangeRequest fdIn fdOut offsetIn offsetOut count tid
  | .read fd count tid => readRequest fd count tid
  | .seekData fd offset tid => seekDataRequest fd offset tid
  | .seekEnd fd tid => seekEndRequest fd tid
  | .seekHole fd offset tid => seekHoleRequest fd offset tid
  | .seek fd offset tid => seekRequest fd offset tid
  | .stat path tid => statRequest path tid
  | .unlink path tid => unlinkRequest path tid
  | .rmdir dirPath tid => rmdirRequest dirPath tid
  | .write fd count tid => writeRequest fd count tid

def Request.send (r : Request) (junk : List Char) : Option (List Char) :=
  if r.sprintf.text.length + 1 ≤ CAPIO_REQ_MAX_SIZE then some (r.sprintf.text ++ nul :: junk)
  else none

/-! ## The server -/

def readNextRequest (req : List Char) : Option (Int × List Char) :=
  match fromChars (req.take 4) with
  | some (code, rest) => some (code, (req.drop (5 - rest.length)).takeWhile (· != nul))
  | none => none

structure Handler where
  format : List Scan
  vars : List Var

def accessHandler : Handler := ⟨scanned "%ld %s" [PATH_MAX], [.tid, .path]⟩

def cloneHandler : Handler := ⟨scanned "%d %d" [], [.parentTid, .childTid]⟩

def closeHandler : Handler := ⟨scanned "%d %d" [], [.tid, .fd]⟩

def createHandler : Handler := ⟨scanned "%d %d %s" [PATH_MAX], [.tid, .fd, .path]⟩

def createExclusiveHandler : Handler := ⟨scanned "%d %d %s" [PATH_MAX], [.tid, .fd, .path]⟩

def dupHandler : Handler := ⟨scanned "%d %d %d" [], [.tid, .oldFd, .newFd]⟩

def exitGroupHandler : Handler := ⟨scanned "%d" [], [.tid]⟩

def fstatHandler : Handler := ⟨scanned "%d %d" [], [.tid, .fd]⟩

def getdentsHandler : Handler := ⟨scanned "%d %d %ld" [], [.tid, .fd, .count]⟩

def handshakeNamedHandler : Handler :=
  ⟨scanned "%d %d %s %d" [1024], [.tid, .pid, .appName, .wait]⟩

def handshakeAnonymousHandler : Handler := ⟨scanned "%d %d" [], [.tid, .pid]⟩

def mkdirHandler : Handler := ⟨scanned "%d %s" [PATH_MAX], [.tid, .path]⟩

def openHandler : Handler := ⟨scanned "%d %d %s" [PATH_MAX], [.tid, .fd, .path]⟩

def readHandler : Handler := ⟨scanned "%d %d %ld" [], [.tid, .fd, .count]⟩

def renameHandler : Handler :=
  ⟨scanned "%s %s %d" [PATH_MAX, PATH_MAX], [.oldPath, .newPath, .tid]⟩

def lseekHandler : Handler := ⟨scanned "%d %d %ld" [], [.tid, .fd, .offset]⟩

def seekDataHandler : Handler := ⟨scanned "%d %d %ld" [], [.tid, .fd, .offset]⟩

def seekEndHandler : Handler := ⟨scanned "%d %d" [], [.tid, .fd]⟩

def seekHoleHandler : Handler := ⟨scanned "%d %d %ld" [], [.tid, .fd, .offset]⟩

def statHandler : Handler := ⟨scanned "%d %s" [2048], [.tid, .path]⟩

def unlinkHandler : Handler := ⟨scanned "%d %s" [PATH_MAX], [.tid, .path]⟩

def writeHandler : Handler := ⟨scanned "%d %d %ld" [], [.tid, .fd, .count]⟩

def rmdirHandler : Handler := ⟨scanned "%s %d" [PATH_MAX], [.dirPath, .tid]⟩

def copyFileRangeHandler : Handler :=
  ⟨scanned "%d %d %d %ld %ld %ld" [], [.tid, .fdIn, .fdOut, .offsetIn, .offsetOut, .count]⟩

def requestHandlers : List Handler :=
  [accessHandler, cloneHandler, closeHandler, createHandler, createExclusiveHandler, dupHandler,
    exitGroupHandler, fstatHandler, getdentsHandler, getdentsHandler, handshakeNamedHandler,
    handshakeAnonymousHandler, mkdirHandler, openHandler, readHandler, renameHandler, lseekHandler,
    seekDataHandler, seekEndHandler, seekHoleHandler, statHandler, unlinkHandler, writeHandler,
    rmdirHandler, copyFileRangeHandler]

def Handler.run (h : Handler) (str : List Char) : Option (List (Var × Arg)) :=
  (scanf h.format str).map h.vars.zip

def serve (req : List Char) : Option (Int × List (Var × Arg)) :=
  match readNextRequest req with
  | none => none
  | some (code, str) =>
    if code < 0 then none
    else
      match requestHandlers[code.toNat]? with
      | some h => (h.run str).map fun values => (code, values)
      | none => none

def call : Int × List (Var × Arg) → Option Request
  | (0, [(.tid, .int tid), (.path, .str path)]) => some (.access path tid)
  | (1, [(.parentTid, .int parentTid), (.childTid, .int childTid)]) =>
    some (.clone parentTid childTid)
  | (2, [(.tid, .int tid), (.fd, .int fd)]) => some (.close fd tid)
  | (3, [(.tid, .int tid), (.fd, .int fd), (.path, .str path)]) => some (.create fd path tid)
  | (4, [(.tid, .int tid), (.fd, .int fd), (.path, .str path)]) => some (.createExclusive fd path tid)
  | (5, [(.tid, .int tid), (.oldFd, .int oldFd), (.newFd, .int newFd)]) => some (.dup oldFd newFd tid)
  | (6, [(.tid, .int tid)]) => some (.exitGroup tid)
  | (7, [(.tid, .int tid), (.fd, .int fd)]) => some (.fstat fd tid)
  | (8, [(.tid, .int tid), (.fd, .int fd), (.count, .int count)]) => some (.getdents fd count false tid)
  | (9, [(.tid, .int tid), (.fd, .int fd), (.count, .int count)]) => some (.getdents fd count true tid)
  | (10, [(.tid, .int tid), (.pid, .int pid), (.appName, .str appName), (.wait, .int wait)]) =>
    some (.handshakeNamed tid pid appName (wait ≠ 0))
  | (11, [(.tid, .int tid), (.pid, .int pid)]) => some (.handshakeAnonymous tid pid)
  | (12, [(.tid, .int tid), (.path, .str path)]) => some (.mkdir path tid)
  | (13, [(.tid, .int tid), (.fd, .int fd), (.path, .str path)]) => some (.open fd path tid)
  | (14, [(.tid, .int tid), (.fd, .int fd), (.count, .int count)]) => some (.read fd count tid)
  | (15, [(.oldPath, .str oldPath), (.newPath, .str newPath), (.tid, .int tid)]) =>
    some (.rename tid oldPath newPath)
  | (16, [(.tid, .int tid), (.fd, .int fd), (.offset, .int offset)]) => some (.seek fd offset tid)
  | (17, [(.tid, .int tid), (.fd, .int fd), (.offset, .int offset)]) => some (.seekData fd offset tid)
  | (18, [(.tid, .int tid), (.fd, .int fd)]) => some (.seekEnd fd tid)
  | (19, [(.tid, .int tid), (.fd, .int fd), (.offset, .int offset)]) => some (.seekHole fd offset tid)
  | (20, [(.tid, .int tid), (.path, .str path)]) => some (.stat path tid)
  | (21, [(.tid, .int tid), (.path, .str path)]) => some (.unlink path tid)
  | (22, [(.tid, .int tid), (.fd, .int fd), (.count, .int count)]) => some (.write fd count tid)
  | (23, [(.dirPath, .str dirPath), (.tid, .int tid)]) => some (.rmdir dirPath tid)
  | (24, [(.tid, .int tid), (.fdIn, .int fdIn), (.fdOut, .int fdOut), (.offsetIn, .int offsetIn),
      (.offsetOut, .int offsetOut), (.count, .int count)]) =>
    some (.copyFileRange fdIn fdOut offsetIn offsetOut count tid)
  | _ => none

/-! ## Round trips -/

def Request.Typed (r : Request) : Prop :=
  List.Forall₂ CType.Has (r.sprintf.values.map fun v => v.1.type) r.sprintf.args

instance (r : Request) : Decidable r.Typed := inferInstanceAs (Decidable (List.Forall₂ _ _ _))

def Request.Readable (r : Request) : Prop :=
  (∀ s, .str s ∈ r.sprintf.args → IsToken s) ∧
    ∀ n ∈ sizeArgs (r.sprintf.format.drop 2) r.sprintf.args, 0 ≤ n

/-- What the handler of a code is for: it reads the values of the request, in their order, into variables
that have room for them. -/
structure Handler.Serves (h : Handler) (r : Request) : Prop where
  keeps : keepsAll CAPIO_REQ_MAX_SIZE (r.sprintf.format.drop 2) h.format
    (r.sprintf.values.map fun v => v.1.type) = true
  vars : h.vars = r.sprintf.values.map Prod.fst

theorem exists_serves (r : Request) : ∃ h, requestHandlers[r.sprintf.code]? = some h ∧ h.Serves r := by
  cases r with
  | getdents fd count is64bit tid =>
      cases is64bit with
      | false => exact ⟨_, rfl, rfl, rfl⟩
      | true => exact ⟨_, rfl, rfl, rfl⟩
  | _ => exact ⟨_, rfl, rfl, rfl⟩

theorem text_eq (r : Request) : r.sprintf.text = printArg .padded (.int r.sprintf.code) ++
      ' ' :: printf (r.sprintf.format.drop 2) r.sprintf.args := by
  cases r with
  | _ => rfl

theorem fromChars_padded : ∀ code < 25, (printArg .padded (.int (code : Nat))).length = 4 ∧
    fromChars (printArg .padded (.int (code : Nat))) = some ((code : Int), []) := by
  decide

theorem readNextRequest_padded {code : Nat} (hCode : code < 25) {body : List Char} (hNul : nul ∉ body)
    (junk : List Char) : readNextRequest (printArg .padded (.int code) ++ ' ' :: body ++ nul :: junk) =
      some ((code : Int), body) := by
  obtain ⟨hLength, hChars⟩ := fromChars_padded code hCode
  have hTake : (printArg .padded (.int code) ++ ' ' :: body ++ nul :: junk).take 4 =
      printArg .padded (.int code) := by
    rw [append_assoc, take_left' hLength]
  have hDrop : (printArg .padded (.int code) ++ ' ' :: body ++ nul :: junk).drop 5 =
      body ++ nul :: junk := by
    have hSplit : printArg .padded (.int code) ++ ' ' :: body ++ nul :: junk =
        (printArg .padded (.int code) ++ [' ']) ++ (body ++ nul :: junk) := by simp
    rw [hSplit, drop_left' (by simp [hLength])]
  unfold readNextRequest
  rw [hTake, hChars]
  simp only [length_nil, Nat.sub_zero, hDrop, takeWhile_nul hNul]

variable {h : Handler} {r : Request}

theorem Handler.Serves.run_eq_some_iff (hServes : h.Serves r) (str : List Char) :
    h.run str = some r.sprintf.values ↔ scanf h.format str = some r.sprintf.args := by
  have hZip : h.vars.zip r.sprintf.args = r.sprintf.values := by
    rw [hServes.vars, Sprintf.args, zip_map']
    simp
  unfold Handler.run
  constructor
  · intro hRun
    obtain ⟨args, hScan, hEq⟩ := map_eq_some_iff.mp hRun
    have hLength : args.length ≤ h.vars.length := by
      have hFormat := length_eq_of_keepsAll hServes.keeps
      rw [← (valid_of_scanf hScan).length_eq, hFormat, hServes.vars, length_map, length_map]
    rw [hScan, Sprintf.args, ← hEq, map_snd_zip hLength]
  · intro hScan
    rw [hScan, map_some, hZip]

theorem serve_text (hHandler : requestHandlers[r.sprintf.code]? = some h) (hServes : h.Serves r)
    (junk : List Char) :
    serve (r.sprintf.text ++ nul :: junk) = (h.run (printf (r.sprintf.format.drop 2) r.sprintf.args)).map
        fun values => ((r.sprintf.code : Int), values) := by
  have hAligned := aligned_of_keepsAll hServes.keeps
  have hCode : r.sprintf.code < 25 := (List.getElem?_eq_some_iff.mp hHandler).1
  rw [text_eq, serve, readNextRequest_padded hCode (nul_notMem_printf hAligned _)]
  dsimp only
  rw [if_neg (by omega), Int.toNat_natCast, hHandler]

theorem length_lt_of_fits (hServes : h.Serves r) (hTyped : r.Typed)
    (hFits : r.sprintf.text.length + 1 ≤ CAPIO_REQ_MAX_SIZE) (hMem : .str s ∈ r.sprintf.args)
    (hToken : IsToken s) : s.length < CAPIO_REQ_MAX_SIZE := by
  have hLe := length_le_length_printf hServes.keeps hTyped hMem hToken
  rw [text_eq, length_append, length_cons] at hFits
  omega

/-- The server has the values of the request if and only if it fits and its handler can read it. -/
theorem serve_send_iff (r : Request) (hTyped : r.Typed) (junk : List Char) :
    (r.send junk).bind serve = some ((r.sprintf.code : Int), r.sprintf.values) ↔
      r.sprintf.text.length + 1 ≤ CAPIO_REQ_MAX_SIZE ∧ r.Readable := by
  obtain ⟨h, hHandler, hServes⟩ := exists_serves r
  have hScan := scanf_printf _ _ (aligned_of_keepsAll hServes.keeps) r.sprintf.args atEnd_nil
  rw [List.append_nil] at hScan
  unfold Request.send
  split
  · next hFits =>
    have hShort : ∀ s, .str s ∈ r.sprintf.args → IsToken s → s.length < CAPIO_REQ_MAX_SIZE :=
      fun s hMem hToken => length_lt_of_fits hServes hTyped hFits hMem hToken
    rw [Option.bind_some, serve_text hHandler hServes, Option.map_eq_some_iff]
    have hValues : (∃ values, h.run (printf (r.sprintf.format.drop 2) r.sprintf.args) = some values ∧
        ((r.sprintf.code : Int), values) = ((r.sprintf.code : Int), r.sprintf.values)) ↔
        h.run (printf (r.sprintf.format.drop 2) r.sprintf.args) = some r.sprintf.values := by
      simp
    rw [hValues, hServes.run_eq_some_iff, hScan, exactArgs_iff hServes.keeps hTyped hShort]
    exact ⟨fun hReadable => ⟨hFits, hReadable⟩, fun hBoth => hBoth.2⟩
  · next hLong => simp [hLong]

theorem serve_send_iff_open : (Request.open 3 "/d/a".toList 7).Typed ∧
    ((Request.open 3 "/d/a".toList 7).send []).bind serve =
      some (13, [(.tid, .int 7), (.fd, .int 3), (.path, .str "/d/a".toList)]) := by
  have hTyped : (Request.open 3 "/d/a".toList 7).Typed :=
    .cons (by decide) (.cons (by decide) (.cons trivial .nil))
  refine ⟨hTyped, (serve_send_iff _ hTyped []).mpr ⟨by decide, ?_, ?_⟩⟩
  · intro s hMem
    have hPath : s = "/d/a".toList := by simpa [Request.sprintf, openRequest, Sprintf.args] using hMem
    exact hPath ▸ (by decide)
  · decide

/-- A file name with a space is opened under the part before the space, a path of 250 characters does
not fit, and a negative offset arrives as the largest one. -/
theorem requests_changed : (Request.open 3 "/d/a b".toList 7).Typed ∧
      ((Request.open 3 "/d/a b".toList 7).send []).bind serve =
        some (13, [(.tid, .int 7), (.fd, .int 3), (.path, .str "/d/a".toList)]) ∧
      ((Request.open 3 ('/' :: replicate 249 'a') 7).send []) = none ∧
      ((Request.seek 3 (-1) 7).send []).bind serve =
        some (16, [(.tid, .int 7), (.fd, .int 3), (.offset, .int 9223372036854775807)]) := by
  refine ⟨.cons (by decide) (.cons (by decide) (.cons trivial .nil)), ?_, ?_, ?_⟩
  · decide +kernel
  · decide +kernel
  · decide +kernel

/-! ## What the server hears -/

def heardOffset (offset : Int) : Int := Width.long.convert (offset % 18446744073709551616)

def Request.heard : Request → Request
  | .seek fd offset tid => .seek fd (heardOffset offset) tid
  | .seekData fd offset tid => .seekData fd (heardOffset offset) tid
  | .seekHole fd offset tid => .seekHole fd (heardOffset offset) tid
  | r => r

def Request.Words (r : Request) : Prop := ∀ a ∈ r.sprintf.args, a.Word

instance (r : Request) : Decidable r.Words :=
  inferInstanceAs (Decidable (∀ a ∈ r.sprintf.args, a.Word))

theorem call_values (r : Request) : call ((r.sprintf.code : Int), r.sprintf.values) = some r := by
  cases r with
  | getdents fd count is64bit tid =>
      cases is64bit with
      | false => rfl
      | true => rfl
  | handshakeNamed tid pid appName wait =>
      cases wait with
      | false => rfl
      | true => rfl
  | _ => rfl

theorem zip_readBackAll (r : Request) :
    (r.sprintf.values.map Prod.fst).zip (readBackAll (r.sprintf.format.drop 2) r.sprintf.args) =
      r.heard.sprintf.values := by
  cases r with
  | _ => rfl

theorem code_heard (r : Request) : r.heard.sprintf.code = r.sprintf.code := by
  cases r with
  | _ => rfl

theorem call_serve (hTyped : r.Typed) (hWords : r.Words) (hSend : r.send junk = some text) :
    (serve text).bind call = some r.heard := by
  obtain ⟨h, hHandler, hServes⟩ := exists_serves r
  unfold Request.send at hSend
  split at hSend
  · next hFits =>
    obtain rfl := some.inj hSend
    have hScan := scanf_readBackAll hServes.keeps hTyped
      (fun s hMem => ⟨hWords _ hMem, length_lt_of_fits hServes hTyped hFits hMem (hWords _ hMem)⟩)
      atEnd_nil
    rw [append_nil] at hScan
    rw [serve_text hHandler hServes, Handler.run, hScan, map_some, map_some,
      bind_some, hServes.vars, zip_readBackAll, ← code_heard, call_values]
  · contradiction

end Capio.Posix.Requests
