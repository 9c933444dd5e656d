import Capio.Common.Types
import Capio.Lib.Format

/-! # The messages between the servers

A server writes a message with `sprintf`, and the listener of the other server splits off the code
and reads the rest with the `sscanf` of the handler for that code.
-/
namespace Capio.Remote.Requests

open Common Lib.Format List

def HOST_NAME_MAX : Nat := 64

/-- The calls of the functions that write a message, and of the handlers that read it: the arguments
are those of the body of the handler. -/
inductive Message
  | read (path : Path) (tid fd count offset : Int) (isGetdents : Bool)
  | readReply (tid fd count nbytes fileSize : Int) (complete isGetdents : Bool)
  | stat (tid : Int) (node : Node) (path : Path)
  | statReply (path : Path) (sourceTid fileSize : Int) (isDir : Bool)
  | copyFileRange (pathIn : Path) (tid fdIn fdOut offsetIn offsetOut count : Int)
  | copyFileRangeReply (tid fdIn fdOut offsetIn offsetOut count nbytes fileSize : Int)
      (complete : Bool)
  deriving DecidableEq

def handleRemoteReadRequest (path : Path) (tid fd count offset : Int) (isGetdents : Bool) :
    List Char :=
  printf (printed "%04d %s %d %d %ld %ld %d")
    [.int 0, .str path, .int tid, .int fd, .int count, .int offset, boolArg isGetdents]

/-- The parameter `count` of `serve_remote_read_request` is an `int`. -/
def serveRemoteReadRequest (tid fd count nbytes fileSize : Int) (complete isGetdents : Bool) :
    List Char :=
  printf (printed "%04d %d %d %d %ld %ld %d %d")
    [.int 1, .int tid, .int fd, .int (asInt count), .int nbytes, .int fileSize, boolArg complete,
      boolArg isGetdents]

def handleRemoteStatRequest (tid : Int) (node : Node) (path : Path) : List Char :=
  printf (printed "%04d %d %s %s") [.int 2, .int tid, .str node, .str path]

def serveRemoteStatRequest (path : Path) (sourceTid fileSize : Int) (isDir : Bool) : List Char :=
  printf (printed "%04d %s %d %ld %d") [.int 3, .str path, .int sourceTid, .int fileSize, boolArg isDir]

def handleRemoteCopyFileRangeRequest (tid fdIn fdOut : Int) (pathIn : Path)
    (offsetIn offsetOut count : Int) : List Char :=
  printf (printed "%04d %s %d %d %d %ld %ld %ld")
    [.int 4, .str pathIn, .int tid, .int fdIn, .int fdOut, .int offsetIn, .int offsetOut, .int count]

def serveRemoteCopyFileRangeRequest (tid fdIn fdOut offsetIn offsetOut count nbytes fileSize : Int)
    (complete : Bool) : List Char :=
  printf (printed "%04d %d %d %d %ld %ld %ld %ld %ld %d")
    [.int 5, .int tid, .int fdIn, .int fdOut, .int offsetIn, .int offsetOut, .int count, .int nbytes,
      .int fileSize, boolArg complete]

def Message.format : Message → List Char
  | .read path tid fd count offset isGetdents =>
    handleRemoteReadRequest path tid fd count offset isGetdents
  | .readReply tid fd count nbytes fileSize complete isGetdents =>
    serveRemoteReadRequest tid fd count nbytes fileSize complete isGetdents
  | .stat tid node path => handleRemoteStatRequest tid node path
  | .statReply path sourceTid fileSize isDir => serveRemoteStatRequest path sourceTid fileSize isDir
  | .copyFileRange pathIn tid fdIn fdOut offsetIn offsetOut count =>
    handleRemoteCopyFileRangeRequest tid fdIn fdOut pathIn offsetIn offsetOut count
  | .copyFileRangeReply tid fdIn fdOut offsetIn offsetOut count nbytes fileSize complete =>
    serveRemoteCopyFileRangeRequest tid fdIn fdOut offsetIn offsetOut count nbytes fileSize complete

structure RemoteRequest where
  code : Int := -1
  content : List Char := []
  deriving DecidableEq

def remoteRequest (bufRecv : List Char) : RemoteRequest :=
  if bufRecv.length < 5 ∨ bufRecv[4]? ≠ some ' ' then {}
  else
    match fromChars (bufRecv.take 4) with
    | some (code, []) => ⟨code, bufRecv.drop 5⟩
    | _ => {}

def remoteReadHandler (content : List Char) : Option Message :=
  match scanf (scanned "%s %d %d %ld %ld %d" [PATH_MAX]) content with
  | some [.str path, .int tid, .int fd, .int count, .int offset, .int isGetdents] =>
    some (.read path tid fd count offset (isGetdents ≠ 0))
  | _ => none

def remoteReadReplyHandler (content : List Char) : Option Message :=
  match scanf (scanned "%d %d %ld %ld %ld %d %d" []) content with
  | some [.int tid, .int fd, .int count, .int nbytes, .int fileSize, .int complete, .int isGetdents] =>
    some (.readReply tid fd count nbytes fileSize (complete ≠ 0) (isGetdents ≠ 0))
  | _ => none

def remoteStatHandler (content : List Char) : Option Message :=
  match scanf (scanned "%d %s %s" [HOST_NAME_MAX, PATH_MAX]) content with
  | some [.int tid, .str dest, .str path] => some (.stat tid dest path)
  | _ => none

def remoteStatReplyHandler (content : List Char) : Option Message :=
  match scanf (scanned "%s %d %ld %d" [PATH_MAX]) content with
  | some [.str path, .int sourceTid, .int size, .int dir] =>
    some (.statReply path sourceTid size (dir ≠ 0))
  | _ => none

def remoteCopyFileRangeHandler (content : List Char) : Option Message :=
  match scanf (scanned "%s %d %d %d %ld %ld %ld" [PATH_MAX]) content with
  | some [.str pathIn, .int tid, .int fdIn, .int fdOut, .int offsetIn, .int offsetOut, .int count] =>
    some (.copyFileRange pathIn tid fdIn fdOut offsetIn offsetOut count)
  | _ => none

def remoteCopyFileRangeReplyHandler (content : List Char) : Option Message :=
  match scanf (scanned "%d %d %d %ld %ld %ld %ld %ld %d" []) content with
  | some [.int tid, .int fdIn, .int fdOut, .int offsetIn, .int offsetOut, .int count, .int nbytes,
      .int fileSize, .int complete] =>
    some (.copyFileRangeReply tid fdIn fdOut offsetIn offsetOut count nbytes fileSize (complete ≠ 0))
  | _ => none

def serverRequestHandlers : List (List Char → Option Message) :=
  [remoteReadHandler, remoteReadReplyHandler, remoteStatHandler, remoteStatReplyHandler,
    remoteCopyFileRangeHandler, remoteCopyFileRangeReplyHandler]

def remoteListener (request : RemoteRequest) : Option Message :=
  if request.code < 0 then none
  else
    match serverRequestHandlers[request.code.toNat]? with
    | some handler => handler request.content
    | none => none

def deliver (m : Message) : Option Message := remoteListener (remoteRequest (m.format ++ [nul]))

/-- The values that are an `int` at the sender, those that are an `off64_t`, and the words with the size
of the buffer that the handler reads them into. -/
def Message.ints : Message → List Int
  | .read _ tid fd _ _ _ => [tid, fd]
  | .readReply tid fd _ _ _ _ _ => [tid, fd]
  | .stat tid _ _ => [tid]
  | .statReply _ sourceTid _ _ => [sourceTid]
  | .copyFileRange _ tid fdIn fdOut _ _ _ => [tid, fdIn, fdOut]
  | .copyFileRangeReply tid fdIn fdOut _ _ _ _ _ _ => [tid, fdIn, fdOut]

def Message.longs : Message → List Int
  | .read _ _ _ count offset _ => [count, offset]
  | .readReply _ _ count nbytes fileSize _ _ => [count, nbytes, fileSize]
  | .stat _ _ _ => []
  | .statReply _ _ fileSize _ => [fileSize]
  | .copyFileRange _ _ _ _ offsetIn offsetOut count => [offsetIn, offsetOut, count]
  | .copyFileRangeReply _ _ _ offsetIn offsetOut count nbytes fileSize _ =>
    [offsetIn, offsetOut, count, nbytes, fileSize]

def Message.words : Message → List (List Char × Nat)
  | .read path _ _ _ _ _ => [(path, PATH_MAX)]
  | .readReply _ _ _ _ _ _ _ => []
  | .stat _ node path => [(node, HOST_NAME_MAX), (path, PATH_MAX)]
  | .statReply path _ _ _ => [(path, PATH_MAX)]
  | .copyFileRange pathIn _ _ _ _ _ _ => [(pathIn, PATH_MAX)]
  | .copyFileRangeReply _ _ _ _ _ _ _ _ _ => []

def Message.Typed (m : Message) : Prop :=
  (∀ n ∈ m.ints, Width.int.Fits n) ∧ ∀ n ∈ m.longs, Width.long.Fits n

instance (m : Message) : Decidable m.Typed := inferInstanceAs (Decidable (_ ∧ _))

def Message.WordsFit (m : Message) : Prop := ∀ w ∈ m.words, IsToken w.1 ∧ w.1.length < w.2

instance (m : Message) : Decidable m.WordsFit :=
  inferInstanceAs (Decidable (∀ w ∈ m.words, IsToken w.1 ∧ w.1.length < w.2))

/-- What a read asked for is written as an `int` into its reply. -/
def Message.CountFits : Message → Prop
  | .readReply _ _ count _ _ _ _ => Width.int.Fits count
  | _ => True

def Message.narrow : Message → Message
  | .readReply tid fd count nbytes fileSize complete isGetdents =>
    .readReply tid fd (asInt count) nbytes fileSize complete isGetdents
  | m => m

variable {path : Path} {tid count fileSize : Int}

theorem fits_asInt (n : Int) : Width.int.Fits (asInt n) := by
  have hLow := Int.le_bmod (x := n) (m := 4294967296) (by decide)
  have hHigh := Int.bmod_lt (x := n) (m := 4294967296) (by decide)
  exact ⟨by unfold asInt; omega, by unfold asInt; omega⟩

theorem asInt_eq_iff (n : Int) : asInt n = n ↔ Width.int.Fits n := by
  constructor
  · intro hEq
    exact hEq ▸ fits_asInt n
  · rintro ⟨hLow, hHigh⟩
    exact Int.bmod_eq_of_le (by omega) (by omega)

theorem Message.narrow_eq_iff (m : Message) : m.narrow = m ↔ m.CountFits := by
  cases m with
  | readReply tid fd count nbytes fileSize complete isGetdents =>
      simp [Message.narrow, Message.CountFits, asInt_eq_iff]
  | _ => simp only [Message.narrow, Message.CountFits]

theorem remoteRequest_cons (hCode : fromChars [a, b, c, d] = some (code, [])) (body : List Char) :
    remoteRequest (a :: b :: c :: d :: ' ' :: body) = ⟨code, body⟩ := by
  unfold remoteRequest
  simp [hCode]

theorem remoteListener_code {code : Nat} {handler : List Char → Option Message}
    (hDigit : fromChars ['0', '0', '0', digit] = some ((code : Int), []))
    (hHandler : serverRequestHandlers[code]? = some handler) (body : List Char) :
    remoteListener (remoteRequest ('0' :: '0' :: '0' :: digit :: ' ' :: body)) = handler body := by
  rw [remoteRequest_cons hDigit, remoteListener, if_neg (by simp)]
  simp [hHandler]

theorem scanf_text (hAligned : aligned fs ks = true) (hArgs : ExactArgs fs ks args) :
    scanf ks (printf fs args ++ [nul]) = some args :=
  (scanf_printf fs ks hAligned args (atEnd_nul [])).mpr hArgs

theorem remoteReadHandler_sprintf (isGetdents : Bool) (hPath : IsToken path ∧ path.length < PATH_MAX)
    (hTid : Width.int.Fits tid) (hFd : Width.int.Fits fd) (hCount : Width.long.Fits count)
    (hOffset : Width.long.Fits offset) : remoteReadHandler (printf (printed "%s %d %d %ld %ld %d")
        [.str path, .int tid, .int fd, .int count, .int offset, boolArg isGetdents] ++ [nul]) =
      some (.read path tid fd count offset isGetdents) := by
  rw [remoteReadHandler, scanf_text ?_ ?_]
  · simp only [boolArg, bool_ne_zero]
  · rfl
  · exact And.intro hPath <| And.intro hTid <| And.intro hFd <| And.intro hCount <| And.intro hOffset <|
      And.intro (fits_bool isGetdents) trivial

theorem remoteReadReplyHandler_sprintf (complete isGetdents : Bool) (hTid : Width.int.Fits tid)
    (hFd : Width.int.Fits fd) (hCount : Width.long.Fits count) (hNbytes : Width.long.Fits nbytes)
    (hSize : Width.long.Fits fileSize) : remoteReadReplyHandler (printf (printed "%d %d %d %ld %ld %d %d")
        [.int tid, .int fd, .int count, .int nbytes, .int fileSize, boolArg complete,
        boolArg isGetdents] ++ [nul]) =
      some (.readReply tid fd count nbytes fileSize complete isGetdents) := by
  rw [remoteReadReplyHandler, scanf_text ?_ ?_]
  · simp only [boolArg, bool_ne_zero]
  · rfl
  · exact And.intro hTid <| And.intro hFd <| And.intro hCount <| And.intro hNbytes <| And.intro hSize <|
      And.intro (fits_bool complete) <| And.intro (fits_bool isGetdents) trivial

theorem remoteStatHandler_sprintf (hTid : Width.int.Fits tid)
    (hNode : IsToken node ∧ node.length < HOST_NAME_MAX) (hPath : IsToken path ∧ path.length < PATH_MAX) :
    remoteStatHandler (printf (printed "%d %s %s")
        [.int tid, .str node, .str path] ++ [nul]) =
      some (.stat tid node path) := by
  rw [remoteStatHandler, scanf_text ?_ ?_]
  · rfl
  · exact And.intro hTid <| And.intro hNode <| And.intro hPath trivial

theorem remoteStatReplyHandler_sprintf (isDir : Bool) (hPath : IsToken path ∧ path.length < PATH_MAX)
    (hTid : Width.int.Fits sourceTid) (hSize : Width.long.Fits fileSize) :
    remoteStatReplyHandler (printf (printed "%s %d %ld %d")
        [.str path, .int sourceTid, .int fileSize, boolArg isDir] ++ [nul]) =
      some (.statReply path sourceTid fileSize isDir) := by
  rw [remoteStatReplyHandler, scanf_text ?_ ?_]
  · simp only [boolArg, bool_ne_zero]
  · rfl
  · exact And.intro hPath <| And.intro hTid <| And.intro hSize <| And.intro (fits_bool isDir) trivial

theorem remoteCopyFileRangeHandler_sprintf (hPath : IsToken pathIn ∧ pathIn.length < PATH_MAX)
    (hTid : Width.int.Fits tid) (hIn : Width.int.Fits fdIn) (hOut : Width.int.Fits fdOut)
    (hOffsetIn : Width.long.Fits offsetIn) (hOffsetOut : Width.long.Fits offsetOut)
    (hCount : Width.long.Fits count) :
    remoteCopyFileRangeHandler (printf (printed "%s %d %d %d %ld %ld %ld")
        [.str pathIn, .int tid, .int fdIn, .int fdOut, .int offsetIn, .int offsetOut, .int count] ++
        [nul]) =
      some (.copyFileRange pathIn tid fdIn fdOut offsetIn offsetOut count) := by
  rw [remoteCopyFileRangeHandler, scanf_text ?_ ?_]
  · rfl
  · exact And.intro hPath <| And.intro hTid <| And.intro hIn <| And.intro hOut <| And.intro hOffsetIn <|
      And.intro hOffsetOut <| And.intro hCount trivial

theorem remoteCopyFileRangeReplyHandler_sprintf (complete : Bool) (hTid : Width.int.Fits tid)
    (hIn : Width.int.Fits fdIn) (hOut : Width.int.Fits fdOut) (hOffsetIn : Width.long.Fits offsetIn)
    (hOffsetOut : Width.long.Fits offsetOut) (hCount : Width.long.Fits count)
    (hNbytes : Width.long.Fits nbytes) (hSize : Width.long.Fits fileSize) :
    remoteCopyFileRangeReplyHandler (printf (printed "%d %d %d %ld %ld %ld %ld %ld %d")
        [.int tid, .int fdIn, .int fdOut, .int offsetIn, .int offsetOut, .int count, .int nbytes,
          .int fileSize, boolArg complete] ++ [nul]) =
      some (.copyFileRangeReply tid fdIn fdOut offsetIn offsetOut count nbytes fileSize complete) := by
  rw [remoteCopyFileRangeReplyHandler, scanf_text ?_ ?_]
  · simp only [boolArg, bool_ne_zero]
  · rfl
  · exact And.intro hTid <| And.intro hIn <| And.intro hOut <| And.intro hOffsetIn <| And.intro hOffsetOut <|
      And.intro hCount <| And.intro hNbytes <| And.intro hSize <| And.intro (fits_bool complete) trivial

theorem deliver_eq (hTyped : m.Typed) (hWords : m.WordsFit) : deliver m = some m.narrow := by
  obtain ⟨hInts, hLongs⟩ := hTyped
  cases m with
  | read path tid fd count offset isGetdents =>
      simp only [Message.ints, Message.longs, Message.words, Message.WordsFit, forall_mem_cons,
        not_mem_nil] at hInts hLongs hWords
      exact (remoteListener_code rfl rfl _).trans (remoteReadHandler_sprintf isGetdents hWords.1
        hInts.1 hInts.2.1 hLongs.1 hLongs.2.1)
  | readReply tid fd count nbytes fileSize complete isGetdents =>
      simp only [Message.ints, Message.longs, forall_mem_cons, not_mem_nil] at hInts hLongs
      have hCount : Width.long.Fits (asInt count) := by
        obtain ⟨hLow, hHigh⟩ := fits_asInt count
        exact ⟨by omega, by omega⟩
      exact (remoteListener_code rfl rfl _).trans (remoteReadReplyHandler_sprintf complete isGetdents
        hInts.1 hInts.2.1 hCount hLongs.2.1 hLongs.2.2.1)
  | stat tid node path =>
      simp only [Message.ints, Message.words, Message.WordsFit, forall_mem_cons,
        not_mem_nil] at hInts hWords
      exact (remoteListener_code rfl rfl _).trans (remoteStatHandler_sprintf hInts.1 hWords.1
        hWords.2.1)
  | statReply path sourceTid fileSize isDir =>
      simp only [Message.ints, Message.longs, Message.words, Message.WordsFit, forall_mem_cons,
        not_mem_nil] at hInts hLongs hWords
      exact (remoteListener_code rfl rfl _).trans (remoteStatReplyHandler_sprintf isDir hWords.1
        hInts.1 hLongs.1)
  | copyFileRange pathIn tid fdIn fdOut offsetIn offsetOut count =>
      simp only [Message.ints, Message.longs, Message.words, Message.WordsFit, forall_mem_cons,
        not_mem_nil] at hInts hLongs hWords
      exact (remoteListener_code rfl rfl _).trans (remoteCopyFileRangeHandler_sprintf hWords.1
        hInts.1 hInts.2.1 hInts.2.2.1 hLongs.1 hLongs.2.1 hLongs.2.2.1)
  | copyFileRangeReply tid fdIn fdOut offsetIn offsetOut count nbytes fileSize complete =>
      simp only [Message.ints, Message.longs, forall_mem_cons, not_mem_nil] at hInts hLongs
      exact (remoteListener_code rfl rfl _).trans (remoteCopyFileRangeReplyHandler_sprintf complete
        hInts.1 hInts.2.1 hInts.2.2.1 hLongs.1 hLongs.2.1 hLongs.2.2.1 hLongs.2.2.2.1
        hLongs.2.2.2.2.1)

theorem wordsFit_of_handler (hHandler : handler ∈ serverRequestHandlers) (hCall : handler content = some m) :
    m.WordsFit := by
  simp only [serverRequestHandlers, mem_cons, not_mem_nil, or_false] at hHandler
  unfold Message.WordsFit
  rcases hHandler with rfl | rfl | rfl | rfl | rfl | rfl
  · unfold remoteReadHandler at hCall
    split at hCall
    · next hScan =>
      cases hCall
      have hPath := (forall₂_cons.mp (valid_of_scanf hScan)).1
      exact forall_mem_singleton.mpr hPath
    · contradiction
  · grind [remoteReadReplyHandler, Message.words]
  · unfold remoteStatHandler at hCall
    split at hCall
    · next hScan =>
      cases hCall
      have hWords := (forall₂_cons.mp (valid_of_scanf hScan)).2
      have hPath := (forall₂_cons.mp (forall₂_cons.mp hWords).2).1
      simp only [Message.words, forall_mem_cons, not_mem_nil, false_implies, implies_true, and_true]
      exact ⟨(forall₂_cons.mp hWords).1, hPath⟩
    · contradiction
  · unfold remoteStatReplyHandler at hCall
    split at hCall
    · next hScan =>
      cases hCall
      have hPath := (forall₂_cons.mp (valid_of_scanf hScan)).1
      exact forall_mem_singleton.mpr hPath
    · contradiction
  · unfold remoteCopyFileRangeHandler at hCall
    split at hCall
    · next hScan =>
      cases hCall
      have hPath := (forall₂_cons.mp (valid_of_scanf hScan)).1
      exact forall_mem_singleton.mpr hPath
    · contradiction
  · grind [remoteCopyFileRangeReplyHandler, Message.words]

theorem wordsFit_of_remoteListener (hCall : remoteListener request = some m) : m.WordsFit := by
  unfold remoteListener at hCall
  split at hCall
  · contradiction
  split at hCall
  · next handler hHandler => exact wordsFit_of_handler (mem_of_getElem? hHandler) hCall
  · contradiction

/-- The handler of another server gets the values of the call if and only if the words can be read with
`%s` and, in the reply to a read, the count is an `int`. -/
theorem deliver_eq_self_iff (m : Message) (hTyped : m.Typed) :
    deliver m = some m ↔ m.WordsFit ∧ m.CountFits := by
  constructor
  · intro hDeliver
    have hWords := wordsFit_of_remoteListener hDeliver
    rw [deliver_eq hTyped hWords] at hDeliver
    exact ⟨hWords, m.narrow_eq_iff.mp (Option.some.inj hDeliver)⟩
  · rintro ⟨hWords, hCount⟩
    rw [deliver_eq hTyped hWords, m.narrow_eq_iff.mpr hCount]

theorem deliver_eq_self_iff_read : (Message.read "/d/a".toList 7 3 100 0 false).Typed ∧
      deliver (.read "/d/a".toList 7 3 100 0 false) = some (.read "/d/a".toList 7 3 100 0 false) :=
  ⟨by decide, (deliver_eq_self_iff _ (by decide)).mpr ⟨by decide, trivial⟩⟩

/-- The reply to a read of two gibibytes has the count -2147483648. -/
theorem deliver_readReply_two_gib : (Message.readReply 7 3 2147483648 4096 4096 true false).Typed ∧
      deliver (.readReply 7 3 2147483648 4096 4096 true false) =
        some (.readReply 7 3 (-2147483648) 4096 4096 true false) ∧
      ¬(Message.readReply 7 3 2147483648 4096 4096 true false).CountFits := by
  refine ⟨by decide, ?_, ?_⟩
  · rfl
  · rintro ⟨-, hHigh⟩
    exact absurd hHigh (by decide)

end Capio.Remote.Requests
