import Mathlib.Logic.Function.Basic
import Capio.Storage.Service

/-! # One file on the servers of a cluster

Every node has an object for the file.  The one of its home node, which the location record names,
holds the data; the others hold what was fetched from there.  Threads wait on the servers, messages
between them arrive in any order, and what a client obtains is recorded with the state of the home
node at that moment.  The file is not `CAPIO_DIR`, of which every node has its own, and the output of
a `copy_file_range` is another file.
-/
namespace Capio.Remote

open Common Storage

/-- How the file is shared: its home node, what the engine says about it, the size of the replies
between servers, and that of the elements of the queues. -/
structure Sharing where
  home : Node
  firable : Bool
  rule : CommitRule
  prefetchDataSize : Nat
  cacheLineSize : Nat

structure Client where
  node : Node
  tid : Tid
  fd : Fd
  deriving DecidableEq

inductive Thread
  | readFile (c : Client) (count : Nat)
  | readCommit (c : Client) (offset : Int) (count : Nat)
  | readData (c : Client) (offset : Int) (count : Nat)
  | copyFile (c : Client) (offsetIn count : Nat)
  | copyCommit (c : Client) (offsetIn count : Nat)
  | copyData (c : Client) (offsetIn count : Nat)
  | remoteRead (c : Client) (count : Nat) (offset : Int)
  | remoteCopy (c : Client) (offsetIn count : Nat)

inductive Message
  | read (c : Client) (count : Nat) (offset : Int)
  | readReply (c : Client) (count : Int) (fileSize : Nat) (complete : Bool) (data : List Byte)
  | copyFileRange (c : Client) (offsetIn count : Nat)
  | copyFileRangeReply (c : Client) (offsetIn count fileSize : Nat) (complete : Bool) (data : List Byte)

/-- Bytes that a client obtains, whether it is a producer then, and whether the file is committed on
its home node. -/
structure Receipt where
  client : Client
  data : List Byte
  producer : Bool
  committed : Bool
  deriving DecidableEq

structure SharedFile where
  copies : Node → CapioFile
  offsets : Client → Int := fun _ => 0
  producers : Client → Bool := fun _ => false
  threads : List Thread := []
  network : List Message := []
  receipts : List Receipt := []

namespace SharedFile

def setCopy (s : SharedFile) (n : Node) (f : CapioFile) : SharedFile :=
  { s with copies := Function.update s.copies n f }

def start (s : SharedFile) (t : Thread) : SharedFile :=
  { s with threads := s.threads ++ [t] }

def post (s : SharedFile) (m : Message) : SharedFile :=
  { s with network := s.network ++ [m] }

section

variable (g : Sharing)

def receive (s : SharedFile) (c : Client) (data : List Byte) : SharedFile :=
  { s with receipts := ⟨c, data, s.producers c, (s.copies g.home).committed⟩ :: s.receipts }

def sendRead (os : Os) (s : SharedFile) (c : Client) (offset : Int) (n : Nat) :
    Except Failure SharedFile := do
  let f ← (s.copies c.node).createBuffer os false
  let data ← f.sendBytes offset n
  pure (receive g { s.setCopy c.node f with offsets := Function.update s.offsets c (offset + n) } c data)

def handlePendingRead (os : Os) (s : SharedFile) (c : Client) (offset : Int) (count : Nat) :
    Except Failure SharedFile :=
  s.sendRead g os c offset (pendingRead (s.copies c.node) offset count)

def handleLocalRead (os : Os) (s : SharedFile) (c : Client) (count : Nat) (isProd : Bool) :
    Except Failure SharedFile :=
  match localRead g.firable (s.copies c.node) (s.offsets c) count isProd with
  | .waitForCommit => pure (s.start (.readCommit c (s.offsets c) count))
  | .waitForData => pure (s.start (.readData c (s.offsets c) count))
  | .endOfFile => pure (s.receive g c [])
  | .send n => s.sendRead g os c (s.offsets c) n

def requestRemoteRead (os : Os) (s : SharedFile) (c : Client) (count : Nat) : Except Failure SharedFile :=
  match remoteSource (s.copies c.node) (s.offsets c) count with
  | .localRead => s.handleLocalRead g os c count true
  | .here => s.sendRead g os c (s.offsets c) count
  | .home => pure (s.post (.read c count (s.offsets c)))

/-- `located` says that the node knows the location of the file. -/
def handleRead (os : Os) (s : SharedFile) (c : Client) (count : Nat) (located : Bool) :
    Except Failure SharedFile :=
  let isProd := s.producers c
  if !located && !isProd then pure (s.start (.readFile c count))
  else if isProd ∨ c.node = g.home then s.handleLocalRead g os c count isProd
  else s.requestRemoteRead g os c count

/-- `wait_for_file` once the location is loaded; `own` is what its comparison of two addresses gives
on the home node. -/
def resumeReadFile (os : Os) (s : SharedFile) (c : Client) (count : Nat) (own : Bool) :
    Except Failure SharedFile :=
  if c.node = g.home ∧ own then s.handleLocalRead g os c count false
  else s.requestRemoteRead g os c count

def copyFileRangeData (s : SharedFile) (c : Client) (offsetIn count : Nat) :
    Except Failure SharedFile := do
  let f := s.copies c.node
  let n := f.bytesCopied offsetIn count
  let data ← (if 0 < n then f.loadBytes offsetIn n else pure [])
  pure (s.receive g c data)

def handleLocalCopyFileRange (s : SharedFile) (c : Client) (offsetIn count : Nat) (isProd : Bool) :
    Except Failure SharedFile :=
  match localCopy g.firable (s.copies c.node) offsetIn count isProd with
  | .waitForCommit => pure (s.start (.copyCommit c offsetIn count))
  | .waitForData => pure (s.start (.copyData c offsetIn count))
  | .endOfFile | .send _ => s.copyFileRangeData g c offsetIn count

def handleRemoteCopyFileRange (s : SharedFile) (c : Client) (offsetIn count : Nat) :
    Except Failure SharedFile :=
  if copiesHere (s.copies c.node) offsetIn count then s.copyFileRangeData g c offsetIn count
  else pure (s.post (.copyFileRange c offsetIn count))

def handleCopyFileRange (s : SharedFile) (c : Client) (offsetIn count : Nat) (isProd : Bool) :
    Except Failure SharedFile :=
  if isProd ∨ c.node = g.home then s.handleLocalCopyFileRange g c offsetIn count isProd
  else s.handleRemoteCopyFileRange g c offsetIn count

def copyFileRangeHandler (s : SharedFile) (c : Client) (offsetIn count : Nat) (located : Bool) :
    Except Failure SharedFile :=
  let isProd := s.producers c
  if !located && !isProd then pure (s.start (.copyFile c offsetIn count))
  else s.handleCopyFileRange g c offsetIn count isProd

def serveRemoteRead (s : SharedFile) (c : Client) (count : Nat) (offset : Int) :
    Except Failure SharedFile := do
  let f := s.copies g.home
  let data ← f.sendBytes offset (remoteReplySize g.prefetchDataSize f offset)
  pure (s.post (.readReply c (asInt count) f.getStoredSize f.committed data))

def handleRemoteRead (s : SharedFile) (c : Client) (count : Nat) (offset : Int) :
    Except Failure SharedFile :=
  if servesAtOnce g.firable (s.copies g.home) offset count then s.serveRemoteRead g c count offset
  else pure (s.start (.remoteRead c count offset))

def serveRemoteCopy (s : SharedFile) (c : Client) (offsetIn count : Nat) : Except Failure SharedFile := do
  let f := s.copies g.home
  let data ← f.sendBytes offsetIn (remoteReplySize g.prefetchDataSize f offsetIn)
  pure (s.post (.copyFileRangeReply c offsetIn count f.getStoredSize f.committed data))

def handleRemoteCopyFileRangeData (s : SharedFile) (c : Client) (offsetIn count : Nat) :
    Except Failure SharedFile :=
  if servesAtOnce g.firable (s.copies g.home) offsetIn count then s.serveRemoteCopy g c offsetIn count
  else pure (s.start (.remoteCopy c offsetIn count))

def storeReply (os : Nat → Os) (f : CapioFile) (offset fileSize : Nat) (complete : Bool)
    (data : List Byte) :
    Except Failure CapioFile := do
  let f ← f.createBuffer (os 0) false
  let f ← (if data ≠ [] then do
      let f ← (if offset + data.length > f.getBufSize then f.expandBuffer (os 1) (offset + data.length)
        else pure f)
      f.storeBytes offset data
    else pure f)
  pure (((f.setRealFileSize fileSize).insertSector offset (offset + data.length)).setCommitted complete)

/-- A reply with a negative length: the queue takes a whole number of elements as none, and copies
a negative number of bytes otherwise. -/
def sendNegative (s : SharedFile) (c : Client) (offset bytesRead : Int) : Except Failure SharedFile :=
  if bytesRead.tmod g.cacheLineSize = 0 then
    pure (receive g { s with offsets := Function.update s.offsets c (offset + bytesRead) } c [])
  else throw .outOfBounds

def handleRemoteReadReply (os : Nat → Os) (s : SharedFile) (c : Client) (count : Int) (fileSize : Nat)
    (complete : Bool) (data : List Byte) : Except Failure SharedFile :=
  let offset := s.offsets c
  if offset < 0 then throw .outOfBounds
  else do
    let f ← storeReply os (s.copies c.node) offset.toNat fileSize complete data
    let stop := sectorEnd f offset
    let bytesRead := if stop > offset + count then count else stop - offset
    let s := s.setCopy c.node f
    if bytesRead < 0 then s.sendNegative g c offset bytesRead
    else s.sendRead g (os 2) c offset bytesRead.toNat

def handleRemoteCopyFileRangeReply (os : Nat → Os) (s : SharedFile) (c : Client)
    (offsetIn count fileSize : Nat)
    (complete : Bool) (data : List Byte) : Except Failure SharedFile := do
  let f ← storeReply os (s.copies c.node) offsetIn fileSize complete data
  (s.setCopy c.node f).copyFileRangeData g c offsetIn count

/-- `write_handler`, with the bytes of its queue; the writer becomes a producer. -/
def writeHandler (os : Nat → Os) (s : SharedFile) (c : Client) (data : List Byte) :
    Except Failure SharedFile :=
  let offset := s.offsets c
  if offset < 0 then throw .outOfBounds
  else do
    let f ← (s.copies c.node).writeData (os 0) (os 1) offset.toNat data
    pure { s.setCopy c.node f with
      producers := Function.update s.producers c true
      offsets := Function.update s.offsets c (offset + data.length) }

def handleClose (s : SharedFile) (n : Node) : Except Failure SharedFile := do
  let f := (s.copies n).close
  let f ← (if g.rule = .onClose ∧ f.closed then f.setCommitted.dump else pure f)
  pure (s.setCopy n f)

def commitOnTermination (s : SharedFile) (n : Node) : Except Failure SharedFile :=
  if g.rule = .onTermination then do
    let f ← (s.copies n).setCommitted.dump
    pure (s.setCopy n f.close)
  else pure s

def resume (os : Nat → Os) (s : SharedFile) (own : Bool) : Thread → Except Failure (Option SharedFile)
  | .readFile c count => some <$> s.resumeReadFile g (os 0) c count own
  | .readCommit c offset count =>
    if (s.copies c.node).committed then some <$> s.handlePendingRead g (os 0) c offset count
    else pure none
  | .readData c offset count =>
    if (s.copies c.node).dataReady (offset + count) then
      some <$> s.handlePendingRead g (os 0) c offset count
    else pure none
  | .copyFile c offsetIn count => some <$> s.handleCopyFileRange g c offsetIn count false
  | .copyCommit c offsetIn count =>
    if (s.copies c.node).committed then some <$> s.copyFileRangeData g c offsetIn count else pure none
  | .copyData c offsetIn count =>
    if (s.copies c.node).dataReady (offsetIn + count) then some <$> s.copyFileRangeData g c offsetIn count
    else pure none
  | .remoteRead c count offset =>
    if (s.copies g.home).dataReady (offset + count) then some <$> s.serveRemoteRead g c count offset
    else pure none
  | .remoteCopy c offsetIn count =>
    if (s.copies g.home).dataReady (offsetIn + count) then some <$> s.serveRemoteCopy g c offsetIn count
    else pure none

def deliver (os : Nat → Os) (s : SharedFile) : Message → Except Failure SharedFile
  | .read c count offset => s.handleRemoteRead g c count offset
  | .readReply c count fileSize complete data =>
    s.handleRemoteReadReply g os c count fileSize complete data
  | .copyFileRange c offsetIn count => s.handleRemoteCopyFileRangeData g c offsetIn count
  | .copyFileRangeReply c offsetIn count fileSize complete data =>
    s.handleRemoteCopyFileRangeReply g os c offsetIn count fileSize complete data

end

end SharedFile

/-- `produce` makes a client a producer in the ways that do not write the file: by the engine, or
through another thread of its application. -/
inductive Event
  | openFile (n : Node)
  | close (n : Node)
  | terminate (n : Node)
  | produce (c : Client)
  | write (c : Client) (data : List Byte)
  | seek (c : Client) (offset : Int)
  | read (c : Client) (count : Nat) (located : Bool)
  | copyFileRange (c : Client) (offsetIn count : Nat) (located : Bool)
  | resume (k : Nat) (own : Bool)
  | deliver (k : Nat)

structure Input where
  event : Event
  os : Nat → Os

def step (g : Sharing) (s : SharedFile) (i : Input) : Except Failure SharedFile :=
  match i.event with
  | .openFile n => pure (s.setCopy n (s.copies n).openFile)
  | .close n => s.handleClose g n
  | .terminate n => s.commitOnTermination g n
  | .produce c => pure { s with producers := Function.update s.producers c true }
  | .write c data => s.writeHandler i.os c data
  | .seek c offset => pure { s with offsets := Function.update s.offsets c offset }
  | .read c count located => s.handleRead g (i.os 0) c count located
  | .copyFileRange c offsetIn count located => s.copyFileRangeHandler g c offsetIn count located
  | .resume k own =>
    match s.threads[k]? with
    | none => pure s
    | some t => do
      let resumed ← SharedFile.resume g i.os { s with threads := s.threads.eraseIdx k } own t
      pure (resumed.getD s)
  | .deliver k =>
    match s.network[k]? with
    | none => pure s
    | some m => SharedFile.deliver g i.os { s with network := s.network.eraseIdx k } m

def producer : Client := ⟨['a'], 1, 3⟩

def consumer : Client := ⟨['b'], 2, 3⟩

def noData : SharedFile := { copies := fun _ => .new false 0 false 4 0 }

def inputs (events : List Event) : List Input := events.map (Input.mk · fun _ => Os.plain 0)

end Capio.Remote
