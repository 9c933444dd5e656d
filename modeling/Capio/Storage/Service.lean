import Capio.Storage.CapioFile

/-! # Serving the bytes of a file

When bytes of a file are given out is decided in four places: for a read or a copy on the node that
stores the file, and there for those that come from other nodes.  Each decision is a function of the
object of the file.
-/
namespace Capio.Storage

open Common Sectors

def sectorEnd (f : CapioFile) (offset : Int) : Int :=
  if offset < 0 then -1
  else match getSectorEnd f.sectors offset.toNat with
    | some stop => stop
    | none => -1

inductive Service
  | waitForCommit
  | waitForData
  | endOfFile
  | send (n : Nat)
  deriving DecidableEq

def localRead (firable : Bool) (f : CapioFile) (offset : Int) (count : Nat) (isProd : Bool) : Service :=
  let fileComplete := f.committed || isProd
  if !(fileComplete || firable) then .waitForCommit
  else
    let stop := sectorEnd f offset
    if stop = -1 ∧ fileComplete then .endOfFile
    else if (stop = -1 ∨ offset + count > stop) ∧ !fileComplete then .waitForData
    else .send (min (count : Int) (stop - offset)).toNat

def pendingRead (f : CapioFile) (offset : Int) (count : Nat) : Nat :=
  let stop := sectorEnd f offset
  if stop > offset + count then count
  else if stop = -1 then 0
  else (stop - offset).toNat

def localCopy (firable : Bool) (f : CapioFile) (offsetIn count : Nat) (isProd : Bool) : Service :=
  let fileComplete := f.committed || isProd
  let waitForCommit := !fileComplete && !firable
  let waitForData := !fileComplete && (match getSectorEnd f.sectors offsetIn with
    | none => true
    | some stop => decide (offsetIn + count > stop))
  if !waitForCommit && !waitForData then .send (f.bytesCopied offsetIn count)
  else if waitForCommit then .waitForCommit
  else .waitForData

/-- Where `request_remote_read` takes the bytes from. -/
inductive Source
  | localRead
  | here
  | home
  deriving DecidableEq

def remoteSource (f : CapioFile) (offset : Int) (count : Nat) : Source :=
  let stop := sectorEnd f offset
  if f.committed ∧ (offset + count ≤ stop ∨ max stop 0 = f.realFileSize) then .localRead
  else if offset + count ≤ stop then .here
  else .home

def copiesHere (f : CapioFile) (offsetIn count : Nat) : Bool :=
  let stop := getSectorEnd f.sectors offsetIn
  let rangeHere := match stop with
    | some stop => decide (offsetIn + count ≤ stop)
    | none => false
  let allDataHere := f.committed && decide (stop.getD 0 = f.realFileSize)
  rangeHere || allDataHere

def servesAtOnce (firable : Bool) (f : CapioFile) (offset : Int) (count : Nat) : Bool :=
  f.committed || (firable && decide (offset + count ≤ f.getStoredSize))

def remoteReplySize (prefetchDataSize : Nat) (f : CapioFile) (offset : Int) : Nat :=
  let nbytes := (max 0 (f.getStoredSize - offset)).toNat
  if prefetchDataSize ≠ 0 ∧ nbytes > prefetchDataSize then prefetchDataSize else nbytes

def CapioFile.sendBytes (f : CapioFile) (offset : Int) (n : Nat) : Except Failure (List Byte) :=
  if n = 0 then pure []
  else if offset < 0 then throw .outOfBounds
  else f.loadBytes offset.toNat n

end Capio.Storage
