import Capio.Common.Queue

/-! # The write cache of a client thread

`WriteCache` does not look at anything the server does, so a call is a function of the cache: it
gives the new cache and what is done to the shared queues, in order.  The bytes of a line stay in
the slot of the queue that was reserved for it.
-/
namespace Capio.Posix

open Common Lib.Pieces

inductive CacheAction
  | reserve
  | store (offset : Int) (bytes : List Byte)
  | request (fd : Fd) (count : Int)
  | push (bytes : List Byte)

/-- `reserved` says that `_cache` is not null. -/
structure WriteCache where
  fd : Fd := -1
  reserved : Bool := false
  actualSize : Int := 0

namespace WriteCache

def flush (c : WriteCache) : WriteCache × List CacheAction :=
  if c.actualSize ≠ 0 then
    ({ c with reserved := false, actualSize := 0 }, [.request c.fd c.actualSize])
  else (c, [])

def writeLine (maxLineSize : Nat) (c : WriteCache) (count : Int) (buffer : List Byte) :
    WriteCache × List CacheAction :=
  if count > 0 then
    let reserving := if c.reserved then [] else [CacheAction.reserve]
    let storing := [CacheAction.store c.actualSize (buffer.take count.toNat)]
    let c := { c with reserved := true, actualSize := c.actualSize + count }
    let (c, flushed) := if c.actualSize = (maxLineSize : Int) then c.flush else (c, [])
    (c, reserving ++ storing ++ flushed)
  else (c, [])

def switch (c : WriteCache) (fd : Fd) : WriteCache × List CacheAction :=
  if c.fd ≠ fd then
    let (c, flushed) := c.flush
    ({ c with fd := fd }, flushed)
  else (c, [])

def write (maxLineSize : Nat) (c : WriteCache) (fd : Fd) (buffer : List Byte) (count : Int) :
    WriteCache × List CacheAction :=
  let (c, switched) := c.switch fd
  if count ≤ maxLineSize - c.actualSize then
    let (c, actions) := c.writeLine maxLineSize count buffer
    (c, switched ++ actions)
  else
    let (c, flushed) := c.flush
    if count - c.actualSize > maxLineSize then
      -- the line is bypassed: the request comes first and the elements follow
      (c, switched ++ flushed ++
        .request c.fd count :: (pieces maxLineSize (buffer.take count.toNat)).map .push)
    else
      let (c, actions) := c.writeLine maxLineSize count buffer
      (c, switched ++ flushed ++ actions)

end WriteCache

end Capio.Posix
