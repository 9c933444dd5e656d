import Capio.Posix.CopyFileRange
import Capio.Posix.Seek

/-! # Sums of offsets

The signed sums that `lseek`, `write` and `copy_file_range` make on their way through the client and the
server.  A state has the two offsets of each open file, the sectors of each file, the write cache of the
thread and the sums of the call.  Reads, other threads and other processes change the offsets and the
sectors between the calls.  A write at a negative offset is undefined on the server; here it starts at 0,
and makes the same sums.
-/
namespace Capio.Posix.Overflow

open Common Lib.Outcome Storage Storage.Sectors CopyFileRange Seek Function List

/-- The largest `off64_t`. -/
def OFF64_MAX : Int := 9223372036854775807

/-- The open file and the file of each descriptor; duplicates have the same open file. -/
structure Table where
  cell : Fd → Nat
  file : Fd → Nat

structure State where
  write : WriteCache := {}
  client : Nat → Int
  server : Nat → Int
  sectors : Nat → List Sector
  sums : List Int := []

def requestsOf (actions : List CacheAction) : List (Fd × Int) :=
  actions.filterMap fun
    | .request fd count => some (fd, count)
    | _ => none

section

variable (t : Table) (maxLineSize : Nat)

/-- The end of a range that is written, and `new_end + 1` of `insertSector`. -/
def register (s : State) (file : Nat) (start stop : Int) : State :=
  { s with
    sectors := update s.sectors file (insertSector (s.sectors file) start.toNat stop.toNat)
    sums := s.sums ++ [stop, (absorbLeft (s.sectors file) start.toNat stop.toNat).2.2 + 1] }

/-- `write_handler`. -/
def request (s : State) (r : Fd × Int) : State :=
  let offset := s.server (t.cell r.1)
  let s := register s (t.file r.1) offset (offset + r.2)
  { s with server := update s.server (t.cell r.1) (offset + r.2) }

def apply (s : State) (r : WriteCache × List CacheAction) : State :=
  (requestsOf r.2).foldl (request t) { s with write := r.1 }

def flush (s : State) : State := apply t s s.write.flush

/-- `capio_set_fd_offset` with empty caches. -/
def setFdOffset (s : State) (fd : Fd) (offset : Int) : State :=
  { s with client := update s.client (t.cell fd) offset, server := update s.server (t.cell fd) offset }

/-- `answer` is what the server finds when it searches for data or for a hole. -/
def capioLseek (s : State) (fd : Fd) (offset whence answer : Int) : State :=
  let s := flush t s
  let newOffset := s.client (t.cell fd) + offset
  let summed := { s with sums := s.sums ++ [newOffset] }
  if whence = SEEK_SET then if offset ≥ 0 then setFdOffset t s fd offset else s
  else if whence = SEEK_CUR then
    if asOff64 newOffset ≥ 0 then setFdOffset t summed fd (asOff64 newOffset) else summed
  else if whence = SEEK_END then
    { summed with client := update s.client (t.cell fd) (asOff64 newOffset) }
  else if whence = SEEK_DATA ∨ whence = SEEK_HOLE then setFdOffset t s fd answer
  else s

def capioWrite (s : State) (fd : Fd) (buffer : List Byte) (count : Int) : State :=
  let s := apply t s (s.write.write maxLineSize fd buffer count)
  let sum := s.client (t.cell fd) + count
  { s with client := update s.client (t.cell fd) (asOff64 sum), sums := s.sums ++ [sum] }

def overlapCount (copyIn : CopyEnd) (len : Nat) : Int :=
  if copyIn.position ≥ copyIn.size then 0 else min (len : Int) (copyIn.size - copyIn.position)

def overlapSums (copyIn copyOut : CopyEnd) (len : Nat) : List Int :=
  let first := copyOut.position + overlapCount copyIn len
  if first > copyIn.position then [first, copyIn.position + overlapCount copyIn len] else [first]

/-- What the server copies for each request, of what it has then: others may write between two of them. -/
def amounts : Nat → List Nat → List Nat
  | _, [] => []
  | remaining, a :: answers =>
    if min a remaining = 0 then [] else min a remaining :: amounts (remaining - min a remaining) answers

/-- `copy_file_range_data` for one request after the other. -/
def store (s : State) (file : Nat) : Int → List Nat → State
  | _, [] => s
  | position, n :: ns => store (register s file position (position + n)) file (position + n) ns

/-- `capio_copy_file_range_finish`. -/
def finish (e : CopyEnd) (copied : Int) (s : State) : State :=
  let position := if e.offset.isSome then e.savedFdOffset else asOff64 (e.position + copied)
  if s.client (t.cell e.fd) ≠ position then setFdOffset t s e.fd position else s

def capioCopyFileRange (s : State) (copyIn copyOut : CopyEnd) (len : Nat) (flags : BitVec 32) (pageSize : Nat)
    (answers : List Nat) : State :=
  if (refusal copyIn copyOut len flags).isSome ∨ len = 0 then s
  else
    let same := t.file copyIn.fd = t.file copyOut.fd
    let s := if same then { s with sums := s.sums ++ overlapSums copyIn copyOut len } else s
    if same ∧ overlaps copyIn copyOut len then s
    else
      let ns := amounts (min len (capioMaxRwCount pageSize)) answers
      let s := store (flush t s) (t.file copyOut.fd) copyOut.position ns
      if copyIn.offset.isNone then finish t copyIn ns.sum (finish t copyOut ns.sum s)
      else finish t copyOut ns.sum (finish t copyIn ns.sum s)

inductive Call
  | lseek (fd : Fd) (offset whence answer : Int)
  | write (fd : Fd) (buffer : List Byte) (count : Int)
  | copyFileRange (copyIn copyOut : CopyEnd) (len : Nat) (flags : BitVec 32) (pageSize : Nat) (answers : List Nat)
  | others (client server : Nat → Int) (sectors : Nat → List Sector)

def step (s : State) (c : Call) : State :=
  let s := { s with sums := [] }
  match c with
  | .lseek fd offset whence answer => capioLseek t s fd offset whence answer
  | .write fd buffer count => capioWrite t maxLineSize s fd buffer count
  | .copyFileRange copyIn copyOut len flags pageSize answers =>
    capioCopyFileRange t s copyIn copyOut len flags pageSize answers
  | .others client server sectors => { s with client := client, server := server, sectors := sectors }

def Bounded (s : State) : Prop := ∀ x ∈ s.sums, x ≤ OFF64_MAX

/-- No sum of a call is too large, nor one of the flush of the bytes that it leaves in the cache. -/
def NoOverflow (s : State) (c : Call) : Prop := Bounded (flush t (step t maxLineSize s c))

/-- Offsets are `off64_t`, and stored sectors end before the largest one. -/
structure Ranges (s : State) : Prop where
  client : ∀ k, s.client k ≤ OFF64_MAX
  server : ∀ k, s.server k ≤ OFF64_MAX
  sectors : ∀ k, ∀ u ∈ s.sectors k, (u.2 : Int) < OFF64_MAX

structure Inv (s : State) : Prop extends Ranges s where
  cached : 0 ≤ s.write.actualSize ∧
    (s.write.actualSize ≠ 0 → s.server (t.cell s.write.fd) + s.write.actualSize < OFF64_MAX)

def Allowed (s : State) : Call → Prop
  | .lseek _ offset _ answer => offset ≤ OFF64_MAX ∧ answer ≤ OFF64_MAX
  | .write _ _ count => 0 ≤ count ∧ count ≤ SSIZE_MAX
  | .copyFileRange copyIn copyOut _ _ _ _ => copyIn.position ≤ OFF64_MAX ∧ copyOut.position ≤ OFF64_MAX ∧
    copyIn.size ≤ OFF64_MAX ∧ copyIn.savedFdOffset ≤ OFF64_MAX ∧ copyOut.savedFdOffset ≤ OFF64_MAX
  | .others client server sectors => Inv t { s with client := client, server := server, sectors := sectors }

/-- The condition of each call, on its arguments and the offsets before it; those of the server are after
the bytes in the cache have reached it. -/
def Within (s : State) : Call → Prop
  | .lseek fd offset whence _ => whence = SEEK_CUR ∨ whence = SEEK_END →
    s.client (t.cell fd) + offset ≤ OFF64_MAX
  | .write fd _ count => s.client (t.cell fd) + count ≤ OFF64_MAX ∧
    (0 < count → (flush t s).server (t.cell fd) + count < OFF64_MAX)
  | .copyFileRange copyIn copyOut len flags pageSize answers =>
    (refusal copyIn copyOut len flags).isSome ∨ len = 0 ∨
      (t.file copyIn.fd = t.file copyOut.fd → copyOut.position + overlapCount copyIn len ≤ OFF64_MAX) ∧
      let ns := amounts (min len (capioMaxRwCount pageSize)) answers
      (ns ≠ [] → t.file copyIn.fd = t.file copyOut.fd ∧ overlaps copyIn copyOut len = true ∨
        copyOut.position + ns.sum < OFF64_MAX)
  | .others _ _ _ => True

end

theorem bounded_append : Bounded { s with sums := s.sums ++ xs } ↔ Bounded s ∧ ∀ x ∈ xs, x ≤ OFF64_MAX :=
  forall_mem_append

theorem absorbLeft_le (hS : ∀ u ∈ S, (u.2 : Int) < m) (start stop : Nat) :
    ((absorbLeft S start stop).2.2 : Int) < m ↔ (stop : Int) < m := by
  grind [absorbLeft]

theorem mem_emplace (h : u ∈ Sectors.emplace S v) : u ∈ S ∨ u = v := by
  grind [Sectors.emplace]

theorem insertSector_lt {m : Int} (hS : ∀ u ∈ S, (u.2 : Int) < m) (start : Nat) {stop : Nat}
    (hStop : (stop : Int) < m) : ∀ u ∈ insertSector S start stop, (u.2 : Int) < m := by
  have hLeft := (absorbLeft_le hS start stop).mpr hStop
  have hRight : ∀ it, (absorbRight S it (absorbLeft S start stop).2.2 : Int) < m := by
    intro it
    grind [absorbRight]
  intro u hu
  rcases mem_emplace hu with hOld | rfl
  · exact hS u ((mem_append.mp hOld).elim mem_of_mem_take mem_of_mem_drop)
  · exact hRight _

theorem register_bounded (hS : ∀ k, ∀ u ∈ s.sectors k, (u.2 : Int) < OFF64_MAX) (file : Nat) (start stop : Int) :
    Bounded (register s file start stop) ↔ Bounded s ∧ stop < OFF64_MAX := by
  have hLeft := absorbLeft_le (hS file) start.toNat stop.toNat
  unfold OFF64_MAX at hLeft
  unfold Bounded register OFF64_MAX
  simp only [forall_mem_append, forall_mem_cons, not_mem_nil, IsEmpty.forall_iff, implies_true, and_true]
  refine and_congr_right fun _ => ?_
  omega

theorem Ranges.register (h : Ranges s) (file : Nat) (start : Int) (hStop : stop < OFF64_MAX) :
    Ranges (register s file start stop) := by
  refine ⟨h.client, h.server, fun k u hu => ?_⟩
  by_cases hk : k = file
  · subst hk
    rw [show (Overflow.register s k start stop).sectors k = _ from update_self ..] at hu
    refine insertSector_lt (h.sectors k) _ ?_ u hu
    unfold OFF64_MAX at *
    omega
  · rw [show (Overflow.register s file start stop).sectors k = _ from update_of_ne hk ..] at hu
    exact h.sectors k u hu

/-- The offsets of the server after some requests. -/
def serverAfter (t : Table) (server : Nat → Int) (rs : List (Fd × Int)) : Nat → Int :=
  rs.foldl (fun server r => update server (t.cell r.1) (server (t.cell r.1) + r.2)) server

def RequestsFit (t : Table) (server : Nat → Int) : List (Fd × Int) → Prop
  | [] => True
  | r :: rs => server (t.cell r.1) + r.2 < OFF64_MAX ∧ RequestsFit t (serverAfter t server [r]) rs

theorem requestsFit_append (server : Nat → Int) (rs rs' : List (Fd × Int)) :
    RequestsFit t server (rs ++ rs') ↔ RequestsFit t server rs ∧ RequestsFit t (serverAfter t server rs) rs' := by
  induction rs generalizing server with
  | nil => exact (true_and _ ▸ Iff.rfl)
  | cons r rs ih => exact (and_congr_right fun _ => ih _).trans and_assoc.symm

theorem requests_server (s : State) (rs : List (Fd × Int)) :
    (rs.foldl (request t) s).server = serverAfter t s.server rs ∧ (rs.foldl (request t) s).client = s.client ∧
      (rs.foldl (request t) s).write = s.write := by
  induction rs generalizing s with
  | nil => exact ⟨rfl, rfl, rfl⟩
  | cons r rs ih => exact ih (request t s r)

theorem Ranges.request (h : Ranges s) (hFits : s.server (t.cell r.1) + r.2 < OFF64_MAX) :
    Ranges (request t s r) := by
  have hRegister := h.register (t.file r.1) (s.server (t.cell r.1)) hFits
  refine ⟨h.client, fun k => ?_, hRegister.sectors⟩
  change update s.server (t.cell r.1) _ k ≤ _
  rw [update_apply]
  split
  · exact Int.le_of_lt hFits
  · exact h.server k

theorem Ranges.requests (h : Ranges s) (hFits : RequestsFit t s.server rs) :
    Ranges (rs.foldl (Overflow.request t) s) := by
  induction rs generalizing s with
  | nil => exact h
  | cons r rs ih => exact ih (h.request hFits.1) hFits.2

theorem bounded_of_requests {rs : List (Fd × Int)} (h : Bounded (rs.foldl (request t) s)) : Bounded s := by
  induction rs generalizing s with
  | nil => exact h
  | cons r rs ih => exact fun x hx => ih h x (mem_append_left _ hx)

theorem requests_bounded (h : Ranges s) (rs : List (Fd × Int)) :
    Bounded (rs.foldl (request t) s) ↔ Bounded s ∧ RequestsFit t s.server rs := by
  induction rs generalizing s with
  | nil => exact (and_true _ ▸ Iff.rfl)
  | cons r rs ih =>
    have hFirst : Bounded (request t s r) ↔ Bounded s ∧ s.server (t.cell r.1) + r.2 < OFF64_MAX :=
      register_bounded h.sectors _ _ _
    by_cases hFits : s.server (t.cell r.1) + r.2 < OFF64_MAX
    · rw [foldl_cons, ih (h.request hFits), hFirst]
      exact and_assoc
    · refine iff_of_false (fun hBounded => hFits ?_) fun hAll => hFits hAll.2.1
      exact (hFirst.mp (bounded_of_requests hBounded)).2

theorem requestsOf_flush (c : WriteCache) :
    requestsOf c.flush.2 = if c.actualSize ≠ 0 then [(c.fd, c.actualSize)] else [] := by
  unfold WriteCache.flush
  split <;> rfl

/-- The bytes of a line reach the server together with those that were in it. -/
theorem requestsOf_writeLine (maxLineSize : Nat) {c : WriteCache} (hCached : 0 ≤ c.actualSize) (buffer : List Byte) (count : Int) :
    let r := c.writeLine maxLineSize count buffer
    requestsOf r.2 ++ requestsOf r.1.flush.2 =
      if 0 < count then [(c.fd, c.actualSize + count)] else requestsOf c.flush.2 := by
  have hStored (l : List CacheAction) (bytes : List Byte) :
      requestsOf ((if c.reserved then [] else [.reserve]) ++ [.store c.actualSize bytes] ++ l) = requestsOf l := by
    cases c.reserved with
    | true => rfl
    | false => rfl
  unfold WriteCache.writeLine
  dsimp only
  by_cases hCount : 0 < count
  · have hNe : c.actualSize + count ≠ 0 := by omega
    rw [if_pos hCount, if_pos hCount]
    split
    · rw [hStored, requestsOf_flush, requestsOf_flush, if_pos hNe]
      unfold WriteCache.flush
      rw [if_pos hNe]
      rfl
    · rw [hStored, requestsOf_flush, if_pos hNe]
      rfl
  · rw [if_neg hCount, if_neg hCount]
    rfl

theorem flush_flushed (c : WriteCache) : c.flush.1.actualSize = 0 ∧ c.flush.1.fd = c.fd := by
  unfold WriteCache.flush
  grind

theorem requestsOf_append (as bs : List CacheAction) : requestsOf (as ++ bs) = requestsOf as ++ requestsOf bs :=
  filterMap_append

/-- The requests of a write and of the flush after it: what was in the cache and then the bytes, or both
at once. -/
theorem requestsOf_write (maxLineSize : Nat) {c : WriteCache} (hCached : 0 ≤ c.actualSize) (fd : Fd)
    (buffer : List Byte) {count : Int} (hCount : 0 ≤ count) : let r := c.write maxLineSize fd buffer count
    let rs := requestsOf r.2 ++ requestsOf r.1.flush.2
    rs = requestsOf c.flush.2 ++ (if 0 < count then [(fd, count)] else []) ∨
      c.fd = fd ∧ 0 < count ∧ rs = [(fd, c.actualSize + count)] := by
  -- the requests for the bytes, once the cache is empty
  have hLine (d : WriteCache) (hd : d.actualSize = 0) (hFd : d.fd = fd) :
      requestsOf (d.writeLine maxLineSize count buffer).2 ++
        requestsOf (d.writeLine maxLineSize count buffer).1.flush.2 = if 0 < count then [(fd, count)] else [] := by
    have hWritten := requestsOf_writeLine maxLineSize (c := d) (Int.le_of_eq hd.symm) buffer count
    grind [requestsOf_flush]
  have hBypass (d : WriteCache) (hd : d.actualSize = 0) (hFd : d.fd = fd) (hLong : count > maxLineSize)
      (l : List (List Byte)) : requestsOf (.request d.fd count :: l.map .push) ++ requestsOf d.flush.2 =
        if 0 < count then [(fd, count)] else [] := by
    have hPushes : requestsOf (l.map .push) = [] := by simp [requestsOf]
    rw [requestsOf_flush d, if_neg (not_not.mpr hd), if_pos (by omega), append_nil, ← hFd]
    exact congrArg ((d.fd, count) :: ·) hPushes
  unfold WriteCache.write WriteCache.switch
  by_cases hFd : c.fd = fd
  · rw [if_neg (not_not.mpr hFd)]
    dsimp only
    split
    · have hWritten := requestsOf_writeLine maxLineSize hCached buffer count
      grind
    · left
      obtain ⟨hZero, hSame⟩ := flush_flushed c
      split
      · next hLong =>
        rw [hZero, Int.sub_zero] at hLong
        rw [nil_append, requestsOf_append, append_assoc, hBypass _ hZero (hSame.trans hFd) hLong]
      · rw [nil_append, requestsOf_append, append_assoc, hLine _ hZero (hSame.trans hFd)]
  · left
    rw [if_pos hFd]
    dsimp only
    obtain ⟨hZero, -⟩ := flush_flushed c
    split
    · rw [requestsOf_append, append_assoc, hLine { c.flush.1 with fd := fd } hZero rfl]
    · have hFlushed : WriteCache.flush { c.flush.1 with fd := fd } = ({ c.flush.1 with fd := fd }, []) :=
        if_neg (not_not.mpr hZero)
      rw [hFlushed]
      split
      · next hLong =>
        rw [hZero, Int.sub_zero] at hLong
        rw [append_nil, requestsOf_append, append_assoc, hBypass { c.flush.1 with fd := fd } hZero rfl hLong]
      · rw [append_nil, requestsOf_append, append_assoc, hLine { c.flush.1 with fd := fd } hZero rfl]

theorem write_actualSize (maxLineSize : Nat) {c : WriteCache} (hCached : 0 ≤ c.actualSize) (fd : Fd) (buffer : List Byte) (count : Int) :
    0 ≤ (c.write maxLineSize fd buffer count).1.actualSize := by
  have hLine (d : WriteCache) (hd : 0 ≤ d.actualSize) : 0 ≤ (d.writeLine maxLineSize count buffer).1.actualSize := by
    unfold WriteCache.writeLine
    grind [flush_flushed]
  have hFlushed (d : WriteCache) : 0 ≤ d.flush.1.actualSize := Int.le_of_eq (flush_flushed d).1.symm
  have hSwitch : 0 ≤ (c.switch fd).1.actualSize := by
    unfold WriteCache.switch
    split
    · exact hFlushed c
    · exact hCached
  grind [WriteCache.write]

theorem asOff64_le_max (n : Int) : asOff64 n ≤ OFF64_MAX := by
  unfold asOff64 OFF64_MAX
  rw [Int.bmod_def]
  split <;> omega

theorem flush_drained (h : s.write.actualSize = 0) : flush t s = s := by
  have hFlush : s.write.flush = (s.write, []) := if_neg (not_not.mpr h)
  unfold flush apply
  rw [hFlush]
  rfl

theorem Inv.flush_fits (h : Inv t s) : RequestsFit t s.server (requestsOf s.write.flush.2) := by
  rw [requestsOf_flush]
  split
  · next hNe => exact ⟨h.cached.2 hNe, trivial⟩
  · trivial

structure Drained (t : Table) (s s' : State) : Prop extends Ranges s' where
  clients : s'.client = s.client
  write : s'.write.actualSize = 0
  bounded : Bounded s' ↔ Bounded s

theorem Inv.flush (h : Inv t s) : Drained t s (flush t s) := by
  have hStart : Ranges { s with write := s.write.flush.1 } := ⟨h.client, h.server, h.sectors⟩
  obtain ⟨-, hClient, hWrite⟩ := requests_server (t := t) { s with write := s.write.flush.1 } (requestsOf s.write.flush.2)
  refine ⟨hStart.requests h.flush_fits, hClient, ?_, ?_⟩
  · exact (congrArg WriteCache.actualSize hWrite).trans (flush_flushed s.write).1
  · exact (requests_bounded hStart _).trans (and_iff_left h.flush_fits)

theorem Ranges.inv (h : Ranges s) (hDrained : s.write.actualSize = 0) : Inv t s :=
  ⟨h, Int.le_of_eq hDrained.symm, fun hNe => absurd hDrained hNe⟩

theorem Inv.sums (h : Inv t s) (sums : List Int) : Inv t { s with sums := sums } :=
  ⟨⟨h.client, h.server, h.sectors⟩, h.cached⟩

theorem update_le (h : ∀ k, f k ≤ OFF64_MAX) (hv : v ≤ OFF64_MAX) (k : Nat) :
    update f c v k ≤ OFF64_MAX := by
  rw [update_apply]
  split
  · exact hv
  · exact h k

theorem Ranges.setFdOffset (h : Ranges s) (fd : Fd) (hv : v ≤ OFF64_MAX) : Ranges (setFdOffset t s fd v) :=
  ⟨update_le h.client hv, update_le h.server hv, h.sectors⟩

/-- What is left to show of a call that leaves an empty cache. -/
theorem noOverflow_of_drained (hDrained : (step t maxLineSize s c).write.actualSize = 0)
    (hRanges : P → Ranges (step t maxLineSize s c)) (hBounded : Bounded (step t maxLineSize s c) ↔ P) :
    (NoOverflow t maxLineSize s c ↔ P) ∧ (P → Inv t (step t maxLineSize s c)) := by
  unfold NoOverflow
  rw [flush_drained hDrained]
  exact ⟨hBounded, fun hP => (hRanges hP).inv hDrained⟩

theorem lseek_noOverflow (h : Inv t s) (fd : Fd) {offset answer : Int} (whence : Int) (hOffset : offset ≤ OFF64_MAX)
    (hAnswer : answer ≤ OFF64_MAX) :
    (NoOverflow t maxLineSize s (.lseek fd offset whence answer) ↔ Within t s (.lseek fd offset whence answer)) ∧
      (Within t s (.lseek fd offset whence answer) →
        Inv t (step t maxLineSize s (.lseek fd offset whence answer))) := by
  have hFlush := (h.sums []).flush
  have hNone : Bounded (Overflow.flush t { s with sums := [] }) := hFlush.bounded.mpr fun x hx => absurd hx not_mem_nil
  have hClient := hFlush.clients
  refine noOverflow_of_drained ?_ (fun _ => ?_) ?_
  all_goals
    unfold step capioLseek
    dsimp only
    generalize Overflow.flush t { s with sums := [] } = s1 at *
  · split_ifs <;> exact hFlush.write
  · have hRanges := hFlush.toRanges
    have hSum := asOff64_le_max (s1.client (t.cell fd) + offset)
    have hMoved (sums : List Int) {v : Int} (hv : v ≤ OFF64_MAX) :
        Ranges (setFdOffset t { s1 with sums := sums } fd v) := ⟨update_le hRanges.client hv, update_le hRanges.server hv, hRanges.sectors⟩
    split_ifs
    · exact hRanges.setFdOffset fd hOffset
    · exact hRanges
    · exact hMoved _ hSum
    · exact ⟨hRanges.client, hRanges.server, hRanges.sectors⟩
    · exact ⟨update_le hRanges.client hSum, hRanges.server, hRanges.sectors⟩
    · exact hRanges.setFdOffset fd hAnswer
    · exact hRanges
  · have hSummed : Bounded { s1 with sums := s1.sums ++ [s1.client (t.cell fd) + offset] } ↔
        s.client (t.cell fd) + offset ≤ OFF64_MAX := by
      rw [bounded_append, and_iff_right hNone, hClient]
      exact forall_mem_singleton
    unfold Within
    dsimp only
    by_cases hSet : whence = SEEK_SET
    · subst hSet
      rw [if_pos rfl]
      refine iff_of_true ?_ (by simp [SEEK_SET, SEEK_CUR, SEEK_END])
      split <;> exact hNone
    by_cases hCur : whence = SEEK_CUR
    · subst hCur
      rw [if_neg hSet, if_pos rfl]
      refine Iff.trans ?_ (hSummed.trans (imp_iff_right (Or.inl rfl)).symm)
      split <;> rfl
    by_cases hEnd : whence = SEEK_END
    · subst hEnd
      rw [if_neg hSet, if_neg hCur, if_pos rfl]
      exact hSummed.trans (imp_iff_right (Or.inr rfl)).symm
    · rw [if_neg hSet, if_neg hCur, if_neg hEnd]
      refine iff_of_true ?_ fun hKind => absurd hKind (not_or.mpr ⟨hCur, hEnd⟩)
      split <;> exact hNone

theorem write_fits (maxLineSize : Nat) (h : Inv t s) (fd : Fd) (buffer : List Byte) {count : Int} (hCount : 0 ≤ count) :
    let r := s.write.write maxLineSize fd buffer count
    RequestsFit t s.server (requestsOf r.2 ++ requestsOf r.1.flush.2) ↔
      (0 < count → (Overflow.flush t s).server (t.cell fd) + count < OFF64_MAX) := by
  intro r
  have hServer : (Overflow.flush t s).server = serverAfter t s.server (requestsOf s.write.flush.2) :=
    (requests_server { s with write := s.write.flush.1 } _).1
  rcases requestsOf_write maxLineSize h.cached.1 fd buffer hCount with hTwo | ⟨hFd, hPos, hOne⟩
  · rw [hTwo, requestsFit_append, and_iff_right h.flush_fits, hServer]
    split
    · next hPos => exact (and_iff_left trivial).trans (imp_iff_right hPos).symm
    · next hNot => exact iff_of_true trivial fun hPos => absurd hPos hNot
  · have hAfter : (Overflow.flush t s).server (t.cell fd) = s.server (t.cell fd) + s.write.actualSize := by
      rw [hServer, requestsOf_flush, hFd]
      split
      · exact update_self ..
      · next hZero => rw [not_not.mp hZero, Int.add_zero]; rfl
    rw [hOne, hAfter, Int.add_assoc]
    exact (and_iff_left trivial).trans (imp_iff_right hPos).symm

theorem write_noOverflow (h : Inv t s) (fd : Fd) (buffer : List Byte) {count : Int} (hCount : 0 ≤ count) :
    (NoOverflow t maxLineSize s (.write fd buffer count) ↔ Within t s (.write fd buffer count)) ∧
      (Within t s (.write fd buffer count) → Inv t (step t maxLineSize s (.write fd buffer count))) := by
  have hFits := write_fits maxLineSize h fd buffer hCount
  have hCached := write_actualSize maxLineSize h.cached.1 fd buffer count
  unfold NoOverflow step capioWrite apply
  dsimp only at hFits ⊢
  generalize s.write.write maxLineSize fd buffer count = r at *
  have hStart : Ranges { s with sums := [], write := r.1 } := ⟨h.client, h.server, h.sectors⟩
  have hFirst := requests_bounded (t := t) hStart (requestsOf r.2)
  rw [and_iff_right (show Bounded _ from fun x hx => absurd hx not_mem_nil)] at hFirst
  have hRanges := fun hr : RequestsFit t s.server (requestsOf r.2) => hStart.requests hr
  obtain ⟨hServer, hClient, hWrite⟩ := requests_server (t := t) { s with sums := [], write := r.1 } (requestsOf r.2)
  generalize (requestsOf r.2).foldl (request t) { s with sums := [], write := r.1 } = s1 at *
  rw [requestsFit_append] at hFits
  have hRanges2 (hr : RequestsFit t s.server (requestsOf r.2)) (sums : List Int) :
      Ranges { s1 with client := update s1.client (t.cell fd) (asOff64 (s1.client (t.cell fd) + count)), sums := sums } :=
    ⟨update_le (hRanges hr).client (asOff64_le_max _), (hRanges hr).server, (hRanges hr).sectors⟩
  constructor
  · unfold Within
    dsimp only
    rw [← hFits]
    by_cases hr : RequestsFit t s.server (requestsOf r.2)
    · unfold Overflow.flush apply
      dsimp only
      rw [hWrite]
      have hLast := requests_bounded (t := t) (s := { s1 with
        write := r.1.flush.1
        client := update s1.client (t.cell fd) (asOff64 (s1.client (t.cell fd) + count))
        sums := s1.sums ++ [s1.client (t.cell fd) + count] })
        ⟨(hRanges2 hr []).client, (hRanges hr).server, (hRanges hr).sectors⟩ (requestsOf r.1.flush.2)
      refine hLast.trans ?_
      dsimp only
      rw [hServer, and_iff_right hr, hClient]
      refine and_congr_left fun _ => ?_
      exact forall_mem_append.trans ((and_iff_right (hFirst.mpr hr)).trans forall_mem_singleton)
    · refine iff_of_false (fun hBounded => hr ?_) fun hAll => hr hAll.2.1
      have hWritten := bounded_of_requests hBounded
      exact hFirst.mp fun x hx => hWritten x (mem_append_left _ hx)
  · rintro ⟨hSum, hWithin⟩
    obtain ⟨hr, hLast⟩ := hFits.mpr hWithin
    refine ⟨hRanges2 hr _, ?_⟩
    dsimp only
    rw [hWrite, hServer]
    refine ⟨hCached, fun hNe => ?_⟩
    rw [requestsOf_flush, if_pos hNe] at hLast
    exact hLast.1

theorem store_write (s : State) (file : Nat) (position : Int) (ns : List Nat) :
    (store s file position ns).write = s.write := by
  induction ns generalizing s position with
  | nil => rfl
  | cons n ns ih => exact ih _ _

theorem Ranges.store (h : Ranges s) (file : Nat) {position : Int} {ns : List Nat}
    (hFits : ns ≠ [] → position + ns.sum < OFF64_MAX) : Ranges (store s file position ns) := by
  induction ns generalizing s position with
  | nil => exact h
  | cons n ns ih =>
    have hSum := hFits (cons_ne_nil n ns)
    rw [sum_cons] at hSum
    refine ih (h.register file position (by omega)) fun _ => ?_
    omega

theorem store_bounded (h : Ranges s) (file : Nat) (position : Int) (ns : List Nat) :
    Bounded (store s file position ns) ↔ Bounded s ∧ (ns ≠ [] → position + ns.sum < OFF64_MAX) := by
  induction ns generalizing s position with
  | nil => exact (and_iff_left fun hNe => absurd rfl hNe).symm
  | cons n ns ih =>
    have hFirst := register_bounded h.sectors file position (position + n)
    rw [sum_cons, imp_iff_right (cons_ne_nil n ns)]
    by_cases hFits : position + n < OFF64_MAX
    · refine (ih (h.register file position hFits) (position + n)).trans ?_
      grind
    · refine iff_of_false (fun hBounded => hFits ?_) fun hAll => hFits (by omega)
      -- the sums of the first request stay
      have hMono (s : State) (p : Int) (ns : List Nat) : Bounded (Overflow.store s file p ns) → Bounded s := by
        induction ns generalizing s p with
        | nil => exact id
        | cons m ms ihm => exact fun hb x hx => ihm _ _ hb x (mem_append_left _ hx)
      exact (hFirst.mp (hMono _ _ ns hBounded)).2

theorem Ranges.finish (h : Ranges s) (he : e.savedFdOffset ≤ OFF64_MAX) (copied : Int) :
    Ranges (finish t e copied s) := by
  have hPosition : (if e.offset.isSome then e.savedFdOffset else asOff64 (e.position + copied)) ≤ OFF64_MAX := by
    split
    · exact he
    · exact asOff64_le_max _
  unfold Overflow.finish
  dsimp only
  generalize (if e.offset.isSome then e.savedFdOffset else asOff64 (e.position + copied)) = position at *
  split
  · exact h.setFdOffset e.fd hPosition
  · exact h

theorem finish_sums (e : CopyEnd) (copied : Int) (s : State) :
    (finish t e copied s).sums = s.sums ∧ (finish t e copied s).write = s.write := by
  unfold Overflow.finish
  dsimp only
  generalize (if e.offset.isSome then e.savedFdOffset else asOff64 (e.position + copied)) = position
  split <;> exact ⟨rfl, rfl⟩

theorem finish_finish (ha : a.savedFdOffset ≤ OFF64_MAX) (hb : b.savedFdOffset ≤ OFF64_MAX)
    (hDrained : s.write.actualSize = 0) (n : Int) :
    (Bounded (Overflow.flush t (finish t a n (finish t b n s))) ↔ Bounded s) ∧
      (Ranges s → Inv t (finish t a n (finish t b n s))) := by
  obtain ⟨hSums, hWrite⟩ := finish_sums (t := t) b n s
  obtain ⟨hSums', hWrite'⟩ := finish_sums (t := t) a n (finish t b n s)
  have hDrained' : (finish t a n (finish t b n s)).write.actualSize = 0 := by rw [hWrite', hWrite, hDrained]
  refine ⟨?_, fun h => ((h.finish hb n).finish ha n).inv hDrained'⟩
  rw [flush_drained hDrained', Bounded, hSums', hSums]
  rfl

theorem overlapSums_le (copyOut : CopyEnd) (len : Nat) (hIn : copyIn.position ≤ OFF64_MAX)
    (hSize : copyIn.size ≤ OFF64_MAX) : (∀ x ∈ overlapSums copyIn copyOut len, x ≤ OFF64_MAX) ↔
      copyOut.position + overlapCount copyIn len ≤ OFF64_MAX := by
  have hSecond : copyIn.position + overlapCount copyIn len ≤ OFF64_MAX := by
    unfold overlapCount
    split <;> omega
  unfold overlapSums
  dsimp only
  split
  · rw [forall_mem_cons, forall_mem_singleton, and_iff_left hSecond]
  · exact forall_mem_singleton

theorem copy_noOverflow (h : Inv t s)
    (hAllowed : Allowed t s (.copyFileRange copyIn copyOut len flags pageSize answers)) :
    (NoOverflow t maxLineSize s (.copyFileRange copyIn copyOut len flags pageSize answers) ↔
      Within t s (.copyFileRange copyIn copyOut len flags pageSize answers)) ∧
      (Within t s (.copyFileRange copyIn copyOut len flags pageSize answers) →
        Inv t (step t maxLineSize s (.copyFileRange copyIn copyOut len flags pageSize answers))) := by
  obtain ⟨hIn, hOut, hSize, hSavedIn, hSavedOut⟩ := hAllowed
  have hStart := h.sums []
  have hNone : Bounded { s with sums := [] } := fun x hx => absurd hx not_mem_nil
  unfold NoOverflow step capioCopyFileRange Within
  dsimp only
  by_cases hRefused : (refusal copyIn copyOut len flags).isSome ∨ len = 0
  · rw [if_pos hRefused]
    grind [hStart.flush.bounded]
  rw [if_neg hRefused]
  obtain ⟨hPasses, hLen⟩ := not_or.mp hRefused
  rw [or_iff_right hPasses, or_iff_right hLen]
  -- the state after the sums of the overlap
  set s1 : State := if t.file copyIn.fd = t.file copyOut.fd then
    { s with sums := [] ++ overlapSums copyIn copyOut len } else { s with sums := [] } with hs1
  have hInv1 : Inv t s1 := by
    rw [hs1]
    split
    · exact h.sums _
    · exact hStart
  have hBounded1 : Bounded s1 ↔ (t.file copyIn.fd = t.file copyOut.fd →
      copyOut.position + overlapCount copyIn len ≤ OFF64_MAX) := by
    rw [hs1]
    split
    · next hSame => exact (overlapSums_le copyOut len hIn hSize).trans (imp_iff_right hSame).symm
    · next hOther => exact iff_of_true hNone fun hSame => absurd hSame hOther
  have hFlush := hInv1.flush
  by_cases hOverlap : t.file copyIn.fd = t.file copyOut.fd ∧ overlaps copyIn copyOut len = true
  · rw [if_pos hOverlap]
    exact ⟨hFlush.bounded.trans (hBounded1.trans (and_iff_left fun _ => Or.inl hOverlap).symm), fun _ => hInv1⟩
  · rw [if_neg hOverlap]
    rw [or_iff_right hOverlap]
    generalize amounts (min len (capioMaxRwCount pageSize)) answers = ns
    have hStored := store_bounded hFlush.toRanges (t.file copyOut.fd) copyOut.position ns
    have hRanges := fun hFits : ns ≠ [] → copyOut.position + ns.sum < OFF64_MAX =>
      hFlush.toRanges.store (t.file copyOut.fd) hFits
    have hWrite := store_write (Overflow.flush t s1) (t.file copyOut.fd) copyOut.position ns
    generalize Overflow.store (Overflow.flush t s1) (t.file copyOut.fd) copyOut.position ns = s2 at *
    rw [hFlush.bounded, hBounded1] at hStored
    have hDrained : s2.write.actualSize = 0 := hWrite ▸ hFlush.write
    grind [finish_finish]

/-- The calls of a client do not fail here. -/
def run (t : Table) (maxLineSize : Nat) (s : State) (c : Call) : Except Empty State := .ok (step t maxLineSize s c)

/-- In every run, no call makes a sum that is too large exactly if every call is within its bounds. -/
theorem no_overflow_iff {t : Table} {maxLineSize : Nat} {s0 : State} (h : Inv t s0) (calls : List Call)
    (hAllowed : Meets (Allowed t) (run t maxLineSize) s0 calls) :
    Meets (NoOverflow t maxLineSize) (run t maxLineSize) s0 calls ↔
      Meets (Within t) (run t maxLineSize) s0 calls := by
  have hCall (s : State) (c : Call) (hs : Inv t s) (hc : Allowed t s c) :
      (NoOverflow t maxLineSize s c ↔ Within t s c) ∧ (Within t s c → Inv t (step t maxLineSize s c)) := by
    cases c with
    | lseek fd offset whence answer => exact lseek_noOverflow hs fd whence hc.1 hc.2
    | write fd buffer count => exact write_noOverflow hs fd buffer hc.1
    | copyFileRange copyIn copyOut len flags pageSize answers => exact copy_noOverflow hs hc
    | others client server sectors =>
      have hNext : Inv t (step t maxLineSize s (.others client server sectors)) := Inv.sums hc []
      exact ⟨iff_of_true (hNext.flush.bounded.mpr fun x hx => absurd hx List.not_mem_nil) trivial, fun _ => hNext⟩
  exact Meets.iff_of_inv (E := fun _ => False) (fun s c hs hc => (hCall s c hs hc).1)
    (fun s c hs hc hWithin => (hCall s c hs hc).2 hWithin) h hAllowed

/-- Every descriptor has an open file of its own, and all are open on one file. -/
def oneFile : Table := ⟨Int.toNat, fun _ => 0⟩

def unwritten : State := { client := fun _ => 0, server := fun _ => 0, sectors := fun _ => [] }

theorem inv_unwritten : Inv oneFile unwritten where
  client _ := (by decide : (0 : Int) ≤ OFF64_MAX)
  server _ := (by decide : (0 : Int) ≤ OFF64_MAX)
  sectors _ _ hu := absurd hu not_mem_nil
  cached := ⟨Int.le_refl 0, fun hNe => absurd rfl hNe⟩

theorem no_overflow_at_ten : Meets (NoOverflow oneFile 4) (run oneFile 4) unwritten
    [.lseek 3 10 SEEK_SET 0, .write 3 [1, 2] 2] := by
  have hAllowed : Meets (Allowed oneFile) (run oneFile 4) unwritten
      [.lseek 3 10 SEEK_SET 0, .write 3 [1, 2] 2] :=
    ⟨⟨by decide, by decide⟩, fun _ _ => ⟨⟨by decide, by decide⟩, fun _ _ => trivial⟩⟩
  refine (no_overflow_iff inv_unwritten _ hAllowed).mpr ⟨fun h => absurd h (by decide), ?_⟩
  rintro _ ⟨⟩
  exact ⟨⟨by decide, fun _ => by decide⟩, fun _ _ => trivial⟩

def positioned (fd : Fd) (flags : BitVec 32) (position : Int) : CopyEnd where
  fd := fd
  isCapio := true
  isOpen := true
  flags := flags
  isRegular := true
  size := 4
  position := position

/-- A write of one byte at the largest offset, a seek from there, and a copy of four bytes to there make
sums that are too large. -/
theorem sums_overflow : let last := step oneFile 4 unwritten (.lseek 3 OFF64_MAX SEEK_SET 0)
    OFF64_MAX + 1 ∈ (step oneFile 4 last (.write 3 [1] 1)).sums ∧
    OFF64_MAX + 1 ∈ (step oneFile 4 last (.lseek 3 1 SEEK_CUR 0)).sums ∧
    refusal (positioned 3 O_RDONLY 0) (positioned 4 O_WRONLY OFF64_MAX) 4 0 = none ∧
    OFF64_MAX + 4 ∈ (step oneFile 4 unwritten (.copyFileRange (positioned 3 O_RDONLY 0)
      (positioned 4 O_WRONLY OFF64_MAX) 4 0 4096 [4])).sums := by
  decide +kernel

end Capio.Posix.Overflow
