import Capio.Posix.Lookups

/-! # Descriptors of one open file

Descriptors that come from one `open` by duplication are meant to be one open file: they have one
offset and one set of status flags, while the flag for `exec` belongs to the descriptor.  In the tables
the offset is shared by a pointer, and the flags are copied with the entry.
-/
namespace Capio.Posix.Descriptions

open Common Lib.Outcome Client Function List Option

section

variable (fs : Filesystem) (fd : Fd)

def getCapioFdFlags : Except Missing Nat := FileEntry.flags <$> lookUp (fs.files fd) (.files fd)

def getCapioFdCloexec : Except Missing Bool := FileEntry.isCloexec <$> lookUp (fs.files fd) (.files fd)

def setCapioFdFlags (flags : Nat) : Except Missing Filesystem := do
  let f ← lookUp (fs.files fd) (.files fd)
  pure { fs with files := update fs.files fd (some { f with flags := flags }) }

end

/-- `O_APPEND | O_ASYNC | O_DIRECT | O_NOATIME | O_NONBLOCK`. -/
def CAPIO_FCNTL_SETFL_MASK : Nat := 1024 ||| 8192 ||| 16384 ||| 262144 ||| 2048

def FD_CLOEXEC : Nat := 1

/-- The flags after `F_SETFL`: what the mask does not cover stays. -/
def setFlags (flags arg : Nat) : Nat :=
  flags ^^^ (flags &&& CAPIO_FCNTL_SETFL_MASK) ||| (arg &&& CAPIO_FCNTL_SETFL_MASK)

/-- The commands of `fcntl` on descriptors; `res` is the number that the kernel gives. -/
inductive Command
  | dupfd (res : Fd)
  | dupfdCloexec (res : Fd)
  | getfd
  | setfd (arg : Nat)
  | getfl
  | setfl (arg : Nat)

def capioFcntlDupfd (c : Client) (tid : Tid) (fd res : Fd) (isCloexec : Bool) :
    Except Client.Stop (Option Int × Client) :=
  if res < 0 then pure (some res, c)
  else do
    let c ← c.withTables (c.fs.dupCapioFd fd res isCloexec)
    pure (some res, c.send (.dup tid fd res))

def fcntlHandler (c : Client) (tid : Tid) (fd : Fd) (cmd : Command) : Except Client.Stop (Option Int × Client) :=
  if ¬ c.fs.existsCapioFd fd then pure (none, c)
  else
    match cmd with
    | .dupfd res => capioFcntlDupfd c tid fd res false
    | .dupfdCloexec res => capioFcntlDupfd c tid fd res true
    | .getfd => do
      let isCloexec ← see (getCapioFdCloexec c.fs fd)
      pure (some (if isCloexec then FD_CLOEXEC else 0), c)
    | .setfd arg => do
      let c ← c.withTables (c.fs.setCapioFdCloexec fd (hasFlag arg FD_CLOEXEC))
      pure (some 0, c)
    | .getfl => do
      let flags ← see (getCapioFdFlags c.fs fd)
      pure (some flags, c)
    | .setfl arg => do
      let flags ← see (getCapioFdFlags c.fs fd)
      let c ← c.withTables (setCapioFdFlags c.fs fd (setFlags flags arg))
      pure (some 0, c)

inductive Call
  | openat (dirfd : Option Fd) (pathname : Path) (flags : Nat) (fd : Fd) (code : Int)
  | dup (fd res : Fd)
  | fcntl (fd : Fd) (cmd : Command)
  | read (fd : Fd) (count endOfRead : Int)
  | write (fd : Fd) (buffer : List Byte) (count : Int)
  | lseek (fd : Fd) (offset : Int) (whence : Whence) (answer : Int)
  | close (fd : Fd)

/-- The descriptor that a call is made on, or that it opens. -/
def Call.fd : Call → Fd
  | .openat _ _ _ fd _ | .dup fd _ | .fcntl fd _ | .read fd _ _ | .write fd _ _ | .lseek fd _ _ _
  | .close fd => fd

/-- A client, the number of the `open` that each of its descriptors comes from, and what was last said
of each one about `exec`. -/
structure World where
  client : Client := {}
  opens : Nat := 0
  origin : Fd → Option Nat := fun _ => none
  lastSet : Fd → Bool := fun _ => false

def World.files (w : World) : Fd → Option FileEntry := w.client.fs.files

def World.derive (w : World) (fd res : Fd) (isCloexec : Bool) (client : Client) : World :=
  { w with
    client := client
    origin := update w.origin res (w.origin fd)
    lastSet := update w.lastSet res isCloexec }

section

variable (p : Keys.Process) (maxLineSize : Nat)

def fcntlStep (w : World) (tid : Tid) (fd : Fd) (cmd : Command) : Except Client.Stop World := do
  let (result, client) ← fcntlHandler w.client tid fd cmd
  match cmd, result with
  | .dupfd res, some n => pure (if n < 0 then { w with client := client } else w.derive fd res false client)
  | .dupfdCloexec res, some n =>
    pure (if n < 0 then { w with client := client } else w.derive fd res true client)
  | .setfd arg, some _ =>
    pure { w with client := client, lastSet := update w.lastSet fd (hasFlag arg FD_CLOEXEC) }
  | _, _ => pure { w with client := client }

def step (w : World) (t : Tid × Call) : Except Client.Stop World :=
  match t.2 with
  | .openat dirfd pathname flags fd code => do
    let (result, client) ← w.client.capioOpenat p t.1 dirfd pathname flags fd code
    match result with
    | .value fd => pure {
        client := client
        opens := w.opens + 1
        origin := update w.origin fd (some w.opens)
        lastSet := update w.lastSet fd (hasFlag flags Client.O_CLOEXEC) }
    | _ => pure { w with client := client }
  | .dup fd res => do
    let client ← w.client.dupHandler t.1 fd res
    pure (if w.client.fs.existsCapioFd fd ∧ res ≠ -1 then w.derive fd res false client
      else { w with client := client })
  | .fcntl fd cmd => fcntlStep w t.1 fd cmd
  | .read fd count endOfRead => do
    let client ← w.client.capioRead maxLineSize t.1 fd count endOfRead
    pure { w with client := client }
  | .write fd buffer count => do
    let client ← w.client.capioWrite maxLineSize t.1 fd buffer count
    pure { w with client := client }
  | .lseek fd offset whence answer => do
    let client ← w.client.capioLseek t.1 fd offset whence answer
    pure { w with client := client }
  | .close fd => do
    let client ← w.client.closeHandler t.1 fd
    pure { w with client := client, origin := update w.origin fd none }

end

/-- Opens and duplications get numbers that are not in use. -/
def NewNumbers (w : World) (t : Tid × Call) : Prop :=
  match t.2 with
  | .openat _ _ _ fd _ => w.files fd = none
  | .dup _ res | .fcntl _ (.dupfd res) | .fcntl _ (.dupfdCloexec res) => w.files res = none
  | _ => True

/-- The offset and the flags that a descriptor reports. -/
def reports (fs : Filesystem) (fd : Fd) : Except Missing (Int × Nat) := do
  let offset ← fs.getCapioFdOffset fd
  let flags ← getCapioFdFlags fs fd
  pure (offset, flags)

structure Shared (w : World) : Prop where
  reports : ∀ fd fd' o, w.origin fd = some o → w.origin fd' = some o →
    reports w.client.fs fd = reports w.client.fs fd'
  cloexec : ∀ fd o, w.origin fd = some o → getCapioFdCloexec w.client.fs fd = .ok (w.lastSet fd)

/-- What descriptors of another `open` report is left as it was. -/
def Independent (w : World) (t : Tid × Call) (w' : World) : Prop :=
  ∀ fd o, w.origin fd = some o → w.origin t.2.fd ≠ some o →
    reports w'.client.fs fd = reports w.client.fs fd

def Keeps (p : Keys.Process) (maxLineSize : Nat) (w : World) (t : Tid × Call) : Prop :=
  ∀ w', step p maxLineSize w t = .ok w' → Shared w' ∧ Independent w t w'

/-- Flags are set only where the other descriptors of the open file have these flags, if there are
any. -/
def SetsAlone (w : World) (t : Tid × Call) : Prop :=
  match t.2 with
  | .fcntl fd (.setfl arg) => ∀ f, w.files fd = some f → ∀ fd' f', w.files fd' = some f' →
    w.origin fd' = w.origin fd → fd' ≠ fd → f'.flags = setFlags f.flags arg
  | _ => True

structure Inv (w : World) : Prop where
  opens : w.client.fs.offsets.length = w.opens
  origin : ∀ fd, w.origin fd = (w.files fd).map FileEntry.offset
  known : ∀ fd f, w.files fd = some f → f.offset < w.opens
  flags : ∀ fd fd' f f', w.files fd = some f → w.files fd' = some f' → f.offset = f'.offset →
    f.flags = f'.flags
  lastSet : ∀ fd f, w.files fd = some f → f.isCloexec = w.lastSet fd

section

variable {fs fs' : Filesystem} {fd : Fd} {f : FileEntry}

theorem reports_eq (hf : fs.files fd = some f) : reports fs fd = .ok (fs.offsets.getD f.offset 0, f.flags) := by
  unfold reports Filesystem.getCapioFdOffset getCapioFdFlags
  rw [hf]
  rfl

theorem Inv.file (h : Inv w) (ho : w.origin fd = some o) : ∃ f, w.files fd = some f ∧ f.offset = o :=
  map_eq_some_iff.mp (h.origin fd ▸ ho)

theorem Inv.shared (h : Inv w) : Shared w where
  reports fd fd' o ho ho' := by
    obtain ⟨f, hf, hOffset⟩ := h.file ho
    obtain ⟨f', hf', hOffset'⟩ := h.file ho'
    rw [reports_eq hf, reports_eq hf', hOffset, hOffset', h.flags fd fd' f f' hf hf' (hOffset.trans hOffset'.symm)]
  cloexec fd o ho := by
    obtain ⟨f, hf, -⟩ := h.file ho
    unfold getCapioFdCloexec
    rw [show w.client.fs.files fd = some f from hf, ← h.lastSet fd f hf]
    rfl

/-- At most the offset of one descriptor has changed. -/
structure Moves (fd : Fd) (fs fs' : Filesystem) : Prop where
  files : fs'.files = fs.files
  length : fs'.offsets.length = fs.offsets.length
  offsets : ∀ k, (fs.files fd).map FileEntry.offset ≠ some k → fs'.offsets[k]? = fs.offsets[k]?

theorem Moves.of_eq (h : fs' = fs) : Moves fd fs fs' := h ▸ ⟨rfl, rfl, fun _ _ => rfl⟩

theorem Moves.trans (h : Moves fd fs fs') (h' : Moves fd fs' fs'') : Moves fd fs fs'' := by
  refine ⟨h'.files.trans h.files, h'.length.trans h.length, fun k hk => ?_⟩
  rw [h'.offsets k (h.files ▸ hk), h.offsets k hk]

end

section

variable {c : Client}

theorem withTables_moves (c : Client) (fd : Fd) (offset : Int) :
    Yields (c.withTables (c.fs.setCapioFdOffset fd offset)) (fun c' => Moves fd c.fs c'.fs) := by
  unfold Filesystem.setCapioFdOffset
  cases hf : c.fs.files fd with
  | none => trivial
  | some f =>
    refine ⟨rfl, length_set, fun k hk => ?_⟩
    rw [hf] at hk
    exact getElem?_set_ne fun he => hk (congrArg some he)

theorem flushRead_fs (c : Client) (tid : Tid) : Yields (c.flushRead tid) (fun c' => c'.fs = c.fs) :=
  (flushRead_ends c tid).weaken.imp fun _ h => h.2.1

theorem setFdOffset_moves (c : Client) (tid : Tid) (fd : Fd) (offset : Int) :
    Yields (c.setFdOffset tid fd offset) (fun c' => Moves fd c.fs c'.fs) := by
  refine (flushRead_fs c tid).bind fun c1 h1 => ?_
  refine (withTables_moves (c1.flushWrite tid) fd offset).bind fun c2 h2 => ?_
  exact (Moves.of_eq h1).trans h2

theorem capioLseek_moves (c : Client) (tid : Tid) (fd : Fd) (offset : Int) (whence : Whence) (answer : Int) :
    Yields (c.capioLseek tid fd offset whence answer) (fun c' => Moves fd c.fs c'.fs) := by
  refine .ite (fun _ => ?_) fun _ => Moves.of_eq rfl
  refine (flushRead_fs c tid).bind fun c1 h1 => .skip fun fileOffset => ?_
  have hMoves {x : Except Client.Stop Client} (hx : Yields x (fun c' => Moves fd c1.fs c'.fs)) :
      Yields x (fun c' => Moves fd c.fs c'.fs) := hx.imp fun _ h => (Moves.of_eq h1).trans h
  refine hMoves ?_
  cases whence with
  | SEEK_SET | SEEK_CUR =>
    exact .ite (fun _ => setFdOffset_moves (c1.flushWrite tid) tid fd _) fun _ => Moves.of_eq rfl
  | SEEK_END | SEEK_DATA | SEEK_HOLE => exact withTables_moves ((c1.flushWrite tid).send _) fd _
  | invalid => exact Moves.of_eq rfl

theorem capioRead_moves (maxLineSize : Nat) (c : Client) (tid : Tid) (fd : Fd) (count endOfRead : Int) :
    Yields (c.capioRead maxLineSize tid fd count endOfRead) (fun c' => Moves fd c.fs c'.fs) := by
  refine .ite (fun _ => .ite (fun _ => trivial) fun _ => ?_) fun _ => Moves.of_eq rfl
  refine ((switchRead_ends (c.flushWrite tid) tid fd).weaken).bind fun c1 h1 => .skip fun fileOffset => ?_
  refine (withTables_moves { c1.setRead tid _ with sent := _ } fd _).imp fun c2 h2 => ?_
  exact (Moves.of_eq h1.2).trans h2

theorem capioWrite_moves (maxLineSize : Nat) (c : Client) (tid : Tid) (fd : Fd) (buffer : List Byte) (count : Int) :
    Yields (c.capioWrite maxLineSize tid fd buffer count) (fun c' => Moves fd c.fs c'.fs) := by
  refine .ite (fun _ => .ite (fun _ => trivial) fun _ => ?_) fun _ => Moves.of_eq rfl
  refine .skip fun caches => ?_
  refine .bind (Q := fun c1 : Client => c1.fs = c.fs) (Ends.ite (fun _ => flushRead_fs c tid) fun _ => rfl)
    fun c1 h1 => .skip fun offset => ?_
  refine (withTables_moves (c1.applyWrite tid _) fd _).imp fun c2 h2 => ?_
  exact (Moves.of_eq h1).trans h2

theorem withTables_ends_of (h : Yields x P) : Yields (c.withTables x) (fun c' => P c'.fs) := by
  cases x with
  | error e => trivial
  | ok fs => exact h

/-- The entry of a new open file, whose offset is a new cell. -/
structure Adds (fd : Fd) (flags : Nat) (fs fs' : Filesystem) : Prop where
  files : fs'.files = update fs.files fd
    (some ⟨fs.offsets.length, Client.CAPIO_DEFAULT_FILE_INITIAL_SIZE, actualFlags flags, hasFlag flags Client.O_CLOEXEC⟩)
  length : fs'.offsets.length = fs.offsets.length + 1
  offsets : ∀ k < fs.offsets.length, fs'.offsets[k]? = fs.offsets[k]?

theorem capioOpenat_adds (p : Keys.Process) (c : Client) (tid : Tid) (dirfd : Option Fd) (pathname : Path)
    (flags : Nat) (code : Int) (hNew : c.fs.files fd = none) :
    Yields (c.capioOpenat p tid dirfd pathname flags fd code) (fun r =>
      r.1 = .value fd ∧ Adds fd flags c.fs r.2.fs ∨ (∀ n, r.1 ≠ .value n) ∧ r.2.fs = c.fs) := by
  unfold capioOpenat
  cases (c.resolver p).capioOpenat dirfd pathname with
  | key path =>
    refine .ite (fun _ => trivial) fun _ => .ite (fun _ => .inr ⟨fun _ he => (by cases he), rfl⟩) fun _ => ?_
    refine .bind (Q := fun c1 => Adds fd flags c.fs c1.fs) (withTables_ends_of (Ends.skip fun fds => ?_))
      fun c1 h1 => ?_
    · refine ⟨emplace_of_none hNew _, length_append, fun k hk => getElem?_append_left hk⟩
    · refine .bind (Q := fun c2 => Moves fd c1.fs c2.fs) (Ends.ite (fun _ => capioLseek_moves c1 tid fd 0 _ 0)
        fun _ => Moves.of_eq rfl) fun c2 h2 => ?_
      refine .inl ⟨rfl, h2.files.trans h1.files, h2.length.trans h1.length, ?_⟩
      intro k hk
      rw [h2.offsets k, h1.offsets k hk]
      rw [h1.files, update_self]
      exact fun he => absurd (some.inj he) (Nat.ne_of_gt hk)
  | _ => exact .inr ⟨fun _ he => (by cases he), rfl⟩

theorem dupCapioFd_copies (fs : Filesystem) (hNew : fs.files res = none) (isCloexec : Bool) :
    Yields (fs.dupCapioFd fd res isCloexec) (fun fs' => fs'.offsets = fs.offsets ∧ ∃ f, fs.files fd = some f ∧
      fs'.files = update fs.files res (some { f with isCloexec := isCloexec })) := by
  refine .skip fun path => .skip fun fds => ?_
  cases hf : fs.files fd with
  | none => trivial
  | some f =>
    change Ends (Filesystem.setCapioFdCloexec _ _ _ >>= _) _ _
    unfold Filesystem.setCapioFdCloexec
    dsimp only
    rw [emplace_of_none hNew, update_self]
    exact ⟨rfl, f, rfl, update_idem _ _ _⟩

theorem closeHandler_removes (c : Client) (tid : Tid) (fd : Fd) :
    Yields (c.closeHandler tid fd) (fun c' => c'.fs.offsets = c.fs.offsets ∧
      c'.fs.files = update c.fs.files fd none) := by
  refine .ite (fun _ => ?_) fun hNot => ⟨rfl, ?_⟩
  · refine (flushRead_fs (c.flushWrite tid) tid).bind fun c1 h1 => ?_
    refine withTables_ends_of (P := fun fs => fs.offsets = c.fs.offsets ∧ fs.files = update c.fs.files fd none) ?_
    refine .skip fun path => .skip fun fds => ?_
    rw [← show c1.fs = c.fs from h1]
    exact ⟨rfl, rfl⟩
  · have hNone : c.fs.files fd = none := not_isSome_iff_eq_none.mp hNot
    exact (hNone ▸ update_eq_self fd c.fs.files).symm

end

theorem reports_frame {fs fs' : Filesystem} (hf : fs.files fd = some f) (hf' : fs'.files fd = some f)
    (hCell : fs'.offsets[f.offset]? = fs.offsets[f.offset]?) : reports fs' fd = reports fs fd := by
  rw [reports_eq hf, reports_eq hf', getD_eq_getElem?_getD, getD_eq_getElem?_getD, hCell]

theorem Inv.moves (h : Inv w) (hMoves : Moves t.2.fd w.client.fs c.fs) :
    Inv { w with client := c } ∧ Independent w t { w with client := c } := by
  have hFiles : World.files { w with client := c } = w.files := hMoves.files
  refine ⟨⟨hMoves.length.trans h.opens, ?_, ?_, ?_, ?_⟩, fun fd o ho hOther => ?_⟩
  · exact hFiles ▸ h.origin
  · exact hFiles ▸ h.known
  · exact hFiles ▸ h.flags
  · exact hFiles ▸ h.lastSet
  · obtain ⟨f, hf, rfl⟩ := h.file ho
    refine reports_frame hf (hMoves.files ▸ hf) (hMoves.offsets f.offset ?_)
    rw [h.origin] at hOther
    exact hOther

/-- A descriptor gets an entry: a new open file, that of a descriptor it is copied from, or its own
one with other flags. -/
structure Enters (fd : Fd) (f : FileEntry) (w w' : World) : Prop where
  files : ∀ fd', w'.files fd' = if fd' = fd then some f else w.files fd'
  origin : ∀ fd', w'.origin fd' = if fd' = fd then some f.offset else w.origin fd'
  lastSet : ∀ fd', w'.lastSet fd' = if fd' = fd then f.isCloexec else w.lastSet fd'
  opens : w'.client.fs.offsets.length = w'.opens
  more : w.opens ≤ w'.opens
  known : f.offset < w'.opens
  flags : ∀ fd' f', w.files fd' = some f' → fd' ≠ fd → f'.offset = f.offset → f'.flags = f.flags
  offsets : ∀ k < w.opens, w'.client.fs.offsets[k]? = w.client.fs.offsets[k]?

theorem Enters.inv (h : Inv w) (hEnters : Enters fd f w w') : Inv w' where
  opens := hEnters.opens
  origin fd' := by
    rw [hEnters.origin, hEnters.files]
    split
    · rfl
    · exact h.origin fd'
  known fd' f' hf' := by
    rw [hEnters.files] at hf'
    split at hf'
    · exact some.inj hf' ▸ hEnters.known
    · exact (h.known fd' f' hf').trans_le hEnters.more
  flags fd1 fd2 f1 f2 hf1 hf2 hOffset := by
    rw [hEnters.files] at hf1 hf2
    grind [some.inj, hEnters.flags, h.flags]
  lastSet fd' f' hf' := by
    rw [hEnters.files] at hf'
    rw [hEnters.lastSet]
    grind [some.inj, h.lastSet]

theorem Enters.reports (h : Inv w) (hEnters : Enters fd f w w') (hf' : w.files fd' = some f')
    (hNe : fd' ≠ fd) : reports w'.client.fs fd' = reports w.client.fs fd' := by
  refine reports_frame hf' ?_ (hEnters.offsets f'.offset (h.known fd' f' hf'))
  exact (hEnters.files fd').trans ((if_neg hNe).trans hf')

/-- The number was not in use, or the descriptor is the one that the call is made on. -/
theorem Enters.keeps (h : Inv w) (hEnters : Enters fd f w w') (hFd : w.files fd = none ∨ fd = t.2.fd) :
    Inv w' ∧ Independent w t w' := by
  refine ⟨hEnters.inv h, fun fd' o ho hOther => ?_⟩
  obtain ⟨f', hf', -⟩ := h.file ho
  refine hEnters.reports h hf' ?_
  grind

theorem Inv.unchanged (h : Inv w) (hc : c.fs = w.client.fs) :
    Inv { w with client := c } ∧ Independent w t { w with client := c } :=
  h.moves (Moves.of_eq hc)

theorem Inv.derive (h : Inv w) (hNew : w.files res = none) (hOffsets : c.fs.offsets = w.client.fs.offsets)
    (hf : w.files fd = some f)
    (hFiles : c.fs.files = update w.files res (some { f with isCloexec := isCloexec })) :
    Inv (w.derive fd res isCloexec c) ∧ Independent w t (w.derive fd res isCloexec c) := by
  refine Enters.keeps (f := { f with isCloexec := isCloexec }) h ⟨fun fd' => ?_, fun fd' => ?_,
    fun fd' => ?_, ?_, Nat.le_refl _, h.known fd f hf, fun fd' f' hf' _ hOffset => ?_, fun k _ => ?_⟩ (.inl hNew)
  · exact (congrFun hFiles fd').trans (update_apply _ _ _ _)
  · rw [← show w.origin fd = some f.offset from (h.origin fd).trans (hf ▸ rfl)]
    exact update_apply _ _ _ _
  · exact update_apply _ _ _ _
  · exact (congrArg length hOffsets).trans h.opens
  · exact h.flags fd' fd f' f hf' hf hOffset
  · exact congrArg (·[k]?) hOffsets

theorem capioFcntlDupfd_keeps (t : Tid × Call) (h : Inv w) (hNew : w.files res = none) (tid : Tid)
    (isCloexec : Bool) :
    Yields (capioFcntlDupfd w.client tid fd res isCloexec) (fun r => r.1 = some res ∧ ∀ w',
      w' = (if res < 0 then { w with client := r.2 } else w.derive fd res isCloexec r.2) →
        Inv w' ∧ Independent w t w') := by
  refine .ite (fun hNeg => ⟨rfl, ?_⟩) fun hNonneg => ?_
  · rintro _ rfl
    rw [if_pos hNeg]
    exact h.unchanged rfl
  · refine (withTables_ends_of (dupCapioFd_copies _ hNew isCloexec)).bind ?_
    rintro c ⟨hOffsets, f, hf, hFiles⟩
    refine ⟨rfl, ?_⟩
    rintro _ rfl
    rw [if_neg hNonneg]
    exact h.derive hNew hOffsets hf hFiles

/-- The entry of the descriptor that a call is made on is changed, but for its offset. -/
theorem Inv.change {c : Client} {lastSet : Fd → Bool} (h : Inv w) (hf : w.files t.2.fd = some f)
    (hFiles : c.fs.files = update w.files t.2.fd (some f')) (hOffset : f'.offset = f.offset)
    (hOffsets : c.fs.offsets = w.client.fs.offsets) (hLast : lastSet = update w.lastSet t.2.fd f'.isCloexec)
    (hFlags : ∀ fd' f'', w.files fd' = some f'' → fd' ≠ t.2.fd → f''.offset = f.offset → f''.flags = f'.flags) :
    Inv { w with client := c, lastSet := lastSet } ∧
      Independent w t { w with client := c, lastSet := lastSet } := by
  refine Enters.keeps (f := f') h ⟨fun fd' => ?_, fun fd' => ?_, fun fd' => ?_, ?_, Nat.le_refl _,
    hOffset ▸ h.known t.2.fd f hf, fun fd' f'' hf'' hNe he => ?_, fun k _ => ?_⟩ (.inr rfl)
  · exact (congrFun hFiles fd').trans (update_apply _ _ _ _)
  · split
    · next he => rw [he, h.origin, hf, hOffset]; rfl
    · rfl
  · exact hLast ▸ update_apply _ _ _ _
  · exact (congrArg length hOffsets).trans h.opens
  · exact hFlags fd' f'' hf'' hNe (he.trans hOffset)
  · exact congrArg (·[k]?) hOffsets

theorem Inv.remove (h : Inv w) (hOffsets : c.fs.offsets = w.client.fs.offsets)
    (hFiles : c.fs.files = update w.files t.2.fd none) :
    Inv { w with client := c, origin := update w.origin t.2.fd none } ∧
      Independent w t { w with client := c, origin := update w.origin t.2.fd none } := by
  have hOther {fd : Fd} {f : FileEntry} (hf : c.fs.files fd = some f) : fd ≠ t.2.fd ∧ w.files fd = some f := by
    rw [hFiles, update_apply] at hf
    grind
  refine ⟨⟨?_, fun fd => ?_, fun fd f hf => ?_, fun fd fd' f f' hf hf' => ?_, fun fd f hf => ?_⟩, fun fd o ho hNe => ?_⟩
  · exact (congrArg length hOffsets).trans h.opens
  · change update w.origin t.2.fd none fd = (c.fs.files fd).map FileEntry.offset
    rw [hFiles, update_apply, update_apply]
    split
    · rfl
    · exact h.origin fd
  · exact h.known fd f (hOther hf).2
  · exact h.flags fd fd' f f' (hOther hf).2 (hOther hf').2
  · exact h.lastSet fd f (hOther hf).2
  · obtain ⟨f, hf, -⟩ := h.file ho
    refine reports_frame hf ?_ (congrArg (·[f.offset]?) hOffsets)
    rw [hFiles, update_of_ne]
    · exact hf
    · rintro rfl
      exact hNe ho

theorem fcntlStep_setfl (hf : w.files fd = some f) (tid : Tid) (arg : Nat) :
    fcntlStep w tid fd (.setfl arg) = .ok { w with client := { w.client with fs := { w.client.fs with
      files := update w.files fd (some { f with flags := setFlags f.flags arg }) } } } := by
  have hSome : w.client.fs.existsCapioFd fd = true := isSome_iff_exists.mpr ⟨f, hf⟩
  unfold fcntlStep fcntlHandler getCapioFdFlags setCapioFdFlags
  rw [if_neg (not_not.mpr hSome), show w.client.fs.files fd = some f from hf]
  rfl

theorem fcntlStep_keeps (h : Inv w) (tid : Tid) (fd : Fd) (cmd : Command)
    (hNew : NewNumbers w (tid, .fcntl fd cmd)) (hAlone : SetsAlone w (tid, .fcntl fd cmd)) :
    Yields (fcntlStep w tid fd cmd) (fun w' => Inv w' ∧ Independent w (tid, .fcntl fd cmd) w') := by
  unfold fcntlStep fcntlHandler
  cases hf : w.files fd with
  | none =>
    have hNone : ¬ w.client.fs.existsCapioFd fd = true := not_isSome_iff_eq_none.mpr hf
    rw [if_pos hNone]
    cases cmd <;> exact h.unchanged rfl
  | some f =>
    have hSome : w.client.fs.existsCapioFd fd = true := isSome_iff_exists.mpr ⟨f, hf⟩
    have hLast : w.lastSet = update w.lastSet fd f.isCloexec := by
      rw [h.lastSet fd f hf, update_eq_self]
    rw [if_neg (not_not.mpr hSome)]
    cases cmd with
    | dupfd res =>
      refine (capioFcntlDupfd_keeps (tid, .fcntl fd (.dupfd res)) h hNew tid false).bind ?_
      rintro ⟨_, c⟩ ⟨rfl, hKeeps⟩
      exact hKeeps _ rfl
    | dupfdCloexec res =>
      refine (capioFcntlDupfd_keeps (tid, .fcntl fd (.dupfdCloexec res)) h hNew tid true).bind ?_
      rintro ⟨_, c⟩ ⟨rfl, hKeeps⟩
      exact hKeeps _ rfl
    | getfd =>
      unfold getCapioFdCloexec
      rw [show w.client.fs.files fd = some f from hf]
      exact h.unchanged rfl
    | getfl =>
      unfold getCapioFdFlags
      rw [show w.client.fs.files fd = some f from hf]
      exact h.unchanged rfl
    | setfd arg =>
      unfold Filesystem.setCapioFdCloexec
      rw [show w.client.fs.files fd = some f from hf]
      refine h.change (t := (tid, .fcntl fd (.setfd arg))) hf rfl rfl rfl rfl fun fd' f' hf' _ he => ?_
      exact h.flags fd' fd f' f hf' hf he
    | setfl arg =>
      unfold getCapioFdFlags setCapioFdFlags
      rw [show w.client.fs.files fd = some f from hf]
      refine h.change (t := (tid, .fcntl fd (.setfl arg))) hf rfl rfl rfl hLast fun fd' f' hf' hNe he => ?_
      refine hAlone f hf fd' f' hf' ?_ hNe
      rw [h.origin, h.origin, hf, hf']
      exact congrArg some he

theorem step_keeps (h : Inv w) (hNew : NewNumbers w t) (hAlone : SetsAlone w t) :
    Yields (step p maxLineSize w t) (fun w' => Inv w' ∧ Independent w t w') := by
  obtain ⟨tid, call⟩ := t
  cases call with
  | openat dirfd pathname flags fd code =>
    refine (capioOpenat_adds p w.client tid dirfd pathname flags code hNew).bind ?_
    rintro ⟨result, c⟩ (⟨rfl, hAdds⟩ | ⟨hOther, hSame⟩)
    · have hNext : w.client.fs.offsets.length = w.opens := h.opens
      refine Enters.keeps h ⟨fun fd' => (congrFun hAdds.files fd').trans (update_apply _ _ _ _), fun fd' => ?_,
        fun fd' => update_apply _ _ _ _, ?_, Nat.le_succ _, ?_, fun fd' f' hf' _ he => ?_,
        fun k hk => hAdds.offsets k (hNext ▸ hk)⟩ (.inl hNew)
      · exact hNext ▸ update_apply _ _ _ _
      · exact hAdds.length.trans (congrArg (· + 1) hNext)
      · exact Nat.lt_succ_of_le (Nat.le_of_eq hNext)
      · exact absurd (he.trans hNext) (Nat.ne_of_lt (h.known fd' f' hf'))
    · cases result with
      | value n => exact absurd rfl (hOther n)
      | skip | errno e => exact h.unchanged hSame
  | dup fd res =>
    change Ends (w.client.dupHandler tid fd res >>= _) _ _
    unfold dupHandler
    by_cases hDup : w.client.fs.existsCapioFd fd = true ∧ res ≠ -1
    · rw [if_pos hDup.1, if_neg hDup.2]
      refine (withTables_ends_of (dupCapioFd_copies (w.client.send (.dup tid fd res)).fs hNew false)).bind ?_
      rintro c ⟨hOffsets, f, hf, hFiles⟩
      rw [if_pos hDup]
      exact h.derive hNew hOffsets hf hFiles
    · refine .bind (Q := fun c => c = w.client) ?_ fun c hc => ?_
      · refine .ite (fun hOpen => .ite (fun _ => rfl) fun hRes => ?_) fun _ => rfl
        exact absurd ⟨hOpen, hRes⟩ hDup
      · rw [if_neg hDup]
        exact h.unchanged (congrArg Client.fs hc)
  | fcntl fd cmd => exact fcntlStep_keeps h tid fd cmd hNew hAlone
  | read fd count endOfRead =>
    exact (capioRead_moves maxLineSize w.client tid fd count endOfRead).bind fun c hc =>
      h.moves (t := (tid, .read fd count endOfRead)) hc
  | write fd buffer count =>
    exact (capioWrite_moves maxLineSize w.client tid fd buffer count).bind fun c hc =>
      h.moves (t := (tid, .write fd buffer count)) hc
  | lseek fd offset whence answer =>
    exact (capioLseek_moves w.client tid fd offset whence answer).bind fun c hc =>
      h.moves (t := (tid, .lseek fd offset whence answer)) hc
  | close fd =>
    refine (closeHandler_removes w.client tid fd).bind ?_
    rintro c ⟨hOffsets, hFiles⟩
    exact h.remove (t := (tid, .close fd)) hOffsets hFiles

theorem setsAlone_of_keeps (h : Inv w) (hKeeps : Keeps p maxLineSize w t) : SetsAlone w t := by
  obtain ⟨tid, call⟩ := t
  unfold SetsAlone
  split
  · next fd arg hCall =>
    obtain rfl : call = .fcntl fd (.setfl arg) := hCall
    intro f hf fd' f' hf' hOrigin hNe
    have ho : w.origin fd = some f.offset := (h.origin fd).trans (hf ▸ rfl)
    have hShared := (hKeeps _ (fcntlStep_setfl hf tid arg)).1
    have hReports := hShared.reports fd fd' f.offset ho (hOrigin.trans ho)
    rw [reports_eq (update_self ..), reports_eq ((update_of_ne hNe ..).trans hf')] at hReports
    exact (Prod.mk.inj (Except.ok.inj hReports)).2.symm
  · trivial

theorem inv_init : Inv {} where
  opens := rfl
  origin _ := rfl
  known _ _ hf := (nomatch hf)
  flags _ _ _ _ hf := (nomatch hf)
  lastSet _ _ hf := (nomatch hf)

/-- In every sequence of calls of the threads of a client, the descriptors of an open file report the
same after every call exactly if flags are only set where no other descriptor of the file has other
ones. -/
theorem duplicates_share_iff {p : Keys.Process} {maxLineSize : Nat} (calls : List (Tid × Call))
    (hNew : Meets NewNumbers (step p maxLineSize) {} calls) :
    Meets (Keeps p maxLineSize) (step p maxLineSize) {} calls ↔
      Meets SetsAlone (step p maxLineSize) {} calls := by
  refine Meets.iff_of_inv (E := fun _ => True) (fun w t h hNew => ⟨setsAlone_of_keeps h, fun hAlone w' hw' => ?_⟩)
    (fun w t h hNew hAlone => (step_keeps h hNew hAlone).imp fun _ h' => h'.1) inv_init hNew
  have h' := (step_keeps h hNew hAlone).result hw'
  exact ⟨h'.1.shared, h'.2⟩

instance (w : World) : (t : Tid × Call) → Decidable (NewNumbers w t)
  | (_, call) => by cases call <;> (try rename_i cmd; cases cmd) <;> dsimp only [NewNumbers] <;> infer_instance

/-- A file is opened for reading and writing, and its descriptor duplicated, moved, used and closed. -/
def oneFile : List (Tid × Call) :=
  [(1, .openat none "/d/a".toList 2 3 0), (1, .dup 3 4), (1, .fcntl 4 (.dupfdCloexec 5)), (1, .write 4 [1, 2] 2),
    (1, .lseek 3 1 .SEEK_CUR 0), (1, .fcntl 5 (.setfd 0)), (1, .close 3)]

theorem duplicates_share_oneFile : Meets (Keeps Keys.fresh 4) (step Keys.fresh 4) {} oneFile := by
  refine (duplicates_share_iff oneFile (by decide +kernel)).mpr ⟨trivial, fun _ _ => ⟨trivial, fun _ _ => ?_⟩⟩
  exact ⟨trivial, fun _ _ => ⟨trivial, fun _ _ => ⟨trivial, fun _ _ => ⟨trivial, fun _ _ =>
    ⟨trivial, fun _ _ => trivial⟩⟩⟩⟩⟩

/-- One of two descriptors is set to append, and the other does not report it. -/
theorem flags_of_duplicate_differ : ∃ w,
    [(1, .openat none "/d/a".toList 2 3 0), (1, .dup 3 4), (1, .fcntl 3 (.setfl Client.O_APPEND))].foldlM
      (step Keys.fresh 4) {} = .ok w ∧ w.origin 3 = some 0 ∧ w.origin 4 = some 0 ∧
    reports w.client.fs 3 = .ok (0, 1026) ∧ reports w.client.fs 4 = .ok (0, 2) ∧ ¬ Shared w := by
  refine ⟨_, rfl, rfl, rfl, rfl, rfl, fun hShared => ?_⟩
  exact absurd (hShared.reports 3 4 0 rfl rfl) (by decide +kernel)

end Capio.Posix.Descriptions
