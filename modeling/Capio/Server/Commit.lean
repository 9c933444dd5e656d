import Capio.Server.Rules

/-! # Commits to disk

A commit closes the descriptor behind the mapping of a permanent file, and neither a second commit
nor a growth is possible after it.  `setCommitted` does nothing when it is called again, but `dump`
does not look at the flag: whether the mapping is used once more depends on the closes, the exits
and the writes that follow the commit.
-/
namespace Capio.Server.Commit

open Common Lib.Outcome Storage

def Harmless (e : Failure) : Prop := e ≠ .commitBuffer ∧ e ≠ .growBuffer

def Dumped (c : CapioFile) : Prop := c.committed = true ∧ c.buffer.empty = false

instance (c : CapioFile) : Decidable (Dumped c) := inferInstanceAs (Decidable (_ ∧ _))

structure Settled (c : CapioFile) : Prop where
  closed : c.buffer.Closed → c.committed = true
  mapped : c.buffer.storage ≠ .heap → c.buffer.empty = false
  directory : c.directory = true → c.buffer.storage = .heap

theorem Settled.not_closed (h : Settled c) (hDumped : ¬ Dumped c) : ¬ c.buffer.Closed := by
  rintro ⟨len, hLen⟩
  refine hDumped ⟨h.closed ⟨len, hLen⟩, h.mapped ?_⟩
  rw [hLen]
  simp

theorem Settled.quiet (h : Settled c) (hQuiet : Quiet c c') : Settled c' where
  closed := by
    rw [hQuiet.buffer, hQuiet.committed]
    exact h.closed
  mapped := by
    rw [hQuiet.buffer]
    exact h.mapped
  directory := by
    rw [hQuiet.buffer, hQuiet.directory]
    exact h.directory

theorem Settled.setCommitted (h : Settled c) : Settled c.setCommitted := by
  rw [CapioFile.setCommitted_eq]
  exact ⟨fun _ => rfl, h.mapped, h.directory⟩

def SettledAs (c c' : CapioFile) : Prop := Settled c' ∧ c'.directory = c.directory

section

variable (h : Settled c)
include h

theorem Settled.createBuffer (os : Os) (homeNode : Bool) : Ends (c.createBuffer os homeNode)
      (fun c' => SettledAs c c' ∧ (c'.buffer = c.buffer ∨ ¬ c'.buffer.Closed)) Harmless := by
  refine .ite (fun _ => ?_) fun _ => ⟨⟨h, rfl⟩, .inl rfl⟩
  refine .ite (fun hMapped => ?_) fun _ => ?_
  · simp only [Bool.and_eq_true, Bool.not_eq_true'] at hMapped
    cases hb : allocateMapped os c.requestedSize with
    | none => exact ⟨by simp, by simp⟩
    | some b =>
      have hAllocated := allocateMapped_allocated hb
      have hBlock : b.empty = false := by
        simpa [FileBuffer.empty, Option.isSome_iff_ne_none] using hAllocated.block
      refine ⟨⟨⟨fun hClosed => absurd hClosed hAllocated.not_closed, fun _ => hBlock,
        fun hDir => ?_⟩, rfl⟩,
        .inr hAllocated.not_closed⟩
      exact absurd hDir (by simp [hMapped.2])
  · have hAllocated := allocateHeap_allocated os c.requestedSize
    refine ⟨⟨⟨fun hClosed => absurd hClosed hAllocated.not_closed, fun hHeap => absurd rfl hHeap,
      fun _ => rfl⟩, rfl⟩, .inr hAllocated.not_closed⟩

theorem Settled.expandBuffer (hOpen : ¬ c.buffer.Closed) (os : Os) (dataSize : Nat) :
    Ends (c.expandBuffer os dataSize) (SettledAs c) Harmless := by
  unfold CapioFile.expandBuffer FileBuffer.grow
  cases hStorage : c.buffer.storage with
  | heap =>
    dsimp only
    split
    · rename_i hb
      split at hb
      · cases hb
        exact ⟨⟨fun hClosed => absurd hClosed (FileBuffer.not_closed_of_heap rfl),
          fun hHeap => absurd rfl hHeap, fun _ => rfl⟩, rfl⟩
      · cases hb
    · rename_i hb
      split at hb <;> cases hb
    · rename_i e hb
      split at hb
      · cases hb
      · cases hb
        exact ⟨by simp, by simp⟩
  | mapped fd len =>
    cases fd with
    | none => exact absurd ⟨len, hStorage⟩ hOpen
    | some fd =>
      refine ⟨⟨fun hClosed => absurd hClosed (FileBuffer.not_closed_of_open rfl), fun _ => rfl,
        fun hDir => ?_⟩, rfl⟩
      have := h.directory hDir
      rw [hStorage] at this
      cases this

theorem Settled.makeRoom (os osGrow : Os) (hRoom : ¬ c.buffer.Closed ∨ stop ≤ c.getBufSize) :
    Ends (c.makeRoom os osGrow stop) (SettledAs c) Harmless := by
  refine (h.createBuffer os true).bind ?_
  rintro c1 ⟨hc1, hBuffer⟩
  refine .ite (fun hGrow => ?_) fun _ => hc1
  have hOpen : ¬ c1.buffer.Closed := by grind [CapioFile.getBufSize]
  refine (hc1.1.expandBuffer hOpen osGrow stop).imp (fun c2 hc2 => ?_)
  exact ⟨hc2.1, hc2.2.trans hc1.2⟩

theorem Settled.storeBytes (offset : Nat) (bytes : List Byte) :
    Ends (c.storeBytes offset bytes) (SettledAs c) Harmless := by
  unfold CapioFile.storeBytes
  split
  · exact ⟨by simp, by simp⟩
  · split
    · exact ⟨⟨h.closed, fun _ => rfl, h.directory⟩, rfl⟩
    · exact ⟨by simp, by simp⟩

theorem Settled.insertSector (start stop : Nat) : Settled (c.insertSector start stop) :=
  ⟨h.closed, h.mapped, h.directory⟩

theorem Settled.writeData (os osGrow : Os) (hRoom : ¬ c.buffer.Closed ∨ offset + data.length ≤ c.getBufSize) :
    Ends (c.writeData os osGrow offset data) (SettledAs c) Harmless := by
  refine (h.makeRoom os osGrow hRoom).bind fun c1 hc1 => ?_
  refine (hc1.1.storeBytes offset data).bind fun c2 hc2 => ?_
  exact ⟨hc2.1.insertSector _ _, hc2.2.trans hc1.2⟩

theorem Settled.appendEntry (hDir : c.directory = true) (os osGrow : Os) (ino : Nat)
    (name : List Byte) : Ends (c.appendEntry os osGrow ino name) (fun r => SettledAs c r.2) Harmless := by
  have hOpen := FileBuffer.not_closed_of_heap (h.directory hDir)
  refine (h.makeRoom os osGrow (.inl hOpen)).bind fun c1 hc1 => ?_
  refine (hc1.1.storeBytes _ _).bind fun c2 hc2 => ?_
  exact ⟨⟨hc2.1.closed, hc2.1.mapped, hc2.1.directory⟩, hc2.2.trans hc1.2⟩

theorem Settled.dump (hCommitted : c.committed = true) (hOpen : ¬ c.buffer.Closed) :
    Ends c.dump (SettledAs c) Harmless := by
  refine .ite (fun hHome => ?_) fun _ => ⟨h, rfl⟩
  simp only [Bool.and_eq_true, Bool.not_eq_true'] at hHome
  unfold FileBuffer.commit
  cases hStorage : c.buffer.storage with
  | heap => exact ⟨h, rfl⟩
  | mapped fd len =>
    cases fd with
    | none => exact absurd ⟨len, hStorage⟩ hOpen
    | some fd =>
      have hBlock := h.mapped (by rw [hStorage]; simp)
      refine ⟨⟨fun _ => hCommitted, fun _ => ?_, fun hDir => absurd hDir (by simp [hHome.1.2])⟩, rfl⟩
      simpa [FileBuffer.empty] using hBlock

end

/-- Every object is settled, and everything stored but the file `path` is a directory. -/
structure Sound (path : Path) (s : State) : Prop where
  settled : ∀ (i : Nat) c, s.sm.objects[i]? = some (some c) → Settled c
  directories : ∀ p i c, p ≠ path → s.sm.storage p = some i → s.sm.objects[i]? = some (some c) →
    c.directory = true
  stored : ∀ p i, s.sm.storage p = some i → i < s.sm.objects.length

theorem Sound.withObject (hs : Sound path s) (hc : s.sm.objects[i]? = some (some c)) (hc' : SettledAs c c') :
    Sound path (s.withObject i c') where
  settled := by
    intro j d hd
    by_cases hj : j = i
    · subst hj
      rw [State.withObject, StorageManager.setObject,
        List.getElem?_set_self (List.getElem?_eq_some_iff.mp hc).1] at hd
      cases hd
      exact hc'.1
    · rw [State.withObject, StorageManager.setObject, List.getElem?_set_ne (Ne.symm hj)] at hd
      exact hs.settled j d hd
  directories := by
    intro p j d hp hStored hd
    by_cases hj : j = i
    · subst hj
      rw [State.withObject, StorageManager.setObject,
        List.getElem?_set_self (List.getElem?_eq_some_iff.mp hc).1] at hd
      cases hd
      exact hc'.2.trans (hs.directories p j c hp hStored hc)
    · rw [State.withObject, StorageManager.setObject, List.getElem?_set_ne (Ne.symm hj)] at hd
      exact hs.directories p j d hp hStored hd
  stored := by
    intro p j hStored
    simpa [State.withObject, StorageManager.setObject] using hs.stored p j hStored

theorem Sound.storageAt (hs : Sound path s) (hNew : Settled new) (hDir : p ≠ path → new.directory = true) :
    Sound path { s with sm := (s.sm.storageAt p new).2 } := by
  unfold StorageManager.storageAt
  cases hStored : s.sm.storage p with
  | some i => exact hs
  | none =>
    -- the new object is the last one, and no other key points to it
    have hObject : ∀ i c, (s.sm.objects ++ [some new])[i]? = some (some c) →
        s.sm.objects[i]? = some (some c) ∨ i = s.sm.objects.length ∧ c = new := by grind
    refine ⟨fun i c hc => ?_, fun q i c hq hKey hc => ?_, fun q i hKey => ?_⟩
    · obtain hOld | ⟨_, rfl⟩ := hObject i c hc
      · exact hs.settled i c hOld
      · exact hNew
    · obtain hOld | ⟨rfl, rfl⟩ := hObject i c hc
      · by_cases hqp : q = p
        · grind
        · exact hs.directories q i c hq (by simpa [hqp] using hKey) hOld
      · by_cases hqp : q = p
        · exact hDir (hqp ▸ hq)
        · have := hs.stored q _ (by simpa [hqp] using hKey)
          omega
    · rw [List.length_append, List.length_singleton]
      by_cases hqp : q = p
      · grind
      · have := hs.stored q i (by simpa [hqp] using hKey)
        omega

theorem settled_new (directory : Bool) (nFilesExpected : Nat) (permanent : Bool)
    (initSize nCloseExpected : Nat) :
    Settled (.new directory nFilesExpected permanent initSize nCloseExpected) :=
  ⟨fun hClosed => absurd hClosed (FileBuffer.not_closed_of_heap rfl), fun hHeap => absurd rfl hHeap,
    fun _ => rfl⟩

theorem stable (env : Env) (path : Path) :
    Stable env (Sound path) Harmless (fun p => p = path) fun p => p ≠ path where
  benign := fun _ hCommit hGrow => ⟨hCommit, hGrow⟩
  frame := by
    intro s s' hsm _ hs
    exact ⟨hsm ▸ hs.settled, hsm ▸ hs.directories, hsm ▸ hs.stored⟩
  descriptors := fun s m o hs => ⟨hs.settled, hs.directories, hs.stored⟩
  object := fun s i c c' hs hc hQuiet =>
    hs.withObject hc ⟨(hs.settled i c hc).quiet hQuiet, hQuiet.directory⟩
  committed := fun s i c hs hc =>
    hs.withObject hc ⟨(hs.settled i c hc).setCommitted, CapioFile.setCommitted_eq c true ▸ rfl⟩
  buffer := fun s i c os homeNode hs hc =>
    ((hs.settled i c hc).createBuffer os homeNode).imp (fun _ hc' => hs.withObject hc hc'.1)
  entry := fun s i c os osGrow ino name dir hs hDir hc hNe =>
    ((hs.settled i c hc).appendEntry (hs.directories dir i c hNe hDir hc) os osGrow ino name).mono
      (fun _ hc' => hs.withObject hc hc') fun _ => id
  store := by
    intro s p isDir size hs hp
    refine hs.storageAt (settled_new _ _ _ _ _) fun hNe => ?_
    cases isDir with
    | true => rfl
    | false => exact absurd hp hNe
  produced := fun s tid p hs _ => ⟨hs.settled, hs.directories, hs.stored⟩

/-- The waiting thread goes on with the file `path`, or reads. -/
def OnFile.Resumes (path : Path) : Pending → Prop
  | .openFile p _ _ => p = path
  | .copyFile _ | .copyCommit _ _ | .copyData _ _ => False
  | .readFile .. | .readCommit .. | .readData .. | .clonedChild _ => True

/-- The request is one on the file `path`, or makes a directory beside it. -/
def OnFile (path : Path) (s : State) : Op → Prop
  | .create _ _ p | .createExclusive _ _ p | .openFile _ _ p => p = path
  | .write tid fd _ => (s.getPath tid fd).1 = path
  | .mkdir _ p => p ≠ path ∧ getParentDirPath p ≠ path
  | .resume k => ∀ p ∈ s.pending[k]?, OnFile.Resumes path p
  | .handshake .. | .read .. | .close .. | .dup .. | .lseek .. | .exitGroup _ => True
  | .copyFileRange .. | .unlink .. | .rmdir .. | .rename .. | .clone .. => False

def WriteFits (s : State) (tid : Tid) (fd : Fd) (data : List Byte) : Prop :=
  ∀ i ∈ s.sm.storage (s.getPath tid fd).1, ∀ c ∈ (s.sm.object i).toOption,
    ∀ offset ∈ (s.sm.getFileOffset tid fd).toOption,
      Dumped c → offset.toNat + data.length ≤ c.getBufSize

def ClosesOnce (env : Env) (s : State) (tid : Tid) (fd : Fd) : Prop :=
  ∀ d ∈ s.sm.openedFdMap.lookup (tid, fd), ∀ i ∈ d.pointer, ∀ c ∈ (s.sm.object i).toOption,
    env.engine.getCommitRule d.path = .onClose → c.close.closed = true → ¬ Dumped c

def TerminatesOnce (env : Env) (s : State) (path : Path) : Prop :=
  ∀ i ∈ s.sm.storage path, ∀ c ∈ (s.sm.object i).toOption,
    env.engine.getCommitRule path = .onTermination → c.directory = false → ¬ Dumped c

def CommitsOnce (env : Env) (s : State) : Op → Prop
  | .write tid fd data => WriteFits s tid fd data
  | .close tid fd => ClosesOnce env s tid fd
  | .exitGroup tid => ExitMeets env (TerminatesOnce env) (fun s fd => ClosesOnce env s tid fd) s tid
  | _ => True

instance (path : Path) : DecidablePred (OnFile.Resumes path) :=
  fun p => by cases p <;> dsimp only [OnFile.Resumes] <;> infer_instance

instance (path : Path) (s : State) : (op : Op) → Decidable (OnFile path s op) :=
  fun op => by cases op <;> dsimp only [OnFile] <;> infer_instance

instance (env : Env) (s : State) (tid : Tid) (fd : Fd) : Decidable (ClosesOnce env s tid fd) :=
  inferInstanceAs (Decidable (∀ d ∈ s.sm.openedFdMap.lookup (tid, fd), _))

instance (env : Env) (s : State) (path : Path) : Decidable (TerminatesOnce env s path) :=
  inferInstanceAs (Decidable (∀ i ∈ s.sm.storage path, _))

instance (s : State) (tid : Tid) (fd : Fd) (data : List Byte) : Decidable (WriteFits s tid fd data) :=
  inferInstanceAs (Decidable (∀ i ∈ s.sm.storage (s.getPath tid fd).1, _))

instance (env : Env) (s : State) : (op : Op) → Decidable (CommitsOnce env s op) :=
  fun op => by cases op <;> dsimp only [CommitsOnce] <;> infer_instance

theorem mem_object {sm : StorageManager} (h : sm.objects[i]? = some (some c)) :
    c ∈ (sm.object i).toOption := by
  simp [StorageManager.object, h, Except.toOption]

theorem closeOk (hs : Sound path s) (h : ClosesOnce env s tid fd) :
    CloseOk env (Sound path) Harmless s tid fd := by
  intro d i c hd hi hc hRule hClosed
  have hSettled := (hs.settled i c hc).quiet (quiet_close c)
  have hOpen : ¬ c.close.buffer.Closed :=
    (hs.settled i c hc).not_closed (h d hd i hi c (mem_object hc) hRule hClosed)
  have hCommit := hSettled.setCommitted
  rw [CapioFile.setCommitted_eq] at hCommit ⊢
  exact (hCommit.dump rfl hOpen).imp (fun c' hc' => hs.withObject hc hc')

theorem terminationOk (hs : Sound path s) (h : TerminatesOnce env s p) :
    TerminationOk env (Sound path) Harmless s p := by
  intro i c hRule hi hc hDir
  have hSettled := hs.settled i c hc
  have hOpen := hSettled.not_closed (h i hi c (mem_object hc) hRule hDir)
  have hCommit := hSettled.setCommitted
  rw [CapioFile.setCommitted_eq] at hCommit ⊢
  refine (hCommit.dump rfl hOpen).imp (fun c' hc' => ?_)
  exact hs.withObject hc ⟨hc'.1.quiet (quiet_close c'), hc'.2⟩

theorem getPath_sm (s : State) (tid : Tid) (fd : Fd) :
    (s.getPath tid fd).2.sm.storage = s.sm.storage ∧ (s.getPath tid fd).2.sm.objects = s.sm.objects := by
  grind [State.getPath, StorageManager.getPath, StorageManager.descriptor]

theorem writeOk (env : Env) (hs : Sound path s) (hParent : getParentDirPath path ≠ path)
    (hPath : (s.getPath tid fd).1 = path) (h : WriteFits s tid fd data) :
    WriteOk (Sound path) Harmless (fun p => p ≠ path) os s tid fd data := by
  have hs1 := (stable env path).getPath hs tid fd
  obtain ⟨hStorage, hObjects⟩ := getPath_sm s tid fd
  refine ⟨by rwa [hPath], fun i c offset hi hc hOffset => ?_⟩
  have hSettled := hs1.settled i c hc
  have hRoom : ¬ c.buffer.Closed ∨ offset.toNat + data.length ≤ c.getBufSize := by
    rw [hStorage] at hi
    rw [hObjects] at hc
    by_cases hDumped : Dumped c
    · exact .inr (h i hi c (mem_object hc) offset (by simp [hOffset, Except.toOption]) hDumped)
    · exact .inl (hSettled.not_closed hDumped)
  exact (hSettled.writeData _ _ hRoom).imp (fun c' hc' => hs1.withObject hc hc')

theorem step_sound (hParent : getParentDirPath path ≠ path) (hs : Sound path s) (hOn : OnFile path s r.op)
    (hOnce : CommitsOnce env s r.op) : Ends (step env s r) (Sound path) Harmless := by
  apply (stable env path).step hs
  obtain ⟨op, os⟩ := r
  cases op with
  | handshake tid appName wait => trivial
  | create tid fd p =>
    cases hOn
    exact ⟨rfl, hParent⟩
  | createExclusive tid fd p =>
    cases hOn
    exact ⟨rfl, hParent⟩
  | openFile tid fd p =>
    cases hOn
    exact ⟨rfl, hParent⟩
  | write tid fd data => exact writeOk env hs hParent hOn hOnce
  | read tid fd count => trivial
  | copyFileRange tid fdIn fdOut offsetIn offsetOut count => exact hOn.elim
  | mkdir tid p => exact hOn
  | unlink tid p => exact hOn.elim
  | rmdir tid p => exact hOn.elim
  | rename tid oldpath newpath => exact hOn.elim
  | close tid fd => exact closeOk hs hOnce
  | dup tid oldFd newFd => trivial
  | lseek tid fd offset => trivial
  | clone parentTid childTid => exact hOn.elim
  | exitGroup tid =>
    exact (stable env path).exitOk hs hOnce (fun s p hs h => terminationOk hs h)
      fun s fd hs h => closeOk hs h
  | resume k =>
    intro p hp
    have hOn := hOn p hp
    cases p with
    | openFile p tid fd =>
      cases hOn
      exact ⟨rfl, hParent⟩
    | copyFile copy => exact hOn.elim
    | copyCommit i copy => exact hOn.elim
    | copyData i copy => exact hOn.elim
    | readFile p tid fd count => trivial
    | readCommit i tid fd offset count => trivial
    | readData i tid fd offset count => trivial
    | clonedChild tid => trivial

theorem boot_sound (env : Env) (os : Nat → Os) (serverPid : Tid) (files : Node → List Char)
    (hRoot : env.capioDir ≠ path) : Ends (boot env os serverPid files) (Sound path) Harmless := by
  have hEmpty : Sound path { locations := ⟨files, fun _ => none⟩ } := by
    refine ⟨fun i c hc => ?_, fun p i c _ hi => ?_, fun p i hi => ?_⟩
    · simp at hc
    · cases hi
    · cases hi
  refine ((stable env path).addDirectory hEmpty serverPid hRoot fun hNe => absurd rfl hNe).bind ?_
  rintro ⟨result, s⟩ hs
  exact hs

/-- In every run of requests on a file in which no commit and no growth comes after the commit of a
buffer, no mapping is used once its descriptor is closed. -/
theorem mapping_committed_at_most_once {env : Env} {os : Nat → Os} {serverPid : Tid}
    {files : Node → List Char} {path : Path} (hRoot : env.capioDir ≠ path)
    (hParent : getParentDirPath path ≠ path) {s0 : State} (hBoot : boot env os serverPid files = .ok s0)
    {requests : List Request}
    (hRun : Meets (fun s r => OnFile path s r.op ∧ CommitsOnce env s r.op) (step env) s0 requests) :
    requests.foldlM (step env) s0 ≠ .error .commitBuffer ∧
      requests.foldlM (step env) s0 ≠ .error .growBuffer := by
  have hs0 := (boot_sound env os serverPid files hRoot).result hBoot
  have hEnds := run_ends (fun s r hs hr => step_sound hParent hs hr.1 hr.2) hs0 requests hRun
  exact ⟨fun h => (hEnds.failure h).1 rfl, fun h => (hEnds.failure h).2 rfl⟩

def onClose : Env := Env.plain .onClose true 0

def booted : Except Failure State := boot onClose (fun _ => Os.plain 4) 1 fun _ => []

def writeAndClose : List Request :=
  plainRequests 4 [.handshake 7 ['a'] false, .create 7 3 "/d/f".toList, .write 7 3 [1], .close 7 3]

def writeAgain : List Request :=
  writeAndClose ++ plainRequests 4 [.openFile 7 4 "/d/f".toList, .write 7 4 [2]]

theorem overwrite_after_commit :
    ∃ s0, booted = .ok s0 ∧ writeAgain.foldlM (step onClose) s0 ≠ .error .commitBuffer ∧
      writeAgain.foldlM (step onClose) s0 ≠ .error .growBuffer := by
  obtain ⟨s0, hBoot⟩ := exists_of_failure_eq_none (show failure booted = none by decide +kernel)
  have hMeets : ∀ s, booted = .ok s → Meets
      (fun s r => OnFile "/d/f".toList s r.op ∧ CommitsOnce onClose s r.op) (step onClose) s writeAgain := by
    decide +kernel
  exact ⟨s0, hBoot, mapping_committed_at_most_once (by decide) (by decide) hBoot (hMeets s0 hBoot)⟩

/-- The second close commits the mapping again, and a longer write makes it grow. -/
theorem closed_mapping_used : failure (booted >>= fun s => List.foldlM (step onClose) s
      (writeAgain ++ plainRequests 4 [.close 7 4])) = some .commitBuffer ∧
    failure (booted >>= fun s => List.foldlM (step onClose) s
      (writeAgain ++ plainRequests 4 [.write 7 4 [3]])) = some .growBuffer := by
  decide +kernel

end Capio.Server.Commit
