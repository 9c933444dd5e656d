import Capio.Lib.Outcome
import Capio.Server.Handlers

/-! # Rules for the handlers

An invariant of the server is stable if it survives the few kinds of updates the handlers are made
of.  The rules of this module lift a stable invariant to the handlers.  The updates that commit,
grow or move the bytes of a file are left to the invariants that use the rules: they appear as
hypotheses about the one file and the one state concerned.
-/
namespace Capio.Server

open Common Lib.Outcome Storage

structure Quiet (f f' : CapioFile) : Prop where
  buffer : f'.buffer = f.buffer
  sectors : f'.sectors = f.sectors
  committed : f'.committed = f.committed
  directory : f'.directory = f.directory
  permanent : f'.permanent = f.permanent

theorem quiet_addFd (f : CapioFile) (registerOpen : Bool) (tid : Tid) (fd : Fd) :
    Quiet f ((if registerOpen then f.openFile else f).addFd tid fd) := by
  cases registerOpen with
  | true => exact ⟨rfl, rfl, rfl, rfl, rfl⟩
  | false => exact ⟨rfl, rfl, rfl, rfl, rfl⟩

theorem quiet_removeFd (f : CapioFile) (tid : Tid) (fd : Fd) : Quiet f (f.removeFd tid fd) :=
  ⟨rfl, rfl, rfl, rfl, rfl⟩

theorem quiet_registerFirstWrite (f : CapioFile) : Quiet f f.registerFirstWrite :=
  ⟨rfl, rfl, rfl, rfl, rfl⟩

theorem quiet_close (f : CapioFile) : Quiet f f.close := ⟨rfl, rfl, rfl, rfl, rfl⟩

def State.withObject (s : State) (i : Nat) (f : CapioFile) : State :=
  { s with sm := s.sm.setObject i f }

variable {s : State} {path : Path} {tid : Tid}

/-- `fileOk` and `dirOk` restrict the paths that are stored as files and as directories. -/
structure Stable (env : Env) (I : State → Prop) (E : Failure → Prop) (fileOk dirOk : Path → Prop) :
    Prop where
  benign : ∀ e, e ≠ .commitBuffer → e ≠ .growBuffer → E e
  frame : ∀ s s', s'.sm = s.sm → (∀ t p, p ∈ s'.cm.produced t → p ∈ s.cm.produced t) → I s → I s'
  descriptors : ∀ s m o, I s → I { s with sm := { s.sm with openedFdMap := m, offsets := o } }
  object : ∀ s i f f', I s → s.sm.objects[i]? = some (some f) → Quiet f f' → I (s.withObject i f')
  committed : ∀ s i f, I s → s.sm.objects[i]? = some (some f) → I (s.withObject i f.setCommitted)
  buffer : ∀ s i f os homeNode, I s → s.sm.objects[i]? = some (some f) →
    Ends (f.createBuffer os homeNode) (fun f' => I (s.withObject i f')) E
  entry : ∀ s i f os osGrow ino name dir, I s → s.sm.storage dir = some i →
    s.sm.objects[i]? = some (some f) → dirOk dir →
    Ends (f.appendEntry os osGrow ino name) (fun r => I (s.withObject i r.2)) E
  store : ∀ s path isDir size, I s → (if isDir then dirOk path else fileOk path) →
    I { s with sm := (s.sm.add env path isDir size).2 }
  produced : ∀ s tid path, I s → s.sm.storage path ≠ none →
    I { s with cm := s.cm.registerProducedFile tid path }

theorem State.reply_ends (s : State) (tid : Tid) (offset : Int) : Ends (s.reply tid offset)
      (fun s' => s'.sm = s.sm ∧ s'.locations = s.locations ∧ s'.pending = s.pending ∧
        s'.cm.filesCreatedByProducer = s.cm.filesCreatedByProducer)
      fun e => e = .noClientBuffers tid := by
  unfold State.reply ClientManager.reply
  by_cases hResponses : s.cm.responses tid = true
  · rw [if_pos hResponses]
    exact ⟨rfl, rfl, rfl, rfl⟩
  · rw [if_neg hResponses]
    rfl

section

variable {I : State → Prop} {E : Failure → Prop} (h : Stable env I E fileOk dirOk)

include h

theorem Stable.null : E .nullPointer := h.benign _ (by simp) (by simp)

theorem Stable.lookup (sm : StorageManager) (i : Nat) :
    Ends (sm.object i) (fun f => sm.objects[i]? = some (some f)) E := by
  refine (sm.object_ends i).mono (fun _ => id) ?_
  rintro e rfl
  exact h.null

theorem Stable.get (sm : StorageManager) (path : Path) :
    Ends (sm.get path) (fun i => sm.storage path = some i) E := by
  refine (sm.get_ends path).mono (fun _ => id) ?_
  rintro e rfl
  exact h.benign _ (by simp) (by simp)

theorem Stable.getFileOffset (sm : StorageManager) (tid : Tid) (fd : Fd) :
    Ends (sm.getFileOffset tid fd) (fun offset => sm.getFileOffset tid fd = .ok offset) E := by
  unfold StorageManager.getFileOffset
  split
  · exact rfl
  · exact h.null

theorem Stable.reply (hs : I s) (tid : Tid) (offset : Int) : Ends (s.reply tid offset) I E := by
  refine (s.reply_ends tid offset).mono ?_ ?_
  · rintro s' ⟨hsm, _, _, hcm⟩
    grind [h.frame, ClientManager.produced]
  · rintro e rfl
    exact h.benign _ (by simp) (by simp)

theorem Stable.other (hs : I s) (hsm : s'.sm = s.sm) (hcm : s'.cm = s.cm) : I s' := by
  apply h.frame s s' hsm _ hs
  intro t p hp
  rwa [hcm] at hp

theorem Stable.descriptor (hs : I s) (tid : Tid) (fd : Fd) :
    I { s with sm := (s.sm.descriptor tid fd).2 } := by
  unfold StorageManager.descriptor
  split
  · exact hs
  · exact h.descriptors s _ s.sm.offsets hs

theorem Stable.getPath (hs : I s) (tid : Tid) (fd : Fd) : I (s.getPath tid fd).2 := h.descriptor hs tid fd

theorem Stable.modify (hs : I s) (i : Nat) (hf : ∀ c, Quiet c (f c)) :
    Ends (s.sm.modify i f) (fun sm => I { s with sm := sm }) E := by
  exact (h.lookup s.sm i).bind fun c hc => h.object s i c _ hs hc (hf c)

theorem Stable.addNewFd (tid : Tid) (fd : Fd) (offset : Int) (registerOpen : Bool)
    (hs : I { s with sm := (s.sm.storageAt path).2 }) :
    Ends (s.sm.addNewFd tid fd path offset registerOpen) (fun sm => I { s with sm := sm }) E := by
  unfold StorageManager.addNewFd
  generalize s.sm.storageAt path = r at hs ⊢
  obtain ⟨i, sm⟩ := r
  refine (h.modify hs i fun c => quiet_addFd c registerOpen tid fd).bind fun sm1 hsm => ?_
  exact h.descriptors { s with sm := sm1 } _ _ hsm

section

variable (hs : I s)
include hs

theorem Stable.setFileOffset (tid : Tid) (fd : Fd) (offset : Int) :
    Ends (s.sm.setFileOffset tid fd offset) (fun sm => I { s with sm := sm }) E := by
  unfold StorageManager.setFileOffset
  split
  · exact h.descriptors s _ _ hs
  · exact h.null

theorem Stable.removeFromTid (tid : Tid) (fd : Fd) :
    Ends (s.sm.removeFromTid tid fd) (fun sm => I { s with sm := sm }) E := by
  have hDescriptor := h.descriptor hs tid fd
  unfold StorageManager.removeFromTid
  generalize s.sm.descriptor tid fd = r at hDescriptor ⊢
  obtain ⟨⟨pointer, offset, path⟩, sm⟩ := r
  refine .ite (fun _ => hDescriptor) fun _ => ?_
  cases pointer with
  | none => exact h.null
  | some i =>
    refine (h.modify hDescriptor i fun c => quiet_removeFd c tid fd).bind fun sm hsm => ?_
    exact h.descriptors { s with sm := sm } _ _ hsm

theorem Stable.addDirectoryEntry (tid : Tid) (filePath : Path) (type : ManagerDirEntryType)
    (hDir : dirOk dir) : Ends (addDirectoryEntry env os s tid filePath dir type) I E := by
  refine (h.get s.sm dir).bind fun i hi => ?_
  refine (h.lookup s.sm i).bind fun f hf => ?_
  refine (h.entry s i f _ _ _ _ dir hs hi hf hDir).bind ?_
  rintro ⟨record, f'⟩ hs'
  have hLt : i < s.sm.objects.length := (List.getElem?_eq_some_iff.mp hf).1
  have hf' : (s.withObject i f').sm.objects[i]? = some (some f') := List.getElem?_set_self hLt
  have hStored : s.sm.storage dir ≠ none := by
    rw [hi]
    simp
  refine h.produced (s.withObject i _) tid dir ?_ hStored
  by_cases hCommit : f'.nFiles = f'.nFilesExpected ∧ env.engine.getCommitRule filePath = .onNFiles
  · rw [if_pos hCommit]
    have := h.committed _ i f' hs' hf'
    simpa [State.withObject, StorageManager.setObject] using this
  · rw [if_neg hCommit]
    exact hs'

theorem Stable.writeLocation (path : Path) : I (s.writeLocation env path) := h.other hs rfl rfl

theorem Stable.updateDirectory (tid : Tid) (hDir : dirOk (getParentDirPath filePath)) :
    Ends (updateDirectory env os s tid filePath) I E := by
  refine (h.get s.sm _).bind fun i hi => ?_
  refine (h.lookup s.sm i).bind fun f hf => ?_
  apply h.addDirectoryEntry _ tid filePath .regularEntry hDir
  split
  · exact h.writeLocation (h.object s i f _ hs hf (quiet_registerFirstWrite f)) _
  · exact hs

theorem Stable.publish (tid : Tid) (i : Nat) (hDir : dirOk (getParentDirPath path)) :
    Ends (publish env os s tid i path) I E := by
  refine (h.modify hs i quiet_registerFirstWrite).bind fun sm hsm => ?_
  exact h.updateDirectory (h.writeLocation hsm path) tid hDir

theorem Stable.load (path : Path) : I (s.load env path).2 := h.other hs rfl rfl

theorem Stable.locate (path : Path) : I (s.locate env path).2 := by
  unfold State.locate
  split
  · exact hs
  · exact h.load hs path

theorem Stable.wait (p : Pending) : I (s.wait p) := h.other hs rfl rfl

theorem Stable.unlessExcluded (tid : Tid) (path : Path) (hHandler : Ends handler I E) :
    Ends (unlessExcluded env s tid path handler) I E :=
  Ends.ite (fun _ => h.reply hs tid _) fun _ => hHandler

theorem Stable.addDirectory (tid : Tid) (hPath : dirOk path)
    (hParent : ¬ SamePath env.capioDir path → dirOk (getParentDirPath path)) :
    Ends (addDirectory env os s tid path) (fun r => I r.2) E := by
  unfold Server.addDirectory
  cases s.locations.table path with
  | some entry => exact hs
  | none =>
    have hStored := h.store s path true CAPIO_DEFAULT_DIR_INITIAL_SIZE hs (by simpa using hPath)
    dsimp only
    generalize s.sm.add env path true CAPIO_DEFAULT_DIR_INITIAL_SIZE = r at hStored ⊢
    obtain ⟨i, sm⟩ := r
    refine (h.lookup sm i).bind fun f hf => ?_
    refine .ite (fun _ => ?_) fun _ => hStored
    have hFirst := h.object _ i f _ hStored hf (quiet_registerFirstWrite f)
    refine .bind (Q := I) ?_ fun s1 hs1 => ?_
    · refine .ite (fun _ => h.other hFirst rfl rfl) fun hPath => ?_
      exact h.updateDirectory (h.writeLocation hFirst path) tid (hParent hPath)
    refine (h.addDirectoryEntry hs1 tid path .dotEntry hPath).bind fun s2 hs2 => ?_
    exact (h.addDirectoryEntry hs2 tid _ .dotDotEntry hPath).bind fun s3 hs3 => hs3

theorem Stable.updateFileMetadata (tid : Tid) (fd : Fd) (isCreat : Bool) (offset : Int)
    (hPath : fileOk path) (hParent : dirOk (getParentDirPath path)) :
    Ends (updateFileMetadata env os s path tid fd isCreat offset) I E := by
  have hStored := h.store s path false env.fileInitialSize hs (by simpa using hPath)
  have hAt := s.sm.storage_add env path false env.fileInitialSize
  unfold Server.updateFileMetadata
  generalize s.sm.add env path false env.fileInitialSize = r at hStored hAt ⊢
  obtain ⟨i, sm⟩ := r
  have hStoredAt : sm.storage path ≠ none := by
    rw [hAt]
    simp
  have hs0 : I { s with sm := (sm.storageAt path).2 } := by
    rwa [StorageManager.storageAt_of_stored hAt]
  refine ((h.addNewFd (s := { s with sm := sm }) tid fd offset true hs0).and
    (StorageManager.addNewFd_storage hStoredAt tid fd offset true)).bind ?_
  rintro sm1 ⟨hs1, hStorage⟩
  refine (h.lookup sm1 i).bind fun f hf => ?_
  refine .ite (fun _ => ?_) fun _ => hs1
  refine h.publish (h.produced _ tid path hs1 ?_) tid i hParent
  exact hStorage ▸ hStoredAt

theorem Stable.handleCreate (tid : Tid) (fd : Fd) (hPath : fileOk path)
    (hParent : dirOk (getParentDirPath path)) : Ends (handleCreate env os s tid fd path) I E := by
  have hLocate := h.locate hs path
  unfold Server.handleCreate
  exact (h.updateFileMetadata hLocate tid fd _ 0 hPath hParent).bind fun s2 hs2 => h.reply hs2 tid 0

theorem Stable.handleCreateExclusive (tid : Tid) (fd : Fd) (hPath : fileOk path)
    (hParent : dirOk (getParentDirPath path)) : Ends (handleCreateExclusive env os s tid fd path) I E := by
  unfold Server.handleCreateExclusive
  cases s.sm.tryGet path with
  | some i => exact h.reply hs tid 1
  | none =>
    exact (h.reply hs tid 0).bind fun s1 hs1 => h.updateFileMetadata hs1 tid fd true 0 hPath hParent

theorem Stable.handleOpen (tid : Tid) (fd : Fd) (hPath : fileOk path)
    (hParent : dirOk (getParentDirPath path)) : Ends (handleOpen env os s tid fd path) I E := by
  have hLocate := h.locate hs path
  unfold Server.handleOpen
  refine .ite (fun _ => ?_) fun _ => h.wait hLocate _
  exact (h.updateFileMetadata hLocate tid fd false 0 hPath hParent).bind fun s2 hs2 => h.reply hs2 tid 0

end

theorem Stable.registerWrittenData (tid : Tid) (hs : I (s.withObject i f))
    (hPath : s.sm.storage path ≠ none) (hParent : dirOk (getParentDirPath path)) :
    Ends (registerWrittenData env os s tid i path f) I E := by
  have hProduced := h.produced (s.withObject i f) tid path hs hPath
  exact .ite (fun _ => h.publish hProduced tid i hParent) fun _ => hProduced

def WriteOk (I : State → Prop) (E : Failure → Prop) (dirOk : Path → Prop) (os : Nat → Os) (s : State)
    (tid : Tid) (fd : Fd) (data : List Byte) : Prop :=
  dirOk (getParentDirPath (s.getPath tid fd).1) ∧
  ∀ i f offset, (s.getPath tid fd).2.sm.storage (s.getPath tid fd).1 = some i →
    (s.getPath tid fd).2.sm.objects[i]? = some (some f) → s.sm.getFileOffset tid fd = .ok offset →
    Ends (f.writeData (os 0) (os 1) offset.toNat data)
      (fun f' => I ((s.getPath tid fd).2.withObject i f')) E

theorem Stable.writeHandler (hs : I s) (hWrite : WriteOk I E dirOk os s tid fd data) :
    Ends (writeHandler env os s tid fd data) I E := by
  have hs1 := h.getPath hs tid fd
  unfold Server.writeHandler
  unfold WriteOk at hWrite
  refine .bind (Q := fun offset => s.sm.getFileOffset tid fd = .ok offset) ?_ fun offset hOffset => ?_
  · exact h.getFileOffset s.sm tid fd
  generalize s.getPath tid fd = r at hs1 hWrite ⊢
  obtain ⟨path, s1⟩ := r
  refine (h.get s1.sm path).bind fun i hi => ?_
  refine .ite (fun _ => h.benign _ (by simp) (by simp)) fun _ => ?_
  refine .ite (fun _ => h.benign _ (by simp) (by simp)) fun _ => ?_
  refine (h.lookup s1.sm i).bind fun f hf => ?_
  refine (hWrite.2 i f offset hi hf hOffset).bind fun f' hf' => ?_
  have hStored : s1.sm.storage path ≠ none := by
    rw [hi]
    simp
  refine (h.registerWrittenData tid hf' hStored hWrite.1).bind fun s2 hs2 => ?_
  exact (h.setFileOffset hs2 tid fd _).bind fun sm hsm => hsm

theorem Stable.loadBytes (f : CapioFile) (offset n : Nat) :
    Ends (f.loadBytes offset n) (fun _ => True) E := by
  unfold CapioFile.loadBytes
  split
  · exact h.null
  · split
    · trivial
    · exact h.benign _ (by simp) (by simp)

theorem Stable.replyData (hs : I s) (tid : Tid) (offset : Int) (data : List Byte) :
    Ends (s.cm.replyData tid offset data) (fun cm => I { s with cm := cm }) E := by
  refine .ite (fun _ => ?_) fun _ => h.benign _ (by simp) (by simp)
  exact h.frame s _ rfl (fun t p => id) hs

theorem Stable.sendRead (hs : I s) (tid : Tid) (fd : Fd) (i : Nat) (offset : Int) (n : Nat) :
    Ends (sendRead os s tid fd i offset n) I E := by
  refine (h.lookup s.sm i).bind fun f hf => ?_
  refine (h.buffer s i f _ false hs hf).bind fun f' hs' => ?_
  refine .bind (Q := fun _ => True) ?_ fun bytes _ => ?_
  · unfold CapioFile.sendBytes
    refine .ite (fun _ => trivial) fun _ => ?_
    exact .ite (fun _ => h.benign _ (by simp) (by simp)) fun _ => h.loadBytes f' _ _
  refine (h.replyData hs' tid offset bytes).bind fun cm hcm => ?_
  exact (h.setFileOffset hcm tid fd _).bind fun sm hsm => hsm

theorem Stable.handlePendingRead (hs : I s) (tid : Tid) (fd : Fd) (offset : Int) (count : Nat) :
    Ends (handlePendingRead os s tid fd offset count) I E := by
  have hs1 := h.getPath hs tid fd
  unfold Server.handlePendingRead
  generalize s.getPath tid fd = r at hs1 ⊢
  obtain ⟨path, s1⟩ := r
  refine (h.get s1.sm path).bind fun i hi => ?_
  exact (h.lookup s1.sm i).bind fun f hf => h.sendRead hs1 tid fd i offset _

theorem Stable.handleLocalRead (hs : I s) (tid : Tid) (fd : Fd) (count : Nat) (isProd : Bool) :
    Ends (handleLocalRead env os s tid fd count isProd) I E := by
  have hs1 := h.getPath hs tid fd
  unfold Server.handleLocalRead
  generalize s.getPath tid fd = r at hs1 ⊢
  obtain ⟨path, s1⟩ := r
  refine (h.get s1.sm path).bind fun i hi => ?_
  refine (h.lookup s1.sm i).bind fun f hf => ?_
  refine (h.getFileOffset s1.sm tid fd).bind fun offset hOffset => ?_
  cases localRead (env.engine.isFirable path) f offset count isProd with
  | waitForCommit => exact h.wait hs1 _
  | waitForData => exact h.wait hs1 _
  | endOfFile => exact h.reply hs1 tid _
  | send n => exact h.sendRead hs1 tid fd i offset n

theorem Stable.getFileLocation (s : State) (path : Path) :
    Ends (s.getFileLocation path) (fun entry => s.locations.table path = some entry) E := by
  unfold State.getFileLocation
  split
  · assumption
  · exact h.benign _ (by simp) (by simp)

theorem Stable.requestRemoteRead (hs : I s) (tid : Tid) (fd : Fd) (count : Nat) :
    Ends (requestRemoteRead env os s tid fd count) I E := by
  have hs1 := h.getPath hs tid fd
  unfold Server.requestRemoteRead
  generalize s.getPath tid fd = r at hs1 ⊢
  obtain ⟨path, s1⟩ := r
  refine (h.get s1.sm path).bind fun i hi => ?_
  refine (h.lookup s1.sm i).bind fun f hf => ?_
  refine (h.getFileOffset s1.sm tid fd).bind fun offset hOffset => ?_
  cases remoteSource f offset count with
  | localRead => exact h.handleLocalRead hs1 tid fd count true
  | here => exact h.sendRead hs1 tid fd i offset count
  | home => exact (h.getFileLocation s1 path).bind fun entry _ => h.other hs1 rfl rfl

theorem Stable.handleRead (hs : I s) (tid : Tid) (fd : Fd) (count : Nat) :
    Ends (handleRead env os s tid fd count) I E := by
  have hs1 := h.getPath hs tid fd
  unfold Server.handleRead
  generalize s.getPath tid fd = r at hs1 ⊢
  obtain ⟨path, s1⟩ := r
  dsimp only
  cases s1.locations.table path with
  | none => exact .ite (fun _ => h.handleLocalRead hs1 tid fd count _) fun _ => h.wait hs1 _
  | some entry =>
    refine .ite (fun _ => h.handleLocalRead hs1 tid fd count _) fun _ => ?_
    exact h.requestRemoteRead hs1 tid fd count

def CopyOk (I : State → Prop) (E : Failure → Prop) (dirOk : Path → Prop) (os : Nat → Os) (s : State)
    (copy : CopyRequest) : Prop :=
  dirOk (getParentDirPath copy.pathOut) ∧
  ∀ src dst fIn fOut, s.sm.storage copy.pathIn = some src → s.sm.objects[src]? = some (some fIn) →
    s.sm.storage copy.pathOut = some dst → s.sm.objects[dst]? = some (some fOut) →
    Ends (fIn.copyData (os 0) (os 1) (src == dst) fOut copy.offsetIn copy.offsetOut
        (fIn.bytesCopied copy.offsetIn copy.count))
      (fun r => I (s.withObject dst r.2)) E

theorem Stable.copyFileRangeData (hs : I s) (hCopy : CopyOk I E dirOk os s copy) :
    Ends (copyFileRangeData env os s copy) I E := by
  refine (h.get s.sm copy.pathIn).bind fun src hSrc => ?_
  refine (h.lookup s.sm src).bind fun fIn hIn => ?_
  refine .bind (Q := I) ?_ fun s1 hs1 => h.reply hs1 copy.tid _
  refine .ite (fun _ => ?_) fun _ => hs
  refine (h.get s.sm copy.pathOut).bind fun dst hDst => ?_
  refine (h.lookup s.sm dst).bind fun fOut hOut => ?_
  refine (hCopy.2 src dst fIn fOut hSrc hIn hDst hOut).bind ?_
  rintro ⟨bytes, f⟩ hf
  apply h.registerWrittenData copy.tid hf _ hCopy.1
  rw [hDst]
  simp

theorem Stable.handleLocalCopyFileRange (hs : I s) (isProd : Bool) (hCopy : CopyOk I E dirOk os s copy) :
    Ends (handleLocalCopyFileRange env os s copy isProd) I E := by
  refine (h.get s.sm copy.pathIn).bind fun i hi => ?_
  refine (h.lookup s.sm i).bind fun f hf => ?_
  cases localCopy (env.engine.isFirable copy.pathIn) f copy.offsetIn copy.count isProd with
  | waitForCommit => exact h.wait hs _
  | waitForData => exact h.wait hs _
  | endOfFile | send => exact h.copyFileRangeData hs hCopy

theorem Stable.handleRemoteCopyFileRange (hs : I s) (hCopy : CopyOk I E dirOk os s copy) :
    Ends (handleRemoteCopyFileRange env os s copy) I E := by
  refine (h.get s.sm copy.pathIn).bind fun i hi => ?_
  refine (h.lookup s.sm i).bind fun f hf => ?_
  refine .ite (fun _ => h.copyFileRangeData hs hCopy) fun _ => ?_
  exact (h.getFileLocation s copy.pathIn).bind fun entry _ => h.other hs rfl rfl

theorem Stable.handleCopyFileRange (hs : I s) (isProd : Bool) (hCopy : CopyOk I E dirOk os s copy) :
    Ends (handleCopyFileRange env os s copy isProd) I E := by
  refine .ite (fun _ => h.handleLocalCopyFileRange hs isProd hCopy) fun _ => ?_
  refine (h.getFileLocation s copy.pathIn).bind fun entry _ => ?_
  refine .ite (fun _ => h.handleLocalCopyFileRange hs isProd hCopy) fun _ => ?_
  exact h.handleRemoteCopyFileRange hs hCopy

theorem Stable.copyFileRangeHandler (hs : I s) (tid : Tid) (fdIn fdOut : Fd)
    (offsetIn offsetOut count : Nat)
    (hCopy : ∀ s' copy, I s' → copy.tid = tid → CopyOk I E dirOk os s' copy) :
    Ends (copyFileRangeHandler env os s tid fdIn fdOut offsetIn offsetOut count) I E := by
  have hs1 := h.getPath hs tid fdIn
  unfold Server.copyFileRangeHandler
  generalize s.getPath tid fdIn = r at hs1 ⊢
  obtain ⟨pathIn, s1⟩ := r
  have hs2 := h.getPath hs1 tid fdOut
  dsimp only at hs2 ⊢
  generalize s1.getPath tid fdOut = r at hs2 ⊢
  obtain ⟨pathOut, s2⟩ := r
  refine .ite (fun _ => h.wait hs2 _) fun _ => ?_
  exact h.handleCopyFileRange hs2 _ (hCopy s2 _ hs2 rfl)

theorem Stable.mkdirHandler (hs : I s) (tid : Tid) (hPath : dirOk path)
    (hParent : dirOk (getParentDirPath path)) : Ends (mkdirHandler env os s tid path) I E := by
  refine (h.addDirectory hs tid hPath fun _ => hParent).bind ?_
  rintro ⟨result, s1⟩ hs1
  exact h.reply hs1 tid result

def CloseOk (env : Env) (I : State → Prop) (E : Failure → Prop) (s : State) (tid : Tid) (fd : Fd) :
    Prop :=
  ∀ d i f, s.sm.openedFdMap.lookup (tid, fd) = some d → d.pointer = some i →
    s.sm.objects[i]? = some (some f) → env.engine.getCommitRule d.path = .onClose →
    f.close.closed = true →
    Ends f.close.setCommitted.dump (fun f' => I (s.withObject i f')) E

theorem Stable.handleClose (hs : I s) (hClose : CloseOk env I E s tid fd) :
    Ends (handleClose env s tid fd) I E := by
  cases hd : s.sm.openedFdMap.lookup (tid, fd) with
  | none =>
    have hs1 := h.getPath hs tid fd
    have hPath : s.getPath tid fd = ([], (s.getPath tid fd).2) := by
      simp [State.getPath, StorageManager.getPath, StorageManager.descriptor, hd]
    unfold Server.handleClose
    rw [hPath]
    exact hs1
  | some d =>
    have hPath : s.getPath tid fd = (d.path, s) := by
      simp [State.getPath, StorageManager.getPath, StorageManager.descriptor, hd]
    unfold Server.handleClose
    rw [hPath]
    refine .ite (fun _ => hs) fun _ => ?_
    refine ((s.sm.getOfFd_ends tid fd).mono (fun _ => id) ?_).bind ?_
    · rintro e (rfl | rfl)
      · exact h.benign _ (by simp) (by simp)
      · exact h.null
    rintro i ⟨d', hd', hi⟩
    rw [hd] at hd'
    cases hd'
    refine (h.lookup s.sm i).bind fun f hf => ?_
    refine .bind (Q := fun f' => I (s.withObject i f')) ?_ fun f' hs' => ?_
    · refine .ite (fun hCommit => hClose d i f hd hi hf hCommit.1 hCommit.2) fun _ => ?_
      exact h.object s i f _ hs hf (quiet_close f)
    · exact (h.removeFromTid hs' tid fd).bind fun sm hsm => hsm

theorem Stable.dupHandler (hs : I s) (tid : Tid) (oldFd newFd : Fd) :
    Ends (dupHandler s tid oldFd newFd) I E := by
  refine .ite (fun _ => ?_) fun _ => hs
  refine .bind (Q := fun sm => I { s with sm := sm }) ?_ fun sm hsm => hsm
  unfold StorageManager.dup
  split
  · refine h.modify (h.descriptors s _ s.sm.offsets hs) _ fun c => ?_
    exact quiet_addFd c true tid newFd
  · exact h.null

theorem Stable.handleLseek (hs : I s) (tid : Tid) (fd : Fd) (offset : Int) :
    Ends (handleLseek s tid fd offset) I E :=
  (h.setFileOffset hs tid fd offset).bind fun _ hsm => h.reply hsm tid offset

theorem Stable.handshakeHandler (hs : I s) (tid : Tid) (appName : AppName) (wait : Bool) :
    I (handshakeHandler s tid appName wait) := by
  have hs1 : I { s with cm := s.cm.registerClient tid appName } := by
    refine h.frame s { s with cm := s.cm.registerClient tid appName } rfl ?_ hs
    intro t p hp
    rwa [← s.cm.produced_emplace_nil tid t]
  unfold Server.handshakeHandler
  split
  · exact h.wait hs1 _
  · exact hs1

def TerminationOk (env : Env) (I : State → Prop) (E : Failure → Prop) (s : State) (path : Path) : Prop :=
  ∀ i f, env.engine.getCommitRule path = .onTermination → s.sm.storage path = some i →
    s.sm.objects[i]? = some (some f) → f.directory = false →
    Ends f.setCommitted.dump (fun f' => I (s.withObject i f'.close)) E

theorem Stable.commitOnTermination (hs : I s) (hTermination : TerminationOk env I E s path) :
    Ends (commitOnTermination env s path) I E := by
  refine .ite (fun hRule => ?_) fun _ => hs
  refine (h.get s.sm path).bind fun i hi => ?_
  refine (h.lookup s.sm i).bind fun f hf => ?_
  refine .bind (Q := fun f' : CapioFile => I (s.withObject i f'.close)) ?_ fun f' hs' => ?_
  on_goal 2 => exact hs'
  refine .ite (fun _ => ?_) fun hDir => ?_
  · have hClosed : ∀ f', I (s.withObject i f') → I (s.withObject i f'.close) := by
      intro f' hs'
      have hLt : i < s.sm.objects.length := (List.getElem?_eq_some_iff.mp hf).1
      have := h.object _ i f' _ hs' (List.getElem?_set_self hLt) (quiet_close f')
      simpa [State.withObject, StorageManager.setObject] using this
    apply hClosed
    split
    · exact h.committed s i f hs hf
    · exact h.object s i f f hs hf ⟨rfl, rfl, rfl, rfl, rfl⟩
  · exact hTermination i f hRule hi hf (by simpa using hDir)

/-- The commits and the closes that an exit makes meet a guard each, in the states in which they
are made. -/
def ExitMeets (env : Env) (commitGuard : State → Path → Prop) (closeGuard : State → Fd → Prop) (s : State)
    (tid : Tid) : Prop :=
  Meets commitGuard (Server.commitOnTermination env)
    { s with cm := (s.cm.getProducedFiles tid).2 } (env.pathOrder (s.cm.getProducedFiles tid).1) ∧
  ∀ s', (env.pathOrder (s.cm.getProducedFiles tid).1).foldlM (Server.commitOnTermination env)
      { s with cm := (s.cm.getProducedFiles tid).2 } = .ok s' →
    Meets closeGuard (fun s fd => Server.handleClose env s tid fd) s' (s'.sm.getFileDescriptors env tid)

instance (env : Env) (commitGuard : State → Path → Prop) [∀ s p, Decidable (commitGuard s p)]
    (closeGuard : State → Fd → Prop) [∀ s fd, Decidable (closeGuard s fd)] (s : State) (tid : Tid) :
    Decidable (ExitMeets env commitGuard closeGuard s tid) :=
  inferInstanceAs (Decidable (_ ∧ ∀ _, _ → _))

def ExitOk (env : Env) (I : State → Prop) (E : Failure → Prop) (s : State) (tid : Tid) : Prop :=
  ExitMeets env (TerminationOk env I E) (fun s fd => CloseOk env I E s tid fd) s tid

theorem Stable.getProducedFiles (hs : I s) (tid : Tid) :
    I { s with cm := (s.cm.getProducedFiles tid).2 } := by
  refine h.frame s { s with cm := (s.cm.getProducedFiles tid).2 } rfl ?_ hs
  intro t p hp
  rwa [← s.cm.produced_emplace_nil tid t]

theorem Stable.handleExitGroup (hs : I s) (hExit : ExitOk env I E s tid) :
    Ends (handleExitGroup env s tid) I E := by
  have hs1 := h.getProducedFiles hs tid
  have hCommits := run_ends (fun s path hs hOk => h.commitOnTermination hs hOk) hs1 _ hExit.1
  unfold Server.handleExitGroup
  dsimp only
  cases hRun : (env.pathOrder (s.cm.getProducedFiles tid).1).foldlM (Server.commitOnTermination env)
      { s with cm := (s.cm.getProducedFiles tid).2 } with
  | error e => exact hCommits.failure hRun
  | ok s2 =>
    have hCloses := run_ends (fun s fd hs hOk => h.handleClose hs hOk) (hCommits.result hRun) _
      (hExit.2 s2 hRun)
    refine hCloses.bind fun s3 hs3 => ?_
    exact h.frame s3 _ rfl (fun t p => ClientManager.mem_produced_removeClient) hs3

theorem Stable.exitOk (hs : I s) (hExit : ExitMeets env commitGuard closeGuard s tid)
    (hTermination : ∀ s path, I s → commitGuard s path → TerminationOk env I E s path)
    (hClose : ∀ s fd, I s → closeGuard s fd → CloseOk env I E s tid fd) : ExitOk env I E s tid := by
  have hCommit : ∀ s path, I s → TerminationOk env I E s path →
    Ends (Server.commitOnTermination env s path) I E :=
    fun s path hs hOk => h.commitOnTermination hs hOk
  have hs1 := h.getProducedFiles hs tid
  have hCommits := hExit.1.imp hTermination hCommit hs1
  refine ⟨hCommits, fun s2 hRun => ?_⟩
  have hs2 := (run_ends hCommit hs1 _ hCommits).result hRun
  exact (hExit.2 s2 hRun).imp hClose (fun s fd hs hOk => h.handleClose hs hOk) hs2

theorem Stable.cloneHandler (hs : I s) (parentTid childTid : Tid)
    (hDefault : ∀ s path, I s → I { s with sm := (s.sm.storageAt path).2 }) :
    Ends (cloneHandler env s parentTid childTid) I E := by
  refine .bind (Q := fun sm => I { s with sm := sm }) ?_ fun sm hsm => ?_
  on_goal 2 => exact h.frame { s with sm := sm } _ rfl (fun _ _ => id) hsm
  refine .foldlM (I := fun sm => I { s with sm := sm }) ?_ hs
  intro fd _ sm hsm
  refine (h.getFileOffset sm parentTid fd).bind fun offset _ => ?_
  exact h.addNewFd (s := { s with sm := sm }) childTid fd offset false (hDefault _ _ hsm)

def PendingOk (I : State → Prop) (E : Failure → Prop) (fileOk dirOk : Path → Prop) (os : Nat → Os) :
    Pending → Prop
  | .openFile path _ _ => fileOk path ∧ dirOk (getParentDirPath path)
  | .copyFile copy | .copyCommit _ copy | .copyData _ copy => ∀ s, I s → CopyOk I E dirOk os s copy
  | .readFile .. | .readCommit .. | .readData .. | .clonedChild _ => True

theorem Stable.resumeReadFile (hs : I s) (path : Path) (tid : Tid) (fd : Fd) (count : Nat) :
    Ends (resumeReadFile env os s path tid fd count) I E := by
  refine (h.getFileLocation s path).bind fun entry _ => ?_
  grind [h.handleLocalRead, h.requestRemoteRead]

theorem Stable.resume (hs : I s) (hp : PendingOk I E fileOk dirOk os p) :
    Ends (resume env os s p) (fun r => ∀ s' ∈ r, I s') E := by
  have hSome : ∀ {x : Except Failure State}, Ends x I E →
    Ends (some <$> x) (fun r => ∀ s' ∈ r, I s') E := by
    intro x hx
    refine .map (hx.imp (fun s' hs' => ?_))
    rintro _ ⟨⟩
    exact hs'
  have hNone : Ends (pure none : Except Failure (Option State)) (fun r => ∀ s' ∈ r, I s') E := by simp
  cases p with
  | openFile path tid fd =>
    refine .ite (fun _ => ?_) fun _ => hNone
    refine (h.updateFileMetadata (h.load hs path) tid fd false 0 hp.1 hp.2).bind fun s1 hs1 => ?_
    exact hSome (h.reply hs1 tid 0)
  | readFile path tid fd count =>
    refine .ite (fun _ => ?_) fun _ => hNone
    exact hSome (h.resumeReadFile (h.load hs path) path tid fd count)
  | readCommit i tid fd offset count =>
    refine (h.lookup s.sm i).bind fun f _ => ?_
    exact .ite (fun _ => hSome (h.handlePendingRead hs tid fd offset count)) fun _ => hNone
  | readData i tid fd offset count =>
    refine (h.lookup s.sm i).bind fun f _ => ?_
    exact .ite (fun _ => hSome (h.handlePendingRead hs tid fd offset count)) fun _ => hNone
  | copyFile copy =>
    refine .ite (fun _ => ?_) fun _ => hNone
    have hLoad := h.load hs copy.pathIn
    exact hSome (h.handleCopyFileRange hLoad false (hp _ hLoad))
  | copyCommit i copy =>
    refine (h.lookup s.sm i).bind fun f _ => ?_
    exact .ite (fun _ => hSome (h.copyFileRangeData hs (hp _ hs))) fun _ => hNone
  | copyData i copy =>
    refine (h.lookup s.sm i).bind fun f _ => ?_
    exact .ite (fun _ => hSome (h.copyFileRangeData hs (hp _ hs))) fun _ => hNone
  | clonedChild tid =>
    refine .ite (fun _ => ?_) fun _ => hNone
    refine (h.reply hs tid 1).bind fun s1 hs1 => ?_
    rintro _ ⟨⟩
    exact h.frame s1 _ rfl (fun _ _ => id) hs1

def StepOk (env : Env) (I : State → Prop) (E : Failure → Prop) (fileOk dirOk : Path → Prop) (s : State)
    (r : Request) : Prop :=
  match r.op with
  | .handshake .. | .read .. | .dup .. | .lseek .. => True
  | .create _ _ path | .createExclusive _ _ path | .openFile _ _ path =>
    fileOk path ∧ dirOk (getParentDirPath path)
  | .write tid fd data => WriteOk I E dirOk r.os s tid fd data
  | .copyFileRange tid _ _ _ _ _ => ∀ s' copy, I s' → copy.tid = tid → CopyOk I E dirOk r.os s' copy
  | .mkdir _ path => dirOk path ∧ dirOk (getParentDirPath path)
  | .unlink tid path => Ends (unlinkHandler env s tid path) I E
  | .rmdir tid path => Ends (rmdirHandler env s tid path) I E
  | .rename tid oldpath newpath => Ends (handleRename env s tid oldpath newpath) I E
  | .close tid fd => CloseOk env I E s tid fd
  | .clone _ _ => ∀ s path, I s → I { s with sm := (s.sm.storageAt path).2 }
  | .exitGroup tid => ExitOk env I E s tid
  | .resume k => ∀ p, s.pending[k]? = some p → PendingOk I E fileOk dirOk r.os p

theorem Stable.step (hs : I s) (hr : StepOk env I E fileOk dirOk s r) : Ends (step env s r) I E := by
  obtain ⟨op, os⟩ := r
  cases op with
  | handshake tid appName wait => exact h.handshakeHandler hs tid appName wait
  | create tid fd path => exact h.unlessExcluded hs tid path (h.handleCreate hs tid fd hr.1 hr.2)
  | createExclusive tid fd path =>
    exact h.unlessExcluded hs tid path (h.handleCreateExclusive hs tid fd hr.1 hr.2)
  | openFile tid fd path => exact h.unlessExcluded hs tid path (h.handleOpen hs tid fd hr.1 hr.2)
  | write tid fd data => exact h.writeHandler hs hr
  | read tid fd count => exact h.handleRead hs tid fd count
  | copyFileRange tid fdIn fdOut offsetIn offsetOut count =>
    exact h.copyFileRangeHandler hs tid fdIn fdOut offsetIn offsetOut count hr
  | mkdir tid path => exact h.mkdirHandler hs tid hr.1 hr.2
  | unlink tid path => exact hr
  | rmdir tid path => exact hr
  | rename tid oldpath newpath => exact hr
  | close tid fd => exact h.handleClose hs hr
  | dup tid oldFd newFd => exact h.dupHandler hs tid oldFd newFd
  | lseek tid fd offset => exact h.handleLseek hs tid fd offset
  | clone parentTid childTid => exact h.cloneHandler hs parentTid childTid hr
  | exitGroup tid => exact h.handleExitGroup hs hr
  | resume k =>
    unfold Server.step
    dsimp only
    cases hk : s.pending[k]? with
    | none => exact hs
    | some p =>
      have hs1 : I { s with pending := s.pending.eraseIdx k } := h.other hs rfl rfl
      refine (h.resume hs1 (hr p hk)).bind fun r hr' => ?_
      cases r with
      | none => exact hs
      | some s' => exact hr' s' rfl

end

def RemovalOk (env : Env) (I : State → Prop) (s : State) : Op → Prop
  | .unlink tid path => Ends (unlinkHandler env s tid path) I fun _ => True
  | .rmdir tid path => Ends (rmdirHandler env s tid path) I fun _ => True
  | .rename tid oldpath newpath => Ends (handleRename env s tid oldpath newpath) I fun _ => True
  | _ => True

section

variable (h : Stable env I (fun _ => True) (fun _ => True) fun _ => True)
  (hObject : ∀ s i f, I s → I (s.withObject i f))
  (hDefault : ∀ s path, I s → I { s with sm := (s.sm.storageAt path).2 })

include hObject in
theorem copyOk_of_object (hs : I s) (os : Nat → Os) (copy : CopyRequest) :
    CopyOk I (fun _ => True) (fun _ => True) os s copy :=
  ⟨trivial, fun _ _ _ _ _ _ _ _ => .always (fun _ => hObject _ _ _ hs) _⟩

include h hObject hDefault

theorem Stable.step_of_object (hs : I s) (hr : RemovalOk env I s r.op) :
    Yields (Server.step env s r) I := by
  have hClose : ∀ s tid fd, I s → CloseOk env I (fun _ => True) s tid fd :=
    fun s tid fd hs _ _ _ _ _ _ _ _ => .always (fun _ => hObject _ _ _ hs) _
  apply h.step hs
  obtain ⟨op, os⟩ := r
  cases op with
  | handshake tid appName wait => trivial
  | create tid fd path => exact ⟨trivial, trivial⟩
  | createExclusive tid fd path => exact ⟨trivial, trivial⟩
  | openFile tid fd path => exact ⟨trivial, trivial⟩
  | write tid fd data =>
    have hs' := h.getPath hs tid fd
    exact ⟨trivial, fun i f offset _ _ _ => .always (fun _ => hObject _ _ _ hs') _⟩
  | read tid fd count => trivial
  | copyFileRange tid fdIn fdOut offsetIn offsetOut count =>
    exact fun s' copy hs' _ => copyOk_of_object hObject hs' os copy
  | mkdir tid path => exact ⟨trivial, trivial⟩
  | unlink tid path => exact hr
  | rmdir tid path => exact hr
  | rename tid oldpath newpath => exact hr
  | close tid fd => exact hClose s tid fd hs
  | dup tid oldFd newFd => trivial
  | lseek tid fd offset => trivial
  | clone parentTid childTid => exact hDefault
  | exitGroup tid =>
    apply h.exitOk hs ⟨meets_true _ _ _, fun _ _ => meets_true _ _ _⟩
    · exact fun s' path hs' _ _ _ _ _ _ _ => .always (fun _ => hObject _ _ _ hs') _
    · exact fun s' fd hs' _ => hClose s' tid fd hs'
  | resume k =>
    intro p _
    cases p with
    | openFile path tid fd => exact ⟨trivial, trivial⟩
    | copyFile copy => exact fun s' hs' => copyOk_of_object hObject hs' os copy
    | copyCommit i copy => exact fun s' hs' => copyOk_of_object hObject hs' os copy
    | copyData i copy => exact fun s' hs' => copyOk_of_object hObject hs' os copy
    | readFile path tid fd count => trivial
    | readCommit i tid fd offset count => trivial
    | readData i tid fd offset count => trivial
    | clonedChild tid => trivial

end

end Capio.Server
