import Capio.Server.Rules

/-! # Registration of descriptors

What the handlers do to the map of open descriptors: the requests to open a file put one entry into
it, together with a new offset, or leave it as it is; the others lose no entry, apart from the one
that is closed.
-/
namespace Capio.Server

open Common Lib.Outcome Storage

def Registers (tid : Tid) (fd : Fd) (path : Path) (s s' : State) : Prop :=
  ∃ i, s'.sm.openedFdMap =
      s.sm.openedFdMap.insert (tid, fd) ⟨some i, some s.sm.offsets.length, path⟩ ∧
    s'.sm.offsets = s.sm.offsets ++ [0]

def Answers (tid : Tid) (code : Int) (s s' : State) : Prop :=
  s'.cm.replies = ⟨tid, code, []⟩ :: s.cm.replies ∧ s'.cm.responses = s.cm.responses

structure SameDescriptors (s s' : State) : Prop where
  map : s'.sm.openedFdMap = s.sm.openedFdMap
  offsets : s'.sm.offsets = s.sm.offsets
  replies : s'.cm.replies = s.cm.replies
  responses : s'.cm.responses = s.cm.responses

theorem SameDescriptors.refl (s : State) : SameDescriptors s s := ⟨rfl, rfl, rfl, rfl⟩

theorem SameDescriptors.trans (h : SameDescriptors s s1) (h' : SameDescriptors s1 s2) :
    SameDescriptors s s2 :=
  ⟨h'.map.trans h.map, h'.offsets.trans h.offsets, h'.replies.trans h.replies,
    h'.responses.trans h.responses⟩

theorem Registers.of_before (h : Registers tid fd path s1 s') (hMap : s1.sm.openedFdMap = s.sm.openedFdMap)
    (hOffsets : s1.sm.offsets = s.sm.offsets) : Registers tid fd path s s' := by
  obtain ⟨i, hMap', hOffsets'⟩ := h
  exact ⟨i, by rw [hMap', hMap, hOffsets], by rw [hOffsets', hOffsets]⟩

theorem Registers.of_after (h : Registers tid fd path s s1) (hMap : s'.sm.openedFdMap = s1.sm.openedFdMap)
    (hOffsets : s'.sm.offsets = s1.sm.offsets) : Registers tid fd path s s' := by
  obtain ⟨i, hMap', hOffsets'⟩ := h
  exact ⟨i, hMap.trans hMap', hOffsets.trans hOffsets'⟩

theorem Registers.lookup (h : Registers tid fd path s s') : s'.sm.openedFdMap.lookup (tid, fd) ≠ none := by
  obtain ⟨i, hMap, -⟩ := h
  rw [hMap, AList.lookup_insert]
  exact Option.some_ne_none _

theorem not_registers (h : s'.sm.offsets = s.sm.offsets) : ¬ Registers tid fd path s s' := by
  rintro ⟨i, -, hOffsets⟩
  rw [h] at hOffsets
  exact absurd (congrArg List.length hOffsets) (by simp)

theorem registerProducedFile_same (cm : ClientManager) (tid : Tid) (path : Path) :
    (cm.registerProducedFile tid path).replies = cm.replies ∧
      (cm.registerProducedFile tid path).responses = cm.responses := by
  grind [ClientManager.registerProducedFile]

theorem addDirectoryEntry_same (tid : Tid) (filePath dir : Path) (type : ManagerDirEntryType) :
    Yields (addDirectoryEntry env os s tid filePath dir type) (SameDescriptors s) := by
  refine .skip fun i => ?_
  refine .skip fun f => ?_
  refine .skip fun r => ?_
  obtain ⟨hReplies, hResponses⟩ := registerProducedFile_same s.cm tid dir
  exact ⟨rfl, rfl, hReplies, hResponses⟩

theorem updateDirectory_same (tid : Tid) (filePath : Path) :
    Yields (updateDirectory env os s tid filePath) (SameDescriptors s) := by
  refine .skip fun i => ?_
  refine .skip fun f => ?_
  refine (addDirectoryEntry_same tid filePath _ .regularEntry).imp (fun s' h' => ?_)
  refine SameDescriptors.trans ?_ h'
  split
  · exact ⟨rfl, rfl, rfl, rfl⟩
  · exact SameDescriptors.refl s

theorem publish_same (tid : Tid) (i : Nat) (path : Path) :
    Yields (publish env os s tid i path) (SameDescriptors s) := by
  refine (s.sm.modify_ends i _).weaken.bind ?_
  rintro _ ⟨f, -, rfl⟩
  refine (updateDirectory_same tid path).imp (fun s' h' => ?_)
  exact ⟨h'.map, h'.offsets, h'.replies, h'.responses⟩

theorem updateFileMetadata_registers (path : Path) (tid : Tid) (fd : Fd) (isCreat : Bool) :
    Yields (updateFileMetadata env os s path tid fd isCreat 0)
      (fun s' => Registers tid fd path s s' ∧ s'.cm.replies = s.cm.replies ∧
        s'.cm.responses = s.cm.responses) := by
  have hStored : (s.sm.add env path false env.fileInitialSize).2.openedFdMap = s.sm.openedFdMap ∧
      (s.sm.add env path false env.fileInitialSize).2.offsets = s.sm.offsets := by
    grind [StorageManager.add, StorageManager.storageAt]
  unfold updateFileMetadata
  generalize s.sm.add env path false env.fileInitialSize = r at hStored ⊢
  obtain ⟨i, sm⟩ := r
  refine (sm.addFileToTid_ends tid fd path 0).bind ?_
  rintro sm1 ⟨hOffsets, j, hMap⟩
  have hRegisters : Registers tid fd path s { s with sm := sm1 } :=
    ⟨j, by rw [← hStored.1, ← hStored.2]; exact hMap, by rw [← hStored.2]; exact hOffsets⟩
  refine .skip fun f => ?_
  refine .ite (fun _ => ?_) fun _ => ⟨hRegisters, rfl, rfl⟩
  refine (publish_same tid i path).imp (fun s' h' => ?_)
  obtain ⟨hReplies, hResponses⟩ := registerProducedFile_same s.cm tid path
  exact ⟨hRegisters.of_after h'.map h'.offsets, h'.replies.trans hReplies, h'.responses.trans hResponses⟩

theorem reply_answers (tid : Tid) (code : Int) :
    Yields (s.reply tid code) (fun s' => Answers tid code s s' ∧ s'.sm = s.sm ∧ s'.pending = s.pending) := by
  unfold State.reply ClientManager.reply
  split
  · exact ⟨⟨rfl, rfl⟩, rfl, rfl⟩
  · trivial

theorem reply_of_responses (h : s.cm.responses tid = true) (code : Int) :
    ∃ s', s.reply tid code = .ok s' ∧ Answers tid code s s' := by
  have hReply : s.reply tid code = .ok { s with cm := { s.cm with
      replies := ⟨tid, code, []⟩ :: s.cm.replies } } := by
    unfold State.reply ClientManager.reply
    rw [if_pos h]
    rfl
  exact ⟨_, hReply, rfl, rfl⟩

theorem locate_same (env : Env) (s : State) (path : Path) : SameDescriptors s (s.locate env path).2 := by
  unfold State.locate
  split
  · exact SameDescriptors.refl s
  · exact ⟨rfl, rfl, rfl, rfl⟩

theorem metadata_reply_registers (hSame : SameDescriptors s s1) (path : Path) (tid : Tid) (fd : Fd)
    (isCreat : Bool) :
    Yields (updateFileMetadata env os s1 path tid fd isCreat 0 >>= fun s2 => s2.reply tid 0)
      (fun s' => Registers tid fd path s s' ∧ Answers tid 0 s s') := by
  refine (updateFileMetadata_registers path tid fd isCreat).bind ?_
  rintro s2 ⟨hRegisters, hReplies, hResponses⟩
  refine (reply_answers tid 0).imp ?_
  rintro s3 ⟨⟨hReplies', hResponses'⟩, hsm, -⟩
  refine ⟨(hRegisters.of_before hSame.map hSame.offsets).of_after (by rw [hsm]) (by rw [hsm]), ?_, ?_⟩
  · rw [hReplies', hReplies, hSame.replies]
  · rw [hResponses', hResponses, hSame.responses]

section

variable (tid : Tid) (fd : Fd) (path : Path)

theorem handleCreate_registers :
    Yields (handleCreate env os s tid fd path)
      (fun s' => Registers tid fd path s s' ∧ Answers tid 0 s s') :=
  metadata_reply_registers (locate_same env s path) path tid fd _

theorem handleCreateExclusive_registers :
    Yields (handleCreateExclusive env os s tid fd path)
      (fun s' => s.sm.storage path ≠ none ∧ Answers tid 1 s s' ∧ s'.sm = s.sm ∨
        s.sm.storage path = none ∧ Registers tid fd path s s' ∧ Answers tid 0 s s') := by
  unfold handleCreateExclusive StorageManager.tryGet
  cases hPath : s.sm.storage path with
  | some i =>
    refine (reply_answers tid 1).imp (fun s' h' => .inl ⟨Option.some_ne_none i, h'.1, h'.2.1⟩)
  | none =>
    refine (reply_answers tid 0).bind ?_
    rintro s1 ⟨⟨hReplies, hResponses⟩, hsm, -⟩
    refine (updateFileMetadata_registers path tid fd true).imp ?_
    rintro s2 ⟨hRegisters, hReplies', hResponses'⟩
    exact .inr ⟨rfl, hRegisters.of_before (by rw [hsm]) (by rw [hsm]), hReplies'.trans hReplies,
      hResponses'.trans hResponses⟩

theorem handleOpen_registers : Yields (handleOpen env os s tid fd path)
      (fun s' => Registers tid fd path s s' ∧ Answers tid 0 s s' ∨ SameDescriptors s s') := by
  have hLocate := locate_same env s path
  refine .ite (fun _ => ?_) fun _ =>
    .inr ⟨hLocate.map, hLocate.offsets, hLocate.replies, hLocate.responses⟩
  exact (metadata_reply_registers hLocate path tid fd false).imp (fun _ => .inl)

end

theorem resume_open_registers : Yields (resume env os s (.openFile path tid fd))
      (fun r => ∀ s', r = some s' → Registers tid fd path s s' ∧ Answers tid 0 s s') := by
  refine .ite (fun _ => ?_) fun _ s' hs' => (by cases hs')
  have hLoad : SameDescriptors s (s.load env path).2 := ⟨rfl, rfl, rfl, rfl⟩
  refine Eq.mpr (congrArg (Ends · _ _) (map_bind (some) _ _).symm) (Ends.map ?_)
  refine (metadata_reply_registers hLoad path tid fd false).imp (fun s1 h1 s' hs' => ?_)
  exact Option.some.inj hs' ▸ h1

theorem step_resume_open (hWaits : s.pending[k]? = some (.openFile path tid fd)) :
    Yields (step env s ⟨.resume k, os⟩)
      (fun s' => Registers tid fd path s s' ∧ Answers tid 0 s s' ∨ s' = s) := by
  simp only [step, hWaits]
  refine resume_open_registers.bind fun r hr => ?_
  cases r with
  | none => exact .inr rfl
  | some s' => exact .inl (hr s' rfl)

structure Retains (s s' : State) : Prop where
  descriptors : ∀ k, s.sm.openedFdMap.lookup k ≠ none → s'.sm.openedFdMap.lookup k ≠ none
  responses : s'.cm.responses = s.cm.responses

theorem Retains.refl (s : State) : Retains s s := ⟨fun _ => id, rfl⟩

theorem Retains.of_same (h : Retains b s) (hMap : s'.sm.openedFdMap = s.sm.openedFdMap)
    (hResponses : s'.cm.responses = s.cm.responses) : Retains b s' :=
  ⟨fun k hk => hMap.symm ▸ h.descriptors k hk, hResponses.trans h.responses⟩

theorem Retains.insert (h : Retains b s) (hMap : s'.sm.openedFdMap = s.sm.openedFdMap.insert k' d)
    (hResponses : s'.cm.responses = s.cm.responses) : Retains b s' := by
  refine ⟨fun k hk => ?_, hResponses.trans h.responses⟩
  rw [hMap]
  by_cases he : k = k'
  · rw [he, AList.lookup_insert]
    exact Option.some_ne_none d
  · rw [AList.lookup_insert_ne he]
    exact h.descriptors k hk

theorem Retains.getPath (h : Retains b s) (tid : Tid) (fd : Fd) : Retains b (s.getPath tid fd).2 := by
  change Retains b { s with sm := (s.sm.descriptor tid fd).2 }
  unfold StorageManager.descriptor
  split
  · exact h
  · exact h.insert rfl rfl

theorem Retains.reply (h : Retains b s) (tid : Tid) (offset : Int) :
    Yields (s.reply tid offset) (Retains b) := by
  refine (reply_answers tid offset).imp ?_
  rintro s' ⟨⟨-, hResponses⟩, hsm, -⟩
  exact h.of_same (by rw [hsm]) hResponses

theorem setFileOffset_map (sm : StorageManager) (tid : Tid) (fd : Fd) (offset : Int) :
    Yields (sm.setFileOffset tid fd offset) (fun sm' => sm'.openedFdMap = sm.openedFdMap) := by
  unfold StorageManager.setFileOffset
  split
  · rfl
  · trivial

theorem Retains.handleLseek (h : Retains b s) (tid : Tid) (fd : Fd) (offset : Int) :
    Yields (handleLseek s tid fd offset) (Retains b) := by
  refine (setFileOffset_map s.sm tid fd offset).bind fun sm hsm => ?_
  have h1 : Retains b { s with sm := sm } := h.of_same hsm rfl
  exact h1.reply tid offset

theorem registerWrittenData_same (tid : Tid) (i : Nat) (path : Path) (f : CapioFile) :
    Yields (registerWrittenData env os s tid i path f) (SameDescriptors s) := by
  obtain ⟨hReplies, hResponses⟩ := registerProducedFile_same s.cm tid path
  have h1 : SameDescriptors s
      { s with cm := s.cm.registerProducedFile tid path, sm := s.sm.setObject i f } :=
    ⟨rfl, rfl, hReplies, hResponses⟩
  refine .ite (fun _ => ?_) fun _ => h1
  exact (publish_same tid i path).imp (fun s' hs' => h1.trans hs')

section

variable (h : Retains b s) (tid : Tid) (fd : Fd)
include h

theorem Retains.writeHandler (data : List Byte) :
    Yields (writeHandler env os s tid fd data) (Retains b) := by
  refine .skip fun offset => ?_
  have h1 := h.getPath tid fd
  generalize s.getPath tid fd = r at h1 ⊢
  obtain ⟨path, s1⟩ := r
  refine .skip fun i => ?_
  refine .ite (fun _ => trivial) fun _ => .ite (fun _ => trivial) fun _ => ?_
  refine .skip fun f => ?_
  refine .bind (Ends.always (fun _ => trivial) _) fun f' _ => ?_
  refine (registerWrittenData_same tid i path f').bind fun s2 h2 => ?_
  have h2' : Retains b s2 := h1.of_same h2.map h2.responses
  exact (setFileOffset_map s2.sm tid fd _).bind fun sm hsm => h2'.of_same hsm rfl

theorem Retains.sendRead (i : Nat) (offset : Int) (n : Nat) :
    Yields (sendRead os s tid fd i offset n) (Retains b) := by
  refine .skip fun f => ?_
  refine .bind (Ends.always (fun _ => trivial) _) fun f' _ => ?_
  refine .skip fun bytes => ?_
  refine .bind (Q := fun cm : ClientManager => cm.responses = s.cm.responses) ?_ fun cm hcm => ?_
  · unfold ClientManager.replyData
    exact .ite (fun _ => rfl) fun _ => trivial
  · exact (setFileOffset_map _ tid fd _).bind fun sm hsm => h.of_same hsm hcm

theorem Retains.handleLocalRead (count : Nat) (isProd : Bool) :
    Yields (handleLocalRead env os s tid fd count isProd) (Retains b) := by
  have h1 := h.getPath tid fd
  unfold Server.handleLocalRead
  generalize s.getPath tid fd = r at h1 ⊢
  obtain ⟨path, s1⟩ := r
  refine .skip fun i => ?_
  refine .skip fun f => ?_
  refine .skip fun offset => ?_
  cases localRead (env.engine.isFirable path) f offset count isProd with
  | waitForCommit => exact h1.of_same rfl rfl
  | waitForData => exact h1.of_same rfl rfl
  | endOfFile => exact h1.reply tid _
  | send n => exact h1.sendRead tid fd i offset n

theorem Retains.requestRemoteRead (count : Nat) :
    Yields (requestRemoteRead env os s tid fd count) (Retains b) := by
  have h1 := h.getPath tid fd
  unfold Server.requestRemoteRead
  refine .skip fun i => ?_
  refine .skip fun f => ?_
  refine .skip fun offset => ?_
  cases remoteSource f offset count with
  | localRead => exact h1.handleLocalRead tid fd count true
  | here => exact h1.sendRead tid fd i offset count
  | home => exact .skip fun entry => h1.of_same rfl rfl

theorem Retains.handleRead (count : Nat) : Yields (handleRead env os s tid fd count) (Retains b) := by
  have h1 := h.getPath tid fd
  unfold Server.handleRead
  generalize s.getPath tid fd = r at h1 ⊢
  obtain ⟨path, s1⟩ := r
  dsimp only
  cases s1.locations.table path with
  | none => exact .ite (fun _ => h1.handleLocalRead tid fd count _) fun _ => h1.of_same rfl rfl
  | some entry =>
    exact .ite (fun _ => h1.handleLocalRead tid fd count _) fun _ => h1.requestRemoteRead tid fd count

end

theorem handleClose_retains (tid : Tid) (fd : Fd) :
    Yields (handleClose env s tid fd) (fun s' => s'.cm.responses = s.cm.responses ∧
      ∀ k, k ≠ (tid, fd) → s.sm.openedFdMap.lookup k ≠ none → s'.sm.openedFdMap.lookup k ≠ none) := by
  have h1 := (Retains.refl s).getPath tid fd
  unfold Server.handleClose
  generalize s.getPath tid fd = r at h1 ⊢
  obtain ⟨path, s1⟩ := r
  refine .ite (fun _ => ⟨h1.responses, fun k _ => h1.descriptors k⟩) fun _ => ?_
  refine .skip fun i => ?_
  refine .skip fun f => ?_
  refine .bind (Ends.always (fun _ => trivial) _) fun f' _ => ?_
  refine (StorageManager.removeFromTid_ends _ tid fd).bind ?_
  rintro sm ⟨-, hMap, -⟩
  refine ⟨h1.responses, fun k hOther hk => ?_⟩
  rw [show State.sm { s1 with sm := sm } = sm from rfl, hMap k hOther]
  exact h1.descriptors k hk

end Capio.Server
