import Capio.Server.Rules

/-! # Exit of a process

`handle_exit_group` asks `StorageManager::get` for every path the thread is recorded to have
produced.  The record and the storage are two maps: every request but the three that take a key out
of the storage keeps them in step, and those three never touch the record.
-/
namespace Capio.Server.Exit

open Common Lib.Outcome Storage

def ProducedStored (env : Env) (s : State) : Prop :=
  ∀ tid, ∀ path ∈ s.cm.produced tid, env.engine.getCommitRule path = .onTermination →
    s.sm.storage path ≠ none

/-- The request takes the key `path` out of the storage, if it is there. -/
def Removes (env : Env) (s : State) (path : Path) : Op → Prop
  | .unlink _ p => p = path ∧ env.engine.isExcluded path = false ∧
    ∃ i f, s.sm.storage path = some i ∧ s.sm.objects[i]? = some (some f) ∧ f.deletable = true
  | .rmdir _ p => p = path ∧ env.engine.isExcluded path = false
  | .rename _ oldpath newpath => oldpath = path ∧ newpath ≠ path
  | _ => False

/-- No thread has produced what the request removes and an exit would commit. -/
def KeepsProduced (env : Env) (s : State) (r : Request) : Prop :=
  ∀ path, Removes env s path r.op → env.engine.getCommitRule path = .onTermination →
    ∀ tid, path ∉ s.cm.produced tid

theorem ProducedStored.of_storage (hs : ProducedStored env s)
    (hProduced : ∀ t p, p ∈ s'.cm.produced t → p ∈ s.cm.produced t)
    (hStorage : ∀ p, s.sm.storage p ≠ none → s'.sm.storage p ≠ none) : ProducedStored env s' := by
  intro tid path hPath hRule
  exact hStorage path (hs tid path (hProduced tid path hPath) hRule)

theorem storage_storageAt {sm : StorageManager} (h : sm.storage p ≠ none) (path : Path) (new : CapioFile) :
    (sm.storageAt path new).2.storage p ≠ none := by
  unfold StorageManager.storageAt
  cases hPath : sm.storage path with
  | some i => exact h
  | none => grind

theorem ProducedStored.storageAt (hs : ProducedStored env s) (path : Path) (new : CapioFile) :
    ProducedStored env { s with sm := (s.sm.storageAt path new).2 } :=
  hs.of_storage (fun _ _ => id) fun _ hp => storage_storageAt hp path new

theorem stable (env : Env) :
    Stable env (ProducedStored env) (fun _ => True) (fun _ => True) fun _ => True where
  benign := fun _ _ _ => trivial
  frame := fun s s' hsm hcm hs => hs.of_storage hcm fun p hp => by rwa [hsm]
  descriptors := fun s m o hs => hs
  object := fun s i f f' hs _ _ => hs
  committed := fun s i f hs _ => hs
  buffer := fun s i f os homeNode hs _ => .always (fun _ => hs) _
  entry := fun s i f os osGrow ino name dir hs _ _ _ => .always (fun _ => hs) _
  store := fun s path isDir size hs _ => hs.storageAt path _
  produced := by
    intro s tid path hs hPath t p hp hRule
    obtain hp | rfl := ClientManager.mem_produced_registerProducedFile hp
    · exact hs t p hp hRule
    · exact hPath

def KeepsBut (removed : Path → Prop) (s s' : State) : Prop :=
  s'.cm.filesCreatedByProducer = s.cm.filesCreatedByProducer ∧
    ∀ p, ¬ removed p → s.sm.storage p ≠ none → s'.sm.storage p ≠ none

theorem KeepsBut.refl (removed : Path → Prop) (s : State) : KeepsBut removed s s := ⟨rfl, fun _ _ => id⟩

theorem KeepsBut.reply (h : KeepsBut removed s s1) (tid : Tid) (offset : Int) :
    Yields (s1.reply tid offset) (KeepsBut removed s) := by
  refine (s1.reply_ends tid offset).mono ?_ fun _ _ => trivial
  rintro s2 ⟨hsm, _, _, hcm⟩
  exact ⟨hcm.trans h.1, hsm ▸ h.2⟩

theorem KeepsBut.deleteLocation (h : KeepsBut removed s s1) (env : Env) (path : Path) :
    Yields (s1.deleteLocation env path) (fun r => KeepsBut removed s r.2) := by
  exact .skip fun _ => h

theorem remove_keepsBut (s : State) (removed : Path → Prop) (hPath : removed path) :
    Yields (s.sm.remove path) (fun sm => KeepsBut removed s { s with sm := sm }) := by
  refine (s.sm.remove_ends path).imp ?_
  rintro sm ⟨hStorage, -⟩
  refine ⟨rfl, fun p hp hStored => ?_⟩
  have hNe : p ≠ path := by
    rintro rfl
    exact hp hPath
  simpa [hNe, hStorage] using hStored

theorem unlink_keepsBut (env : Env) (s : State) (tid : Tid) (path : Path) :
    Yields (unlinkHandler env s tid path) (KeepsBut (fun p => Removes env s p (.unlink tid path)) s) := by
  refine .ite (fun _ => (KeepsBut.refl _ s).reply tid _) fun hExcluded => ?_
  cases hPath : s.sm.tryGet path with
  | none => exact (KeepsBut.refl _ s).reply tid (-1)
  | some i =>
    refine (s.sm.object_ends i).weaken.bind fun f hf => ?_
    refine .bind ?_ fun s1 hs1 => KeepsBut.reply hs1 tid 0
    refine .ite (fun hDeletable => ?_) fun _ => KeepsBut.refl _ s
    have hRemoves : Removes env s path (.unlink tid path) :=
      ⟨rfl, by simpa using hExcluded, i, f, hPath, hf, hDeletable⟩
    refine (remove_keepsBut s (fun p => Removes env s p (.unlink tid path)) hRemoves).bind
      fun sm hsm => ?_
    exact (hsm.deleteLocation env path).bind fun r hr => hr

theorem rmdir_keepsBut (env : Env) (s : State) (tid : Tid) (path : Path) :
    Yields (rmdirHandler env s tid path) (KeepsBut (fun p => Removes env s p (.rmdir tid path)) s) := by
  refine .ite (fun _ => (KeepsBut.refl _ s).reply tid _) fun hExcluded => ?_
  have hRemoves : Removes env s path (.rmdir tid path) := ⟨rfl, by simpa using hExcluded⟩
  refine (remove_keepsBut s (fun p => Removes env s p (.rmdir tid path)) hRemoves).bind fun sm hsm => ?_
  exact (hsm.deleteLocation env path).bind fun r hr => hr.reply tid r.1

theorem rename_storage (sm : StorageManager) (hp : p = oldpath → newpath = oldpath)
    (h : sm.storage p ≠ none) : (sm.rename oldpath newpath).storage p ≠ none := by
  unfold StorageManager.rename
  dsimp only
  cases hOld : sm.storage oldpath with
  | none => exact h
  | some i =>
    by_cases hNew : p = newpath
    · subst hNew
      dsimp only
      split
      · simp
      · rename_i j hj
        simp only [hj]
        simp
    · have hNe : p ≠ oldpath := fun hOld => hNew (hOld.trans (hp hOld).symm)
      dsimp only
      split
      · simpa [hNew, hNe] using h
      · simpa [hNe] using h

theorem rename_keepsBut (env : Env) (s : State) (tid : Tid) (oldpath newpath : Path) :
    Yields (handleRename env s tid oldpath newpath)
      (KeepsBut (fun p => Removes env s p (.rename tid oldpath newpath)) s) := by
  unfold Server.handleRename
  cases s.sm.tryGet oldpath with
  | none => exact (KeepsBut.refl _ s).reply tid 1
  | some i =>
    have hRename : KeepsBut (fun p => Removes env s p (.rename tid oldpath newpath)) s
        { s with sm := s.sm.rename oldpath newpath } := by
      refine ⟨rfl, fun p hp => rename_storage s.sm ?_⟩
      rintro rfl
      by_contra hNe
      exact hp ⟨rfl, hNe⟩
    refine (hRename.deleteLocation env oldpath).bind fun r hr => ?_
    apply KeepsBut.reply
    split <;> exact hr

theorem KeepsBut.producedStored (hs : ProducedStored env s) (hr : KeepsProduced env s r)
    (h : KeepsBut (fun p => Removes env s p r.op) s s') : ProducedStored env s' := by
  intro tid path hPath hRule
  have hBefore : path ∈ s.cm.produced tid := by rwa [ClientManager.produced, h.1] at hPath
  exact h.2 path (fun hRemoves => hr path hRemoves hRule tid hBefore) (hs tid path hBefore hRule)

theorem step_producedStored (hs : ProducedStored env s) (hr : KeepsProduced env s r) :
    Yields (step env s r) (ProducedStored env) := by
  apply (stable env).step_of_object (fun s i f hs => hs) (fun s path hs => hs.storageAt path {}) hs
  obtain ⟨op, os⟩ := r
  cases op with
  | unlink tid path =>
    exact (unlink_keepsBut env s tid path).imp (fun s' h => h.producedStored hs hr)
  | rmdir tid path =>
    exact (rmdir_keepsBut env s tid path).imp (fun s' h => h.producedStored hs hr)
  | rename tid oldpath newpath =>
    exact (rename_keepsBut env s tid oldpath newpath).imp (fun s' h => h.producedStored hs hr)
  | _ => trivial

theorem boot_producedStored (env : Env) (os : Nat → Os) (serverPid : Tid) (files : Node → List Char) :
    Yields (boot env os serverPid files) (ProducedStored env) := by
  have hEmpty : ProducedStored env { locations := ⟨files, fun _ => none⟩ } := by
    intro tid path hPath
    cases hPath
  refine ((stable env).addDirectory hEmpty serverPid trivial fun _ => trivial).bind ?_
  rintro ⟨result, s⟩ hs
  exact hs

def Found (e : Failure) : Prop := ∀ path, e ≠ .fileNotFound path

theorem dump_found (f : CapioFile) : Ends f.dump (fun _ => True) Found := by
  unfold CapioFile.dump
  split
  · split
    · trivial
    · split
      · trivial
      · exact fun _ => Failure.noConfusion
  · trivial

theorem object_found (sm : StorageManager) (i : Nat) : Ends (sm.object i) (fun _ => True) Found := by
  refine (sm.object_ends i).mono (fun _ _ => trivial) ?_
  rintro e rfl
  exact fun _ => Failure.noConfusion

theorem commitOnTermination_found
    (hPath : env.engine.getCommitRule path = .onTermination → s.sm.storage path ≠ none) :
    Ends (commitOnTermination env s path) (fun s' => s'.sm.storage = s.sm.storage) Found := by
  refine .ite (fun hRule => ?_) fun _ => rfl
  obtain ⟨i, hi⟩ := Option.ne_none_iff_exists'.mp (hPath hRule)
  refine .bind (Q := fun _ => True) ?_ fun j _ => ?_
  · rw [StorageManager.get, hi]
    trivial
  refine (object_found s.sm j).bind fun f _ => ?_
  refine .bind (Q := fun _ => True) ?_ fun _ _ => rfl
  exact .ite (fun _ => trivial) fun _ => dump_found _

theorem removeFromTid_found (sm : StorageManager) (tid : Tid) (fd : Fd) :
    Ends (sm.removeFromTid tid fd) (fun _ => True) Found := by
  unfold StorageManager.removeFromTid
  generalize sm.descriptor tid fd = r
  obtain ⟨⟨pointer, offset, path⟩, sm1⟩ := r
  refine .ite (fun _ => trivial) fun _ => ?_
  cases pointer with
  | none => exact fun _ => Failure.noConfusion
  | some i =>
    refine .bind (Q := fun _ => True) ?_ fun _ _ => trivial
    exact (object_found sm1 i).bind fun _ _ => trivial

theorem handleClose_found (env : Env) (s : State) (tid : Tid) (fd : Fd) :
    Ends (handleClose env s tid fd) (fun _ => True) Found := by
  unfold Server.handleClose
  generalize s.getPath tid fd = r
  obtain ⟨path, s1⟩ := r
  refine .ite (fun _ => trivial) fun _ => ?_
  refine .bind (Q := fun _ => True) ?_ fun i _ => ?_
  · refine (s1.sm.getOfFd_ends tid fd).mono (fun _ _ => trivial) ?_
    rintro e (rfl | rfl)
    · exact fun _ => Failure.noConfusion
    · exact fun _ => Failure.noConfusion
  refine (object_found s1.sm i).bind fun f _ => ?_
  refine .bind (Q := fun _ => True) (Ends.ite (fun _ => dump_found _) fun _ => trivial) fun f' _ => ?_
  exact (removeFromTid_found _ tid fd).bind fun _ _ => trivial

theorem handleExitGroup_found (hs : ProducedStored env s) (tid : Tid) :
    Ends (handleExitGroup env s tid) (fun _ => True) Found := by
  refine .bind (Q := fun s' => s'.sm.storage = s.sm.storage) ?_ fun s1 _ => ?_
  · refine .foldlM (fun path hPath s1 hs1 => ?_) rfl
    have hProduced : path ∈ s.cm.produced tid := (env.pathOrder_perm _).mem_iff.mp hPath
    refine (commitOnTermination_found fun hRule => ?_).imp (fun _ h => h.trans hs1)
    rw [hs1]
    exact hs tid path hProduced hRule
  refine .bind (Q := fun _ => True) ?_ fun _ _ => trivial
  exact .foldlM (fun fd _ s2 _ => handleClose_found env s2 tid fd) trivial

/-- In every run in which nothing is removed that an exit would commit, every exit finds what it
asks for. -/
theorem exit_group_finds_produced_files {env : Env} {os : Nat → Os} {serverPid : Tid}
    {files : Node → List Char} {s0 s : State} {requests : List Request}
    (hBoot : boot env os serverPid files = .ok s0)
    (hKeeps : Meets (KeepsProduced env) (step env) s0 requests)
    (hRun : requests.foldlM (step env) s0 = .ok s) (tid : Tid) :
    (∀ path ∈ s.cm.produced tid, env.engine.getCommitRule path = .onTermination →
      s.sm.storage path ≠ none) ∧
    ∀ path, handleExitGroup env s tid ≠ .error (.fileNotFound path) := by
  have hs0 := (boot_producedStored env os serverPid files).result hBoot
  have hs : ProducedStored env s :=
    (run_ends (fun _ _ hs hr => step_producedStored hs hr) hs0 requests hKeeps).result hRun
  refine ⟨hs tid, fun path hExit => ?_⟩
  exact (handleExitGroup_found hs tid).failure hExit path rfl

def termination : Env := Env.plain .onTermination false 0

def booted : Except Failure State := boot termination (fun _ => Os.plain 0) 1 fun _ => []

def createAndClose : List Request :=
  plainRequests 0 [.handshake 7 ['a'] false, .create 7 3 "/d/f".toList, .close 7 3]

theorem createAndClose_meets (s : State) :
    Meets (KeepsProduced termination) (step termination) s createAndClose :=
  ⟨fun _ h => h.elim, fun _ _ => ⟨fun _ h => h.elim, fun _ _ => ⟨fun _ h => h.elim, fun _ _ => trivial⟩⟩⟩

theorem exit_group_after_close_finds :
    ∃ s0 s, booted = .ok s0 ∧ createAndClose.foldlM (step termination) s0 = .ok s ∧
      ∀ path, handleExitGroup termination s 7 ≠ .error (.fileNotFound path) := by
  have hOk : failure (booted >>= fun s => createAndClose.foldlM (step termination) s) = none := by
    decide +kernel
  obtain ⟨s, hAll⟩ := exists_of_failure_eq_none hOk
  obtain ⟨s0, hBoot, hRun⟩ := exists_of_bind_eq_ok hAll
  refine ⟨s0, s, hBoot, hRun, ?_⟩
  exact (exit_group_finds_produced_files hBoot (createAndClose_meets s0) hRun 7).2

def closeAndUnlink : List Request := createAndClose ++ plainRequests 0 [.unlink 7 "/d/f".toList]

theorem exit_group_after_unlink_fails :
    ∃ s, (booted >>= fun s => closeAndUnlink.foldlM (step termination) s) = .ok s ∧
      handleExitGroup termination s 7 = .error (.fileNotFound "/d/f".toList) :=
  exists_of_failure_bind (by decide +kernel) (by decide +kernel)

end Capio.Server.Exit
