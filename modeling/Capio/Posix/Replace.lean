import Capio.Posix.Opens
import Capio.Server.DescriptorMap

/-! # Duplicating a descriptor onto another one

`dup2` and `dup3` put a descriptor in the place of another one, which is closed first if it is open.
The client enters it into its tables with `insert`, the server assigns to its map, and neither of them
closes anything.
-/
namespace Capio.Posix.Replace

open Common Lib.Outcome Storage Posix.Client Posix.Opens
open Server (writeHandler)

inductive Dup
  | dup2
  | dup3 (flags : Nat)

def Dup.handler (call : Dup) (c : Client) (tid : Tid) (fd fd2 : Fd) : Except Client.Stop Client :=
  match call with
  | .dup2 => c.dup2Handler tid fd fd2
  | .dup3 flags => c.dup3Handler tid fd fd2 flags fd2

def Dup.isCloexec : Dup → Bool
  | .dup2 => false
  | .dup3 flags => hasFlag flags Client.O_CLOEXEC

section

variable (env : Server.Env) (tid : Tid) (fd fd2 : Fd)

def replace (i : Input) (call : Dup) (w : World) : Except Halt World := do
  let client ← (call.handler w.client tid fd fd2).mapError .client
  let server ← ((requests w.client.sent.length client).foldlM (serve env i) w.server).mapError .server
  pure ⟨client, server⟩

structure Released (k : Tid × Fd) (again : Bool) (f f' : CapioFile) : Prop where
  opens : f'.nOpens = f.nOpens - 1 + if again then 1 else 0
  descriptors : f'.threadsFd.count k = if again then 1 else 0

def objectOf (s : Server.State) (g : Fd) : Option Nat :=
  (s.sm.openedFdMap.lookup (tid, g)).bind Server.Descriptor.pointer

/-- The descriptor `fd2` stands for what `fd` stands for, and is no longer open on its old file, which
gets the bytes that were written to it before. -/
structure Replaces (w w' : World) : Prop where
  path : w'.client.fs.capioFilesDescriptors fd2 = w.client.fs.capioFilesDescriptors fd
  offset : (w'.client.fs.files fd2).map FileEntry.offset = (w.client.fs.files fd).map FileEntry.offset
  entry : w'.server.sm.openedFdMap.lookup (tid, fd2) = w.server.sm.openedFdMap.lookup (tid, fd)
  released : ∀ i f, objectOf tid w.server fd2 = some i → w.server.sm.objects[i]? = some (some f) →
    ∃ f', w'.server.sm.objects[i]? = some (some f') ∧
      Released (tid, fd2) (objectOf tid w.server fd == some i) f f'
  bytes : ∀ n : Nat, n ≠ 0 → (w.client.write tid).fd = fd2 → (w.client.write tid).actualSize = n →
    ∀ i offset, objectOf tid w.server fd2 = some i → w.server.sm.getFileOffset tid fd2 = .ok offset →
    ∀ input s, (requests w.client.sent.length (w'.client.flushWrite tid)).foldlM (serve env input)
        w.server = .ok s →
      ∃ f, s.sm.objects[i]? = some (some f) ∧
        f.loadBytes offset.toNat n = .ok ((List.range n).map input.bytes)
  writes : ∀ input n, serve env input w'.server (.write tid fd2 n) =
    serve env input w'.server (.write tid fd n)

end

section

variable {tid : Tid} {fd fd2 : Fd} {call : Dup}

theorem handler_eq (hFd : c.fs.files fd ≠ none) (hNe : fd ≠ fd2) (hGiven : fd2 ≠ -1) :
    call.handler c tid fd fd2 = c.duplicate tid fd fd2 call.isCloexec := by
  have hExists : c.fs.existsCapioFd fd = true := Option.isSome_iff_ne_none.mpr hFd
  cases call with
  | dup2 =>
    change c.dup2Handler tid fd fd2 = _
    unfold Client.dup2Handler
    rw [if_pos hExists, if_neg hGiven, if_pos hNe]
    rfl
  | dup3 flags =>
    change c.dup3Handler tid fd fd2 flags fd2 = _
    unfold Client.dup3Handler
    rw [if_pos hExists, if_neg hNe, if_neg hGiven]
    rfl

theorem replace_eq (hFd : w.client.fs.files fd ≠ none) (hNe : fd ≠ fd2) (hGiven : fd2 ≠ -1) :
    replace env tid fd fd2 i call w = (do
      let fs ← (w.client.fs.dupCapioFd fd fd2 call.isCloexec).mapError (Halt.client ∘ Client.Stop.missing)
      let sm ← (w.server.sm.dup tid fd fd2).mapError Halt.server
      pure ⟨{ w.client.send (.dup tid fd fd2) with fs := fs }, { w.server with sm := sm }⟩) := by
  unfold replace
  rw [handler_eq hFd hNe hGiven]
  change ((w.client.fs.dupCapioFd fd fd2 call.isCloexec).mapError Client.Stop.missing >>= _).mapError _ >>= _ = _
  cases w.client.fs.dupCapioFd fd fd2 call.isCloexec with
  | error e => rfl
  | ok fs =>
    change Except.mapError Halt.server ((requests w.client.sent.length
      { w.client.send (.dup tid fd fd2) with fs := fs }).foldlM (serve env i) w.server) >>= _ = _
    have hRequests : requests w.client.sent.length { w.client.send (.dup tid fd fd2) with fs := fs } =
        [.dup tid fd fd2] := List.drop_left
    rw [hRequests]
    change ((Server.dupHandler w.server tid fd fd2 >>= pure).mapError _) >>= _ = _
    unfold Server.dupHandler
    rw [if_pos hNe]
    cases w.server.sm.dup tid fd fd2 with
    | error e => rfl
    | ok sm => rfl

theorem writeHandler_congr (hfd : s.sm.openedFdMap.lookup (tid, fd) = some d)
    (hg : s.sm.openedFdMap.lookup (tid, g) = some d) (data : List Byte) :
    writeHandler env os s tid g data = writeHandler env os s tid fd data := by
  have hDescriptor : ∀ {sm : Server.StorageManager} {g' : Fd}, sm.openedFdMap = s.sm.openedFdMap →
      s.sm.openedFdMap.lookup (tid, g') = some d → sm.descriptor tid g' = (d, sm) := by
    grind [Server.StorageManager.descriptor]
  have hPath : ∀ {g' : Fd}, s.sm.openedFdMap.lookup (tid, g') = some d →
      s.getPath tid g' = (d.path, s) := by
    intro g' hg'
    unfold Server.State.getPath Server.StorageManager.getPath
    rw [hDescriptor rfl hg']
  have hOffset : s.sm.getFileOffset tid g = s.sm.getFileOffset tid fd := by
    grind [Server.StorageManager.getFileOffset]
  unfold writeHandler
  rw [hOffset, hPath hg, hPath hfd]
  refine bind_congr fun offset => bind_congr fun i => if_congr Iff.rfl rfl (if_congr Iff.rfl rfl ?_)
  refine bind_congr fun f => bind_congr fun f' => ?_
  refine (Server.registerWrittenData_same tid i d.path f').bind_congr fun s2 h2 => ?_
  grind [Server.StorageManager.setFileOffset, h2.map]

theorem released_of_replaces (hLinked : Server.DescriptorMap.Linked w.server.sm)
    (hReplace : w.server.sm.dup tid fd fd2 = .ok w'.server.sm) (h : Replaces env tid fd fd2 w w') :
    w.server.sm.openedFdMap.lookup (tid, fd2) = none := by
  cases hOld : w.server.sm.openedFdMap.lookup (tid, fd2) with
  | none => rfl
  | some d2 =>
    exfalso
    obtain ⟨j, hj, hStored⟩ := hLinked.entry _ d2 hOld
    obtain ⟨f2, hf2⟩ := hLinked.wellFormed.objects _ j hStored
    have hObject2 : objectOf tid w.server fd2 = some j := by
      unfold objectOf
      rw [hOld]
      exact hj
    obtain ⟨f', hf', hReleased⟩ := h.released j f2 hObject2 hf2
    obtain ⟨d, k, f, hd, hk, hf, hsm⟩ := (w.server.sm.dup_adds tid fd fd2).result hReplace
    have hObject : objectOf tid w.server fd = some k := by
      unfold objectOf
      rw [hd]
      exact hk
    have hOpens := hReleased.opens
    rw [hObject] at hOpens
    rw [hsm] at hf'
    obtain ⟨rfl, rfl⟩ | ⟨hNe, hf'⟩ := Server.StorageManager.getElem?_setObject hf'
    · -- both are open on one file, which counts one more
      obtain rfl : f = f2 := Option.some.inj (Option.some.inj (hf.symm.trans hf2))
      change f.nOpens + 1 = _ at hOpens
      omega
    · grind

theorem replaces_of_free (hInv : Filesystem.Inv w.client.fs)
    (hKnown : ∀ g, w.client.fs.files g ≠ none → w.server.sm.openedFdMap.lookup (tid, g) ≠ none)
    (hLinked : Server.DescriptorMap.Linked w.server.sm) (hFd : w.client.fs.files fd ≠ none)
    (hNe : fd ≠ fd2) (hGiven : fd2 ≠ -1) (hFree : w.server.sm.openedFdMap.lookup (tid, fd2) = none) :
    ∃ w', replace env tid fd fd2 i call w = .ok w' ∧ Replaces env tid fd fd2 w w' := by
  have hFreeClient : w.client.fs.files fd2 = none := by
    by_contra hOpen
    exact hKnown fd2 hOpen hFree
  have hNoObject : objectOf tid w.server fd2 = none := by
    unfold objectOf
    rw [hFree]
    rfl
  obtain ⟨d, hd⟩ := Option.ne_none_iff_exists'.mp (hKnown fd hFd)
  obtain ⟨fs, f, path, hfs, -, hf, hPath, hDescriptors, hFiles, -⟩ :=
    Filesystem.dupCapioFd_inv hInv hFd hFreeClient call.isCloexec
  obtain ⟨sm, hsm, -, hMap⟩ := hLinked.dup hd hFree
  have hEntry : sm.openedFdMap.lookup (tid, fd2) = some d := by
    rw [hMap, AList.lookup_insert]
  have hKept : sm.openedFdMap.lookup (tid, fd) = some d := by
    rw [hMap, AList.lookup_insert_ne fun h => hNe (congrArg Prod.snd h), hd]
  refine ⟨⟨{ w.client.send (.dup tid fd fd2) with fs := fs }, { w.server with sm := sm }⟩, ?_, ?_⟩
  · rw [replace_eq hFd hNe hGiven, hfs, hsm]
    rfl
  · refine ⟨?_, ?_, hEntry.trans hd.symm, ?_, ?_, ?_⟩
    · simp [hDescriptors, hPath]
    · simp [hFiles, hf]
    · intro j f hj
      cases hNoObject.symm.trans hj
    · intro n _ _ _ j offset hj
      cases hNoObject.symm.trans hj
    · intro input n
      exact writeHandler_congr (s := { w.server with sm := sm }) hKept hEntry _

/-- In every state in which the tables of the client are consistent and the server knows its
descriptors, a duplicate replaces a descriptor exactly if that one is not open. -/
theorem dup_replaces_iff (i : Input) (call : Dup) (hInv : Filesystem.Inv w.client.fs)
    (hKnown : ∀ g, w.client.fs.files g ≠ none → w.server.sm.openedFdMap.lookup (tid, g) ≠ none)
    (hLinked : Server.DescriptorMap.Linked w.server.sm) (hFd : w.client.fs.files fd ≠ none) (hNe : fd ≠ fd2)
    (hGiven : fd2 ≠ -1) : (∃ w', replace env tid fd fd2 i call w = .ok w' ∧ Replaces env tid fd fd2 w w') ↔
      w.server.sm.openedFdMap.lookup (tid, fd2) = none := by
  constructor
  · rintro ⟨w', hReplace, h⟩
    rw [replace_eq hFd hNe hGiven] at hReplace
    obtain ⟨fs, -, hReplace⟩ := exists_of_bind_eq_ok hReplace
    obtain ⟨sm, hsm, hReplace⟩ := exists_of_bind_eq_ok hReplace
    cases hReplace
    exact released_of_replaces hLinked (eq_ok_of_mapError hsm) h
  · exact replaces_of_free hInv hKnown hLinked hFd hNe hGiven

end

def file : Path := "/d/a".toList

/-- A file is open as descriptor 3 of thread 1, and nothing else is. -/
theorem dup_replaces_free : ∃ fs sm, ({} : Filesystem).addCapioFd file 3 0 0 0 false = .ok fs ∧
    (Server.StorageManager.storageAt {} file).2.addNewFd 1 3 file 0 true = .ok sm ∧
    ∃ w', replace included 1 3 5 (plainInput (.fstat 3 0)) .dup2
        ⟨{ fs := fs }, { sm := sm, locations := ⟨fun _ => [], fun _ => none⟩ }⟩ = .ok w' ∧
      Replaces included 1 3 5
        ⟨{ fs := fs }, { sm := sm, locations := ⟨fun _ => [], fun _ => none⟩ }⟩ w' := by
  obtain ⟨fs, hfs, hInv, -, hFiles, -⟩ : ∃ fs, ({} : Filesystem).addCapioFd file 3 0 0 0 false = .ok fs ∧ _ :=
    Filesystem.addCapioFd_inv Filesystem.inv_init rfl 0 0 0 false
  have hLinked : Server.DescriptorMap.Linked (Server.StorageManager.storageAt {} file).2 :=
    Server.DescriptorMap.linked_init.storageAt file rfl
  obtain ⟨sm, hsm, hLinked, -, -, hMap⟩ :
      ∃ sm, (Server.StorageManager.storageAt {} file).2.addNewFd 1 3 file 0 true = .ok sm ∧ _ :=
    hLinked.addNewFd (i := 0) rfl (by decide) 0 true
  refine ⟨fs, sm, hfs, hsm, (dup_replaces_iff _ .dup2 hInv ?_ hLinked ?_ (by decide) (by decide)).mpr ?_⟩
  · simp [hMap, hFiles, Function.update_apply]
  · simp [hFiles]
  · rw [hMap, AList.lookup_insert_ne (by decide)]
    rfl

def twoFiles : List Input :=
  [.openat none file Client.O_CREAT 3 none, .openat none "/d/b".toList Client.O_CREAT 4 none,
    .write 4 [7, 7] 2].map plainInput

structure Observed where
  nOpens : Int
  threadsFd : List (Tid × Fd)
  bytes : Option (List Byte)
  deriving DecidableEq

def observe (s : Server.State) (path : Path) : Option Observed := do
  let i ← s.sm.storage path
  let f ← s.sm.objects[i]?.join
  pure ⟨f.nOpens, f.threadsFd, (f.loadBytes 0 f.getStoredSize).toOption⟩

/-- The client and the server have different files for the descriptor, and the server counts it for
both. -/
def Divided (w : World) : Prop :=
  w.client.fs.capioFilesDescriptors 4 = some "/d/b".toList ∧
    (w.server.sm.openedFdMap.lookup (1, 4)).map Server.Descriptor.path = some file ∧
    observe w.server file = some ⟨2, [(1, 3), (1, 4)], none⟩ ∧
    observe w.server "/d/b".toList = some ⟨1, [(1, 4)], none⟩

instance (w : World) : Decidable (Divided w) := inferInstanceAs (Decidable (_ ∧ _))

/-- The descriptor of the second file is made one of the first.  The bytes written to it before go to
the first file. -/
theorem dup_keeps_old_file : ∃ s, started included = .ok s ∧
    ∃ w, twoFiles.foldlM (step included Keys.fresh 4 1) ⟨{}, s⟩ = .ok w ∧
    ∃ w', replace included 1 3 4 (plainInput (.fstat 3 0)) .dup2 w = .ok w' ∧ Divided w' ∧
      ∃ s', (requests w.client.sent.length (w'.client.flushWrite 1)).foldlM
          (serve included (plainInput (.fstat 3 0))) w.server = .ok s' ∧
        observe s' file = some ⟨2, [(1, 3), (1, 4)], some [7, 7]⟩ ∧
        observe s' "/d/b".toList = some ⟨1, [(1, 4)], none⟩ := by
  decide +kernel

end Capio.Posix.Replace
