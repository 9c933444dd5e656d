import Capio.Server.LocationTable

/-! # Exclusive creation on several nodes

The servers of a cluster share the location files, and each request is handled by one of them on its own
storage and table.  The exclusive creation of a path looks only at the storage of its node.  It succeeds
at most once between two removals as long as the path is created only where it is stored already.
-/
namespace Capio.Server.ExclusiveCreate

open Common Lib.Lines Lib.Outcome Storage LocationTable Function List Option

/-- The servers of all nodes; `created` says that an exclusive creation of the path was answered 0
since its last removal. -/
structure World where
  files : Node → List Char
  servers : Node → State
  created : Bool

def World.view (w : World) (n : Node) : State :=
  { w.servers n with locations := ⟨w.files, (w.servers n).locations.table⟩ }

def World.put (w : World) (n : Node) (s : State) : World :=
  { w with files := s.locations.files, servers := update w.servers n s }

structure Input where
  node : Node
  request : Request

def nodeEnv (env : Env) (n : Node) : Env := { env with nodeName := n }

def Answered (s s' : State) (tid : Tid) (value : Int) : Prop :=
  s'.cm.replies = ⟨tid, value, []⟩ :: s.cm.replies

instance (s s' : State) (tid : Tid) (value : Int) : Decidable (Answered s s' tid value) :=
  inferInstanceAs (Decidable (_ = _))

def Succeeds (s s' : State) : Op → Prop
  | .createExclusive tid _ _ => Answered s s' tid 0
  | _ => False

instance (s s' : State) : DecidablePred (Succeeds s s') :=
  fun op => by
    apply Op.casesOn (motive := fun op => Decidable (Succeeds s s' op)) op <;> intros <;>
      dsimp only [Succeeds] <;> infer_instance

def createdAfter (p : Path) (op : Op) (s s' : State) (created : Bool) : Bool :=
  if s.sm.storage p ≠ none ∧ s'.sm.storage p = none then false
  else created || decide (Succeeds s s' op)

def step (env : Env) (p : Path) (w : World) (i : Input) : Except Failure World := do
  let s := w.view i.node
  let s' ← Server.step (nodeEnv env i.node) s i.request
  pure { w.put i.node s' with created := createdAfter p i.request.op s s' w.created }

def boot (env : Env) (os : Node → Nat → Os) (serverPid : Node → Tid) : Except Failure World :=
  env.cluster.nodes.foldlM (fun w n => do
    let s ← Server.boot (nodeEnv env n) (os n) (serverPid n) w.files
    pure (w.put n s)) ⟨fun _ => [], fun _ => { locations := ⟨fun _ => [], fun _ => none⟩ }, false⟩

def Concerns (p : Path) : Op → Prop
  | .handshake .. | .close .. => True
  | .create _ _ path | .createExclusive _ _ path | .unlink _ path => path = p
  | _ => False

def Allowed (env : Env) (p : Path) (i : Input) : Prop :=
  i.node ∈ env.cluster.nodes ∧ Concerns p i.request.op

/-- No exclusive creation is answered 0 while an earlier one counts or a location file has the path. -/
def ExclusiveOnce (env : Env) (p : Path) (w : World) (i : Input) : Prop :=
  match i.request.op with
  | .createExclusive tid _ _ =>
    (w.created = true ∨ ∃ n ∈ env.cluster.nodes, findRecord (w.files n) p ≠ none) →
      Ends (Server.step (nodeEnv env i.node) (w.view i.node) i.request)
        (fun s' => ¬ Answered (w.view i.node) s' tid 0) fun e => e = .noClientBuffers tid
  | _ => True

/-- A creation of the path is handled by a node that stores it, or while no node does. -/
def Routed (env : Env) (p : Path) (w : World) (i : Input) : Prop :=
  match i.request.op with
  | .create .. | .createExclusive .. => (w.servers i.node).sm.storage p ≠ none ∨
    ∀ n ∈ env.cluster.nodes, (w.servers n).sm.storage p = none
  | _ => True

/-! ## The record of the path on one node -/

def Clean (p : Path) (text : List Char) : Prop :=
  ∃ L : List (List Char), text = L.flatten ∧ ∀ l ∈ L, IsLine '\n' l ∧ records p l = false

theorem Clean.findRecord (h : Clean p text) : findRecord text p = none := by
  obtain ⟨L, rfl, hL⟩ := h
  grind [Server.findRecord, lines_flatten, findLine_eq_none_iff]

def Erasable (p : Path) (self : Node) (text : List Char) (offset : Int) : Prop :=
  offset = -1 ∧ Clean p text ∨
    ∃ before, Clean p before ∧ offset = before.length ∧ text = before ++ locationLine self p

theorem Clean.invalidate (h : Clean p before) (hSelf : '\n' ∉ self) (hPath : '\n' ∉ p) :
    Clean p (invalidate self self (before ++ locationLine self p) before.length) := by
  obtain ⟨L, rfl, hL⟩ := h
  obtain ⟨hLine, hLength⟩ := LocationFiles.locationLine_formed hSelf hPath
  generalize locationLine self p = line at hLine hLength
  cases line with
  | nil => simp at hLength
  | cons c rest =>
    have hRest : rest ≠ [] := by
      rintro rfl
      simp at hLength
    refine ⟨L ++ [CAPIO_SERVER_INVALIDATE_FILE_PATH_CHAR :: rest], ?_, fun l hl => ?_⟩
    · have hText : L.flatten ++ c :: rest = (L ++ (c :: rest) :: []).flatten := by simp
      unfold Server.invalidate
      rw [if_pos rfl, hText, overwrite_flatten]
    · rw [mem_append, mem_singleton] at hl
      obtain hl | rfl := hl
      · exact hL l hl
      · exact ⟨hLine.overwrite_head hRest (by decide), LocationFiles.records_invalidated p rest⟩

structure Kept (env : Env) (p : Path) (s : State) : Prop where
  published : some true ∉ flags s.sm
  free : s.sm.storage p = none →
    s.locations.table p = none ∧ Clean p (s.locations.files env.nodeName)
  stored : s.sm.storage p ≠ none → ∃ offset own,
    s.locations.table p = some ⟨env.nodeName, offset, own⟩ ∧
      Erasable p env.nodeName (s.locations.files env.nodeName) offset

section

variable {env : Env} {p : Path} {s s' : State}

theorem Kept.keeps (h : Kept env p s) (hKeeps : Keeps s s') : Kept env p s' := by
  refine ⟨?_, ?_, ?_⟩
  · rw [hKeeps.flags]
    exact h.published
  · rw [hKeeps.storage, hKeeps.locations]
    exact h.free
  · rw [hKeeps.storage, hKeeps.locations]
    exact h.stored

structure Serves (env : Env) (p : Path) (s s' : State) : Prop where
  kept : Kept env p s'
  others : ∀ n ≠ env.nodeName, s'.locations.files n = s.locations.files n

theorem Kept.serves (h : Kept env p s) (hKeeps : Keeps s s') : Serves env p s s' :=
  ⟨h.keeps hKeeps, fun n _ => by rw [hKeeps.locations]⟩

theorem Serves.keeps (h : Serves env p s s1) (hKeeps : Keeps s1 s') : Serves env p s s' :=
  ⟨h.kept.keeps hKeeps, fun n hn => by rw [hKeeps.locations, h.others n hn]⟩

theorem Kept.firstWrite (h : Kept env p s) {i : Nat} (hf : s.sm.objects[i]? = some (some f)) :
    f.firstWrite = false := by
  by_contra hFirst
  refine h.published ?_
  rw [← Bool.eq_true_of_not_eq_false hFirst]
  exact mem_map.mpr ⟨some f, mem_of_getElem? hf, rfl⟩

theorem Kept.updateDirectory (h : Kept env p s) (tid : Tid) (filePath : Path) :
    Yields (updateDirectory env os s tid filePath) (Keeps s) := by
  refine .skip fun i => ?_
  refine (s.sm.object_ends i).weaken.bind fun f hf => ?_
  grind [h.firstWrite, keeps_addDirectoryEntry]

theorem Kept.create (h : Kept env p s) (hFree : s.sm.storage p = none) (tid : Tid) (fd : Fd) :
    Yields (updateFileMetadata env os s p tid fd true 0)
      (fun s' => Serves env p s s' ∧ s'.sm.storage p ≠ none) := by
  obtain ⟨hEntry, hClean⟩ := h.free hFree
  obtain ⟨new, hNew, hAdd⟩ : ∃ new : CapioFile, new.firstWrite = true ∧
      s.sm.add env p false env.fileInitialSize = (s.sm.objects.length, { s.sm with
        objects := s.sm.objects ++ [some new]
        storage := update s.sm.storage p (some s.sm.objects.length) }) := by
    unfold StorageManager.add StorageManager.storageAt
    rw [hFree]
    exact ⟨_, rfl, rfl⟩
  unfold Server.updateFileMetadata
  rw [hAdd]
  have hFlags : flags { s.sm with
      objects := s.sm.objects ++ [some new]
      storage := update s.sm.storage p (some s.sm.objects.length) } = flags s.sm ++ [some true] := by
    simp [flags, hNew]
  have hAt : update s.sm.storage p (some s.sm.objects.length) p = some s.sm.objects.length :=
    update_self ..
  generalize update s.sm.storage p (some s.sm.objects.length) = storage at hFlags hAt ⊢
  have hStored : storage p ≠ none := hAt ▸ some_ne_none _
  refine (keeps_addNewFd (s := { s with sm := { s.sm with
    objects := s.sm.objects ++ [some new], storage := storage } }) hStored tid fd 0 true).bind
      fun sm1 hsm1 => ?_
  have hFlags1 : flags sm1 = flags s.sm ++ [some true] := hsm1.flags.trans hFlags
  have hAt1 : sm1.storage p = some s.sm.objects.length := (congrFun hsm1.storage p).trans hAt
  refine (sm1.object_ends _).weaken.bind fun f hf => ?_
  have hFirst : f.firstWrite = true := by
    have hLast : (flags sm1)[s.sm.objects.length]? = some (some f.firstWrite) := by
      unfold flags
      rw [getElem?_map, hf]
      rfl
    grind [length_flags, getElem?_concat_length]
  rw [hFirst]
  refine .ite (fun _ => ?_) fun hNot => absurd rfl hNot
  unfold Server.publish
  rw [StorageManager.modify_eq hf]
  have hServes : Serves env p s (State.writeLocation env
      { s with
        sm := sm1.setObject s.sm.objects.length f.registerFirstWrite
        cm := s.cm.registerProducedFile tid p } p) := by
    refine ⟨⟨?_, fun hNone => ?_, fun _ => ⟨_, true, ?_, .inr ⟨_, hClean, rfl, ?_⟩⟩⟩, fun n hn => ?_⟩
    · change some true ∉ flags (sm1.setObject _ _)
      have hSet : (flags s.sm ++ [some true]).set (flags s.sm).length (some f.registerFirstWrite.firstWrite) =
          flags s.sm ++ [some false] := by simp [CapioFile.registerFirstWrite]
      grind [flags_setObject, length_flags, mem_singleton, h.published]
    · cases hAt1.symm.trans hNone
    · change addFileLocation s.locations.table p _ p = _
      unfold addFileLocation
      rw [hEntry]
      exact update_self ..
    · exact update_self ..
    · exact update_of_ne hn ..
  refine (hServes.kept.updateDirectory tid p).imp (fun s' hs' => ⟨hServes.keeps hs', ?_⟩)
  rw [hs'.storage]
  exact fun hNone => by cases hAt1.symm.trans hNone

theorem delete_clean (hSelf : '\n' ∉ self) (hPath : '\n' ∉ p)
    (hEntry : l.table p = some ⟨self, offset, own⟩) (hErasable : Erasable p self (l.files self) offset) :
    Yields (deleteFromFilesLocation self l p) (fun r => r.2.table p = none ∧ Clean p (r.2.files self) ∧
      ∀ n ≠ self, r.2.files n = l.files n) := by
  unfold deleteFromFilesLocation
  rw [hEntry]
  dsimp only
  obtain ⟨rfl, hClean⟩ | ⟨before, hClean, rfl, hText⟩ := hErasable
  · rw [if_pos rfl, hClean.findRecord]
    exact ⟨update_self .., hClean, fun n _ => rfl⟩
  · refine ⟨update_self .., ?_, fun n hn => update_of_ne hn ..⟩
    change Clean p (update l.files self _ self)
    rw [update_self, hText]
    exact hClean.invalidate hSelf hPath

theorem Kept.remove (h : Kept env p s) (hSelf : '\n' ∉ env.nodeName) (hPath : '\n' ∉ p) :
    Yields (s.sm.remove p) (fun sm => Ends ({ s with sm := sm }.deleteLocation env p)
      (fun r => Serves env p s r.2) fun _ => True) := by
  refine (s.sm.get_ends p).weaken.bind fun i hi => ?_
  refine .skip fun f => ?_
  refine (keeps_removeFds s i _).bind fun sm hsm => ?_
  obtain ⟨offset, own, hEntry, hErasable⟩ := h.stored (by rw [hi]; exact some_ne_none i)
  refine (delete_clean hSelf hPath hEntry hErasable).bind fun r hr => ?_
  refine ⟨⟨?_, fun _ => ⟨hr.1, hr.2.1⟩, fun hStored => absurd (update_self ..) hStored⟩, hr.2.2⟩
  change some true ∉ (sm.objects.set i none).map (Option.map CapioFile.firstWrite)
  rw [map_set]
  intro hMem
  obtain hMem | hEq := mem_or_eq_of_mem_set hMem
  · exact h.published (hsm.flags ▸ hMem)
  · cases hEq

theorem Kept.openStored (h : Kept env p s) (hStored : s.sm.storage p ≠ none) (tid : Tid) (fd : Fd)
    (isCreat : Bool) : Yields (updateFileMetadata env os s p tid fd isCreat 0) (Keeps s) := by
  obtain ⟨i, hi⟩ := ne_none_iff_exists'.mp hStored
  unfold Server.updateFileMetadata StorageManager.add
  rw [StorageManager.storageAt_of_stored hi]
  refine (keeps_addNewFd hStored tid fd 0 true).bind fun sm hsm => ?_
  refine (sm.object_ends i).weaken.bind fun f hf => ?_
  rw [(h.keeps hsm).firstWrite hf]
  exact hsm

theorem locate_of_stored (h : Kept env p s) (hStored : s.sm.storage p ≠ none) :
    s.locate env p = (true, s) := by
  obtain ⟨offset, own, hEntry, -⟩ := h.stored hStored
  unfold State.locate
  rw [hEntry]

theorem locate_of_free (h : Kept env p s) (hFree : s.sm.storage p = none)
    (hClean : ∀ n ∈ env.cluster.nodes, Clean p (s.locations.files n)) : s.locate env p = (false, s) := by
  have hSearch : searchNodes env.cluster (fun _ => []) s.locations.files p env.cluster.nodes = none := by
    by_contra hSome
    obtain ⟨r, hr⟩ := ne_none_iff_exists'.mp hSome
    obtain ⟨n, hn, line, hLine, hRecords, -⟩ := LocationFiles.record_of_searchNodes hr
    have hNone := findLine_eq_none_iff.mp (hClean n hn).findRecord line hLine
    cases hNone.symm.trans hRecords
  unfold State.locate
  rw [(h.free hFree).1]
  unfold State.load loadFileLocation
  rw [hSearch]

def Uncontested (env : Env) (p : Path) (s : State) : Prop :=
  s.sm.storage p ≠ none ∨ ∀ n ∈ env.cluster.nodes, Clean p (s.locations.files n)

theorem Kept.handleCreate (h : Kept env p s) (hRoute : Uncontested env p s) (tid : Tid) (fd : Fd) :
    Yields (handleCreate env os s tid fd p) (Serves env p s) := by
  unfold Server.handleCreate
  by_cases hStored : s.sm.storage p = none
  · rw [locate_of_free h hStored (hRoute.resolve_left fun hNot => hNot hStored)]
    refine (h.create hStored tid fd).bind fun s1 h1 => ?_
    exact (keeps_reply s1 tid 0).imp (fun _ => h1.1.keeps)
  · rw [locate_of_stored h hStored]
    refine (h.openStored hStored tid fd _).bind fun s1 h1 => ?_
    exact (keeps_reply s1 tid 0).imp (fun _ h2 => h.serves (h1.trans h2))

theorem Kept.handleCreateExclusive (h : Kept env p s) (tid : Tid) (fd : Fd) :
    Yields (handleCreateExclusive env os s tid fd p)
      (fun s' => Serves env p s s' ∧ s'.sm.storage p ≠ none) := by
  unfold Server.handleCreateExclusive StorageManager.tryGet
  cases hStored : s.sm.storage p with
  | some i =>
    refine (keeps_reply s tid 1).imp (fun s' hs' => ⟨h.serves hs', ?_⟩)
    rw [hs'.storage, hStored]
    exact some_ne_none i
  | none =>
    refine (keeps_reply s tid 0).bind fun s1 h1 => ?_
    have hFree : s1.sm.storage p = none := (congrFun h1.storage p).trans hStored
    refine ((h.keeps h1).create hFree tid fd).imp (fun s' hs' => ⟨⟨hs'.1.kept, fun n hn => ?_⟩, hs'.2⟩)
    rw [hs'.1.others n hn, h1.locations]

theorem Kept.unlinkHandler (h : Kept env p s) (hSelf : '\n' ∉ env.nodeName) (hPath : '\n' ∉ p) (tid : Tid) :
    Yields (unlinkHandler env s tid p) (Serves env p s) := by
  have hReply : ∀ value, Yields (s.reply tid value) (Serves env p s) :=
    fun value => (keeps_reply s tid value).imp (fun _ => h.serves)
  refine .ite (fun _ => hReply _) fun _ => ?_
  split
  · exact hReply _
  · refine .skip fun f => ?_
    refine .bind (Q := Serves env p s) ?_ fun s1 h1 => ?_
    · refine .ite (fun _ => ?_) fun _ => h.serves (.refl s)
      exact (h.remove hSelf hPath).bind fun sm hsm => hsm.bind fun r hr => hr
    · exact (keeps_reply s1 tid 0).imp (fun _ => h1.keeps)

theorem answered_of_reply (s : State) (tid : Tid) (value : Int) :
    Ends (s.reply tid value) (fun s' => Answered s s' tid value) fun e => e = .noClientBuffers tid := by
  unfold State.reply ClientManager.reply
  split <;> exact rfl

theorem Answered.inj (h : Answered s s' tid value) (h' : Answered s s' tid value') :
    value = value' := by grind [Answered]

theorem Kept.unlessExcluded (h : Kept env p s) (tid : Tid) (hHandler : Yields handler (Serves env p s)) :
    Yields (unlessExcluded env s tid p handler) (Serves env p s) :=
  Ends.ite (fun _ => (keeps_reply s tid _).imp (fun _ => h.serves)) fun _ => hHandler

theorem Kept.step (h : Kept env p s) (hSelf : '\n' ∉ env.nodeName) (hPath : '\n' ∉ p)
    (hOp : Concerns p r.op) (hRoute : ∀ tid fd, r.op = .create tid fd p → Uncontested env p s) :
    Yields (Server.step env s r) (Serves env p s) := by
  obtain ⟨op, os⟩ := r
  cases op with
  | handshake tid appName wait =>
    refine h.serves ?_
    cases wait with
    | true => exact ⟨rfl, rfl, rfl⟩
    | false => exact ⟨rfl, rfl, rfl⟩
  | close tid fd => exact (keeps_handleClose s tid fd).imp (fun _ => h.serves)
  | create tid fd path =>
    obtain rfl : path = p := hOp
    exact h.unlessExcluded tid (h.handleCreate (hRoute tid fd rfl) tid fd)
  | createExclusive tid fd path =>
    obtain rfl : path = p := hOp
    exact h.unlessExcluded tid ((h.handleCreateExclusive tid fd).imp (fun _ hs' => hs'.1))
  | unlink tid path =>
    obtain rfl : path = p := hOp
    exact h.unlinkHandler hSelf hPath tid
  | openFile | write | read | copyFileRange | mkdir | rmdir | rename | dup | lseek | clone | exitGroup
  | resume => exact hOp.elim

theorem Kept.exclusive_stored (h : Kept env p s) (tid : Tid) (fd : Fd) :
    Yields (Server.step env s ⟨.createExclusive tid fd p, os⟩)
      (fun s' => Answered s s' tid 0 → s'.sm.storage p ≠ none) := by
  refine .ite (fun _ => ?_) fun _ => ?_
  · refine (answered_of_reply s tid _).mono (fun s' hs' hZero => ?_) fun _ _ => trivial
    cases hs'.inj hZero
  · exact (h.handleCreateExclusive tid fd).imp (fun _ hs' _ => hs'.2)

theorem exclusive_refused (hStored : s.sm.storage p ≠ none) (tid : Tid) (fd : Fd) :
    Ends (Server.step env s ⟨.createExclusive tid fd p, os⟩) (fun s' => ¬ Answered s s' tid 0)
      fun e => e = .noClientBuffers tid := by
  obtain ⟨i, hi⟩ := ne_none_iff_exists'.mp hStored
  refine .ite (fun _ => ?_) fun _ => ?_
  · refine (answered_of_reply s tid _).imp (fun s' hs' hZero => ?_)
    cases hs'.inj hZero
  · unfold Server.handleCreateExclusive StorageManager.tryGet
    rw [hi]
    refine (answered_of_reply s tid 1).imp (fun s' hs' hZero => ?_)
    cases hs'.inj hZero

end

/-! ## All nodes -/

section

variable {env : Env} {p : Path} {w : World}

/-- Each node has an entry and a record of the path exactly if it stores it, and one does so after an
exclusive creation. -/
structure Inv (env : Env) (p : Path) (w : World) : Prop where
  kept : ∀ n ∈ env.cluster.nodes, Kept (nodeEnv env n) p (w.view n)
  created : w.created = true → ∃ n ∈ env.cluster.nodes, (w.servers n).sm.storage p ≠ none

theorem view_put (w : World) (n : Node) (s : State) : (w.put n s).view n = s := by
  unfold World.view World.put
  dsimp only
  rw [update_self]

theorem kept_put (hKept : ∀ m ∈ env.cluster.nodes, Kept (nodeEnv env m) p (w.view m))
    (hServes : Serves (nodeEnv env n) p (w.view n) s) :
    ∀ m ∈ env.cluster.nodes, Kept (nodeEnv env m) p ((w.put n s).view m) := by
  intro m hm
  by_cases hmn : m = n
  · subst hmn
    rw [view_put]
    exact hServes.kept
  · have hFile : s.locations.files m = w.files m := hServes.others m hmn
    have hView : (w.put n s).view m =
        { w.servers m with locations := ⟨s.locations.files, (w.servers m).locations.table⟩ } := by
      unfold World.view World.put
      dsimp only
      rw [update_of_ne hmn]
    have h := hKept m hm
    rw [hView]
    refine ⟨h.published, fun hFree => ?_, fun hStored => ?_⟩
    · change _ ∧ Clean p (s.locations.files m)
      rw [hFile]
      exact h.free hFree
    · change ∃ offset own, _ ∧ Erasable p m (s.locations.files m) offset
      rw [hFile]
      exact h.stored hStored

theorem Inv.stored_of_recorded (h : Inv env p w) (hn : n ∈ env.cluster.nodes)
    (hRecord : findRecord (w.files n) p ≠ none) : (w.servers n).sm.storage p ≠ none := by
  intro hFree
  exact hRecord ((h.kept n hn).free hFree).2.findRecord

theorem Inv.uncontested (h : Inv env p w)
    (hRoute : (w.servers n).sm.storage p ≠ none ∨ ∀ m ∈ env.cluster.nodes, (w.servers m).sm.storage p = none) :
    Uncontested (nodeEnv env n) p (w.view n) :=
  hRoute.imp id fun hFree m hm => ((h.kept m hm).free (hFree m hm)).2

theorem Inv.exclusiveOnce (h : Inv env p w) (hAllowed : Allowed env p i) (hRouted : Routed env p w i) :
    ExclusiveOnce env p w i := by
  obtain ⟨n, ⟨op, os⟩⟩ := i
  obtain ⟨-, hOp⟩ := hAllowed
  unfold ExclusiveOnce
  split
  · next tid fd path hEq =>
    obtain rfl : op = .createExclusive tid fd path := hEq
    obtain rfl : path = p := hOp
    intro hExists
    refine exclusive_refused (s := w.view n) (hRouted.resolve_right fun hFree => ?_) tid fd
    obtain hCreated | ⟨m, hm, hRecord⟩ := hExists
    · obtain ⟨m, hm, hStored⟩ := h.created hCreated
      exact hStored (hFree m hm)
    · exact h.stored_of_recorded hm hRecord (hFree m hm)
  · trivial

theorem Kept.createdAfter (h : Kept env p s) (hOp : Concerns p r.op) (created : Bool) :
    Yields (Server.step env s r)
      (fun s' => createdAfter p r.op s s' created = true →
        s'.sm.storage p ≠ none ∨ created = true ∧ s.sm.storage p = none) := by
  have hSuccess : Yields (Server.step env s r) (fun s' => Succeeds s s' r.op → s'.sm.storage p ≠ none) := by
    obtain ⟨op, os⟩ := r
    cases op with
    | createExclusive tid fd path =>
      obtain rfl : path = p := hOp
      exact h.exclusive_stored tid fd
    | handshake | close | create | unlink | openFile | write | read | copyFileRange | mkdir | rmdir
    | rename | dup | lseek | clone | exitGroup | resume => exact .always (fun _ => False.elim) _
  refine hSuccess.imp (fun s' hs' hAfter => ?_)
  grind [ExclusiveCreate.createdAfter]

theorem Inv.step (h : Inv env p w) (hNames : ∀ n ∈ env.cluster.nodes, '\n' ∉ n) (hPath : '\n' ∉ p)
    (hAllowed : Allowed env p i) (hRouted : Routed env p w i) : Yields (step env p w i) (Inv env p) := by
  obtain ⟨n, r⟩ := i
  obtain ⟨hn, hOp⟩ := hAllowed
  have hRoute : ∀ tid fd, r.op = .create tid fd p → Uncontested (nodeEnv env n) p (w.view n) := by
    intro tid fd hEq
    grind [Routed, h.uncontested]
  have hServes := (h.kept n hn).step (hNames n hn) hPath hOp hRoute
  refine (hServes.and ((h.kept n hn).createdAfter hOp w.created)).bind fun s' hs' => ?_
  obtain ⟨hServes, hAfter⟩ := hs'
  refine ⟨kept_put h.kept hServes, fun hCreated => ?_⟩
  have hSelf : (update w.servers n s' n).sm.storage p = s'.sm.storage p := by
    rw [update_self]
  obtain hStored | ⟨hCreated, hFree⟩ := hAfter hCreated
  · exact ⟨n, hn, hSelf ▸ hStored⟩
  · obtain ⟨m, hm, hStored⟩ := h.created hCreated
    have hNe : m ≠ n := by
      rintro rfl
      exact hStored hFree
    refine ⟨m, hm, ?_⟩
    change (update w.servers n s' m).sm.storage p ≠ none
    rw [update_of_ne hNe]
    exact hStored

theorem clean_nil (p : Path) : Clean p [] := ⟨[], rfl, fun _ hl => absurd hl not_mem_nil⟩

theorem boot_kept (env : Env) (os : Nat → Os) (serverPid : Tid) (hClean : Clean p (files env.nodeName)) :
    Yields (Server.boot env os serverPid files) (fun s => Kept env p s ∧ s.locations.files = files) := by
  refine .bind (Q := fun r : Int × State => Kept env p r.2 ∧ r.2.locations.files = files) ?_
    fun r hr => hr
  refine .bind (Q := fun f : CapioFile => f = CapioFile.new true _ _ _ _) rfl ?_
  rintro _ rfl
  refine .ite (fun _ => ?_) fun hNot => absurd rfl hNot
  refine .bind (Q := fun s => Kept env p s ∧ s.locations.files = files) ?_ fun s2 h2 => ?_
  · refine .ite (fun _ => ?_) fun hNot => absurd (SamePath.refl _) hNot
    refine ⟨⟨?_, fun hFree => ⟨?_, hClean⟩, fun hStored => ⟨-1, true, ?_, .inl ⟨rfl, hClean⟩⟩⟩, rfl⟩
    · change some true ∉ [some false]
      decide
    · change update (fun _ => none) env.capioDir (some 0) p = none at hFree
      change update (fun _ => none) env.capioDir _ p = none
      grind
    · change update (fun _ => none) env.capioDir (some 0) p ≠ none at hStored
      change update (fun _ => none) env.capioDir _ p = _
      grind
  · refine (keeps_addDirectoryEntry s2 serverPid _ _ .dotEntry).bind fun s3 h3 => ?_
    refine (keeps_addDirectoryEntry s3 serverPid _ _ .dotDotEntry).bind fun s4 h4 => ?_
    have hKeeps := h3.trans h4
    exact ⟨h2.1.keeps hKeeps, by rw [hKeeps.locations, h2.2]⟩

theorem boot_inv (env : Env) (p : Path) (os : Node → Nat → Os) (serverPid : Node → Tid) :
    Yields (boot env os serverPid) (Inv env p) := by
  let I (w : World) : Prop := (w.files = fun _ => []) ∧ w.created = false ∧
    ∀ m ∈ env.cluster.nodes, Kept (nodeEnv env m) p (w.view m)
  have hRun : Yields (boot env os serverPid) I := by
    refine .foldlM (fun n _ w hw => ?_) ⟨rfl, rfl, fun m _ => ?_⟩
    · obtain ⟨hFiles, hCreated, hKept⟩ := hw
      have hClean : Clean p (w.files n) := by
        rw [hFiles]
        exact clean_nil p
      refine (boot_kept (nodeEnv env n) (os n) (serverPid n) hClean).bind fun s hs => ?_
      exact ⟨hs.2.trans hFiles, hCreated, kept_put hKept ⟨hs.1, fun m _ => congrFun hs.2 m⟩⟩
    · exact ⟨not_mem_nil, fun _ => ⟨rfl, clean_nil p⟩, fun hStored => absurd rfl hStored⟩
  refine hRun.imp (fun w hw => ⟨hw.2.2, fun hCreated => ?_⟩)
  cases hw.2.1.symm.trans hCreated

/-- Over every sequence of requests, handled one at a time on any number of nodes, in which the path is
created only on a node that stores it or while no node does: an exclusive creation is answered 0 at most
once between two removals, and never while a location file records the path. -/
theorem exclusive_once {os : Node → Nat → Os} {serverPid : Node → Tid} {w0 : World} (inputs : List Input)
    (hNames : ∀ n ∈ env.cluster.nodes, '\n' ∉ n) (hPath : '\n' ∉ p) (hBoot : boot env os serverPid = .ok w0)
    (hRouted : Meets (fun w i => Allowed env p i ∧ Routed env p w i) (step env p) w0 inputs) :
    Meets (ExclusiveOnce env p) (step env p) w0 inputs := by
  have hAll := meets_true (step env p) w0 inputs
  refine (Meets.iff_of_inv (E := fun _ => True) (fun w i hw hi => ?_) (fun w i hw hi _ => ?_)
    ((boot_inv env p os serverPid).result hBoot) hRouted).mpr hAll
  · exact iff_of_true (hw.exclusiveOnce hi.1 hi.2) trivial
  · exact hw.step hNames hPath hi.1 hi.2

instance (p : Path) : DecidablePred (Concerns p) :=
  fun op => by
    apply Op.casesOn (motive := fun op => Decidable (Concerns p op)) op <;> intros <;>
      dsimp only [Concerns] <;> infer_instance

instance (env : Env) (p : Path) (i : Input) : Decidable (Allowed env p i) :=
  inferInstanceAs (Decidable (_ ∧ _))

instance (env : Env) (p : Path) (w : World) : DecidablePred (Routed env p w)
  | ⟨n, op, os⟩ => by
    apply Op.casesOn (motive := fun op => Decidable (Routed env p w ⟨n, op, os⟩)) op <;> intros <;>
      dsimp only [Routed] <;> infer_instance

def twoNodes : Env := { Env.plain .onClose false 0 with cluster := ⟨[['a'], ['b']], 1⟩ }

def inputsOn (ops : List (Node × Op)) : List Input :=
  ops.map fun (n, op) => ⟨n, op, fun _ => Os.plain 64⟩

def start : Except Failure World := boot twoNodes (fun _ _ => Os.plain 64) fun _ => 0

def file : Path := "/d/a".toList

def moved : List Input :=
  inputsOn [(['a'], .handshake 1 ['x'] false), (['b'], .handshake 2 ['x'] false),
    (['a'], .createExclusive 1 3 file), (['a'], .createExclusive 1 4 file), (['a'], .close 1 3),
    (['a'], .unlink 1 file), (['b'], .createExclusive 2 3 file), (['b'], .create 2 4 file)]

theorem exclusive_once_moved : ∃ w0, start = .ok w0 ∧
    Meets (ExclusiveOnce twoNodes file) (step twoNodes file) w0 moved ∧
    ∃ w, moved.foldlM (step twoNodes file) w0 = .ok w ∧
      (w.servers ['a']).cm.replies.map Reply.offset = [0, 1, 0] ∧
      (w.servers ['b']).cm.replies.map Reply.offset = [0, 0] := by
  have hRun : ∃ w0, start = .ok w0 ∧
      Meets (fun w i => Allowed twoNodes file i ∧ Routed twoNodes file w i) (step twoNodes file) w0 moved ∧
      ∃ w, moved.foldlM (step twoNodes file) w0 = .ok w ∧
        (w.servers ['a']).cm.replies.map Reply.offset = [0, 1, 0] ∧
        (w.servers ['b']).cm.replies.map Reply.offset = [0, 0] := by
    decide +kernel
  obtain ⟨w0, hBoot, hRouted, hRun⟩ := hRun
  exact ⟨w0, hBoot, exclusive_once moved (by decide) (by decide) hBoot hRouted, hRun⟩

def createdTwice : List Input :=
  inputsOn [(['a'], .handshake 1 ['x'] false), (['b'], .handshake 2 ['x'] false),
    (['a'], .createExclusive 1 3 file), (['b'], .createExclusive 2 3 file)]

/-- Both nodes answer 0, the second one while the location file of the first has the path. -/
theorem exclusive_twice : ∃ w0, start = .ok w0 ∧
    ∃ w1, (createdTwice.take 3).foldlM (step twoNodes file) w0 = .ok w1 ∧
      w1.created = true ∧ findRecord (w1.files ['a']) file = some (0, 7) ∧
      ∃ w, createdTwice.foldlM (step twoNodes file) w0 = .ok w ∧
        (w.servers ['a']).cm.replies = [⟨1, 0, []⟩] ∧ (w.servers ['b']).cm.replies = [⟨2, 0, []⟩] := by
  decide +kernel

end

end Capio.Server.ExclusiveCreate
