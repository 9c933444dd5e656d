import Capio.Posix.Session
import Capio.Server.Descriptors
import Capio.Server.LocationFiles
import Capio.Server.Rules

/-! # Unlinking a file

A name lives in the location files, in the location tables of the servers and in the storage of the
server that holds the file; descriptors live in the tables of the servers and of the processes.  What
an unlink does to each of them is followed here, with everything that may happen to the location files,
the tables and the streams of the servers afterwards.
-/
namespace Capio.Posix.Unlink

open Common Lib.Lines Lib.Outcome Storage Server Function List Option

def RecordAt (path : Path) (file : List Char) (n : Nat) : Prop :=
  ∃ w, SamePath w path ∧ WordAt '\n' ' ' w file n

def Complete (file : List Char) : Prop :=
  Stopped '\n' ['\n', ' ', CAPIO_SERVER_INVALIDATE_FILE_PATH_CHAR] file

/-- What the text of a request can carry as a path, without the letter that invalidates records, which
a deletion may write into another record. -/
structure PlainName (path : Path) : Prop where
  ne_nil : path ≠ []
  blank : ' ' ∉ path
  newline : '\n' ∉ path
  nul : '\x00' ∉ path
  mark : CAPIO_SERVER_INVALIDATE_FILE_PATH_CHAR ∉ path

structure Nameless (path : Path) (buffer file : List Char) : Prop where
  records : ∀ k, ¬ RecordAt path (streamText buffer file) k
  complete : Complete (streamText buffer file)
  short : buffer.length ≤ file.length

structure Unnamed (path : Path) (l : LocationFiles.State) : Prop where
  tables : ∀ n, l.tables n path = none
  files : ∀ n, Nameless path [] (l.files n)
  streams : ∀ k n, Nameless path (l.streams k n) (l.files n)

def Visible (c : Cluster) (l : LocationFiles.State) (n : Node) (path : Path) : Prop :=
  (l.tables n path).isSome = true ∨ l.finds c n path = true

def LeavesName (path : Path) : LocationFiles.Op → Prop
  | .write n q => ¬ SamePath q path ∧ ' ' ∉ q ∧ '\n' ∉ q ∧ '\n' ∉ n
  | .load _ _ | .delete _ _ => True

theorem PlainName.same (h : PlainName path) (hSame : SamePath w path) : PlainName w where
  ne_nil := by
    rintro rfl
    exact h.ne_nil (head?_eq_none_iff.mp hSame.symm.head?)
  blank := fun hMem => h.blank ((hSame.mem _).mp hMem)
  newline := fun hMem => h.newline ((hSame.mem _).mp hMem)
  nul := fun hMem => h.nul ((hSame.mem _).mp hMem)
  mark := fun hMem => h.mark ((hSame.mem _).mp hMem)

section

variable (hPath : PlainName path)
include hPath

theorem exists_recordAt (hLine : line ∈ lines '\n' file) (hSame : SamePath (recordedPath line) path) :
    ∃ k, RecordAt path file k := by
  have hNewline := (hPath.same hSame).newline
  obtain ⟨k, hk⟩ : ∃ k, WordAt '\n' ' ' (recordedPath line) file k :=
    exists_wordAt_of_mem_lines hLine rfl hNewline
  exact ⟨k, _, hSame, hk⟩

theorem findRecord_eq_none (hFile : ∀ k, ¬ RecordAt path file k) : findRecord file path = none := by
  refine findLine_eq_none_iff.mpr fun line hLine => ?_
  rw [← Bool.not_eq_true]
  intro hRecords
  obtain ⟨k, hk⟩ := exists_recordAt hPath hLine (LocationFiles.records_iff.mp hRecords).2
  exact hFile k hk

theorem searchNodes_eq_none (h : Unnamed path l) (n : Node) (nodes : List Node) :
    searchNodes c (l.streams n) l.files path nodes = none := by
  induction nodes with
  | nil => rfl
  | cons node nodes ih =>
    rw [searchNodes, findRecord_eq_none hPath (h.streams n node).records]
    exact ih

theorem Unnamed.not_visible (h : Unnamed path l) (n : Node) : ¬ Visible c l n path := by
  rintro (hTable | hLoad)
  · rw [h.tables n] at hTable
    cases hTable
  · rw [LocationFiles.State.finds, (LocationFiles.loadFileLocation_found ..).1,
      LocationFiles.State.view, searchNodes_eq_none hPath h] at hLoad
    cases hLoad

theorem RecordAt.of_invalidate (h : RecordAt path (invalidate self node file offset) k) :
    RecordAt path file k ∧ (node = self → k ≠ offset) := by
  obtain ⟨w, hSame, h⟩ := h
  replace hPath := hPath.same hSame
  have hMarks : ∀ x ∈ w, x ∉ ['\x00', CAPIO_SERVER_INVALIDATE_FILE_PATH_CHAR] := by
    intro x hx hMem
    simp only [mem_cons, not_mem_nil, or_false] at hMem
    obtain rfl | rfl := hMem
    · exact hPath.nul hx
    · exact hPath.mark hx
  unfold invalidate at h
  split at h
  · refine ⟨⟨w, hSame, h.unmark hMarks (by decide) (by decide) (fun _ _ => getElem?_of_overwrite)
      fun _ => getElem?_eq_none_of_overwrite⟩, ?_⟩
    rintro - rfl
    have hFirst := h.letters 0 (length_pos_of_ne_nil hPath.ne_nil)
    rw [Nat.add_zero, getElem?_overwrite, if_pos rfl] at hFirst
    exact hPath.mark (mem_of_getElem? hFirst.symm)
  · next hNode =>
    refine ⟨⟨w, hSame, h.unmark hMarks (by decide) (by decide) (fun j d hd hMark => ?_)
      fun j hj => ?_⟩, fun he => absurd he hNode⟩
    · grind
    · grind

end

theorem Complete.invalidate (h : Complete file) (self node : Node) (offset : Nat) :
    Complete (invalidate self node file offset) := by
  unfold Server.invalidate
  split
  · exact h.overwrite (by simp) (by decide) _ offset
  · exact stopped_append (by simp) file

theorem RecordAt.of_locationLine (hPath : PlainName path) (hq : LeavesName path (.write n q))
    (hFile : Complete file) (h : RecordAt path (file ++ locationLine n q) k) : RecordAt path file k := by
  obtain ⟨hOther, hBlank, hNewline, hNode⟩ := hq
  obtain ⟨w, hSame, h⟩ := h
  replace hPath := hPath.same hSame
  have hLine : locationLine n q = q ++ ' ' :: n ++ ['\n'] := by simp [locationLine]
  rw [hLine] at h
  refine ⟨w, hSame, (h.of_line hPath.ne_nil hPath.blank ?_ hFile hBlank ?_).resolve_right ?_⟩
  · intro x hx
    simp only [mem_cons, not_mem_nil, or_false] at hx
    grind [hPath.newline, hPath.blank, hPath.mark]
  · simp [hNewline, hNode]
  · rintro rfl
    exact hOther hSame

theorem complete_locationLine (file : List Char) (n : Node) (q : Path) :
    Complete (file ++ locationLine n q) := by
  have hLine : file ++ locationLine n q = (file ++ q ++ [' '] ++ n) ++ ['\n'] := by simp [locationLine]
  rw [hLine]
  exact stopped_append (by simp) _

theorem Nameless.buffered (hFile : Nameless path [] file) (h : buffer <+: file) :
    Nameless path buffer file := by
  have hText : streamText buffer file = streamText [] file := prefix_iff_eq_append.mp h
  exact ⟨hText ▸ hFile.records, hText ▸ hFile.complete, h.length_le⟩

theorem streamText_append (h : buffer.length ≤ file.length) (s : List Char) :
    streamText buffer (file ++ s) = streamText buffer file ++ s := by
  rw [streamText, drop_append_of_le_length h, ← append_assoc, streamText]

theorem streamText_overwrite (h : buffer.length ≤ file.length) (a b : Char) (k : Nat) :
    streamText buffer (overwrite a file k b) = streamText buffer file ∨
      streamText buffer (overwrite a file k b) = overwrite a (streamText buffer file) k b := by
  by_cases hk : k < buffer.length
  · left
    refine ext_getElem? fun j => ?_
    grind [streamText, getElem?_overwrite]
  · right
    refine ext_getElem? fun j => ?_
    grind [streamText, getElem?_overwrite]

theorem Nameless.line (hPath : PlainName path) (h : Nameless path buffer file)
    (hq : LeavesName path (.write n q)) : Nameless path buffer (file ++ locationLine n q) := by
  have hText := streamText_append h.short (locationLine n q)
  refine ⟨fun k hk => ?_, hText ▸ complete_locationLine _ n q, ?_⟩
  · rw [hText] at hk
    exact h.records k (hk.of_locationLine hPath hq h.complete)
  · rw [length_append]
    exact Nat.le_add_right_of_le h.short

theorem Nameless.invalidate (hPath : PlainName path) (h : Nameless path buffer file)
    (self node : Node) (offset : Nat) : Nameless path buffer (invalidate self node file offset) := by
  have hText : streamText buffer (Server.invalidate self node file offset) = streamText buffer file ∨
      streamText buffer (Server.invalidate self node file offset) =
        Server.invalidate self node (streamText buffer file) offset := by
    unfold Server.invalidate
    split
    · exact streamText_overwrite h.short _ _ offset
    · exact .inr (streamText_append h.short _)
  have hShort : buffer.length ≤ (Server.invalidate self node file offset).length := by
    have := h.short
    grind [Server.invalidate, overwrite]
  obtain hText | hText := hText
  · exact ⟨hText ▸ h.records, hText ▸ h.complete, hShort⟩
  · refine ⟨fun k hk => ?_, hText ▸ h.complete.invalidate self node offset, hShort⟩
    rw [hText] at hk
    exact h.records k (hk.of_invalidate hPath).1

theorem addFileLocation_of_ne (hNe : q ≠ path) (entry : LocationEntry) :
    addFileLocation table q entry path = table path := by
  unfold addFileLocation
  cases table q with
  | some _ => rfl
  | none => exact update_of_ne hNe.symm ..

theorem Unnamed.put (h : Unnamed path l) (hTable : l'.table path = none)
    (hFiles : ∀ m buffer, Nameless path buffer (l.files m) → Nameless path buffer (l'.files m)) :
    Unnamed path (l.put n l') := by
  refine ⟨fun m => ?_, fun m => hFiles m _ (h.files m), fun k m => hFiles m _ (h.streams k m)⟩
  change update l.tables n l'.table m path = none
  by_cases hm : m = n
  · rw [hm, update_self]
    exact hTable
  · rw [update_of_ne hm]
    exact h.tables m

section

variable (hPath : PlainName path) (h : Unnamed path l)
include hPath h

theorem Unnamed.write (hq : LeavesName path (.write n q)) :
    Unnamed path (l.put n (writeFileLocation n (l.view n) q)) := by
  refine h.put ?_ fun m buffer hm => ?_
  · exact (addFileLocation_of_ne (fun he : q = path => hq.1 (he ▸ .refl q)) _).trans (h.tables n)
  · change Nameless path buffer (update l.files n (l.files n ++ locationLine n q) m)
    grind [update_self, update_of_ne, hm.line hPath hq]

theorem Unnamed.load (n : Node) (q : Path) : Unnamed path (l.load c n q) := by
  have hFiles : (loadFileLocation c (l.view n) q (l.streams n)).2.files = l.files :=
    (LocationFiles.loadFileLocation_found ..).2
  have hTable : (loadFileLocation c (l.view n) q (l.streams n)).2.table path = none := by
    unfold loadFileLocation
    split
    · next hSearch =>
      refine (addFileLocation_of_ne ?_ _).trans (h.tables n)
      rintro rfl
      obtain ⟨node, -, line, hLine, -, hRecorded⟩ := LocationFiles.record_of_searchNodes hSearch
      obtain ⟨k, hk⟩ := exists_recordAt hPath hLine (hRecorded ▸ .refl _)
      exact (h.streams n node).records k hk
    · exact h.tables n
  have hPut := h.put (n := n) hTable fun m _ hm => hFiles ▸ hm
  refine ⟨hPut.tables, hPut.files, fun k m => ?_⟩
  change Nameless path (update l.streams n (streamsAfter c (l.streams n) l.files q c.nodes) k m)
    ((loadFileLocation c (l.view n) q (l.streams n)).2.files m)
  rw [hFiles]
  by_cases hk : k = n
  · rw [hk, update_self]
    obtain hStream | ⟨_, hStream⟩ :=
      LocationFiles.streamsAfter_cases c (l.streams n) l.files q c.nodes m <;> rw [hStream]
    · exact h.streams n m
    · exact (h.files m).buffered <| take_prefix ..
  · rw [update_of_ne hk]
    exact h.streams k m

theorem Unnamed.delete (hDelete : deleteFromFilesLocation n (l.view n) q = .ok (r, l')) :
    Unnamed path (l.put n l') := by
  have hErased : eraseFromFilesLocation (l.tables n) q path = none := by
    unfold eraseFromFilesLocation
    grind [update_self, update_of_ne, h.tables]
  have hFile : ∀ self node offset m buffer, Nameless path buffer (l.files m) → Nameless path buffer
      (update l.files node (invalidate self node (l.files node) offset) m) := by
    intro self node offset m buffer hOld
    by_cases hm : m = node
    · rw [hm, update_self]
      exact (hm ▸ hOld).invalidate hPath self node offset
    · rw [update_of_ne hm]
      exact hOld
  unfold deleteFromFilesLocation LocationFiles.State.view at hDelete
  split at hDelete
  · cases hDelete
  · next node offset own _ =>
    split at hDelete
    · split at hDelete
      · next lineStart _ _ =>
        obtain ⟨rfl, rfl⟩ := Prod.mk.inj (Except.ok.inj hDelete)
        grind [h.put]
      · obtain ⟨rfl, rfl⟩ := Prod.mk.inj (Except.ok.inj hDelete)
        exact h.put hErased fun _ _ hm => hm
    · obtain ⟨rfl, rfl⟩ := Prod.mk.inj (Except.ok.inj hDelete)
      grind [h.put]

theorem Unnamed.step (hOp : LeavesName path op) : Yields (LocationFiles.step c l op) (Unnamed path) := by
  cases op with
  | write n q => exact h.write hPath hOp
  | load n q => exact h.load hPath n q
  | delete n q =>
    change Ends (deleteFromFilesLocation n (l.view n) q >>= _) _ _
    cases hDelete : deleteFromFilesLocation n (l.view n) q with
    | error e => trivial
    | ok r => exact h.delete hPath hDelete

theorem Unnamed.history {ops : List LocationFiles.Op} (hOps : ∀ op ∈ ops, LeavesName path op)
    (hRun : ops.foldlM (LocationFiles.step c) l = .ok l') (n : Node) : ¬ Visible c l' n path :=
  ((Ends.foldlM (fun op hMem _ hl => hl.step hPath (hOps op hMem)) h).result hRun).not_visible hPath n

end

structure Tables where
  filesPaths : Path → Option (List Fd) := fun _ => none
  files : Fd → Option File := fun _ => none

def Tables.OpenOn (t : Tables) (path : Path) (fd : Fd) (f : File) : Prop :=
  (∃ fds, t.filesPaths path = some fds ∧ fd ∈ fds) ∧ t.files fd = some f

/-- `none` if `at` throws, which ends the process. -/
def deleteCapioFd (t : Tables) (fd : Fd) : Option Tables := do
  let f ← t.files fd
  let fds ← t.filesPaths f.path
  some {
    filesPaths := update t.filesPaths f.path (some (fds.erase fd))
    files := update t.files fd none }

def deleteCapioPath (t : Tables) (path : Path) : Option Tables := do
  let fds ← t.filesPaths path
  let t ← fds.foldlM deleteCapioFd t
  some { t with filesPaths := update t.filesPaths path none }

theorem files_deleteCapioFd (h : deleteCapioFd t fd = some t') : t'.files = update t.files fd none := by
  obtain ⟨f, -, h⟩ := bind_eq_some_iff.mp h
  obtain ⟨fds, -, h⟩ := bind_eq_some_iff.mp h
  obtain rfl := some.inj h
  rfl

theorem files_foldlM {fds : List Fd} (h : fds.foldlM deleteCapioFd t = some t') :
    ∀ fd, (t.files fd = none → t'.files fd = none) ∧ (fd ∈ fds → t'.files fd = none) := by
  induction fds generalizing t with
  | nil => grind
  | cons fd fds ih =>
    obtain ⟨t1, h1, h⟩ := bind_eq_some_iff.mp h
    have hFiles := files_deleteCapioFd h1
    intro fd'
    have hNone : t.files fd' = none ∨ fd' = fd → t1.files fd' = none := by
      rw [hFiles, update_apply]
      rintro (hNone | hEq)
      · rw [hNone, ite_self]
      · rw [if_pos hEq]
    grind

theorem files_deleteCapioPath (h : deleteCapioPath t path = some t') (hOpen : t.OpenOn path fd f) :
    t'.files fd = none := by
  obtain ⟨⟨fds, hFds, hMem⟩, -⟩ := hOpen
  obtain ⟨fds', hFds', h⟩ := bind_eq_some_iff.mp h
  obtain rfl : fds = fds' := some.inj (hFds.symm.trans hFds')
  obtain ⟨t1, h1, h⟩ := bind_eq_some_iff.mp h
  obtain rfl := some.inj h
  exact (files_foldlM h1 fd).2 hMem

structure World where
  server : State
  others : Node → FilesLocation := fun _ _ => none
  streams : Node → Node → List Char := fun _ _ => []
  process : Tables := {}

def locations (env : Env) (s : State) (w : World) : LocationFiles.State :=
  ⟨s.locations.files, update w.others env.nodeName s.locations.table, w.streams⟩

/-- `capio_unlink_abs` for a file: the answer of the server, its state, and the tables of the process,
which drops its descriptors of the path whatever the server has done. -/
def capioUnlinkAbs (env : Env) (w : World) (tid : Tid) (path : Path) :
    Except Failure (Int × State × Option Tables) := do
  let s ← unlinkHandler env w.server tid path
  let res := (s.cm.replies.head?.map Reply.offset).getD (-1)
  pure (res, s, if res = -1 then some w.process else deleteCapioPath w.process path)

/-- What an unlink should do: no client finds the path until it is created again, and the descriptors
that were open on its file, those of the process included, are still open on it at their offsets. -/
structure UnlinkKeeps (env : Env) (w : World) (path : Path) (i : Nat) (s' : State)
    (process' : Option Tables) : Prop where
  name : ∀ ops : List LocationFiles.Op, (∀ op ∈ ops, LeavesName path op) → ∀ l,
    ops.foldlM (LocationFiles.step env.cluster) (locations env s' w) = .ok l →
    ∀ n, ¬ Visible env.cluster l n path
  descriptors : ∀ tid fd d, w.server.sm.openedFdMap.lookup (tid, fd) = some d → d.pointer = some i →
    s'.sm.openedFdMap.lookup (tid, fd) = some d ∧ s'.sm.storage d.path = some i ∧
    s'.sm.objects[i]? = w.server.sm.objects[i]? ∧ s'.sm.offsetOf tid fd = w.server.sm.offsetOf tid fd
  own : ∀ fd f, w.process.OpenOn path fd f → ∃ t, process' = some t ∧ t.files fd = some f

structure SoleRecord (env : Env) (w : World) (path : Path) : Prop where
  plain : PlainName path
  entry : ∃ (offset : Nat) (own : Bool),
    w.server.locations.table path = some ⟨env.nodeName, offset, own⟩ ∧
      (∀ n k, RecordAt path (w.server.locations.files n) k → n = env.nodeName ∧ k = offset) ∧
      ∀ k, (w.streams k env.nodeName).length ≤ offset
  complete : ∀ n, Complete (w.server.locations.files n)
  fresh : ∀ k n, w.streams k n <+: w.server.locations.files n

theorem remove_destroys {sm : StorageManager} (hi : sm.storage path = some i)
    (hf : sm.objects[i]? = some (some f)) :
    Yields (sm.remove path) (fun sm' => sm'.objects[i]? = some none) := by
  refine (sm.get_ends path).weaken.bind fun j hj => ?_
  obtain rfl : i = j := some.inj (hi.symm.trans hj)
  refine .skip fun g => ?_
  refine (sm.removeFds_ends i _).bind fun sm1 hsm1 => ?_
  have hLt : i < sm1.objects.length := hsm1.2.symm ▸ (List.getElem?_eq_some_iff.mp hf).1
  exact getElem?_set_self hLt

theorem reply_answer (s : State) (tid : Tid) (offset : Int) :
    Yields (s.reply tid offset) (fun s' => s'.sm = s.sm ∧ s'.locations = s.locations ∧
      (s'.cm.replies.head?.map Reply.offset).getD (-1) = offset) := by
  unfold State.reply ClientManager.reply
  split
  · exact ⟨rfl, rfl, rfl⟩
  · trivial

theorem unlinkHandler_answered (hi : s.sm.storage path = some i) (hf : s.sm.objects[i]? = some (some f)) :
    Yields (unlinkHandler env s tid path) (fun s' => (s'.cm.replies.head?.map Reply.offset).getD (-1) = 0 →
      f.deletable = true ∧ s'.sm.objects[i]? = some none ∧
        (∃ r, deleteFromFilesLocation env.nodeName s.locations path = .ok (r, s'.locations)) ∨
      f.deletable = false ∧ s'.sm = s.sm ∧ s'.locations = s.locations) := by
  refine .ite (fun _ => ?_) fun _ => ?_
  · refine (reply_answer s tid _).imp ?_
    rintro s' ⟨-, -, hAnswer⟩ hZero
    rw [hAnswer] at hZero
    exact absurd hZero (by decide)
  · have hObject : s.sm.object i = .ok f := by
      unfold StorageManager.object
      rw [hf]
    unfold StorageManager.tryGet
    rw [hi]
    dsimp only
    rw [hObject, ok_bind]
    by_cases hDeletable : f.deletable = true
    · rw [if_pos hDeletable]
      refine .bind (Q := fun s1 : State => s1.sm.objects[i]? = some none ∧
        ∃ r, deleteFromFilesLocation env.nodeName s.locations path = .ok (r, s1.locations)) ?_ ?_
      · refine (remove_destroys hi hf).bind fun sm hsm => ?_
        unfold State.deleteLocation
        cases hDelete : deleteFromFilesLocation env.nodeName s.locations path with
        | error e => trivial
        | ok r => exact ⟨hsm, r.1, rfl⟩
      · rintro s1 ⟨hObjects, hDelete⟩
        refine (reply_answer s1 tid 0).imp ?_
        grind
    · rw [if_neg hDeletable]
      refine (reply_answer s tid 0).imp ?_
      grind

theorem SoleRecord.unnamed (h : SoleRecord env w path)
    (hOthers : ∀ n, n ≠ env.nodeName → w.others n path = none)
    (hDelete : deleteFromFilesLocation env.nodeName w.server.locations path = .ok (r, l')) :
    Unnamed path ⟨l'.files, update w.others env.nodeName l'.table, w.streams⟩ := by
  obtain ⟨offset, own, hEntry, hSole, hUnread⟩ := h.entry
  unfold deleteFromFilesLocation at hDelete
  rw [hEntry] at hDelete
  dsimp only at hDelete
  obtain ⟨rfl, rfl⟩ := Prod.mk.inj (Except.ok.inj hDelete)
  have hFiles : ∀ n, Nameless path [] (update w.server.locations.files env.nodeName
        (invalidate env.nodeName env.nodeName (w.server.locations.files env.nodeName) offset) n) ∧
      ∀ k, w.streams k n <+: update w.server.locations.files env.nodeName
        (invalidate env.nodeName env.nodeName (w.server.locations.files env.nodeName) offset) n := by
    intro n
    by_cases hn : n = env.nodeName
    · rw [hn, update_self]
      refine ⟨⟨fun k hk => ?_, (h.complete _).invalidate _ _ _, Nat.zero_le _⟩, fun k => ?_⟩
      · obtain ⟨hBefore, hElsewhere⟩ := hk.of_invalidate h.plain
        exact hElsewhere rfl (hSole _ k hBefore).2
      · rw [invalidate, if_pos rfl]
        exact prefix_overwrite (h.fresh k _) (hUnread k) _ _
    · rw [update_of_ne hn]
      exact ⟨⟨fun k hk => hn (hSole n k hk).1, h.complete n, Nat.zero_le _⟩, fun k => h.fresh k n⟩
  refine ⟨fun n => ?_, fun n => (hFiles n).1, fun k n => (hFiles n).1.buffered ((hFiles n).2 k)⟩
  dsimp only
  by_cases hn : n = env.nodeName
  · rw [hn, update_self, eraseFromFilesLocation, update_self]
  · rw [update_of_ne hn]
    exact hOthers n hn

theorem handler_of_capioUnlinkAbs (h : capioUnlinkAbs env w tid path = .ok (0, s', process')) :
    unlinkHandler env w.server tid path = .ok s' ∧ (s'.cm.replies.head?.map Reply.offset).getD (-1) = 0 ∧
      process' = deleteCapioPath w.process path := by
  obtain ⟨s1, hHandler, hRest⟩ := exists_of_bind_eq_ok h
  obtain ⟨hAnswer, hRest⟩ := Prod.mk.inj (Except.ok.inj hRest)
  grind

/-- An unlink does what it should exactly if the count of the file allows its removal, no descriptor
is open on it, neither in the server nor in the process, and no other server has looked the path up. -/
theorem unlink_keeps_iff {env : Env} {w : World} {tid : Tid} {path : Path} {i : Nat} {f : CapioFile}
    {s' : State} {process' : Option Tables} (hi : w.server.sm.storage path = some i)
    (hf : w.server.sm.objects[i]? = some (some f)) (hRecord : SoleRecord env w path)
    (hUnlink : capioUnlinkAbs env w tid path = .ok (0, s', process')) :
    UnlinkKeeps env w path i s' process' ↔
      f.deletable = true ∧ (∀ k d, w.server.sm.openedFdMap.lookup k = some d → d.pointer ≠ some i) ∧
        (∀ fd g, ¬ w.process.OpenOn path fd g) ∧ ∀ n, n ≠ env.nodeName → w.others n path = none := by
  obtain ⟨hHandler, hAnswer, hProcess⟩ := handler_of_capioUnlinkAbs hUnlink
  have hCases := (unlinkHandler_answered hi hf).result hHandler hAnswer
  constructor
  · intro hKeeps
    have hHidden := hKeeps.name [] (fun _ hMem => nomatch hMem) _ rfl
    obtain ⟨offset, own, hEntry, -⟩ := hRecord.entry
    obtain ⟨hDeletable, hGone, -⟩ | ⟨-, -, hLocations⟩ := hCases
    · refine ⟨hDeletable, fun k d hd hPointer => ?_, fun fd g hOpen => ?_, fun n hn => ?_⟩
      · obtain ⟨-, -, hObject, -⟩ := hKeeps.descriptors k.1 k.2 d hd hPointer
        rw [hGone, hf] at hObject
        cases hObject
      · obtain ⟨t, ht, hKept⟩ := hKeeps.own fd g hOpen
        cases (files_deleteCapioPath (hProcess.symm.trans ht) hOpen).symm.trans hKept
      · by_contra hSome
        refine hHidden n (.inl ?_)
        simpa [locations, hn, Option.isSome_iff_ne_none] using hSome
    · -- nothing was removed, and the path is still in the table
      refine absurd (.inl ?_) (hHidden env.nodeName)
      simp [locations, hLocations, hEntry]
  · rintro ⟨hDeletable, hServer, hOwn, hOthers⟩
    refine ⟨fun ops hOps l hRun n => ?_, fun tid fd d hd hPointer => absurd hPointer (hServer _ d hd),
      fun fd g hOpen => absurd hOpen (hOwn fd g)⟩
    obtain ⟨-, -, r, hDelete⟩ | ⟨hNot, -⟩ := hCases
    · exact (hRecord.unnamed hOthers hDelete).history hRecord.plain hOps hRun n
    · cases hDeletable.symm.trans hNot

def plain : Env := { Env.plain .onClose false 0 with cluster := ⟨[['n']], 4096⟩ }

def closedFile : World where
  server := {
    sm := {
      objects := [some {}]
      storage := update (fun _ => none) "/d/a".toList (some 0) }
    cm := { responses := fun _ => true }
    locations := writeFileLocation ['n'] ⟨fun _ => [], fun _ => none⟩ "/d/a".toList }
  process := { filesPaths := update (fun _ => none) "/d/a".toList (some []) }

theorem closedFile_soleRecord : SoleRecord plain closedFile "/d/a".toList := by
  have hFiles : ∀ n, closedFile.server.locations.files n = [] ∨
      n = ['n'] ∧ closedFile.server.locations.files n = "/d/a n\n".toList := by
    intro n
    change update (fun _ => []) ['n'] (locationLine ['n'] "/d/a".toList) n = [] ∨ n = ['n'] ∧
      update (fun _ => []) ['n'] (locationLine ['n'] "/d/a".toList) n = "/d/a n\n".toList
    by_cases hn : n = ['n']
    · rw [hn, update_self]
      exact .inr ⟨rfl, rfl⟩
    · rw [update_of_ne hn]
      exact .inl rfl
  have hPlain : PlainName "/d/a".toList := ⟨by decide, by decide, by decide, by decide, by decide⟩
  refine ⟨hPlain, ⟨0, true, rfl, fun n k hk => ?_, fun _ => Nat.le_refl 0⟩, fun n => ?_,
    fun _ _ => nil_prefix⟩
  · obtain ⟨w, hSame, hk⟩ := hk
    have hPos := length_pos_iff.mpr (hPlain.same hSame).ne_nil
    have hFirst := (hk.letters 0 hPos).trans (getElem?_eq_getElem hPos)
    obtain hNil | ⟨rfl, hText⟩ := hFiles n
    · rw [hNil] at hFirst
      cases hFirst
    · refine ⟨rfl, hk.start.resolve_right fun hStart => ?_⟩
      have hLt : k < 7 := (List.getElem?_eq_some_iff.mp hFirst).1
      have hNewline : ∀ k < 7, "/d/a n\n".toList[k - 1]? ≠ some '\n' := by decide
      exact hNewline k hLt hStart
  · obtain hNil | ⟨-, hText⟩ := hFiles n
    · rw [hNil]
      exact fun k hk => absurd hk (Nat.not_lt_zero k)
    · rw [hText]
      exact stopped_append (s := "/d/a n".toList) (by decide)

theorem unlink_keeps_closedFile : ∃ s' process',
    capioUnlinkAbs plain closedFile 7 "/d/a".toList = .ok (0, s', process') ∧
      UnlinkKeeps plain closedFile "/d/a".toList 0 s' process' := by
  have hSeen : ∃ r, capioUnlinkAbs plain closedFile 7 "/d/a".toList = .ok r ∧ r.1 = 0 := by
    decide +kernel
  obtain ⟨⟨_, s', process'⟩, hUnlink, rfl⟩ := hSeen
  refine ⟨s', process', hUnlink,
    (unlink_keeps_iff rfl rfl closedFile_soleRecord hUnlink).mpr ⟨rfl, ?_, ?_, fun _ _ => rfl⟩⟩
  · intro k d hd
    cases hd
  · rintro fd g ⟨⟨fds, -, -⟩, hFile⟩
    cases hFile

def opened : Tables where
  filesPaths := update (fun _ => none) "/d/a".toList (some [3])
  files := update (fun _ => none) 3 (some ⟨0, "/d/a".toList⟩)

def run (ops : List Server.Op) : Except Failure State :=
  boot plain (fun _ => Os.plain 0) 1 (fun _ => []) >>= fun s =>
    (plainRequests 0 (.handshake 7 ['a'] false :: ops)).foldlM (step plain) s

theorem exists_unlink (ops : List Server.Op) (w : State → World) (P : State → State → Option Tables → Prop)
    (h : ∃ s, run ops = .ok s ∧ ∃ r, capioUnlinkAbs plain (w s) 7 "/d/a".toList = .ok r ∧
      r.1 = 0 ∧ P s r.2.1 r.2.2) :
    ∃ s s' t', run ops = .ok s ∧ capioUnlinkAbs plain (w s) 7 "/d/a".toList = .ok (0, s', t') ∧
      P s s' t' := by grind

/-- Another server has looked the path up; or it has looked `/d/z` up, which is in the same block. -/
def lookedUp (s : State) : World := { server := s, others := fun _ => s.locations.table }

def buffered (s : State) : World where
  server := s
  streams _ := streamsAfter plain.cluster (fun _ => []) s.locations.files "/d/z".toList plain.cluster.nodes

/-- Location operations behind the unlink of `/d/a#b`: a deletion through a loaded entry overwrites a
letter in the record of `/d/aXb`. -/
def misplaced : List LocationFiles.Op :=
  [.write ['m'] ['p'], .load ['n'] ['p'], .write ['n'] ['p'], .write ['n'] "/d/aXb".toList,
    .delete ['n'] ['p'], .load ['n'] ['p'], .delete ['n'] ['p']]

instance (c : Cluster) (l : LocationFiles.State) (n : Node) (path : Path) :
  Decidable (Visible c l n path) :=
  inferInstanceAs (Decidable (_ ∨ _))

/-- An unlink is answered with 0 and leaves the path where it is while the process forgets its
descriptor; it destroys the file under a thread that was cloned; and another server that has looked
the path up, or has its record in a buffer, still finds it. -/
theorem unlink_forgets : (∃ s s' t, run [.create 7 3 "/d/a".toList] = .ok s ∧
      opened.OpenOn "/d/a".toList 3 ⟨0, "/d/a".toList⟩ ∧
      capioUnlinkAbs plain { server := s, process := opened } 7 "/d/a".toList = .ok (0, s', some t) ∧
      t.files 3 = none ∧ Visible plain.cluster (locations plain s' { server := s }) ['n'] "/d/a".toList) ∧
    (∃ s s' process', run [.create 7 3 "/d/a".toList, .clone 7 8, .close 7 3] = .ok s ∧
      s.sm.storage "/d/a".toList = some 1 ∧
      (s.sm.openedFdMap.lookup (8, 3)).bind Descriptor.pointer = some 1 ∧
      capioUnlinkAbs plain { server := s } 7 "/d/a".toList = .ok (0, s', process') ∧
      s'.sm.objects[1]? = some none) ∧
    (∃ s s' process', run [.create 7 3 "/d/a".toList, .close 7 3] = .ok s ∧
      capioUnlinkAbs plain (lookedUp s) 7 "/d/a".toList = .ok (0, s', process') ∧
      Visible plain.cluster (locations plain s' (lookedUp s)) ['m'] "/d/a".toList) ∧
    (∃ s s' process', run [.create 7 3 "/d/z".toList, .create 7 4 "/d/a".toList, .close 7 4] = .ok s ∧
      capioUnlinkAbs plain (buffered s) 7 "/d/a".toList = .ok (0, s', process') ∧
      Visible plain.cluster (locations plain s' (buffered s)) ['m'] "/d/a".toList) ∧
    (∀ op ∈ misplaced, LeavesName "/d/a#b".toList op) ∧
    ∃ l, misplaced.foldlM (LocationFiles.step ⟨[['n'], ['m']], 17⟩) ⟨update (fun _ => []) ['n']
        "#d/a#b n\n".toList, fun _ _ => none, fun _ _ => []⟩ = .ok l ∧
      Visible ⟨[['n'], ['m']], 17⟩ l ['n'] "/d/a#b".toList := by
  refine ⟨?_, ?_, ?_, ?_, ?_, _, rfl, by decide +kernel⟩
  · obtain ⟨s, s', t', hRun, hUnlink, hFile, hVisible⟩ := exists_unlink [.create 7 3 "/d/a".toList]
      (fun s => { server := s, process := opened }) (fun s s' t' => t'.map (·.files 3) = some none ∧
        Visible plain.cluster (locations plain s' { server := s }) ['n'] "/d/a".toList) (by decide +kernel)
    obtain ⟨t, rfl, hNone⟩ := Option.map_eq_some_iff.mp hFile
    exact ⟨s, s', t, hRun, ⟨⟨[3], rfl, mem_singleton.mpr rfl⟩, rfl⟩, hUnlink, hNone, hVisible⟩
  · obtain ⟨s, s', t', hRun, hUnlink, hStored, hOpen, hGone⟩ := exists_unlink
      [.create 7 3 "/d/a".toList, .clone 7 8, .close 7 3] (fun s => { server := s })
      (fun s s' _ => s.sm.storage "/d/a".toList = some 1 ∧
        (s.sm.openedFdMap.lookup (8, 3)).bind Descriptor.pointer = some 1 ∧
        s'.sm.objects[1]? = some none) (by decide +kernel)
    exact ⟨s, s', t', hRun, hStored, hOpen, hUnlink, hGone⟩
  · exact exists_unlink [.create 7 3 "/d/a".toList, .close 7 3] lookedUp
      (fun s s' _ => Visible plain.cluster (locations plain s' (lookedUp s)) ['m'] "/d/a".toList)
      (by decide +kernel)
  · exact exists_unlink [.create 7 3 "/d/z".toList, .create 7 4 "/d/a".toList, .close 7 4] buffered
      (fun s s' _ => Visible plain.cluster (locations plain s' (buffered s)) ['m'] "/d/a".toList)
      (by decide +kernel)
  · simp +decide [misplaced, LeavesName]

end Capio.Posix.Unlink
