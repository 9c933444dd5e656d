import Capio.Server.ClientManager

/-! # Producers of a file

That a file is produced by a thread is kept twice: in the set of the thread and in the set of its
application, through which the other threads of the application are producers as well.  The set of the
application is erased with any of its threads, so that it lasts only while none of them ends.
-/
namespace Capio.Server.Producers

open Common ClientManager Function Option

inductive Call
  | registerClient (tid : Tid) (appName : AppName)
  | removeClient (tid : Tid)
  | registerProducedFile (tid : Tid) (path : Path)
  | removeProducedFile (tid : Tid) (path : Path)

def call (cm : ClientManager) : Call → ClientManager
  | .registerClient tid appName => cm.registerClient tid appName
  | .removeClient tid => cm.removeClient tid
  | .registerProducedFile tid path => cm.registerProducedFile tid path
  | .removeProducedFile tid path => cm.removeProducedFile tid path

def run (calls : List Call) : ClientManager := calls.foldl call {}

/-- What the calls themselves say: which threads are registered, and the name under which each was
registered last. -/
structure Registry where
  registered : Tid → Bool := fun _ => false
  names : Tid → Option AppName := fun _ => none

namespace Registry

def application (r : Registry) (tid : Tid) : AppName := (r.names tid).getD CAPIO_DEFAULT_APP_NAME

def Member (r : Registry) (appName : AppName) (tid : Tid) : Prop :=
  r.registered tid = true ∧ r.application tid = appName

def note (r : Registry) : Call → Registry
  | .registerClient tid appName =>
    ⟨update r.registered tid true, update r.names tid (some appName)⟩
  | .removeClient tid => { r with registered := update r.registered tid false }
  | .registerProducedFile _ _ => r
  | .removeProducedFile _ _ => r

end Registry

open Registry

def registry (calls : List Call) : Registry := calls.foldl note {}

/-- After a file was registered by a registered thread of an application, was not removed by a thread
of the application and always had a registered thread of the application, all registered threads of the
application are producers of it. -/
def ProducersStay (calls : List Call) : Prop :=
  ∀ before tid path after appName, calls = before ++ .registerProducedFile tid path :: after →
    Member (registry before) appName tid →
    (∀ since t rest, after = since ++ .removeProducedFile t path :: rest →
      (registry (before ++ .registerProducedFile tid path :: since)).application t ≠ appName) →
    (∀ since rest, after = since ++ rest →
      ∃ t, Member (registry (before ++ .registerProducedFile tid path :: since)) appName t) →
    ∀ t, Member (registry calls) appName t → (run calls).isProducer t path = true

/-- A thread keeps its name when it is registered again, and ends as the last one of its name. -/
def Allowed (r : Registry) : Call → Prop
  | .registerClient tid appName => ∀ name, r.names tid = some name → name = appName
  | .removeClient tid => ∀ t, t ≠ tid → ¬ Member r (r.application tid) t
  | .registerProducedFile _ _ => True
  | .removeProducedFile _ _ => True

def AllAllowed : Registry → List Call → Prop
  | _, [] => True
  | r, c :: calls => Allowed r c ∧ AllAllowed (r.note c) calls

structure Inv (cm : ClientManager) (r : Registry) : Prop where
  names : cm.appNames = r.names
  own : ∀ t, r.registered t = true → (cm.filesCreatedByProducer t).isSome
  shared : ∀ t, r.registered t = true → (cm.filesCreatedByAppName (r.application t)).isSome

def Listed (cm : ClientManager) (appName : AppName) (path : Path) : Prop :=
  ∃ files, cm.filesCreatedByAppName appName = some files ∧ path ∈ files

section

variable {cm : ClientManager} {tid : Tid} {path p : Path}

theorem Inv.getAppName (h : Inv cm r) (t : Tid) : cm.getAppName t = r.application t := by
  unfold ClientManager.getAppName application
  rw [h.names]

theorem filesCreatedByAppName_registerProducedFile (hOwn : (cm.filesCreatedByProducer tid).isSome)
    (a : AppName) : (cm.registerProducedFile tid path).filesCreatedByAppName a =
      if a = cm.getAppName tid then (cm.filesCreatedByAppName a).map (List.insert path)
      else cm.filesCreatedByAppName a := by
  obtain ⟨own, hOwn⟩ := isSome_iff_exists.mp hOwn
  unfold registerProducedFile
  simp only [hOwn]
  split
  · next hShared =>
    by_cases ha : a = cm.getAppName tid
    · rw [if_pos ha, ha]
      exact (hShared.trans (congrArg (Option.map _) hShared).symm)
    · rw [if_neg ha]
  · next files hShared =>
    change cm.filesCreatedByAppName (cm.getAppName tid) = some files at hShared
    change update cm.filesCreatedByAppName (cm.getAppName tid) _ a = _
    grind

theorem isSome_filesCreatedByProducer (tid t : Tid) (h : (cm.filesCreatedByProducer t).isSome) :
    ((cm.registerProducedFile tid path).filesCreatedByProducer t).isSome := by
  unfold registerProducedFile
  split
  · exact h
  · have hUpdate : ∀ files : List Path, (update cm.filesCreatedByProducer tid (some files) t).isSome := by
      intro files
      rw [update_apply]
      split
      · rfl
      · exact h
    dsimp only
    split <;> exact hUpdate _

theorem appNames_registerProducedFile : (cm.registerProducedFile tid path).appNames = cm.appNames := by
  grind [registerProducedFile]

theorem registerProducedFile_of_none (hOwn : cm.filesCreatedByProducer tid = none) :
    cm.registerProducedFile tid path = cm := by
  unfold registerProducedFile
  rw [hOwn]

theorem inv_init : Inv {} {} := ⟨rfl, fun _ h => (by cases h), fun _ h => (by cases h)⟩

section

variable (h : Inv cm r)
include h

theorem Inv.registerClient (hName : Allowed r (.registerClient tid appName)) :
    Inv (cm.registerClient tid appName) (r.note (.registerClient tid appName)) := by
  have hNames : (r.note (.registerClient tid appName)).names = emplace r.names tid appName := by
    funext t
    rw [emplace_apply]
    change update r.names tid (some appName) t = _
    rw [update_apply]
    cases hOld : r.names tid with
    | none => rfl
    | some name => rw [hName name hOld, getD_some]
  refine ⟨by rw [hNames, ← h.names]; rfl, fun t ht => ?_, fun t ht => ?_⟩
  · change (emplace cm.filesCreatedByProducer tid [] t).isSome
    rw [emplace_apply]
    split
    · rfl
    · next hNe => exact h.own t ((update_of_ne hNe _ _).symm.trans ht)
  · change (emplace cm.filesCreatedByAppName appName [] _).isSome
    rw [emplace_apply]
    split
    · rfl
    · next hApplication =>
      have hNe : t ≠ tid := by
        rintro rfl
        apply hApplication
        simp [application, note]
      have hSame : (r.note (.registerClient tid appName)).application t = r.application t := by
        simp [application, note, hNe]
      rw [hSame]
      exact h.shared t ((update_of_ne hNe _ _).symm.trans ht)

theorem Inv.removeClient (hLast : Allowed r (.removeClient tid)) :
    Inv (cm.removeClient tid) (r.note (.removeClient tid)) := by
  have hBefore : ∀ t, (r.note (.removeClient tid)).registered t = true →
      t ≠ tid ∧ r.registered t = true := by
    intro t ht
    change update r.registered tid false t = true at ht
    grind
  refine ⟨h.names, fun t ht => ?_, fun t ht => ?_⟩
  · obtain ⟨hNe, ht⟩ := hBefore t ht
    change (update cm.filesCreatedByProducer tid none t).isSome
    rw [update_of_ne hNe]
    exact h.own t ht
  · obtain ⟨hNe, ht⟩ := hBefore t ht
    change (update cm.filesCreatedByAppName (cm.getAppName tid) none (r.application t)).isSome
    rw [h.getAppName, update_of_ne fun hSame => hLast t hNe ⟨ht, hSame⟩]
    exact h.shared t ht

theorem Inv.registerProducedFile :
    Inv (cm.registerProducedFile tid path) (r.note (.registerProducedFile tid path)) := by
  refine ⟨appNames_registerProducedFile.trans h.names,
    fun t ht => isSome_filesCreatedByProducer tid t (h.own t ht), fun t ht => ?_⟩
  cases hOwn : cm.filesCreatedByProducer tid with
  | none =>
    rw [registerProducedFile_of_none hOwn]
    exact h.shared t ht
  | some files =>
    rw [filesCreatedByAppName_registerProducedFile (by rw [hOwn, isSome_some])]
    split
    · rw [isSome_map]
      exact h.shared t ht
    · exact h.shared t ht

theorem Inv.removeProducedFile :
    Inv (cm.removeProducedFile tid path) (r.note (.removeProducedFile tid path)) := by
  refine ⟨h.names, fun t ht => ?_, fun t ht => ?_⟩
  · change (update cm.filesCreatedByProducer tid _ t).isSome
    rw [update_apply]
    split
    · next hEq =>
      rw [isSome_map, ← hEq]
      exact h.own t ht
    · exact h.own t ht
  · change (update cm.filesCreatedByAppName (cm.getAppName tid) _ (r.application t)).isSome
    rw [update_apply]
    split
    · next hEq =>
      rw [isSome_map, ← hEq]
      exact h.shared t ht
    · exact h.shared t ht

theorem step_inv (hc : Allowed r c) : Inv (call cm c) (r.note c) := by
  cases c with
  | registerClient tid appName => exact h.registerClient hc
  | removeClient tid => exact h.removeClient hc
  | registerProducedFile tid path => exact h.registerProducedFile
  | removeProducedFile tid path => exact h.removeProducedFile

theorem Inv.listed (ht : r.registered tid = true) (path : Path) :
    Listed (cm.registerProducedFile tid path) (r.application tid) path := by
  obtain ⟨files, hFiles⟩ := isSome_iff_exists.mp (h.shared tid ht)
  refine ⟨files.insert path, ?_, List.mem_insert_self⟩
  rw [filesCreatedByAppName_registerProducedFile (h.own tid ht), if_pos (h.getAppName tid).symm, hFiles]
  rfl

theorem step_listed (hc : Allowed r c) (hListed : Listed cm appName path)
    (hKept : ∀ t, c = .removeProducedFile t path → r.application t ≠ appName)
    (hAlive : ∃ t, Member (r.note c) appName t) : Listed (call cm c) appName path := by
  obtain ⟨files, hFiles, hMem⟩ := hListed
  cases c with
  | registerClient tid name =>
    refine ⟨files, ?_, hMem⟩
    change emplace cm.filesCreatedByAppName name [] appName = some files
    grind [emplace_apply]
  | removeClient tid =>
    obtain ⟨t, ht, hName⟩ := hAlive
    change update r.registered tid false t = true at ht
    rw [update_apply] at ht
    split at ht
    · cases ht
    · next hNe =>
      refine ⟨files, ?_, hMem⟩
      change update cm.filesCreatedByAppName (cm.getAppName tid) none appName = some files
      rw [h.getAppName, update_of_ne, hFiles]
      rintro rfl
      exact hc t hNe ⟨ht, hName⟩
  | registerProducedFile tid q =>
    cases hOwn : cm.filesCreatedByProducer tid with
    | none =>
      refine ⟨files, ?_, hMem⟩
      rw [call, registerProducedFile_of_none hOwn, hFiles]
    | some own =>
      rw [Listed, call, filesCreatedByAppName_registerProducedFile (by rw [hOwn, isSome_some])]
      split
      · grind
      · exact ⟨files, hFiles, hMem⟩
  | removeProducedFile tid q =>
    change ∃ files', update cm.filesCreatedByAppName (cm.getAppName tid) _ appName =
      some files' ∧ path ∈ files'
    grind [update_apply, h.getAppName]

end

end

theorem allAllowed_append (h : AllAllowed r (calls ++ calls')) :
    AllAllowed r calls ∧ AllAllowed (calls.foldl note r) calls' := by
  induction calls generalizing r with
  | nil => exact ⟨trivial, h⟩
  | cons c calls ih =>
    obtain ⟨hCalls, hRest⟩ := ih h.2
    exact ⟨⟨h.1, hCalls⟩, hRest⟩

theorem run_inv (h : Inv cm r) (hCalls : AllAllowed r calls) :
    Inv (calls.foldl call cm) (calls.foldl note r) := by
  induction calls generalizing cm r with
  | nil => exact h
  | cons c calls ih => exact ih (step_inv h hCalls.1) hCalls.2

theorem run_listed (h : Inv cm r) (hCalls : AllAllowed r calls) (hListed : Listed cm appName path)
    (hKept : ∀ since t rest, calls = since ++ .removeProducedFile t path :: rest →
      (since.foldl note r).application t ≠ appName)
    (hAlive : ∀ since rest, calls = since ++ rest → ∃ t, Member (since.foldl note r) appName t) :
    Listed (calls.foldl call cm) appName path := by
  induction calls generalizing cm r with
  | nil => exact hListed
  | cons c calls ih =>
    refine ih (step_inv h hCalls.1) hCalls.2 (step_listed h hCalls.1 hListed ?_ ?_) ?_ ?_
    · rintro t rfl
      exact hKept [] t calls rfl
    · exact hAlive [c] calls rfl
    · rintro since t rest rfl
      exact hKept (c :: since) t rest rfl
    · rintro since rest rfl
      exact hAlive (c :: since) rest rfl

theorem producers_stay {calls : List Call} (hCalls : AllAllowed {} calls) : ProducersStay calls := by
  rintro before tid path after appName rfl hProducer hKept hAlive t ht
  simp only [registry, List.foldl_append, List.foldl_cons] at hProducer hKept hAlive ht
  obtain ⟨hBefore, hCall, hAfter⟩ := allAllowed_append hCalls
  have hInv : Inv (run before) (before.foldl note {}) := run_inv inv_init hBefore
  have hNext := step_inv hInv hCall
  -- the file enters the set of the application because the thread is registered
  have hListed : Listed (call (run before) (.registerProducedFile tid path)) appName path :=
    hProducer.2 ▸ hInv.listed hProducer.1 path
  obtain ⟨files, hFiles, hMem⟩ := run_listed hNext hAfter hListed hKept hAlive
  have hName : (run (before ++ .registerProducedFile tid path :: after)).getAppName t = appName := by
    have hEnd := (run_inv hNext hAfter).getAppName t
    rw [run, List.foldl_append, List.foldl_cons]
    exact hEnd.trans ht.2
  have hShared : (run (before ++ .registerProducedFile tid path :: after)).filesCreatedByAppName
      appName = some files := by
    rw [run, List.foldl_append, List.foldl_cons]
    exact hFiles
  unfold isProducer
  rw [hName, hShared, Option.getD_some, Bool.or_eq_true]
  exact .inr (List.any_eq_true.mpr ⟨path, hMem, decide_eq_true (.refl path)⟩)

instance (r : Registry) (appName : AppName) (tid : Tid) : Decidable (Member r appName tid) :=
  inferInstanceAs (Decidable (_ ∧ _))

theorem ProducersStay.isProducer (h : ProducersStay (before ++ .registerProducedFile tid path :: after))
    (appName : AppName) (threads : List Tid) (hProducer : Member (registry before) appName tid)
    (hKept : ∀ t, .removeProducedFile t path ∉ after) (hAlive : ∀ n < after.length + 1, ∃ t ∈ threads,
      Member (registry (before ++ .registerProducedFile tid path :: after.take n)) appName t) (t : Tid)
    (ht : Member (registry (before ++ .registerProducedFile tid path :: after)) appName t) :
    (run (before ++ .registerProducedFile tid path :: after)).isProducer t path = true := by
  refine h before tid path after appName rfl hProducer ?_ ?_ t ht
  · grind
  · grind [List.take_left]

def comeAndGo : List Call :=
  [.registerClient 1 ['a'], .registerClient 2 ['a']] ++ .registerProducedFile 1 "/d/a".toList ::
    [.registerClient 3 ['a'], .registerClient 4 ['b'], .removeClient 4]

theorem producers_stay_comeAndGo :
    AllAllowed {} comeAndGo ∧ (run comeAndGo).isProducer 3 "/d/a".toList = true := by
  have hOthers : ∀ t, t ≠ 4 → ¬ Member (registry [.registerClient 1 ['a'], .registerClient 2 ['a'],
      .registerClient 3 ['a'], .registerClient 4 ['b']]) ['b'] t := by
    rintro t ht ⟨hRegistered, hName⟩
    simp only [registry, List.foldl_cons, List.foldl_nil, note, application, Function.update_apply,
      if_neg ht] at hRegistered hName
    split at hName
    · cases hName
    · grind
  have hAllowed : AllAllowed {} comeAndGo :=
    ⟨fun _ h => (by cases h), fun _ h => (by cases h), trivial, fun _ h => (by cases h),
      fun _ h => (by cases h), hOthers, trivial⟩
  refine ⟨hAllowed, (producers_stay hAllowed).isProducer ['a'] [1] (by decide) ?_ (by decide) 3
    (by decide)⟩
  simp

/-- The first thread of an application ends and takes its set of files with it; and a thread that is
registered again under another name still counts for the first one. -/
theorem producers_lost : ¬ ProducersStay ([.registerClient 1 ['a'], .registerClient 2 ['a']] ++
      .registerProducedFile 1 "/d/a".toList :: [.removeClient 1]) ∧
    ¬ ProducersStay ([.registerClient 1 ['a'], .removeClient 1, .registerClient 2 ['b']] ++
      .registerProducedFile 2 "/d/a".toList :: [.registerClient 1 ['b']]) := by
  refine ⟨fun h => ?_, fun h => ?_⟩
  · have hSecond := h.isProducer ['a'] [2] (by decide) (by simp) (by decide) 2 (by decide)
    revert hSecond
    decide
  · have hFirst := h.isProducer ['b'] [2] (by decide) (by simp) (by decide) 1 (by decide)
    revert hFirst
    decide

/-! ## The name of a thread -/

/-- A registered thread has the name of its last registration, and the files that it registers are produced
by that application and no other; any other thread has the default name. -/
def NamedLatest (cm : ClientManager) (r : Registry) : Prop :=
  ∀ tid, if r.registered tid then
      cm.getAppName tid = r.application tid ∧ ∀ path,
        Listed (cm.registerProducedFile tid path) (r.application tid) path ∧
        ∀ other ≠ r.application tid,
          (cm.registerProducedFile tid path).filesCreatedByAppName other = cm.filesCreatedByAppName other
    else cm.getAppName tid = CAPIO_DEFAULT_APP_NAME

/-- In addition, only threads with the default name end. -/
def KeepsNames (r : Registry) (c : Call) : Prop :=
  Allowed r c ∧ ∀ tid, c = .removeClient tid → r.application tid = CAPIO_DEFAULT_APP_NAME

def AllKeepNames : Registry → List Call → Prop
  | _, [] => True
  | r, c :: calls => KeepsNames r c ∧ AllKeepNames (r.note c) calls

structure Named (cm : ClientManager) (r : Registry) : Prop extends Inv cm r where
  others : ∀ t, r.registered t = false → r.application t = CAPIO_DEFAULT_APP_NAME

theorem Named.latest (h : Named cm r) : NamedLatest cm r := by
  intro tid
  split
  · next ht =>
    grind [filesCreatedByAppName_registerProducedFile, h.getAppName, h.listed, h.own]
  · next ht => exact (h.getAppName tid).trans (h.others tid (Bool.eq_false_iff.mpr ht))

theorem Named.step (h : Named cm r) (hc : KeepsNames r c) : Named (call cm c) (r.note c) := by
  refine ⟨step_inv h.toInv hc.1, fun t ht => ?_⟩
  cases c with
  | registerClient tid appName =>
    change update r.registered tid true t = false at ht
    have hNe : t ≠ tid := by grind
    rw [update_of_ne hNe] at ht
    rw [← h.others t ht]
    simp [application, note, hNe]
  | removeClient tid =>
    by_cases hSame : t = tid
    · exact hSame ▸ hc.2 tid rfl
    · exact h.others t ((update_of_ne hSame _ _).symm.trans ht)
  | registerProducedFile | removeProducedFile => exact h.others t ht

theorem keepsNames_of_latest (h : Named cm r) (hLatest : NamedLatest (call cm c) (r.note c)) : KeepsNames r c := by
  cases c with
  | registerClient tid appName =>
    refine ⟨fun name hName => ?_, fun t ht => by cases ht⟩
    have hTid := hLatest tid
    simp only [note, update_self, if_true] at hTid
    have hOld : (cm.registerClient tid appName).getAppName tid = name := by
      unfold ClientManager.getAppName ClientManager.registerClient
      dsimp only
      rw [emplace_apply, if_pos rfl, h.names, hName]
      rfl
    have hNew : (r.note (.registerClient tid appName)).application tid = appName := by simp [application, note]
    exact hOld.symm.trans (hTid.1.trans hNew)
  | removeClient tid =>
    have hTid := hLatest tid
    simp only [note, update_self, Bool.false_eq_true, if_false] at hTid
    refine ⟨fun t hNe hMember => ?_, fun t ht => ?_⟩
    · -- the set of the other thread is erased, and nothing can be entered into it
      have hOther := hLatest t
      have hRegistered : (r.note (.removeClient tid)).registered t = true :=
        (update_of_ne hNe _ _).trans hMember.1
      rw [if_pos hRegistered] at hOther
      obtain ⟨files, hFiles, -⟩ := (hOther.2 []).1
      have hOwn : ((cm.removeClient tid).filesCreatedByProducer t).isSome := by
        change (update cm.filesCreatedByProducer tid none t).isSome
        rw [update_of_ne hNe]
        exact h.own t hMember.1
      have hErased : (cm.removeClient tid).filesCreatedByAppName (r.application t) = none := by
        change update cm.filesCreatedByAppName (cm.getAppName tid) none (r.application t) = none
        rw [h.getAppName, hMember.2, update_self]
      change (((cm.removeClient tid).registerProducedFile t []).filesCreatedByAppName (r.application t)) = _ at hFiles
      grind [filesCreatedByAppName_registerProducedFile]
    · cases ht
      exact (h.getAppName tid).symm.trans hTid
  | registerProducedFile tid path => exact ⟨trivial, fun t ht => by cases ht⟩
  | removeProducedFile tid path => exact ⟨trivial, fun t ht => by cases ht⟩

theorem run_latest_iff (h : Named cm r) (calls : List Call) :
    (∀ before after, calls = before ++ after → NamedLatest (before.foldl call cm) (before.foldl note r)) ↔
      AllKeepNames r calls := by
  induction calls generalizing cm r with
  | nil =>
    refine iff_of_true (fun before after hEmpty => ?_) trivial
    rw [(List.append_eq_nil_iff.mp hEmpty.symm).1]
    exact h.latest
  | cons c calls ih =>
    constructor
    · intro hAll
      have hc : KeepsNames r c := keepsNames_of_latest h (hAll [c] calls rfl)
      refine ⟨hc, (ih (h.step hc)).mp ?_⟩
      rintro before after rfl
      exact hAll (c :: before) after rfl
    · rintro ⟨hc, hCalls⟩ before after hSplit
      cases before with
      | nil => exact h.latest
      | cons c' before =>
        obtain ⟨rfl, hRest⟩ := List.cons.inj hSplit
        exact (ih (h.step hc)).mpr hCalls before after hRest

/-- The names are those of the last registrations in every state of a run if and only if all its calls keep them. -/
theorem latest_names_iff (calls : List Call) :
    (∀ before after, calls = before ++ after → NamedLatest (run before) (registry before)) ↔
      AllKeepNames {} calls :=
  run_latest_iff ⟨inv_init, fun _ _ => rfl⟩ calls

/-- A thread id is used again by another application; and a thread that has ended keeps its name. -/
theorem first_name_stays :
    ¬ NamedLatest (run [.registerClient 1 ['a'], .removeClient 1, .registerClient 1 ['b']])
      (registry [.registerClient 1 ['a'], .removeClient 1, .registerClient 1 ['b']]) ∧
    ¬ NamedLatest (run [.registerClient 1 ['a'], .removeClient 1])
      (registry [.registerClient 1 ['a'], .removeClient 1]) := by
  refine ⟨fun h => absurd (h 1).1 (by decide), fun h => ?_⟩
  have hEnded := h 1
  rw [if_neg (by decide)] at hEnded
  exact absurd hEnded (by decide)

end Capio.Server.Producers
