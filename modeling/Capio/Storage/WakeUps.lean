import Capio.Storage.FileLocks

/-! # No lost wake-up

The size that a waiting thread looks at changes under `_mutex_sectors`, and the notification is made
under `_mutex`.  A thread that sleeps although its condition holds, or is about to sleep, is one that
another thread is about to notify: the notification needs the `_mutex` that the thread holds until it
sleeps.
-/
namespace Capio.Storage.FileLocks

open Common Storage Lib.WaitsFor Function Option

section

variable {τ φ : Type} [DecidableEq τ] [DecidableEq φ] {s s' : State τ φ} {t : τ} {a : Action φ}
  {rest : List (Action φ)}

def Wait.holds (files : φ → CapioFile) : Wait φ → Bool
  | .data f offset => (files f).dataReady offset
  | .commit f => (files f).committed

variable {f : φ} {w : Wait φ} {offset : Int}

def State.AboutToNotify (s : State τ φ) (u : τ) (w : Wait φ) : Prop :=
  (s.threads u).mode = .awake ∧ Pending w.notification (s.threads u).todo

section

variable {th : Thread φ} {files files' : φ → CapioFile} {w : Wait φ}

theorem update_rebuffered (h : CapioFile.Rebuffered (files f) file) (g : φ) :
    (update files f file g).sectors = (files g).sectors ∧
      (update files f file g).committed = (files g).committed := by
  by_cases hg : g = f
  · subst hg
    obtain ⟨_, _, rfl⟩ := h
    rw [update_self]
    exact ⟨rfl, rfl⟩
  · rw [update_of_ne hg]
    exact ⟨rfl, rfl⟩

theorem store_cases (h : th.store files a = some files') :
    (∃ f newStart newEnd, a = .insert f newStart newEnd ∧
      files' = update files f ((files f).insertSector newStart newEnd)) ∨
    (∃ f commit, a = .assign f commit ∧ files' = update files f ((files f).setCommitted commit)) ∨
    ¬ a.Changes ∧ ∀ f, (files' f).sectors = (files f).sectors ∧
      (files' f).committed = (files f).committed := by
  cases a with
  | insert f newStart newEnd => exact .inl ⟨f, newStart, newEnd, rfl, (some.inj h).symm⟩
  | assign f commit => exact .inr (.inl ⟨f, commit, rfl, (some.inj h).symm⟩)
  | grow f os dataSize =>
    refine .inr (.inr ⟨id, fun g => ?_⟩)
    unfold Thread.store at h
    dsimp only at h
    split at h
    · cases h
      exact update_rebuffered ⟨_, _, rfl⟩ g
    · cases h
  | move f src srcOffset dstOffset numBytes =>
    refine .inr (.inr ⟨id, fun g => ?_⟩)
    obtain ⟨bytes, -, h⟩ := bind_eq_some_iff.mp h
    obtain ⟨f', hStore, h⟩ := bind_eq_some_iff.mp h
    cases h
    have hKept := CapioFile.storeBytes_rebuffers (files f) dstOffset bytes
    cases hOk : (files f).storeBytes dstOffset bytes with
    | error e =>
      rw [hOk] at hStore
      cases hStore
    | ok f1 =>
      rw [hOk] at hStore
      cases hStore
      exact update_rebuffered (hKept.result hOk) g
  | _ =>
    cases h
    exact .inr (.inr ⟨id, fun g => ⟨rfl, rfl⟩⟩)

theorem pending_after_commit (th : Thread φ) (rest : List (Action φ)) (hWas : (files f).committed = false) :
    Pending (.notifyCommitted f) (th.after files rest (.assign f true)).todo ∧
      Pending (.notifyData f) (th.after files rest (.assign f true)).todo := by
  have hChange : (files f).committed ≠ true ∧ true = true := ⟨Bool.eq_false_iff.mp hWas, rfl⟩
  unfold Thread.after
  dsimp only
  rw [if_pos hChange]
  exact ⟨.inl rfl, .inr ⟨id, .inl rfl⟩⟩

omit [DecidableEq φ] in
theorem holds_congr (hSectors : (files' w.file).sectors = (files w.file).sectors)
    (hCommitted : (files' w.file).committed = (files w.file).committed) : w.holds files' = w.holds files := by
  cases w with
  | data f offset =>
    unfold Wait.holds CapioFile.dataReady CapioFile.getStoredSize
    dsimp only
    rw [show (files' f).sectors = (files f).sectors from hSectors,
      show (files' f).committed = (files f).committed from hCommitted]
  | commit f => exact hCommitted

omit [DecidableEq φ] in
theorem committed_of_not_holds (h : w.holds files = false) : (files w.file).committed = false := by
  cases w with
  | data f offset => exact (Bool.or_eq_false_iff.mp h).2
  | commit f => exact h

theorem pending_of_changed (hSound : Sound th.guards a rest) (hStore : th.store files a = some files')
    (hWas : w.holds files = false) (hNow : w.holds files' = true) :
    Pending w.notification (th.after files rest a).todo := by
  obtain ⟨f, newStart, newEnd, rfl, rfl⟩ | ⟨f, commit, rfl, rfl⟩ | ⟨-, hSame⟩ := store_cases hStore
  · have hCommitted : (update files f ((files f).insertSector newStart newEnd) w.file).committed =
        (files w.file).committed := by
      by_cases hf : w.file = f
      · rw [hf, update_self]
        rfl
      · rw [update_of_ne hf]
    by_cases hf : w.file = f
    · cases w with
      | data g offset =>
        obtain rfl : g = f := hf
        exact hSound.notifies g newStart newEnd rfl
      | commit g => exact absurd (hCommitted.symm.trans hNow) (Bool.eq_false_iff.mp hWas)
    · rw [holds_congr (by rw [update_of_ne hf]) hCommitted, hWas] at hNow
      cases hNow
  · by_cases hf : w.file = f
    · subst hf
      have hNot := committed_of_not_holds hWas
      cases commit with
      | true =>
        obtain ⟨hCommit, hData⟩ := pending_after_commit th rest hNot
        cases w with
        | data g offset => exact hData
        | commit g => exact hCommit
      | false =>
        have hSame : (files w.file).setCommitted false = files w.file := if_neg (not_not.mpr hNot)
        rw [hSame, update_eq_self, hWas] at hNow
        cases hNow
    · rw [holds_congr (by rw [update_of_ne hf]) (by rw [update_of_ne hf]), hWas] at hNow
      cases hNow
  · rw [holds_congr (hSame _).1 (hSame _).2, hWas] at hNow
    cases hNow

theorem Pending.after (hSound : Sound th.guards a rest) (hAwake : th.mode = .awake)
    (h : Pending w.notification (a :: rest)) (hNe : a ≠ w.notification) :
    (th.after files rest a).mode = .awake ∧ Pending w.notification (th.after files rest a).todo := by
  have hNext := th.after_next files rest a
  generalize th.after files rest a = th' at hNext
  obtain ⟨hChanges, hRest⟩ := h.resolve_left hNe
  cases hNext with
  | sleeps v hNot =>
    rw [(hSound.releases v rfl).2] at hRest
    rcases hRest with hEq | hRest
    · cases w with
      | data f offset => cases hEq
      | commit f => cases hEq
    · exact absurd hRest.2 id
  | commits f hWas => exact absurd trivial hChanges
  | proceeds _ _ hLoses hCommit hTodo hMode hGuards =>
    rw [hMode, hTodo]
    exact ⟨hAwake, hRest⟩

end

structure Inv (s : State τ φ) : Prop where
  disciplined : ∀ t, Disciplined (s.threads t)
  consistent : Consistent s
  woken : ∀ t w, (s.threads t).mode = .asleep w false → w.holds s.files = true →
    ∃ u, s.AboutToNotify u w
  judged : ∀ t f offset, (s.threads t).mode = .awake → Judges f offset (s.threads t).todo →
    (s.threads t).value < offset → offset ≤ (s.files f).getStoredSize →
    ∃ u, s.AboutToNotify u (.data f offset)

section

variable (h : Inv s) (hAwake : (s.threads t).mode = .awake) (hTodo : (s.threads t).todo = a :: rest)

include h hAwake hTodo

omit [DecidableEq τ] in
theorem Inv.wellLocked : WellLocked (s.threads t).guards (a :: rest) := by
  have hDisciplined := h.disciplined t
  unfold Disciplined at hDisciplined
  rwa [hAwake, hTodo] at hDisciplined

variable (hStep : s.perform t a rest = some s')

include hStep

theorem Inv.aboutToNotify (hAbout : s.AboutToNotify u w) (hOther : u = t → a ≠ w.notification) :
    s'.AboutToNotify u w := by
  obtain ⟨-, files, -, rfl⟩ := State.perform_eq hStep
  unfold State.AboutToNotify
  dsimp only
  by_cases hu : u = t
  · subst hu
    rw [update_self]
    have hPending := hAbout.2
    rw [hTodo] at hPending
    exact hPending.after (h.wellLocked hAwake hTodo).1 hAwake (hOther rfl)
  · rw [update_of_ne hu, Thread.notify_awake, (Thread.notify_same ..).2.1]
    exact hAbout

theorem Inv.disciplined_perform (u : τ) : Disciplined (s'.threads u) := by
  obtain ⟨-, files, -, rfl⟩ := State.perform_eq hStep
  dsimp only
  by_cases hu : u = t
  · subst hu
    rw [update_self]
    exact .after hAwake (h.wellLocked hAwake hTodo)
  · rw [update_of_ne hu]
    exact (h.disciplined u).notify a

omit h hTodo in
theorem awake_of_changes (hChanges : a.Changes) : (s'.threads t).mode = .awake := by
  obtain ⟨-, files, -, rfl⟩ := State.perform_eq hStep
  dsimp only
  rw [update_self]
  have hNext := (s.threads t).after_next s.files rest a
  generalize (s.threads t).after s.files rest a = th' at hNext
  cases hNext with
  | sleeps w hNot => exact absurd hChanges id
  | commits f hWas => exact hAwake
  | proceeds _ _ hLoses hCommit hTodo hMode hGuards => rw [hMode, hAwake]

theorem Inv.changed (hWas : w.holds s.files = false) (hNow : w.holds s'.files = true) :
    s'.AboutToNotify t w := by
  have hSound := (h.wellLocked hAwake hTodo).1
  obtain ⟨-, files, hStore, hEq⟩ := State.perform_eq hStep
  have hFiles : s'.files = files := by rw [hEq]
  rw [hFiles] at hNow
  have hChanges : a.Changes := by
    by_contra hNot
    obtain ⟨f, newStart, newEnd, rfl, -⟩ | ⟨f, commit, rfl, -⟩ | ⟨-, hSame⟩ := store_cases hStore
    · exact hNot trivial
    · exact hNot trivial
    · rw [holds_congr (hSame _).1 (hSame _).2, hWas] at hNow
      cases hNow
  refine ⟨awake_of_changes hAwake hStep hChanges, ?_⟩
  rw [hEq]
  dsimp only
  rw [update_self]
  exact pending_of_changed hSound hStore hWas hNow

theorem Inv.grown (hWas : ¬ offset ≤ (s.files f).getStoredSize)
    (hNow : offset ≤ (s'.files f).getStoredSize) : s'.AboutToNotify t (.data f offset) := by
  have hSound := (h.wellLocked hAwake hTodo).1
  obtain ⟨-, files, hStore, hEq⟩ := State.perform_eq hStep
  have hFiles : s'.files = files := by rw [hEq]
  have hSectors : (files f).sectors ≠ (s.files f).sectors := fun hSame => by
    unfold CapioFile.getStoredSize at hWas hNow
    rw [hFiles, hSame] at hNow
    exact hWas hNow
  obtain ⟨g, newStart, newEnd, rfl, rfl⟩ | ⟨g, commit, rfl, rfl⟩ | ⟨-, hSame⟩ := store_cases hStore
  · by_cases hg : f = g
    · subst hg
      refine ⟨awake_of_changes hAwake hStep trivial, ?_⟩
      rw [hEq]
      dsimp only
      rw [update_self]
      exact hSound.notifies f newStart newEnd rfl
    · grind
  · grind [CapioFile.setCommitted_eq]
  · exact absurd (hSame f).1 hSectors

theorem Inv.falls_asleep (hAsleep : (s'.threads t).mode = .asleep w false)
    (hHolds : w.holds s'.files = true) : ∃ v, s'.AboutToNotify v w := by
  have hSound := (h.wellLocked hAwake hTodo).1
  obtain ⟨-, files, hStore, hEq⟩ := State.perform_eq hStep
  rw [hEq] at hAsleep hHolds
  dsimp only at hAsleep hHolds
  rw [update_self] at hAsleep
  have hNext := (s.threads t).after_next s.files rest a
  generalize (s.threads t).after s.files rest a = th' at hNext hAsleep
  cases hNext with
  | sleeps v hNot =>
    cases hAsleep
    cases hStore
    cases w with
    | commit f => exact absurd hHolds (Bool.eq_false_iff.mp hNot)
    | data f offset =>
      obtain ⟨hValue, hCommitted⟩ := Bool.or_eq_false_iff.mp hNot
      have hSize : offset ≤ (s.files f).getStoredSize := by
        have hReady : (decide _ || (s.files f).committed) = true := hHolds
        grind
      have hJudges : Judges f offset (s.threads t).todo := .inl (by rw [hTodo, (hSound.releases _ rfl).2]; rfl)
      obtain ⟨v, hAbout⟩ := h.judged t f offset hAwake hJudges (not_le.mp (of_decide_eq_false hValue)) hSize
      exact ⟨v, h.aboutToNotify hAwake hTodo hStep hAbout fun _ hNotify => by cases hNotify⟩
  | commits f hWas =>
    rw [hAwake] at hAsleep
    cases hAsleep
  | proceeds _ _ hLoses hCommit hRest hMode hGuards =>
    rw [hMode, hAwake] at hAsleep
    cases hAsleep

theorem Inv.woken_perform (hAsleep : (s'.threads u).mode = .asleep w false)
    (hHolds : w.holds s'.files = true) : ∃ v, s'.AboutToNotify v w := by
  by_cases hu : u = t
  · subst hu
    exact h.falls_asleep hAwake hTodo hStep hAsleep hHolds
  · obtain ⟨-, files, -, hEq⟩ := State.perform_eq hStep
    rw [hEq] at hAsleep
    dsimp only at hAsleep
    rw [update_of_ne hu] at hAsleep
    obtain ⟨hSame, hNotFor⟩ | ⟨v, b, -, -, hNew⟩ := (s.threads u).notify_cases a
    · rw [hSame] at hAsleep
      cases hWas : w.holds s.files with
      | true =>
        obtain ⟨v, hAbout⟩ := h.woken u w hAsleep hWas
        exact ⟨v, h.aboutToNotify hAwake hTodo hStep hAbout fun _ => hNotFor w false hAsleep⟩
      | false => exact ⟨t, h.changed hAwake hTodo hStep hWas hHolds⟩
    · rw [hNew] at hAsleep
      cases hAsleep

omit hAwake hTodo hStep [DecidableEq τ] in
theorem Inv.holds_mutex (hJudging : (s.threads u).mode = .awake)
    (hJudges : Judges f offset (s.threads u).todo) : s.locks.mutex f = some u := by
  refine (h.consistent u (.mutex f)).mpr ?_
  rcases hJudges with hTodo | hTodo
  · have hSound := (h.wellLocked hJudging hTodo).1
    rw [(hSound.releases _ rfl).1]
    exact List.mem_cons_self
  · have hSound := (h.wellLocked hJudging hTodo).2.1
    have hGuards := (hSound.releases _ rfl).1
    have hMem : Lock.mutex f ∈ (s.threads u).guards.filter (· ∉ (Action.unlockShared f).loses) := by
      rw [show (s.threads u).guards.filter (· ∉ (Action.unlockShared f).loses) = [.mutex f] from hGuards]
      exact List.mem_cons_self
    exact (List.mem_filter.mp hMem).1

theorem Inv.comes_to_judge (hJudging : (s'.threads t).mode = .awake)
    (hJudges : Judges f offset (s'.threads t).todo) (hValue : (s'.threads t).value < offset)
    (hSize : offset ≤ (s'.files f).getStoredSize) : ∃ v, s'.AboutToNotify v (.data f offset) := by
  have hSound := (h.wellLocked hAwake hTodo).1
  obtain ⟨-, files, hStore, hEq⟩ := State.perform_eq hStep
  rw [hEq] at hJudging hJudges hValue hSize
  dsimp only at hJudging hJudges hValue hSize
  rw [update_self] at hJudging hJudges hValue
  have hRest : Judges f offset rest := by
    have hNext := (s.threads t).after_next s.files rest a
    generalize (s.threads t).after s.files rest a = th' at hNext hJudging hJudges
    cases hNext with
    | sleeps v hNot => cases hJudging
    | commits g hWas => simp [Judges] at hJudges
    | proceeds _ _ hLoses hCommit hRest hMode hGuards => rwa [← hRest]
  rcases hSound.reads f offset hRest with rfl | hBefore
  · cases hStore
    exact absurd hSize (not_le.mpr hValue)
  · rcases hBefore with hList | hList
    · rw [(List.cons.inj hList).2] at hRest
      simp [Judges] at hRest
    · obtain rfl := (List.cons.inj hList).1
      cases hStore
      obtain ⟨v, hAbout⟩ := h.judged t f offset hAwake (.inr (hTodo.trans hList)) hValue hSize
      exact ⟨v, h.aboutToNotify hAwake hTodo hStep hAbout fun _ hNotify => by cases hNotify⟩

theorem Inv.judged_perform (hJudging : (s'.threads u).mode = .awake)
    (hJudges : Judges f offset (s'.threads u).todo) (hValue : (s'.threads u).value < offset)
    (hSize : offset ≤ (s'.files f).getStoredSize) : ∃ v, s'.AboutToNotify v (.data f offset) := by
  by_cases hu : u = t
  · subst hu
    exact h.comes_to_judge hAwake hTodo hStep hJudging hJudges hValue hSize
  · obtain ⟨-, files, -, hEq⟩ := State.perform_eq hStep
    obtain ⟨-, hSameTodo, hSameValue⟩ := (s.threads u).notify_same a
    have hThread : s'.threads u = (s.threads u).notify a := by
      rw [hEq]
      dsimp only
      rw [update_of_ne hu]
    rw [hThread, Thread.notify_awake] at hJudging
    rw [hThread, hSameTodo] at hJudges
    rw [hThread, hSameValue] at hValue
    by_cases hWas : offset ≤ (s.files f).getStoredSize
    · obtain ⟨v, hAbout⟩ := h.judged u f offset hJudging hJudges hValue hWas
      refine ⟨v, h.aboutToNotify hAwake hTodo hStep hAbout fun _ hNotify => ?_⟩
      -- the notification is made under the `_mutex` that the other thread holds
      have hOwner := h.holds_mutex hJudging hJudges
      have hMine : s.locks.mutex f = some t := by
        refine (h.consistent t (.mutex f)).mpr ((h.wellLocked hAwake hTodo).1.guarded _ ?_)
        rw [hNotify]
        exact List.mem_cons_self
      exact hu (some.inj (hOwner.symm.trans hMine))
    · exact ⟨t, h.grown hAwake hTodo hStep hWas hSize⟩

theorem Inv.perform : Inv s' where
  disciplined := h.disciplined_perform hAwake hTodo hStep
  consistent := h.consistent.perform (h.wellLocked hAwake hTodo).1 hStep
  woken _ _ := h.woken_perform hAwake hTodo hStep
  judged _ _ _ := h.judged_perform hAwake hTodo hStep

end

theorem Inv.starts (h : Inv s) (hAwake : th.mode = .awake) (hGuards : (s.threads t).guards = [])
    (hNone : th.guards = []) (hLocked : WellLocked [] th.todo)
    (hJudges : ∀ f offset, ¬ Judges f offset th.todo) (hQuiet : ∀ w, ¬ s.AboutToNotify t w) :
    Inv { s with threads := update s.threads t th } := by
  have hAbout : ∀ {u w}, s.AboutToNotify u w →
      State.AboutToNotify { s with threads := update s.threads t th } u w := by
    grind [State.AboutToNotify]
  refine ⟨fun u => ?_, fun u l => ?_, fun u w hAsleep hHolds => ?_,
    fun u f offset hJudging hTodo hValue hSize => ?_⟩
  · by_cases hu : u = t
    · grind [Disciplined]
    · dsimp only
      rw [update_of_ne hu]
      exact h.disciplined u
  · rw [h.consistent u l]
    by_cases hu : u = t
    · grind
    · dsimp only
      rw [update_of_ne hu]
  · dsimp only at hAsleep hHolds
    grind [update_of_ne, h.woken]
  · dsimp only at hJudging hTodo hValue hSize
    grind [update_of_ne, h.judged]

theorem Call.not_judges (c : Call φ) (f : φ) (offset : Int) : ¬ Judges f offset c.code := by
  cases c with
  | copyFromFile g src srcOffset dstOffset numBytes =>
    rw [Call.code]
    split <;> simp [Judges]
  | _ => simp [Call.code, Wait.code, Wait.loop, Judges]

theorem Inv.step (h : Inv s) (hStep : s.step e = some s') : Inv s' := by
  cases e with
  | call t c =>
    unfold State.step at hStep
    dsimp only at hStep
    split at hStep
    · next hAwake hTodo =>
      cases hStep
      have hGuards : (s.threads t).guards = [] := by
        have hDisciplined := h.disciplined t
        unfold Disciplined at hDisciplined
        rwa [hAwake, hTodo] at hDisciplined
      refine h.starts hAwake hGuards hGuards c.wellLocked c.not_judges fun w hAbout => ?_
      have hPending := hAbout.2
      rw [hTodo] at hPending
      exact hPending
    · cases hStep
  | act t =>
    unfold State.step at hStep
    grind [h.perform]
  | wake t =>
    unfold State.step at hStep
    dsimp only at hStep
    split at hStep
    · next w b hAsleep =>
      cases hStep
      have hDisciplined := h.disciplined t
      unfold Disciplined at hDisciplined
      rw [hAsleep] at hDisciplined
      obtain ⟨hGuards, hTodo⟩ := hDisciplined
      rw [hTodo]
      refine h.starts rfl hGuards hGuards w.wellLocked (fun f offset => ?_) fun v hAbout => ?_
      · simp [Judges]
      · have hAwake := hAbout.1
        rw [hAsleep] at hAwake
        cases hAwake
    · cases hStep

end

section

variable {τ φ : Type} [DecidableEq τ] [DecidableEq φ]

def start (files : φ → CapioFile) : State τ φ := { files := files }

omit [DecidableEq τ] in
theorem start_inv (files : φ → CapioFile) : Inv (start files : State τ φ) := by
  refine ⟨fun t => rfl, fun t l => ?_, fun t w hAsleep => ?_, fun t f offset _ hJudges => ?_⟩
  · cases l <;> simp [start, Locks.Held]
  · cases hAsleep
  · simp [start, Judges] at hJudges

theorem run_inv {s s' : State τ φ} (h : Inv s) {events : List (Event τ φ)}
    (hRun : events.foldlM State.step s = some s') : Inv s' := by
  induction events generalizing s with
  | nil =>
    cases hRun
    exact h
  | cons e events ih =>
    obtain ⟨s1, hStep, hRest⟩ := bind_eq_some_iff.mp hRun
    exact ih (h.step hStep) hRest

theorem no_deadlock_no_lost_wake_up {files : φ → CapioFile} {events : List (Event τ φ)} {s : State τ φ}
    (hRun : events.foldlM State.step (start files) = some s) : (∀ T : Set τ, ¬ Deadlocked s.WaitsFor T) ∧
      ∀ t w, (s.threads t).mode = .asleep w false → w.holds s.files = true → ∃ u, s.AboutToNotify u w :=
  have h := run_inv (start_inv files) hRun
  ⟨no_deadlock h.disciplined h.consistent, h.woken⟩

def inserted : List (Event Bool Unit) :=
  .call false (.waitForData () 4) :: List.replicate 5 (.act false) ++
    .call true (.insertSector () 0 4) :: List.replicate 3 (.act true)

theorem no_lost_wake_up_inserted : ∃ s : State Bool Unit,
    inserted.foldlM State.step (start fun _ => {}) = some s ∧
      (s.threads false).mode = .asleep (.data () 4) false ∧ (s.files ()).getStoredSize = 4 ∧
      (∀ T : Set Bool, ¬ Deadlocked s.WaitsFor T) ∧ ∃ u, s.AboutToNotify u (.data () 4) := by
  obtain ⟨s, hRun, hAsleep, hSize⟩ : ∃ s : State Bool Unit,
      inserted.foldlM State.step (start fun _ => {}) = some s ∧
        (s.threads false).mode = .asleep (.data () 4) false ∧ (s.files ()).getStoredSize = 4 :=
    ⟨_, rfl, rfl, rfl⟩
  obtain ⟨hDeadlock, hWoken⟩ := no_deadlock_no_lost_wake_up hRun
  refine ⟨s, hRun, hAsleep, hSize, hDeadlock, hWoken false (.data () 4) hAsleep ?_⟩
  simp [Wait.holds, CapioFile.dataReady, hSize]

end

end Capio.Storage.FileLocks
