import Capio.Lib.WaitsFor
import Capio.Storage.Service

/-! # The locks of files

Each file has a `_mutex`, that also belongs to its two condition variables, and a shared
`_mutex_sectors`.  A call of a file is a list of actions: to take or to give back a lock, to read or to
change what the lock guards, to notify, and to sleep unless a condition holds.  Any number of threads
make such calls, one action at a time and in any order.

What a thread has still to do is sound for the locks it holds: it takes `_mutex` before
`_mutex_sectors` and never two locks of one kind one after the other, it changes data only under their
lock, after an insertion it notifies, and it looks at the size before it sleeps.  So threads never wait
for each other.
-/
namespace Capio.Storage.FileLocks

open Common Storage Lib.WaitsFor Function List

/-- `sectors` and `shared` are `_mutex_sectors`, for a writer and for a reader. -/
inductive Lock (φ : Type)
  | mutex (f : φ)
  | sectors (f : φ)
  | shared (f : φ)
  deriving DecidableEq

inductive Wait (φ : Type)
  | data (f : φ) (offset : Int)
  | commit (f : φ)
  deriving DecidableEq

inductive Action (φ : Type)
  /-- A `lock_guard` or `unique_lock` of `_mutex`. -/
  | lock (f : φ)
  /-- A `scoped_lock`, that takes both or none. -/
  | lockBoth (f g : φ)
  | unlock (f : φ)
  | lockSectors (f : φ)
  | unlockSectors (f : φ)
  | lockShared (f : φ)
  | unlockShared (f : φ)
  | insert (f : φ) (newStart newEnd : Nat)
  | readSize (f : φ)
  | readSectorEnd (f : φ) (offset : Int)
  | copySectors (f : φ)
  | grow (f : φ) (os : Os) (dataSize : Nat)
  | move (f src : φ) (srcOffset dstOffset numBytes : Nat)
  /-- The test and the assignment of `_committed`. -/
  | assign (f : φ) (commit : Bool)
  | notifyCommitted (f : φ)
  | notifyData (f : φ)
  /-- The test in the loop of `condition_variable::wait`, and the wait itself. -/
  | sleepUnless (w : Wait φ)

section

variable {φ : Type}

def Wait.file : Wait φ → φ
  | .data f _ => f
  | .commit f => f

def Wait.loop : Wait φ → List (Action φ)
  | .data f offset => [.lockShared f, .readSize f, .unlockShared f, .sleepUnless (.data f offset)]
  | .commit f => [.sleepUnless (.commit f)]

def Wait.notification : Wait φ → Action φ
  | .data f _ => .notifyData f
  | .commit f => .notifyCommitted f

inductive Call (φ : Type)
  | waitForData (f : φ) (offset : Int)
  | waitForCommit (f : φ)
  | insertSector (f : φ) (newStart newEnd : Nat)
  | setCommitted (f : φ) (commit : Bool)
  | getSectorEnd (f : φ) (offset : Int)
  | getFileSize (f : φ)
  | getStoredSize (f : φ)
  | expandBuffer (f : φ) (os : Os) (dataSize : Nat)
  | copyFromFile (f src : φ) (srcOffset dstOffset numBytes : Nat)

def Wait.code (w : Wait φ) : List (Action φ) :=
  .lock w.file :: w.loop ++ [.unlock w.file]

def Call.code [DecidableEq φ] : Call φ → List (Action φ)
  | .waitForData f offset => (Wait.data f offset).code
  | .waitForCommit f => (Wait.commit f).code
  | .insertSector f newStart newEnd =>
    [.lockSectors f, .insert f newStart newEnd, .unlockSectors f, .lock f, .notifyData f, .unlock f]
  | .setCommitted f commit => [.lock f, .assign f commit, .unlock f]
  | .getSectorEnd f offset => [.lockShared f, .readSectorEnd f offset, .unlockShared f]
  | .getFileSize f => [.lockShared f, .readSize f, .unlockShared f]
  | .getStoredSize f => [.lock f, .lockShared f, .readSize f, .unlockShared f, .unlock f]
  | .expandBuffer f os dataSize =>
    [.lock f, .lockShared f, .copySectors f, .unlockShared f, .grow f os dataSize, .unlock f]
  | .copyFromFile f src srcOffset dstOffset numBytes =>
    if src = f then [.lock f, .move f f srcOffset dstOffset numBytes, .unlock f]
    else [.lockBoth f src, .move f src srcOffset dstOffset numBytes, .unlock f, .unlock src]

def Action.gains : Action φ → List (Lock φ)
  | .lock f => [.mutex f]
  | .lockBoth f g => [.mutex f, .mutex g]
  | .lockSectors f => [.sectors f]
  | .lockShared f => [.shared f]
  | _ => []

def Action.loses : Action φ → List (Lock φ)
  | .unlock f => [.mutex f]
  | .unlockSectors f => [.sectors f]
  | .unlockShared f => [.shared f]
  | _ => []

end

inductive Mode (φ : Type)
  | awake
  | asleep (w : Wait φ) (notified : Bool)

/-- `guards` are the lock guards on the stack; `value` is what was read last, and `sectors` the copy that
`expandBuffer` makes. -/
structure Thread (φ : Type) where
  todo : List (Action φ) := []
  mode : Mode φ := .awake
  guards : List (Lock φ) := []
  value : Int := 0
  sectors : List Sectors.Sector := []

structure Locks (τ φ : Type) where
  mutex : φ → Option τ := fun _ => none
  writer : φ → Option τ := fun _ => none
  readers : φ → List τ := fun _ => []

structure State (τ φ : Type) where
  files : φ → CapioFile
  locks : Locks τ φ := {}
  threads : τ → Thread φ := fun _ => {}

inductive Event (τ φ : Type)
  | call (t : τ) (c : Call φ)
  | act (t : τ)
  | wake (t : τ)

section

variable {τ φ : Type} [DecidableEq τ] [DecidableEq φ]

def Locks.free (k : Locks τ φ) : Lock φ → Bool
  | .mutex f => k.mutex f == none
  | .sectors f => k.writer f == none && k.readers f == []
  | .shared f => k.writer f == none

def Locks.take (t : τ) (k : Locks τ φ) : Lock φ → Locks τ φ
  | .mutex f => { k with mutex := update k.mutex f (some t) }
  | .sectors f => { k with writer := update k.writer f (some t) }
  | .shared f => { k with readers := update k.readers f (t :: k.readers f) }

def Locks.drop (t : τ) (k : Locks τ φ) : Lock φ → Locks τ φ
  | .mutex f => { k with mutex := update k.mutex f none }
  | .sectors f => { k with writer := update k.writer f none }
  | .shared f => { k with readers := update k.readers f ((k.readers f).filter (· ≠ t)) }

def Thread.ready (files : φ → CapioFile) (th : Thread φ) : Wait φ → Bool
  | .data f offset => decide (offset ≤ th.value) || (files f).committed
  | .commit f => (files f).committed

def Thread.loses (files : φ → CapioFile) (th : Thread φ) : Action φ → List (Lock φ)
  | .sleepUnless w => if th.ready files w then [] else [.mutex w.file]
  | a => a.loses

def Thread.after (files : φ → CapioFile) (rest : List (Action φ)) (th : Thread φ) (a : Action φ) :
    Thread φ :=
  let th' := { th with todo := rest, guards := a.gains ++ th.guards.filter (· ∉ th.loses files a) }
  match a with
  | .readSize f => { th' with value := (files f).getStoredSize }
  | .readSectorEnd f offset => { th' with value := sectorEnd (files f) offset }
  | .copySectors f => { th' with sectors := (files f).sectors }
  | .assign f commit =>
    if (files f).committed ≠ commit ∧ commit = true then
      { th' with todo := .notifyCommitted f :: .notifyData f :: rest }
    else th'
  | .sleepUnless w => if th.ready files w then th' else { th' with mode := .asleep w false }
  | _ => th'

def Thread.notify (a : Action φ) (th : Thread φ) : Thread φ :=
  match th.mode, a with
  | .asleep (.data f offset) _, .notifyData g =>
    if f = g then { th with mode := .asleep (.data f offset) true } else th
  | .asleep (.commit f) _, .notifyCommitted g =>
    if f = g then { th with mode := .asleep (.commit f) true } else th
  | _, _ => th

def Thread.store (files : φ → CapioFile) (th : Thread φ) : Action φ → Option (φ → CapioFile)
  | .insert f newStart newEnd => some (update files f ((files f).insertSector newStart newEnd))
  | .assign f commit => some (update files f ((files f).setCommitted commit))
  | .grow f os dataSize =>
    match (files f).buffer.grow os dataSize th.sectors with
    | .ok (some b) => some (update files f { files f with buffer := b })
    | _ => none
  | .move f src srcOffset dstOffset numBytes => do
    let bytes ← ((files src).loadBytes srcOffset numBytes).toOption
    let f' ← ((files f).storeBytes dstOffset bytes).toOption
    some (update files f f')
  | _ => some files

namespace State

def perform (s : State τ φ) (t : τ) (a : Action φ) (rest : List (Action φ)) : Option (State τ φ) :=
  let th := s.threads t
  if a.gains.all s.locks.free then do
    let files ← th.store s.files a
    some {
      files := files
      locks := (th.loses s.files a).foldl (Locks.drop t) (a.gains.foldl (Locks.take t) s.locks)
      threads := update (fun u => (s.threads u).notify a) t (th.after s.files rest a) }
  else none

def step (s : State τ φ) : Event τ φ → Option (State τ φ)
  | .call t c =>
    match (s.threads t).mode, (s.threads t).todo with
    | .awake, [] => some { s with threads := update s.threads t { s.threads t with todo := c.code } }
    | _, _ => none
  | .act t =>
    match (s.threads t).mode, (s.threads t).todo with
    | .awake, a :: rest => s.perform t a rest
    | _, _ => none
  | .wake t =>
    match (s.threads t).mode with
    | .asleep w _ =>
      some { s with
        threads := update s.threads t { s.threads t with
          mode := .awake
          todo := .lock w.file :: w.loop ++ (s.threads t).todo } }
    | .awake => none

end State

end

section

variable {φ : Type}

def Lock.level : Lock φ → Nat
  | .mutex _ => 0
  | .sectors _ => 1
  | .shared _ => 1

def Action.needs : Action φ → List (Lock φ)
  | .insert f _ _ => [.sectors f]
  | .readSize f => [.shared f]
  | .readSectorEnd f _ => [.shared f]
  | .copySectors f => [.shared f]
  | .grow f _ _ => [.mutex f]
  | .move f src _ _ _ => [.mutex f, .mutex src]
  | .assign f _ => [.mutex f]
  | .notifyCommitted f => [.mutex f]
  | .notifyData f => [.mutex f]
  | _ => []

def Action.Changes : Action φ → Prop
  | .insert _ _ _ => True
  | .assign _ _ => True
  | _ => False

def Pending (a : Action φ) : List (Action φ) → Prop
  | [] => False
  | b :: rest => b = a ∨ ¬ b.Changes ∧ Pending a rest

def Judges (f : φ) (offset : Int) (todo : List (Action φ)) : Prop :=
  todo = [.sleepUnless (.data f offset), .unlock f] ∨
    todo = [.unlockShared f, .sleepUnless (.data f offset), .unlock f]

structure Sound (held : List (Lock φ)) (a : Action φ) (rest : List (Action φ)) : Prop where
  ordered : ∀ l ∈ a.gains, ∀ h ∈ held, h.level < l.level
  guarded : ∀ l ∈ a.loses ++ a.needs, l ∈ held
  notifies : ∀ f newStart newEnd, a = .insert f newStart newEnd → Pending (.notifyData f) rest
  releases : ∀ w, a = .sleepUnless w → held = [.mutex w.file] ∧ rest = [.unlock w.file]
  reads : ∀ f offset, Judges f offset rest → a = .readSize f ∨ Judges f offset (a :: rest)

theorem sound_iff (held : List (Lock φ)) (a : Action φ) (rest : List (Action φ)) : Sound held a rest ↔
    (∀ l ∈ a.gains, ∀ h ∈ held, h.level < l.level) ∧ (∀ l ∈ a.loses ++ a.needs, l ∈ held) ∧
      (∀ f newStart newEnd, a = .insert f newStart newEnd → Pending (.notifyData f) rest) ∧
      (∀ w, a = .sleepUnless w → held = [.mutex w.file] ∧ rest = [.unlock w.file]) ∧
      ∀ f offset, Judges f offset rest → a = .readSize f ∨ Judges f offset (a :: rest) :=
  ⟨fun h => ⟨h.ordered, h.guarded, h.notifies, h.releases, h.reads⟩,
    fun h => ⟨h.1, h.2.1, h.2.2.1, h.2.2.2.1, h.2.2.2.2⟩⟩

variable [DecidableEq φ]

def WellLocked (held : List (Lock φ)) : List (Action φ) → Prop
  | [] => held = []
  | a :: rest => Sound held a rest ∧ WellLocked (a.gains ++ held.filter (· ∉ a.loses)) rest

theorem Wait.wellLocked (w : Wait φ) : WellLocked [] w.code := by
  cases w with
  | data f offset =>
    simp [Wait.code, Wait.loop, Wait.file, WellLocked, sound_iff, Action.gains, Action.loses, Action.needs,
      Lock.level, Judges]
  | commit f =>
    simp [Wait.code, Wait.loop, Wait.file, WellLocked, sound_iff, Action.gains, Action.loses, Action.needs,
      Judges]

theorem Call.wellLocked (c : Call φ) : WellLocked [] c.code := by
  cases c with
  | waitForData f offset => exact Wait.wellLocked _
  | waitForCommit f => exact Wait.wellLocked _
  | copyFromFile f src srcOffset dstOffset numBytes =>
    rw [Call.code]
    split
    · simp [WellLocked, sound_iff, Action.gains, Action.loses, Action.needs, Judges]
    · next hNe =>
      simp [WellLocked, sound_iff, Action.gains, Action.loses, Action.needs, Judges, hNe]
  | _ =>
    simp [Call.code, WellLocked, sound_iff, Action.gains, Action.loses, Action.needs, Lock.level, Judges,
      Pending, Action.Changes]

end

section

variable {τ φ : Type} [DecidableEq τ] [DecidableEq φ] {k : Locks τ φ} {t : τ}

def Locks.Held (k : Locks τ φ) (t : τ) : Lock φ → Prop
  | .mutex f => k.mutex f = some t
  | .sectors f => k.writer f = some t
  | .shared f => t ∈ k.readers f

omit [DecidableEq φ] in
theorem Locks.not_held_of_free (hFree : k.free l = true) (hShared : ∀ f, l ≠ .shared f) (u : τ) :
    ¬ k.Held u l := by
  cases l with
  | mutex f =>
    intro hHeld
    simp [Locks.free, show k.mutex f = some u from hHeld] at hFree
  | sectors f =>
    intro hHeld
    simp [Locks.free, show k.writer f = some u from hHeld] at hFree
  | shared f => exact absurd rfl (hShared f)

omit [DecidableEq τ] in
theorem owner_take_iff (hAlone : ∀ u, owner f = some u → u = t) (u : τ) (g : φ) :
    update owner f (some t) g = some u ↔ u = t ∧ g = f ∨ owner g = some u := by
  by_cases hg : g = f
  · grind
  · grind

omit [DecidableEq τ] in
theorem owner_drop_iff (hHeld : owner f = some t) (u : τ) (g : φ) :
    update owner f none g = some u ↔ owner g = some u ∧ ¬ (u = t ∧ g = f) := by
  by_cases hg : g = f
  · grind
  · grind

omit [DecidableEq τ] in
theorem Locks.held_take (hAlone : (∀ f, l ≠ .shared f) → ∀ u, k.Held u l → u = t) (u : τ) (l' : Lock φ) :
    (k.take t l).Held u l' ↔ u = t ∧ l' = l ∨ k.Held u l' := by
  cases l with
  | mutex f | sectors f =>
    have hTaken := owner_take_iff (hAlone (by simp)) u
    cases l' <;> simp [Locks.take, Locks.Held, hTaken]
  | shared f =>
    cases l' with
    | shared g => by_cases hg : g = f <;> simp [Locks.take, Locks.Held, hg]
    | _ => simp [Locks.take, Locks.Held]

theorem Locks.held_drop (hHeld : k.Held t l) (u : τ) (l' : Lock φ) :
    (k.drop t l).Held u l' ↔ k.Held u l' ∧ ¬ (u = t ∧ l' = l) := by
  cases l with
  | mutex f | sectors f =>
    have hDropped := owner_drop_iff hHeld u
    cases l' <;> simp [Locks.drop, Locks.Held, hDropped]
  | shared f =>
    cases l' with
    | shared g => by_cases hg : g = f <;> simp [Locks.drop, Locks.Held, hg]
    | _ => simp [Locks.drop, Locks.Held]

omit [DecidableEq τ] in
theorem Locks.held_takes {gains : List (Lock φ)}
    (hAlone : ∀ l ∈ gains, (∀ f, l ≠ .shared f) → ∀ u, k.Held u l → u = t) (u : τ) (l : Lock φ) :
    (gains.foldl (Locks.take t) k).Held u l ↔ u = t ∧ l ∈ gains ∨ k.Held u l := by
  induction gains generalizing k with
  | nil => simp
  | cons l1 gains ih =>
    have hTake := Locks.held_take (hAlone l1 mem_cons_self)
    rw [foldl_cons, ih ?_, hTake, mem_cons]
    · tauto
    · grind

theorem Locks.held_drops {loses : List (Lock φ)} (hNodup : loses.Nodup) (hHeld : ∀ l ∈ loses, k.Held t l)
    (u : τ) (l : Lock φ) :
    (loses.foldl (Locks.drop t) k).Held u l ↔ k.Held u l ∧ ¬ (u = t ∧ l ∈ loses) := by
  induction loses generalizing k with
  | nil => simp
  | cons l1 loses ih =>
    obtain ⟨hNew, hNodup⟩ := nodup_cons.mp hNodup
    have hDrop := Locks.held_drop (hHeld l1 mem_cons_self)
    rw [foldl_cons, ih hNodup ?_, hDrop, mem_cons]
    · tauto
    · grind

section

variable {th : Thread φ} {a : Action φ} {rest : List (Action φ)} {files : φ → CapioFile}

section

variable (th : Thread φ) (a : Action φ)

theorem Thread.guards_after (rest : List (Action φ)) (files : φ → CapioFile) :
    (th.after files rest a).guards = a.gains ++ th.guards.filter (· ∉ th.loses files a) := by
  cases a with
  | assign f commit =>
    simp only [Thread.after]
    split <;> rfl
  | sleepUnless w =>
    simp only [Thread.after]
    split <;> rfl
  | _ => rfl

theorem Thread.notify_cases :
    th.notify a = th ∧ (∀ w b, th.mode = .asleep w b → a ≠ w.notification) ∨
      ∃ w b, th.mode = .asleep w b ∧ a = w.notification ∧
        th.notify a = { th with mode := .asleep w true } := by
  unfold Thread.notify
  split
  · next f offset b g hMode =>
    by_cases hSame : f = g
    · subst hSame
      exact .inr ⟨_, b, hMode, rfl, if_pos rfl⟩
    · refine .inl ⟨if_neg hSame, fun w b' hMode' hEq => ?_⟩
      rw [hMode] at hMode'
      cases hMode'
      exact hSame (Action.notifyData.inj hEq).symm
  · next f b g hMode =>
    by_cases hSame : f = g
    · subst hSame
      exact .inr ⟨_, b, hMode, rfl, if_pos rfl⟩
    · refine .inl ⟨if_neg hSame, fun w b' hMode' hEq => ?_⟩
      rw [hMode] at hMode'
      cases hMode'
      exact hSame (Action.notifyCommitted.inj hEq).symm
  · next hData hCommit =>
    refine .inl ⟨rfl, fun w b hMode hEq => ?_⟩
    cases w with
    | data f offset => exact hData f offset b f hMode hEq
    | commit f => exact hCommit f b f hMode hEq

theorem Thread.notify_same :
    (th.notify a).guards = th.guards ∧ (th.notify a).todo = th.todo ∧ (th.notify a).value = th.value := by
  obtain ⟨hSame, -⟩ | ⟨w, b, -, -, hNew⟩ := th.notify_cases a
  · rw [hSame]
    exact ⟨rfl, rfl, rfl⟩
  · rw [hNew]
    exact ⟨rfl, rfl, rfl⟩

end

theorem Thread.notify_awake (a : Action φ) : (th.notify a).mode = .awake ↔ th.mode = .awake := by
  obtain ⟨hSame, -⟩ | ⟨w, b, hMode, -, hNew⟩ := th.notify_cases a
  · rw [hSame]
  · rw [hNew, hMode]
    exact ⟨nofun, nofun⟩

/-- The thread sleeps, has to notify that it has committed, or proceeds. -/
inductive Next (files : φ → CapioFile) (th : Thread φ) (rest : List (Action φ)) : Action φ → Thread φ → Prop
  | sleeps (w : Wait φ) (hNot : th.ready files w = false) :
    Next files th rest (.sleepUnless w) { th with
      todo := rest, mode := .asleep w false, guards := th.guards.filter (· ∉ [Lock.mutex w.file]) }
  | commits (f : φ) (hWas : (files f).committed = false) :
    Next files th rest (.assign f true) { th with
      todo := .notifyCommitted f :: .notifyData f :: rest
      guards := (Action.assign f true).gains ++ th.guards.filter (· ∉ (Action.assign f true).loses) }
  | proceeds (a : Action φ) (th' : Thread φ) (hLoses : th.loses files a = a.loses)
      (hCommit : ∀ f, a = .assign f true → (files f).committed = true) (hTodo : th'.todo = rest)
      (hMode : th'.mode = th.mode) (hGuards : th'.guards = a.gains ++ th.guards.filter (· ∉ a.loses)) :
    Next files th rest a th'

theorem Thread.after_next (th : Thread φ) (files : φ → CapioFile) (rest : List (Action φ)) (a : Action φ) :
    Next files th rest a (th.after files rest a) := by
  cases a with
  | assign f commit =>
    by_cases hChange : (files f).committed ≠ commit ∧ commit = true
    · obtain ⟨hNe, rfl⟩ := id hChange
      unfold Thread.after
      dsimp only
      rw [if_pos hChange]
      exact .commits f (Bool.eq_false_iff.mpr hNe)
    · unfold Thread.after
      dsimp only
      rw [if_neg hChange]
      refine .proceeds _ _ rfl (fun g hEq => ?_) rfl rfl rfl
      cases hEq
      by_contra hNe
      exact hChange ⟨hNe, rfl⟩
  | sleepUnless w =>
    unfold Thread.after
    dsimp only
    by_cases hReady : th.ready files w = true
    · have hLoses : th.loses files (.sleepUnless w) = [] := if_pos hReady
      rw [if_pos hReady, hLoses]
      exact .proceeds _ _ hLoses nofun rfl rfl rfl
    · have hLoses : th.loses files (.sleepUnless w) = [.mutex w.file] := if_neg hReady
      rw [if_neg hReady, hLoses]
      exact .sleeps w (Bool.eq_false_iff.mpr hReady)
  | _ => exact .proceeds _ _ rfl nofun rfl rfl rfl

omit [DecidableEq φ] in
theorem Thread.loses_held (h : Sound th.guards a rest) : ∀ l ∈ th.loses files a, l ∈ th.guards := by
  intro l hl
  cases a with
  | sleepUnless w =>
    unfold Thread.loses at hl
    grind [h.releases]
  | _ => exact h.guarded l (mem_append_left _ hl)

omit [DecidableEq φ] in
theorem Thread.loses_nodup (th : Thread φ) (a : Action φ) (files : φ → CapioFile) :
    (th.loses files a).Nodup := by
  cases a with
  | sleepUnless w =>
    unfold Thread.loses
    dsimp only
    split <;> simp
  | _ => simp [Thread.loses, Action.loses]

/-- What a thread has to do is sound; one that sleeps has given `_mutex` back and will unlock it. -/
def Disciplined (th : Thread φ) : Prop :=
  match th.mode with
  | .awake => WellLocked th.guards th.todo
  | .asleep w _ => th.guards = [] ∧ th.todo = [.unlock w.file]

theorem Disciplined.notify (h : Disciplined th) (a : Action φ) : Disciplined (th.notify a) := by
  obtain ⟨hSame, -⟩ | ⟨w, b, hMode, -, hNew⟩ := th.notify_cases a
  · rwa [hSame]
  · grind [Disciplined]

theorem wellLocked_notifying (hSound : Sound held (.assign f commit) rest) (h : WellLocked held rest) :
    WellLocked held (.notifyCommitted f :: .notifyData f :: rest) := by
  have hMutex : Lock.mutex f ∈ held := hSound.guarded _ mem_cons_self
  have hNot : ∀ g offset, ¬ Judges g offset rest := fun g offset hJudges => by
    rcases hSound.reads g offset hJudges with hEq | hEq
    · cases hEq
    · simp [Judges] at hEq
  simp only [Judges, not_or] at hNot
  simp [WellLocked, sound_iff, Action.gains, Action.loses, Action.needs, hMutex, h, Judges]
  exact hNot

theorem Disciplined.after (hAwake : th.mode = .awake) (h : WellLocked th.guards (a :: rest)) :
    Disciplined (th.after files rest a) := by
  obtain ⟨hSound, hRest⟩ := h
  have hNext := th.after_next files rest a
  generalize th.after files rest a = th' at hNext
  unfold Disciplined
  cases hNext with
  | sleeps w hNot =>
    obtain ⟨hGuards, hTodo⟩ := hSound.releases w rfl
    refine ⟨?_, hTodo⟩
    simp [hGuards]
  | commits f hWas =>
    rw [show th.mode = .awake from hAwake]
    have hKept : (Action.assign f true).gains ++ th.guards.filter (· ∉ (Action.assign f true).loses) =
        th.guards := by simp [Action.gains, Action.loses]
    rw [hKept] at hRest
    exact hKept.symm ▸ wellLocked_notifying hSound hRest
  | proceeds _ _ hLoses hCommit hTodo hMode hGuards =>
    rw [hMode, hAwake, hTodo, hGuards]
    exact hRest

end

def Consistent (s : State τ φ) : Prop :=
  ∀ t l, s.locks.Held t l ↔ l ∈ (s.threads t).guards

variable {s s' : State τ φ} {a : Action φ} {rest : List (Action φ)}

theorem State.perform_eq (h : s.perform t a rest = some s') :
    (∀ l ∈ a.gains, s.locks.free l = true) ∧ ∃ files, (s.threads t).store s.files a = some files ∧ s' = {
      files := files
      locks := ((s.threads t).loses s.files a).foldl (Locks.drop t) (a.gains.foldl (Locks.take t) s.locks)
      threads := update (fun u => (s.threads u).notify a) t
        ((s.threads t).after s.files rest a) } := by
  grind [State.perform, Option.bind_eq_some_iff, all_eq_true, Option.some.inj]

theorem Consistent.perform (hs : Consistent s) (hSound : Sound (s.threads t).guards a rest)
    (h : s.perform t a rest = some s') : Consistent s' := by
  obtain ⟨hFree, files, -, rfl⟩ := State.perform_eq h
  have hLoses : ∀ l ∈ (s.threads t).loses s.files a, l ∈ (s.threads t).guards := Thread.loses_held hSound
  have hTakes : ∀ u l, (a.gains.foldl (Locks.take t) s.locks).Held u l ↔
      u = t ∧ l ∈ a.gains ∨ s.locks.Held u l := Locks.held_takes fun l hl hShared u hHeld =>
    absurd hHeld (Locks.not_held_of_free (hFree l hl) hShared u)
  intro u l
  dsimp only
  rw [Locks.held_drops (Thread.loses_nodup ..) fun l hl =>
    (hTakes t l).mpr (.inr ((hs t l).mpr (hLoses l hl))), hTakes, hs u l]
  by_cases hu : u = t
  · subst hu
    -- a lock that is taken is not one that is given back
    have hApart : l ∈ a.gains → l ∉ (s.threads u).loses s.files a := fun hGain hLose =>
      Nat.lt_irrefl _ (hSound.ordered l hGain l (hLoses l hLose))
    grind [Thread.guards_after]
  · rw [update_of_ne hu, (Thread.notify_same ..).1]
    tauto

end

section

variable {τ φ : Type} [DecidableEq τ] [DecidableEq φ] {s : State τ φ}

def Thread.Requests (th : Thread φ) (l : Lock φ) : Prop :=
  th.mode = .awake ∧ ∃ a rest, th.todo = a :: rest ∧ l ∈ a.gains

/-- The threads that keep another one from taking a lock.  A reader may also have to wait for a writer that
waits itself. -/
def State.Blocks (s : State τ φ) (u : τ) : Lock φ → Prop
  | .mutex f => s.locks.mutex f = some u
  | .sectors f => s.locks.writer f = some u ∨ u ∈ s.locks.readers f
  | .shared f => s.locks.writer f = some u ∨ (s.threads u).Requests (.sectors f)

def State.WaitsFor (s : State τ φ) (t u : τ) : Prop :=
  ∃ l, (s.threads t).Requests l ∧ s.Blocks u l

/-- `_mutex` is taken first, and readers may wait for writers. -/
def Lock.rank : Lock φ → Nat
  | .mutex _ => 2
  | .shared _ => 1
  | .sectors _ => 0

def Thread.rank (th : Thread φ) : Nat :=
  (th.todo.head?.bind (·.gains.head?)).elim 0 Lock.rank

omit [DecidableEq φ] in
theorem Thread.Requests.rank_eq {th : Thread φ} (h : th.Requests l) : th.rank = l.rank := by
  obtain ⟨-, a, rest, hTodo, hl⟩ := h
  unfold Thread.rank
  rw [hTodo]
  cases a with
  | lockBoth f g =>
    rcases mem_pair.mp hl with rfl | rfl
    · rfl
    · rfl
  | lock f => exact congrArg Lock.rank (mem_singleton.mp hl).symm
  | lockSectors f => exact congrArg Lock.rank (mem_singleton.mp hl).symm
  | lockShared f => exact congrArg Lock.rank (mem_singleton.mp hl).symm
  | _ => cases hl

theorem Thread.Requests.above {th : Thread φ} (hDisciplined : Disciplined th) (h : th.Requests l)
    (hHeld : l' ∈ th.guards) : l'.level < l.level := by
  obtain ⟨hAwake, a, rest, hTodo, hl⟩ := h
  unfold Disciplined at hDisciplined
  rw [hAwake, hTodo] at hDisciplined
  exact hDisciplined.1.ordered l hl l' hHeld

omit [DecidableEq τ] in
theorem no_deadlock (hDisciplined : ∀ t, Disciplined (s.threads t)) (hs : Consistent s) (T : Set τ) :
    ¬ Deadlocked s.WaitsFor T := by
  refine not_deadlocked_of_rank (fun t => (s.threads t).rank) ?_ T
  rintro t u v ⟨l, ht, hBlocks⟩ ⟨l', hu, -⟩
  rw [ht.rank_eq, hu.rank_eq]
  have hAbove : ∀ held, s.locks.Held u held → held.level < l'.level := fun held hHeld =>
    hu.above (hDisciplined u) ((hs u held).mp hHeld)
  have hTop : l'.level ≤ 1 := by cases l' <;> simp [Lock.level]
  cases l with
  | mutex f =>
    have hLevel := hAbove (.mutex f) hBlocks
    cases l' with
    | mutex g => exact absurd hLevel (Nat.lt_irrefl 0)
    | sectors g => exact Nat.zero_lt_two
    | shared g => exact Nat.one_lt_two
  | sectors f =>
    -- a thread that holds the sectors requests nothing
    rcases hBlocks with hWriter | hReader
    · exact absurd (hAbove (.sectors f) hWriter) hTop.not_gt
    · exact absurd (hAbove (.shared f) hReader) hTop.not_gt
  | shared f =>
    rcases hBlocks with hWriter | hWaits
    · exact absurd (hAbove (.sectors f) hWriter) hTop.not_gt
    · rw [← hu.rank_eq, hWaits.rank_eq]
      exact Nat.zero_lt_one

end

end Capio.Storage.FileLocks
