import Capio.Server.StorageManager
import Mathlib.Algebra.GroupWithZero.Nat

/-! # The release of cloned children

A child that was cloned sends a handshake and waits for its answer; its parent sends a clone request.
The two arrive in any order.  For the handshake a detached thread waits, on one condition variable for
all children, until the tid of its child is in `thread_allowed_to_continue`; the clone request puts it
there once the descriptors are copied.
-/
namespace Capio.Server.CloneRelease

open Common Lib.Outcome List

/-- Where a waiting thread is: it has to lock the mutex and to look for its tid; it is in the wait of the
condition variable; it has replied, holds the mutex, and has to erase its tid. -/
inductive Phase
  | locking
  | sleeping
  | erasing
  deriving DecidableEq

structure Waiter where
  tid : Tid
  phase : Phase
  deriving DecidableEq

inductive Message
  | handshake (tid : Tid) (appName : AppName) (wait : Bool)
  | clone (parentTid childTid : Tid)

/-- `unlocking` is the child whose descriptors the request thread has copied and which it has not
unlocked.  The last three fields record what was done: the handshakes with a wait, the clones that are
complete, and the clone requests that are handled. -/
structure State where
  cm : ClientManager
  sm : StorageManager
  waiters : List Waiter := []
  unlocking : Option Tid := none
  awaited : List Tid := []
  cloned : List Tid := []
  handled : List Tid := []

inductive Stop
  | blocked
  | failed (e : Failure)

inductive Event
  | receive (m : Message)
  | unlock
  | turn (i : Nat)
  | wake (i : Nat)

namespace State

def allowed (s : State) : List Tid := s.cm.threadAllowedToContinue

def replied (s : State) : List Tid := s.cm.replies.map Reply.tid

def mutexFree (s : State) : Bool := s.waiters.all (·.phase != .erasing)

def register (s : State) (tid : Tid) (appName : AppName) (wait : Bool) : State :=
  let s := { s with cm := s.cm.registerClient tid appName }
  if wait then { s with waiters := s.waiters ++ [⟨tid, .locking⟩], awaited := s.awaited ++ [tid] } else s

end State

def Waiter.notify (w : Waiter) : Waiter :=
  match w.phase with
  | .sleeping => { w with phase := .locking }
  | .locking | .erasing => w

def State.look (s : State) (i : Nat) (tid : Tid) : Except Stop State :=
  if s.mutexFree then
    if tid ∈ s.allowed then do
      let cm ← (s.cm.reply tid 1).mapError .failed
      pure { s with cm := cm, waiters := s.waiters.set i ⟨tid, .erasing⟩ }
    else pure { s with waiters := s.waiters.set i ⟨tid, .sleeping⟩ }
  else throw .blocked

def State.leave (s : State) (i : Nat) (tid : Tid) : State :=
  { s with
    cm := { s.cm with threadAllowedToContinue := s.cm.threadAllowedToContinue.erase tid }
    waiters := s.waiters.eraseIdx i }

def step (env : Env) (s : State) : Event → Except Stop State
  | .receive m =>
    if s.unlocking.isSome then throw .blocked
    else match m with
      | .handshake tid appName wait => pure (s.register tid appName wait)
      | .clone parentTid childTid => do
        let sm ← (s.sm.clone env parentTid childTid).mapError .failed
        pure { s with sm := sm, unlocking := some childTid, cloned := s.cloned ++ [childTid] }
  | .unlock =>
    match s.unlocking with
    | some tid =>
      if s.mutexFree then
        pure { s with
          cm := s.cm.unlockClonedChild tid
          waiters := s.waiters.map Waiter.notify
          unlocking := none
          handled := s.handled ++ [tid] }
      else throw .blocked
    | none => throw .blocked
  | .turn i =>
    match s.waiters[i]? with
    | some ⟨tid, .locking⟩ => s.look i tid
    | some ⟨tid, .erasing⟩ => pure (s.leave i tid)
    | some ⟨_, .sleeping⟩ | none => throw .blocked
  | .wake i =>
    match s.waiters[i]? with
    | some ⟨tid, .sleeping⟩ => pure { s with waiters := s.waiters.set i ⟨tid, .locking⟩ }
    | some ⟨_, .locking⟩ | some ⟨_, .erasing⟩ | none => throw .blocked

def start (cm : ClientManager) (sm : StorageManager) : State :=
  { cm := { cm with threadAllowedToContinue := [], replies := [] }, sm := sm }

def Event.awaits : Event → Option Tid
  | .receive (.handshake tid _ wait) => if wait then some tid else none
  | .receive (.clone _ _) | .unlock | .turn _ | .wake _ => none

def Event.clones : Event → Option Tid
  | .receive (.clone _ childTid) => some childTid
  | .receive (.handshake _ _ _) | .unlock | .turn _ | .wake _ => none

def Event.own : Event → Bool
  | .unlock | .turn _ => true
  | .receive _ | .wake _ => false

/-- Every child is replied to at most once, and after its own clone; and the tids in
`thread_allowed_to_continue` are those whose clone request is handled and which have no reply, up to
the one that a thread is about to erase while it holds the mutex. -/
structure Released (s : State) : Prop where
  once : s.replied.Nodup
  cloned : ∀ tid ∈ s.replied, tid ∈ s.awaited ∧ tid ∈ s.cloned ∧ tid ∈ s.handled
  allowed : s.allowed.Nodup
  mem_allowed : ∀ tid, tid ∈ s.allowed ↔
    tid ∈ s.handled ∧ (tid ∉ s.replied ∨ ⟨tid, .erasing⟩ ∈ s.waiters)

def Rests (env : Env) (s : State) : Prop :=
  ∀ e : Event, e.own = true → ∀ s', step env s e ≠ .ok s'

def Fresh (s : State) (e : Event) : Prop :=
  (∀ tid ∈ e.awaits, tid ∉ s.awaited) ∧ ∀ tid ∈ e.clones, tid ∉ s.cloned

structure Inv (s : State) : Prop where
  waiters : (s.waiters.map Waiter.tid).Nodup
  awaited : ∀ tid ∈ s.awaited, tid ∈ s.replied ∨ tid ∈ s.waiters.map Waiter.tid
  waits : ∀ w ∈ s.waiters, w.tid ∈ s.awaited ∧ s.cm.responses w.tid = true
  erasing : ∀ w ∈ s.waiters, w.phase = .erasing ↔ w.tid ∈ s.replied
  asleep : ∀ w ∈ s.waiters, w.phase = .sleeping → w.tid ∉ s.allowed
  clones : s.cloned = s.handled ++ s.unlocking.toList ∧ s.cloned.Nodup
  released : Released s

theorem exists_append_of_getElem? {α : Type} {l : List α} {i : Nat} {a : α} (h : l[i]? = some a) :
    ∃ l1 l2, l = l1 ++ a :: l2 ∧ (∀ b, l.set i b = l1 ++ b :: l2) ∧ l.eraseIdx i = l1 ++ l2 := by
  obtain ⟨hi, rfl⟩ := List.getElem?_eq_some_iff.mp h
  refine ⟨l.take i, l.drop (i + 1), ?_, fun b => ?_, eraseIdx_eq_take_drop_succ l i⟩
  · rw [getElem_cons_drop, take_append_drop]
  · exact set_eq_take_append_cons_drop.trans (if_pos hi)

theorem register_inv (h : Inv s) (appName : AppName) (hFresh : wait = true → tid ∉ s.awaited) :
    Inv (s.register tid appName wait) := by
  have hResponses : ∀ t, s.cm.responses t = true →
    (s.cm.registerClient tid appName).responses t = true := by
    intro t ht
    change Function.update s.cm.responses tid true t = true
    rw [Function.update_apply]
    split
    · rfl
    · exact ht
  cases wait with
  | false =>
    exact ⟨h.waiters, h.awaited, fun w hw => ⟨(h.waits w hw).1, hResponses _ (h.waits w hw).2⟩, h.erasing,
      h.asleep, h.clones, h.released.once, h.released.cloned, h.released.allowed, h.released.mem_allowed⟩
  | true =>
    have hNew : tid ∉ s.replied := fun hMem => hFresh rfl (h.released.cloned tid hMem).1
    have hWaiters : (s.register tid appName true).waiters = s.waiters ++ [⟨tid, .locking⟩] := rfl
    have hMem : ∀ w ∈ (s.register tid appName true).waiters, w ∈ s.waiters ∨ w = ⟨tid, .locking⟩ := by
      simp [hWaiters]
    refine ⟨?_, fun t ht => ?_, fun w hw => ?_, fun w hw => ?_, fun w hw hPhase => ?_, h.clones,
      h.released.once, fun t ht => ?_, h.released.allowed, fun t => ?_⟩
    · rw [hWaiters, map_append, map_singleton]
      grind [h.waiters.append, nodup_singleton, disjoint_singleton, h.waits]
    · rw [hWaiters, map_append, map_singleton, mem_append, mem_singleton]
      obtain ht | ht := mem_append.mp ht
      · exact (h.awaited t ht).imp_right .inl
      · exact .inr (.inr (mem_singleton.mp ht))
    · obtain hw | rfl := hMem w hw
      · exact ⟨mem_append_left _ (h.waits w hw).1, hResponses _ (h.waits w hw).2⟩
      · exact ⟨mem_append_right _ (mem_singleton.mpr rfl), Function.update_self _ _ _⟩
    · obtain hw | rfl := hMem w hw
      · exact h.erasing w hw
      · exact ⟨nofun, fun hReplied => absurd hReplied hNew⟩
    · obtain hw | rfl := hMem w hw
      · exact h.asleep w hw hPhase
      · cases hPhase
    · exact (h.released.cloned t ht).imp_left (mem_append_left _)
    · refine (h.released.mem_allowed t).trans (and_congr_right fun _ => or_congr_right ?_)
      grind

theorem Inv.setPhase (h : Inv s) (hw : s.waiters[i]? = some ⟨tid, phase⟩) (hPhase : phase ≠ .erasing)
    (next : Phase) (hAllowed : next = .erasing → tid ∈ s.allowed)
    (hAsleep : next = .sleeping → tid ∉ s.allowed)
    (hReplies : replies.map Reply.tid = if next = .erasing then tid :: s.replied else s.replied) :
    Inv { s with cm := { s.cm with replies := replies }, waiters := s.waiters.set i ⟨tid, next⟩ } := by
  obtain ⟨l1, l2, hSplit, hSet, -⟩ := exists_append_of_getElem? hw
  have hOwn : (⟨tid, phase⟩ : Waiter) ∈ s.waiters := mem_of_getElem? hw
  have hNew : tid ∉ s.replied := fun hMem => hPhase ((h.erasing _ hOwn).mpr hMem)
  have hTids : (s.waiters.set i ⟨tid, next⟩).map Waiter.tid = s.waiters.map Waiter.tid := by
    rw [hSet, hSplit, map_append, map_append]
    rfl
  -- the other threads have other tids
  have hNodup := h.waiters
  have hOther : ∀ w ∈ l1 ++ l2, w ∈ s.waiters ∧ w.tid ≠ tid := by grind
  have hMem : ∀ w, w ∈ s.waiters.set i ⟨tid, next⟩ ↔ w = ⟨tid, next⟩ ∨ w ∈ l1 ++ l2 := by grind
  have hOld : ∀ w, w ∈ s.waiters ↔ w = ⟨tid, phase⟩ ∨ w ∈ l1 ++ l2 := by
    intro w
    rw [hSplit, mem_append, mem_cons, mem_append]
    exact or_left_comm
  have hMore : ∀ t, t ∈ replies.map Reply.tid ↔ next = .erasing ∧ t = tid ∨ t ∈ s.replied := by
    rw [hReplies]
    split
    · next hErasing => simp [hErasing]
    · next hErasing => simp [hErasing]
  refine ⟨?_, fun t ht => ?_, fun w hw => ?_, fun w hw => ?_, fun w hw hSleeping => ?_, h.clones, ?_,
    fun t ht => ?_, h.released.allowed, fun t => ?_⟩
  · exact hTids ▸ h.waiters
  · change t ∈ replies.map Reply.tid ∨ t ∈ (s.waiters.set i ⟨tid, next⟩).map Waiter.tid
    rw [hTids, hMore]
    exact (h.awaited t ht).imp_left .inr
  · obtain rfl | hw := (hMem w).mp hw
    · exact ⟨(h.waits _ hOwn).1, (h.waits _ hOwn).2⟩
    · exact h.waits w (hOther w hw).1
  · change w.phase = .erasing ↔ w.tid ∈ replies.map Reply.tid
    rw [hMore]
    obtain rfl | hw := (hMem w).mp hw
    · simp [hNew]
    · simp [h.erasing w (hOther w hw).1, (hOther w hw).2]
  · obtain rfl | hw := (hMem w).mp hw
    · exact hAsleep hSleeping
    · exact h.asleep w (hOther w hw).1 hSleeping
  · change (replies.map Reply.tid).Nodup
    rw [hReplies]
    split
    · exact nodup_cons.mpr ⟨hNew, h.released.once⟩
    · exact h.released.once
  · obtain ⟨hErasing, rfl⟩ | ht := (hMore t).mp ht
    · have hHandled := ((h.released.mem_allowed t).mp (hAllowed hErasing)).1
      refine ⟨(h.waits _ hOwn).1, ?_, hHandled⟩
      exact h.clones.1 ▸ mem_append_left _ hHandled
    · exact h.released.cloned t ht
  · refine (h.released.mem_allowed t).trans (and_congr_right fun _ => ?_)
    change (_ ∨ _) ↔ (t ∉ replies.map Reply.tid ∨ _ ∈ s.waiters.set i ⟨tid, next⟩)
    rw [hMore, hMem, hOld]
    by_cases ht : t = tid
    · subst ht
      cases next <;> simp [hNew]
    · simp [ht]

theorem mem_map_notify {l : List Waiter} (hw : w ∈ l.map Waiter.notify) :
    w.phase ≠ .sleeping ∧ ∃ w0 ∈ l, w0.tid = w.tid ∧ (w.phase = .erasing ↔ w0.phase = .erasing) := by
  grind [Waiter.notify]

theorem map_tid_notify (l : List Waiter) : (l.map Waiter.notify).map Waiter.tid = l.map Waiter.tid := by
  rw [map_map]
  refine map_congr_left fun w _ => ?_
  grind [Waiter.notify]

theorem erasing_mem_notify (l : List Waiter) :
    ⟨tid, .erasing⟩ ∈ l.map Waiter.notify ↔ ⟨tid, .erasing⟩ ∈ l := by
  constructor
  · intro hMem
    obtain ⟨-, ⟨t, phase⟩, hw0, hTid, hPhase⟩ := mem_map_notify hMem
    grind
  · intro hMem
    exact mem_map.mpr ⟨_, hMem, rfl⟩

theorem unlock_inv (h : Inv s) (hUnlocking : s.unlocking = some tid) : Inv { s with
      cm := s.cm.unlockClonedChild tid
      waiters := s.waiters.map Waiter.notify
      unlocking := none
      handled := s.handled ++ [tid] } := by
  obtain ⟨hCloned, hNodup⟩ := h.clones
  rw [hUnlocking] at hCloned
  have hNew : tid ∉ s.handled := by grind
  have hNotAllowed : tid ∉ s.allowed := fun hMem => hNew ((h.released.mem_allowed tid).mp hMem).1
  have hNotReplied : tid ∉ s.replied := fun hMem => hNew (h.released.cloned tid hMem).2.2
  refine ⟨?_, fun t ht => ?_, fun w hw => ?_, fun w hw => ?_, fun w hw hPhase => ?_, ⟨?_, hNodup⟩,
    h.released.once, fun t ht => ?_, ?_, fun t => ?_⟩
  · exact (map_tid_notify s.waiters).symm ▸ h.waiters
  · exact (map_tid_notify s.waiters).symm ▸ h.awaited t ht
  · obtain ⟨-, w0, hw0, hTid, -⟩ := mem_map_notify hw
    exact hTid ▸ h.waits w0 hw0
  · obtain ⟨-, w0, hw0, hTid, hPhase⟩ := mem_map_notify hw
    exact hPhase.trans (hTid ▸ h.erasing w0 hw0)
  · exact absurd hPhase (mem_map_notify hw).1
  · exact hCloned.trans (append_nil _).symm
  · obtain ⟨hAwaited, hOld, hHandled⟩ := h.released.cloned t ht
    exact ⟨hAwaited, hOld, mem_append_left _ hHandled⟩
  · exact h.released.allowed.append (nodup_singleton tid) (disjoint_singleton.mpr hNotAllowed)
  · change t ∈ s.allowed ++ [tid] ↔ t ∈ s.handled ++ [tid] ∧
      (t ∉ s.replied ∨ _ ∈ s.waiters.map Waiter.notify)
    grind [mem_singleton, erasing_mem_notify, h.released.mem_allowed]

theorem leave_inv (h : Inv s) (hw : s.waiters[i]? = some ⟨tid, .erasing⟩) : Inv (s.leave i tid) := by
  obtain ⟨l1, l2, hSplit, -, hErase⟩ := exists_append_of_getElem? hw
  have hOwn : (⟨tid, .erasing⟩ : Waiter) ∈ s.waiters := mem_of_getElem? hw
  have hReplied : tid ∈ s.replied := (h.erasing _ hOwn).mp rfl
  have hNodup := h.waiters
  rw [hSplit, map_append, map_cons, nodup_middle, nodup_cons, ← map_append] at hNodup
  have hWaiters : (s.leave i tid).waiters = l1 ++ l2 := hErase
  have hMem : ∀ w, w ∈ s.waiters ↔ w = ⟨tid, .erasing⟩ ∨ w ∈ l1 ++ l2 := by grind
  have hOther : ∀ w ∈ (s.leave i tid).waiters, w ∈ s.waiters := by
    intro w hw
    exact (hMem w).mpr (.inr (hWaiters ▸ hw))
  have hAllowed : ∀ t, t ∈ (s.leave i tid).allowed ↔ t ≠ tid ∧ t ∈ s.allowed :=
    fun t => h.released.allowed.mem_erase_iff
  refine ⟨?_, fun t ht => ?_, fun w hw => h.waits w (hOther w hw), fun w hw => h.erasing w (hOther w hw),
    fun w hw hPhase hIn => ?_, h.clones, h.released.once, h.released.cloned,
    h.released.allowed.erase tid, fun t => ?_⟩
  · exact hWaiters ▸ hNodup.2
  · obtain hOld | hOld := h.awaited t ht
    · exact .inl hOld
    · obtain ⟨w, hw, rfl⟩ := mem_map.mp hOld
      obtain rfl | hw := (hMem w).mp hw
      · exact .inl hReplied
      · exact .inr (mem_map_of_mem (hWaiters ▸ hw))
  · exact h.asleep w (hOther w hw) hPhase ((hAllowed _).mp hIn).2
  · rw [hAllowed, h.released.mem_allowed t, hMem, hWaiters]
    change _ ↔ t ∈ s.handled ∧ (t ∉ s.replied ∨ _)
    by_cases ht : t = tid
    · grind
    · simp [ht]

theorem look_inv (h : Inv s) (hw : s.waiters[i]? = some ⟨tid, .locking⟩) : Yields (s.look i tid) Inv := by
  refine .ite (fun _ => .ite (fun hAllowed => ?_) fun hAllowed => ?_) fun _ => trivial
  · unfold ClientManager.reply
    split
    · exact h.setPhase hw nofun .erasing (fun _ => hAllowed) nofun rfl
    · trivial
  · exact h.setPhase hw nofun .sleeping nofun (fun _ => hAllowed) rfl

theorem step_inv (h : Inv s) (he : Fresh s e) : Yields (step env s e) Inv := by
  cases e with
  | receive m =>
    refine Ends.ite (fun _ => trivial) fun hFree => ?_
    cases m with
    | handshake tid appName wait =>
      refine register_inv h appName fun hWait => he.1 tid ?_
      subst hWait
      rfl
    | clone parentTid childTid =>
      refine (Ends.always (fun _ => trivial) _).bind fun sm _ => ?_
      have hNone : s.unlocking = none := Option.not_isSome_iff_eq_none.mp hFree
      have hClones := h.clones
      rw [hNone, Option.toList_none, append_nil] at hClones
      refine ⟨h.waiters, h.awaited, h.waits, h.erasing, h.asleep,
        ⟨congrArg (· ++ [childTid]) hClones.1, ?_⟩,
        h.released.once, fun t ht => ?_, h.released.allowed, h.released.mem_allowed⟩
      · exact hClones.2.append (nodup_singleton _) (disjoint_singleton.mpr (he.2 childTid rfl))
      · obtain ⟨hAwaited, hCloned, hHandled⟩ := h.released.cloned t ht
        exact ⟨hAwaited, mem_append_left _ hCloned, hHandled⟩
  | unlock =>
    simp only [step]
    split
    · next tid hUnlocking =>
      exact Ends.ite (fun _ => unlock_inv h hUnlocking) fun _ => trivial
    · trivial
  | turn i =>
    simp only [step]
    split
    · next tid hw => exact look_inv h hw
    · next tid hw => exact leave_inv h hw
    · trivial
    · trivial
  | wake i =>
    simp only [step]
    split
    · next tid hw => exact h.setPhase hw nofun .locking nofun nofun rfl
    · trivial
    · trivial
    · trivial

theorem sleeping_of_rests (h : Inv s) (hRests : Rests env s) : ∀ w ∈ s.waiters, w.phase = .sleeping := by
  have hNotErasing : ∀ w ∈ s.waiters, w.phase ≠ .erasing := by
    rintro ⟨tid, phase⟩ hw rfl
    obtain ⟨i, hi⟩ := mem_iff_getElem?.mp hw
    refine hRests (.turn i) rfl (s.leave i tid) ?_
    simp only [step, hi]
    rfl
  have hMutex : s.mutexFree = true := by
    refine all_eq_true.mpr fun w hw => ?_
    simpa using hNotErasing w hw
  rintro ⟨tid, phase⟩ hw
  obtain ⟨i, hi⟩ := mem_iff_getElem?.mp hw
  cases phase with
  | sleeping => rfl
  | erasing => exact absurd rfl (hNotErasing _ hw)
  | locking =>
    exfalso
    have hReply : s.cm.responses tid = true := (h.waits _ hw).2
    by_cases hAllowed : tid ∈ s.allowed
    · refine hRests (.turn i) rfl { s with
        cm := { s.cm with replies := ⟨tid, 1, []⟩ :: s.cm.replies }
        waiters := s.waiters.set i ⟨tid, .erasing⟩ } ?_
      simp only [step, hi, State.look, hMutex, hAllowed, ClientManager.reply, hReply, if_true]
      rfl
    · refine hRests (.turn i) rfl { s with waiters := s.waiters.set i ⟨tid, .sleeping⟩ } ?_
      simp only [step, hi, State.look, hMutex, hAllowed, if_true, if_false]
      rfl

theorem handled_of_rests (h : Inv s) (hRests : Rests env s) : s.handled = s.cloned := by
  have hMutex : s.mutexFree = true := by
    refine all_eq_true.mpr fun w hw => ?_
    simp [sleeping_of_rests h hRests w hw]
  cases hUnlocking : s.unlocking with
  | none => rw [h.clones.1, hUnlocking, Option.toList_none, append_nil]
  | some tid =>
    refine absurd ?_ (hRests .unlock rfl { s with
      cm := s.cm.unlockClonedChild tid
      waiters := s.waiters.map Waiter.notify
      unlocking := none
      handled := s.handled ++ [tid] })
    simp only [step, hUnlocking, hMutex, if_true]
    rfl

theorem replied_of_rests (h : Inv s) (hRests : Rests env s) (hAwaited : tid ∈ s.awaited)
    (hCloned : tid ∈ s.cloned) : tid ∈ s.replied := by
  by_contra hNot
  have hAllowed : tid ∈ s.allowed := by
    rw [h.released.mem_allowed, handled_of_rests h hRests]
    exact ⟨hCloned, .inl hNot⟩
  grind [h.awaited, h.asleep, sleeping_of_rests]

def Waiter.turns (w : Waiter) : Nat :=
  match w.phase with
  | .locking => 2
  | .sleeping => 0
  | .erasing => 1

def State.turns (s : State) : Nat :=
  (s.waiters.map Waiter.turns).sum + if s.unlocking.isSome then 2 * s.waiters.length + 1 else 0

theorem sum_notify_le (l : List Waiter) :
    ((l.map Waiter.notify).map Waiter.turns).sum ≤ (l.map Waiter.turns).sum + 2 * l.length := by
  induction l with
  | nil => exact Nat.le_refl 0
  | cons w l ih => grind [Waiter.turns]

theorem sum_set_lt {l : List Waiter} (h : l[i]? = some w) (w' : Waiter) (hTurns : w'.turns < w.turns) :
    ((l.set i w').map Waiter.turns).sum < (l.map Waiter.turns).sum := by
  obtain ⟨l1, l2, hSplit, hSet, -⟩ := exists_append_of_getElem? h
  grind

theorem sum_eraseIdx_lt {l : List Waiter} (h : l[i]? = some w) (hTurns : 0 < w.turns) :
    ((l.eraseIdx i).map Waiter.turns).sum < (l.map Waiter.turns).sum := by
  obtain ⟨l1, l2, hSplit, -, hErase⟩ := exists_append_of_getElem? h
  grind

theorem own_turns (he : e.own = true) : Yields (step env s e) (fun s' => s'.turns < s.turns) := by
  cases e with
  | receive | wake => cases he
  | unlock =>
    simp only [step]
    split
    · next tid hUnlocking =>
      refine Ends.ite (fun _ => ?_) fun _ => trivial
      have hWoken := sum_notify_le s.waiters
      simp only [ends_pure, State.turns, hUnlocking, Option.isSome_some, Option.isSome_none, if_true]
      rw [if_neg Bool.false_ne_true]
      omega
    · trivial
  | turn i =>
    simp only [step]
    split
    · next tid hw =>
      refine Ends.ite (fun _ => Ends.ite (fun _ => ?_) fun _ => ?_) fun _ => trivial
      · refine (Ends.always (fun _ => trivial) _).bind fun cm _ => ?_
        have hLess := sum_set_lt hw ⟨tid, .erasing⟩ (Nat.lt_succ_self 1)
        simp only [ends_pure, State.turns, length_set]
        omega
      · have hLess := sum_set_lt hw ⟨tid, .sleeping⟩ Nat.two_pos
        simp only [ends_pure, State.turns, length_set]
        omega
    · next tid hw =>
      have hLess := sum_eraseIdx_lt hw Nat.one_pos
      grind [ends_pure, State.turns, State.leave]
    · trivial
    · trivial

theorem own_run_length {l : List Event} (hOwn : ∀ e ∈ l, e.own = true)
    (hRun : l.foldlM (step env) s = .ok s') : l.length + s'.turns ≤ s.turns := by
  induction l generalizing s with
  | nil =>
    obtain rfl : s = s' := Except.ok.inj hRun
    exact Nat.le_of_eq (Nat.zero_add _)
  | cons e l ih =>
    rw [foldlM_cons] at hRun
    cases hStep : step env s e with
    | error x =>
      rw [hStep] at hRun
      cases hRun
    | ok s1 =>
      rw [hStep] at hRun
      have hLess := (own_turns (hOwn e mem_cons_self)).result hStep
      have hRest := ih (fun e' he' => hOwn e' (mem_cons_of_mem _ he')) hRun
      rw [length_cons]
      omega

theorem step_records (e : Event) : Yields (step env s e)
    (fun s' => s'.awaited = s.awaited ++ e.awaits.toList ∧ s'.cloned = s.cloned ++ e.clones.toList) := by
  have hSame : s.awaited = s.awaited ++ [] ∧ s.cloned = s.cloned ++ [] :=
    ⟨(append_nil _).symm, (append_nil _).symm⟩
  cases e with
  | receive m =>
    refine Ends.ite (fun _ => trivial) fun _ => ?_
    cases m with
    | handshake tid appName wait =>
      cases wait with
      | false => exact hSame
      | true => exact ⟨rfl, hSame.2⟩
    | clone parentTid childTid =>
      refine (Ends.always (fun _ => trivial) _).bind fun sm _ => ?_
      exact ⟨hSame.1, rfl⟩
  | unlock =>
    simp only [step]
    split
    · exact Ends.ite (fun _ => hSame) fun _ => trivial
    · trivial
  | turn i =>
    simp only [step]
    split
    · refine Ends.ite (fun _ => Ends.ite (fun _ => ?_) fun _ => hSame) fun _ => trivial
      exact (Ends.always (fun _ => trivial) _).bind fun cm _ => hSame
    · exact hSame
    · trivial
    · trivial
  | wake i =>
    simp only [step]
    split
    · exact hSame
    · trivial
    · trivial
    · trivial

theorem meets_fresh (hAwaits : (s.awaited ++ events.filterMap Event.awaits).Nodup)
    (hClones : (s.cloned ++ events.filterMap Event.clones).Nodup) : Meets Fresh (step env) s events := by
  induction events generalizing s with
  | nil => trivial
  | cons e events ih =>
    have hSplit : ∀ f : Event → Option Tid,
        (e :: events).filterMap f = (f e).toList ++ events.filterMap f := by
      intro f
      rw [filterMap_cons]
      cases f e with
      | none => rfl
      | some tid => rfl
    rw [hSplit, ← append_assoc] at hAwaits hClones
    refine ⟨⟨fun tid hTid hOld => ?_, fun tid hTid hOld => ?_⟩, fun s' hStep => ?_⟩
    · have hNodup := (nodup_append.mp (nodup_append.mp hAwaits).1).2.2
      exact hNodup tid hOld tid (Option.mem_toList.mpr hTid) rfl
    · have hNodup := (nodup_append.mp (nodup_append.mp hClones).1).2.2
      exact hNodup tid hOld tid (Option.mem_toList.mpr hTid) rfl
    · obtain ⟨hAwaited, hCloned⟩ := (step_records e).result hStep
      exact ih (hAwaited.symm ▸ hAwaits) (hCloned.symm ▸ hClones)

theorem inv_start (cm : ClientManager) (sm : StorageManager) : Inv (start cm sm) :=
  ⟨.nil, fun _ ht => (nomatch ht), fun _ hw => (nomatch hw), fun _ hw => (nomatch hw),
    fun _ hw => (nomatch hw), ⟨rfl, .nil⟩, .nil, fun _ ht => (nomatch ht), .nil,
    fun _ => ⟨fun ht => (nomatch ht), fun ht => (nomatch ht.1)⟩⟩

def twoChildren : List Event :=
  [.receive (.handshake 1 [] false), .receive (.handshake 2 [] true), .turn 0,
    .receive (.clone 1 3), .unlock, .turn 0, .receive (.handshake 3 [] true), .turn 1,
    .turn 1, .receive (.clone 1 2), .unlock, .turn 0, .turn 0]

end Capio.Server.CloneRelease
