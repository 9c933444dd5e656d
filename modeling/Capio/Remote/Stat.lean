import Capio.Lib.Outcome
import Capio.Remote.SharedFile

/-! # The size and the kind of a file of another node

A `stat` is answered from the object of the node that handles it, or by the home node of the file.
Which of the two depends on what the node knows about the file, and not on what it has of it.  The
sizes and kinds that the file has on its home node are kept in order, so that an answer can be
compared with those between its request and itself.
-/
namespace Capio.Remote

open Common Lib.Outcome Storage Function List

structure FileStat where
  size : Int
  dir : Int
  deriving DecidableEq

def statOf (f : CapioFile) : FileStat := ⟨f.getStoredSize, if f.directory then 1 else 0⟩

structure Catalog extends Sharing where
  path : Path
  capioDir : Path
  isProducer : Client → Bool

/-- The detached threads `wait_for_file_completion` and, on the home node, `wait_for_completion`; here
and in the messages, `since` is the number of the home file's state at the time of the request. -/
inductive StatThread
  | waitForFileCompletion (c : Client) (since : Nat)
  | waitForCompletion (c : Client) (since : Nat)

inductive StatMessage
  | stat (c : Client) (since : Nat)
  | statReply (c : Client) (since : Nat) (stat : FileStat)

/-- `during` is what the file was on its home node from the request to the answer. -/
structure StatAnswer where
  client : Client
  stat : FileStat
  during : List FileStat
  deriving DecidableEq

structure Stats where
  file : SharedFile
  present : Node → Bool
  history : List FileStat
  threads : List StatThread := []
  network : List StatMessage := []
  answers : List StatAnswer := []
  asked : Nat := 0

namespace Stats

section

variable (g : Catalog)

def reply (s : Stats) (c : Client) (since : Nat) (stat : FileStat) : Stats :=
  { s with answers := ⟨c, stat, s.history.drop since⟩ :: s.answers }

def start (s : Stats) (t : StatThread) : Stats := { s with threads := s.threads ++ [t] }

def post (s : Stats) (m : StatMessage) : Stats := { s with network := s.network ++ [m] }

def replyStat (os : Os) (s : Stats) (c : Client) (located : Bool) : Except Failure Stats :=
  let since := s.history.length - 1
  let s := { s with asked := s.asked + 1 }
  if !located then
    if g.isProducer c then pure (s.reply c since ⟨-1, -1⟩)
    else pure (s.start (.waitForFileCompletion c since))
  else
    let s := { s with present := update s.present c.node true }
    let f := s.file.copies c.node
    if f.committed ∨ c.node = g.home ∨ g.firable ∨ g.capioDir = g.path then
      pure (s.reply c since (statOf f))
    else do
      let f ← f.createBuffer os false
      pure ({ s with file := s.file.setCopy c.node f }.post (.stat c since))

def waitForFileCompletion (s : Stats) (c : Client) (since : Nat) (own : Bool) : Except Failure Stats :=
  if !s.present c.node then throw (.fileNotFound g.path)
  else
    let f := s.file.copies c.node
    if f.committed ∨ g.firable ∨ c.node = g.home ∧ own then pure (s.reply c since (statOf f))
    else pure (s.post (.stat c since))

def serveRemoteStat (s : Stats) (c : Client) (since : Nat) : Stats :=
  s.post (.statReply c since (statOf (s.file.copies g.home)))

def handleRemoteStat (s : Stats) (c : Client) (since : Nat) : Stats :=
  if s.present g.home then
    if (s.file.copies g.home).committed ∨ g.firable then s.serveRemoteStat g c since
    else s.start (.waitForCompletion c since)
  else { s with present := update s.present g.home true }.start (.waitForCompletion c since)

def resume (s : Stats) (own : Bool) : StatThread → Except Failure (Option Stats)
  | .waitForFileCompletion c since => some <$> s.waitForFileCompletion g c since own
  | .waitForCompletion c since =>
    if (s.file.copies g.home).committed then pure (some (s.serveRemoteStat g c since)) else pure none

def deliver (s : Stats) : StatMessage → Stats
  | .stat c since => s.handleRemoteStat g c since
  | .statReply c since stat => s.reply c since stat

def advance (s : Stats) (f : SharedFile) : Stats :=
  { s with file := f, history := s.history ++ [statOf (f.copies g.home)] }

end

end Stats

inductive StatEvent
  | file (event : Event)
  | entry (ino : Nat) (name : List Byte)
  | stat (c : Client) (located : Bool)
  | resume (k : Nat) (own : Bool)
  | deliver (k : Nat)

structure StatInput where
  event : StatEvent
  os : Nat → Os

def presentAfter (present : Node → Bool) : Event → Node → Bool
  | .openFile n => update present n true
  | _ => present

def statStep (g : Catalog) (s : Stats) (i : StatInput) : Except Failure Stats :=
  match i.event with
  | .file event => do
    let f ← step g.toSharing s.file ⟨event, i.os⟩
    pure { s.advance g f with present := presentAfter s.present event }
  | .entry ino name => do
    let (_, f) ← (s.file.copies g.home).appendEntry (i.os 0) (i.os 1) ino name
    pure (s.advance g (s.file.setCopy g.home f))
  | .stat c located => s.replyStat g (i.os 0) c located
  | .resume k own =>
    match s.threads[k]? with
    | none => pure s
    | some t => do
      let resumed ← Stats.resume g { s with threads := s.threads.eraseIdx k } own t
      pure (resumed.getD s)
  | .deliver k =>
    match s.network[k]? with
    | none => pure s
    | some m => pure (Stats.deliver g { s with network := s.network.eraseIdx k } m)

/-- The object of a node was given the file up to its end, and is of the same kind. -/
def UpToDate (g : Catalog) (s : Stats) (n : Node) : Prop :=
  (s.file.copies n).getStoredSize = (s.file.copies g.home).getStoredSize ∧
    (s.file.copies n).directory = (s.file.copies g.home).directory

def StatThread.Current (g : Catalog) (s : Stats) : StatThread → Prop
  | .waitForFileCompletion c _ => s.present c.node = true ∧
    (c.node ≠ g.home → (s.file.copies c.node).committed = true ∨ g.firable = true → UpToDate g s c.node)
  | .waitForCompletion _ _ => True

/-- A node that does not know the location of the file is not that of a producer, and has an object of
the file once it does; one that would not ask the home node has an object that is up to date. -/
def Current (g : Catalog) (s : Stats) (i : StatInput) : Prop :=
  match i.event with
  | .stat c located => c.node ≠ g.home → (located = false → g.isProducer c = false) ∧
    (located = true → (s.file.copies c.node).committed = true ∨ g.firable = true ∨ g.capioDir = g.path →
      UpToDate g s c.node)
  | .resume k _ => ∀ t ∈ s.threads[k]?, t.Current g s
  | _ => True

variable {m : StatMessage}

section

open Stats

def StatThread.since : StatThread → Nat
  | .waitForFileCompletion _ since => since
  | .waitForCompletion _ since => since

def StatMessage.Ok (history : List FileStat) : StatMessage → Prop
  | .stat _ since => since < history.length
  | .statReply _ since answer => answer ∈ history.drop since

def StatAnswer.Ok (g : Catalog) (a : StatAnswer) : Prop := a.client.node ≠ g.home → a.stat ∈ a.during

/-- The home file is the last one of the history, and what is under way started in the history.  Every
request was answered or is under way, apart from those that a step has taken up. -/
structure Tracks (g : Catalog) (taken : Nat) (s : Stats) : Prop where
  now : ∃ before, s.history = before ++ [statOf (s.file.copies g.home)]
  threads : ∀ t ∈ s.threads, t.since < s.history.length
  network : ∀ m ∈ s.network, m.Ok s.history
  answers : ∀ a ∈ s.answers, a.Ok g
  asked : s.asked = s.answers.length + s.threads.length + s.network.length + taken

theorem StatMessage.Ok.append {history : List FileStat} (h : m.Ok history) (next : FileStat) :
    m.Ok (history ++ [next]) := by
  cases m with
  | stat c since =>
    have hSince : since < history.length := h
    change since < (history ++ [next]).length
    rw [length_append]
    omega
  | statReply c since answer =>
    have hMem : answer ∈ history.drop since := h
    change answer ∈ (history ++ [next]).drop since
    rw [drop_append]
    exact mem_append_left _ hMem

theorem Tracks.stat_mem (h : Tracks g taken s) (hSince : since < s.history.length) :
    statOf (s.file.copies g.home) ∈ s.history.drop since := by
  obtain ⟨before, hHistory⟩ := h.now
  grind

theorem Tracks.now_lt (h : Tracks g taken s) : s.history.length - 1 < s.history.length := by
  obtain ⟨before, hHistory⟩ := h.now
  rw [hHistory, length_append, length_singleton]
  omega

theorem statOf_of_upToDate (h : UpToDate g s n) :
    statOf (s.file.copies n) = statOf (s.file.copies g.home) := by
  unfold statOf
  rw [h.1, h.2]

theorem Tracks.advance (h : Tracks g taken s) (f : SharedFile) : Tracks g taken (s.advance g f) := by
  refine ⟨⟨s.history, rfl⟩, fun t ht => ?_, fun m hm => (h.network m hm).append _, h.answers, h.asked⟩
  have hSince := h.threads t ht
  change t.since < (s.history ++ [_]).length
  rw [length_append]
  omega

theorem Tracks.reply (h : Tracks g 1 s) (hAnswer : c.node ≠ g.home → answer ∈ s.history.drop since) :
    Tracks g 0 (s.reply c since answer) := by
  refine ⟨h.now, h.threads, h.network, fun a ha => ?_, ?_⟩
  · obtain rfl | ha := mem_cons.mp ha
    · exact hAnswer
    · exact h.answers a ha
  · change s.asked = (s.answers.length + 1) + s.threads.length + s.network.length
    rw [h.asked]
    omega

theorem Tracks.start (h : Tracks g 1 s) (ht : t.since < s.history.length) : Tracks g 0 (s.start t) := by
  refine ⟨h.now, fun t' ht' => ?_, h.network, h.answers, ?_⟩
  · obtain ht' | ht' := mem_append.mp ht'
    · exact h.threads t' ht'
    · rw [mem_singleton.mp ht']
      exact ht
  · change s.asked = s.answers.length + (s.threads ++ [t]).length + s.network.length
    rw [h.asked, length_append, length_singleton]
    omega

theorem Tracks.post (h : Tracks g 1 s) (hm : m.Ok s.history) : Tracks g 0 (s.post m) := by
  refine ⟨h.now, h.threads, fun m' hm' => ?_, h.answers, ?_⟩
  · obtain hm' | hm' := mem_append.mp hm'
    · exact h.network m' hm'
    · rw [mem_singleton.mp hm']
      exact hm
  · change s.asked = s.answers.length + s.threads.length + (s.network ++ [m]).length
    rw [h.asked, length_append, length_singleton]
    omega

theorem Tracks.takeThread (h : Tracks g 0 s) (ht : s.threads[k]? = some t) :
    Tracks g 1 { s with threads := s.threads.eraseIdx k } := by
  refine ⟨h.now, fun t' ht' => h.threads t' (mem_of_mem_eraseIdx ht'), h.network, h.answers, ?_⟩
  grind [h.asked]

theorem Tracks.takeMessage (h : Tracks g 0 s) (hm : s.network[k]? = some m) :
    Tracks g 1 { s with network := s.network.eraseIdx k } := by
  refine ⟨h.now, h.threads, fun m' hm' => h.network m' (mem_of_mem_eraseIdx hm'), h.answers, ?_⟩
  grind [h.asked]

theorem replyStat_ends (h : Tracks g 0 s) (os : Os) (hCurrent : Current g s ⟨.stat c located, fun _ => os⟩) :
    Yields (s.replyStat g os c located) (Tracks g 0) := by
  have hTaken : Tracks g 1 { s with asked := s.asked + 1 } :=
    ⟨h.now, h.threads, h.network, h.answers, congrArg (· + 1) h.asked⟩
  have hNow := h.now_lt
  refine .ite (fun hUnknown => ?_) fun hKnown => ?_
  · rw [Bool.not_eq_true'] at hUnknown
    refine .ite (fun hProducer => hTaken.reply fun hNode => ?_) fun _ => hTaken.start hNow
    cases ((hCurrent hNode).1 hUnknown).symm.trans hProducer
  · rw [Bool.not_eq_true', Bool.not_eq_false] at hKnown
    have hAdded : Tracks g 1 { s with
        asked := s.asked + 1, present := update s.present c.node true } :=
      ⟨h.now, h.threads, h.network, h.answers, hTaken.asked⟩
    refine .ite (fun hHere => hAdded.reply fun hNode => ?_) fun hAway => ?_
    · have hUpToDate := (hCurrent hNode).2 hKnown (by tauto)
      rw [statOf_of_upToDate hUpToDate]
      exact h.stat_mem hNow
    · refine .skip fun f => ?_
      have hOther : g.home ≠ c.node := fun he => hAway (.inr (.inl he.symm))
      obtain ⟨before, hHistory⟩ := h.now
      have hSame : s.history = before ++ [statOf ((s.file.setCopy c.node f).copies g.home)] := by
        rw [hHistory]
        change _ = before ++ [statOf (update s.file.copies c.node f g.home)]
        rw [update_of_ne hOther]
      have hStored : Tracks g 1 { s with
          asked := s.asked + 1
          present := update s.present c.node true
          file := s.file.setCopy c.node f } :=
        ⟨⟨before, hSame⟩, h.threads, h.network, h.answers, hTaken.asked⟩
      exact hStored.post hNow

theorem resume_ends (h : Tracks g 1 s) (hSince : t.since < s.history.length) (hCurrent : t.Current g s)
    (own : Bool) : Yields (Stats.resume g s own t) (fun r => ∀ s' ∈ r, Tracks g 0 s') := by
  cases t with
  | waitForFileCompletion c since =>
    have hEnds : Yields (s.waitForFileCompletion g c since own) (Tracks g 0) := by
      refine .ite (fun _ => trivial) fun _ => ?_
      refine .ite (fun hHere => h.reply fun hNode => ?_) fun _ => h.post hSince
      rw [statOf_of_upToDate (hCurrent.2 hNode (by tauto))]
      exact h.stat_mem hSince
    refine .map (hEnds.imp ?_)
    rintro s1 hs1 s' hs'
    cases hs'
    exact hs1
  | waitForCompletion c since =>
    refine .ite (fun _ => ?_) fun _ s' hs' => (nomatch hs')
    rintro s' hs'
    cases hs'
    exact h.post (h.stat_mem hSince)

theorem deliver_tracks (h : Tracks g 1 s) (hm : m.Ok s.history) : Tracks g 0 (Stats.deliver g s m) := by
  cases m with
  | stat c since =>
    change Tracks g 0 (s.handleRemoteStat g c since)
    unfold handleRemoteStat
    split
    · split
      · exact h.post (h.stat_mem hm)
      · exact h.start hm
    · have hAdded : Tracks g 1 { s with present := update s.present g.home true } :=
        ⟨h.now, h.threads, h.network, h.answers, h.asked⟩
      exact hAdded.start (t := .waitForCompletion c since) hm
  | statReply c since answer => exact h.reply fun _ => hm

theorem statStep_ends (h : Tracks g 0 s) (hi : Current g s i) : Yields (statStep g s i) (Tracks g 0) := by
  obtain ⟨event, os⟩ := i
  cases event with
  | file event =>
    refine .skip fun f => ?_
    have hNext := h.advance f
    exact ⟨hNext.now, hNext.threads, hNext.network, hNext.answers, hNext.asked⟩
  | entry ino name =>
    refine .skip fun r => ?_
    exact h.advance _
  | stat c located => exact replyStat_ends h (os 0) hi
  | resume k own =>
    simp only [statStep]
    split
    · exact h
    · next t ht =>
      refine (resume_ends (h.takeThread ht) (h.threads t (mem_of_getElem? ht)) (hi t ht) own).bind ?_
      intro r hr
      cases r with
      | none => exact h
      | some s' => exact hr s' rfl
  | deliver k =>
    simp only [statStep]
    split
    · exact h
    · next m hm => exact deliver_tracks (h.takeMessage hm) (h.network m (mem_of_getElem? hm))

def StatEvent.OfStat : StatEvent → Prop
  | .file _ | .entry _ _ => False
  | .stat _ _ | .resume _ _ | .deliver _ => True

theorem statStep_returns (hi : Current g s i) (hStat : i.event.OfStat) :
    Ends (statStep g s i) (fun _ => True)
      fun e => ∃ n, (s.file.copies n).createBuffer (i.os 0) false = .error e := by
  obtain ⟨event, os⟩ := i
  cases event with
  | file _ | entry _ _ => exact hStat.elim
  | stat c located =>
    refine .ite (fun _ => .ite (fun _ => trivial) fun _ => trivial) fun _ => .ite (fun _ => trivial) fun _ => ?_
    refine .bind (Q := fun _ => True) ?_ fun _ _ => trivial
    cases hBuffer : (s.file.copies c.node).createBuffer (os 0) false with
    | error e => exact ⟨c.node, hBuffer⟩
    | ok f => trivial
  | resume k own =>
    simp only [statStep]
    split
    · trivial
    · next t ht =>
      refine .bind (Q := fun _ => True) ?_ fun _ _ => trivial
      cases t with
      | waitForFileCompletion c since =>
        refine .map (.ite (fun hNot => ?_) fun _ => .ite (fun _ => trivial) fun _ => trivial)
        rw [(hi _ ht).1] at hNot
        cases hNot
      | waitForCompletion c since => exact .ite (fun _ => trivial) fun _ => trivial
  | deliver k =>
    simp only [statStep]
    split <;> trivial

def Stats.init (g : Catalog) (file : SharedFile) (present : Node → Bool) : Stats where
  file := file
  present := present
  history := [statOf (file.copies g.home)]

theorem tracks_init (g : Catalog) (file : SharedFile) (present : Node → Bool) :
    Tracks g 0 (Stats.init g file present) :=
  ⟨⟨[], rfl⟩, fun _ ht => (nomatch ht), fun _ hm => (nomatch hm), fun _ ha => (nomatch ha), rfl⟩

end

instance (g : Catalog) (s : Stats) (n : Node) : Decidable (UpToDate g s n) :=
  inferInstanceAs (Decidable (_ ∧ _))

instance (g : Catalog) (s : Stats) : DecidablePred (StatThread.Current g s) :=
  fun op => by cases op <;> dsimp only [StatThread.Current] <;> infer_instance

instance (g : Catalog) (s : Stats) : DecidablePred (Current g s)
  | ⟨op, _⟩ => by cases op <;> dsimp only [Current] <;> infer_instance

def catalog (firable : Bool) (isProducer : Client → Bool) : Catalog :=
  ⟨⟨['a'], firable, .onTermination, 1, 4⟩, "/c/f".toList, "/c".toList, isProducer⟩

def statInputs (events : List StatEvent) : List StatInput :=
  events.map (StatInput.mk · fun _ => Os.plain 0)

def statOfGrowing : List StatInput :=
  statInputs [.file (.write producer [7, 9]), .stat consumer true, .deliver 0,
    .file (.write producer [8]), .file (.terminate ['a']), .resume 0 true, .deliver 0]

end Capio.Remote
