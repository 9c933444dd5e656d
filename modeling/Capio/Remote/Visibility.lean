import Capio.Lib.Outcome
import Capio.Remote.SharedFile

/-! # Visibility of uncommitted data

The handlers of the home node wait for the commit of a file that is not firable.  The threads that
it starts for clients of other nodes wait for the data instead.  If none of these goes on before the
commit, the other nodes have no data of the file before the commit, and nobody but a producer
obtains a byte of it.
-/
namespace Capio.Remote

open Common Lib.Outcome Storage Storage.Sectors Function List

variable {n : Node} {f : CapioFile} {c : Client} {offset : Int}

def SameData (f f' : CapioFile) : Prop := f'.sectors = f.sectors ∧ f'.committed = f.committed

section

variable {f f' : CapioFile}

theorem sameData_of_rebuffered (h : CapioFile.Rebuffered f f') : SameData f f' := by
  obtain ⟨buffer, homeNode, rfl⟩ := h
  exact ⟨rfl, rfl⟩

theorem createBuffer_sameData (os : Os) (f : CapioFile) (homeNode : Bool) :
    Yields (f.createBuffer os homeNode) (SameData f) :=
  (CapioFile.createBuffer_rebuffers os f homeNode).imp (fun _ => sameData_of_rebuffered)

theorem commit_ends (f : CapioFile) :
    Yields f.setCommitted.dump (fun f' => f'.sectors = f.sectors ∧ f'.committed = true) := by
  rw [CapioFile.setCommitted_eq]
  exact (CapioFile.dump_rebuffers _).imp (fun _ => sameData_of_rebuffered)

theorem writeData_ends (os osGrow : Os) (f : CapioFile) (offset : Nat) (data : List Byte) :
    Yields (f.writeData os osGrow offset data) (fun f' =>
      f'.sectors = insertSector f.sectors offset (offset + data.length) ∧ f'.committed = f.committed) := by
  refine (CapioFile.writeData_rebuffers os osGrow f offset data).imp ?_
  rintro _ ⟨_, ⟨buffer, homeNode, rfl⟩, rfl⟩
  exact ⟨rfl, rfl⟩

theorem sectorEnd_of_empty (h : f.sectors = []) (offset : Int) : sectorEnd f offset = -1 := by
  unfold sectorEnd
  rw [h]
  split <;> rfl

theorem sendBytes_ends (f : CapioFile) (offset : Int) (n : Nat) :
    Yields (f.sendBytes offset n) (fun data => data ≠ [] → 0 < n ∧ 0 ≤ offset) := by
  refine .ite (fun _ hne => absurd rfl hne) fun hn => ?_
  refine .ite (fun _ => trivial) fun hOffset => ?_
  exact .always (fun _ _ => ⟨Nat.pos_of_ne_zero hn, Int.not_lt.mp hOffset⟩) _

def Strict (f : CapioFile) (isProd : Bool) : Service → Prop
  | .waitForCommit => isProd = false
  | .waitForData => False
  | .endOfFile => f.committed = true ∨ isProd = true
  | .send _ => f.committed = true ∨ isProd = true

theorem localRead_strict (f : CapioFile) (offset : Int) (count : Nat) (isProd : Bool) :
    Strict f isProd (localRead false f offset count isProd) := by
  unfold localRead
  cases hComplete : f.committed || isProd with
  | false => exact (Bool.or_eq_false_iff.mp hComplete).2
  | true =>
    simp only [Bool.true_or, Bool.not_true, Bool.false_eq_true, if_false, and_true, and_false]
    split <;> exact Bool.or_eq_true_iff.mp hComplete

theorem localCopy_strict (f : CapioFile) (offsetIn count : Nat) (isProd : Bool) :
    Strict f isProd (localCopy false f offsetIn count isProd) := by
  unfold localCopy
  cases hComplete : f.committed || isProd with
  | false => exact (Bool.or_eq_false_iff.mp hComplete).2
  | true => exact Bool.or_eq_true_iff.mp hComplete

theorem localRead_of_empty (h : f.sectors = []) (firable : Bool) (offset : Int) (count : Nat) :
    localRead firable f offset count true = .endOfFile := by
  simp [localRead, sectorEnd_of_empty h]

end

def ThreadOk (g : Sharing) : Thread → Prop
  | .readFile _ _ => True
  | .copyFile _ _ _ => True
  | .readCommit c _ _ => c.node = g.home
  | .copyCommit c _ _ => c.node = g.home
  | .readData _ _ _ => False
  | .copyData _ _ _ => False
  | .remoteRead c _ _ => c.node ≠ g.home
  | .remoteCopy c _ _ => c.node ≠ g.home

def MessageOk (g : Sharing) (committed : Bool) : Message → Prop
  | .read c _ _ => c.node ≠ g.home
  | .copyFileRange c _ _ => c.node ≠ g.home
  | .readReply c _ _ _ _ => c.node ≠ g.home ∧ committed = true
  | .copyFileRangeReply c _ _ _ _ _ => c.node ≠ g.home ∧ committed = true

def Receipt.Permitted (r : Receipt) : Prop := r.data ≠ [] → r.producer = true ∨ r.committed = true

structure Hidden (g : Sharing) (s : SharedFile) : Prop where
  elsewhere : (s.copies g.home).committed = false → ∀ n ≠ g.home, (s.copies n).sectors = []
  threads : ∀ t ∈ s.threads, ThreadOk g t
  network : ∀ m ∈ s.network, MessageOk g (s.copies g.home).committed m
  receipts : ∀ r ∈ s.receipts, r.Permitted

section

open SharedFile

variable {g : Sharing} {s : SharedFile}

theorem MessageOk.mono (h : b = true → b' = true) (hm : MessageOk g b m) : MessageOk g b' m := by
  cases m with
  | read | copyFileRange => exact hm
  | readReply | copyFileRangeReply => exact ⟨hm.1, h hm.2⟩

theorem Hidden.setCopy (h : Hidden g s)
    (hHome : n = g.home → (s.copies n).committed = true → f.committed = true)
    (hOther : n ≠ g.home → (s.copies g.home).committed = false → f.sectors = []) :
    Hidden g (s.setCopy n f) := by
  have hCommitted : (s.copies g.home).committed = true →
    ((s.setCopy n f).copies g.home).committed = true := by
    intro hc
    by_cases hn : n = g.home
    · subst hn
      change (update s.copies g.home f g.home).committed = true
      rw [update_self]
      exact hHome rfl hc
    · change (update s.copies n f g.home).committed = true
      rwa [update_of_ne fun he => hn he.symm]
  refine ⟨fun hc m hm => ?_, h.threads, fun m hm => MessageOk.mono hCommitted (h.network m hm),
    h.receipts⟩
  have hBefore : (s.copies g.home).committed = false := by grind
  by_cases hmn : m = n
  · subst hmn
    change (update s.copies m f m).sectors = []
    rw [update_self]
    exact hOther hm hBefore
  · change (update s.copies n f m).sectors = []
    rw [update_of_ne hmn]
    exact h.elsewhere hBefore m hm

theorem Hidden.sameData (h : Hidden g s) (hf : SameData (s.copies n) f) : Hidden g (s.setCopy n f) :=
  h.setCopy (fun _ hc => hf.2.trans hc) fun hn hc => hf.1.trans (h.elsewhere hc n hn)

theorem committed_setCopy (hf : SameData (s.copies n) f) :
    ((s.setCopy n f).copies g.home).committed = (s.copies g.home).committed := by
  change (update s.copies n f g.home).committed = _
  by_cases hn : g.home = n
  · rw [hn, update_self]
    exact hf.2
  · rw [update_of_ne hn]

section

variable (h : Hidden g s)
include h

theorem Hidden.start (ht : ThreadOk g t) : Hidden g (s.start t) := by
  refine ⟨h.elsewhere, fun t' ht' => ?_, h.network, h.receipts⟩
  obtain hOld | hNew := mem_append.mp ht'
  · exact h.threads t' hOld
  · cases mem_singleton.mp hNew
    exact ht

theorem Hidden.post (hm : MessageOk g (s.copies g.home).committed m) : Hidden g (s.post m) := by
  refine ⟨h.elsewhere, h.threads, fun m' hm' => ?_, h.receipts⟩
  obtain hOld | hNew := mem_append.mp hm'
  · exact h.network m' hOld
  · cases mem_singleton.mp hNew
    exact hm

theorem Hidden.receive (hData : data ≠ [] → s.producers c = true ∨ (s.copies g.home).committed = true) :
    Hidden g (s.receive g c data) := by
  refine ⟨h.elsewhere, h.threads, h.network, fun r hr => ?_⟩
  obtain rfl | hOld := mem_cons.mp hr
  · exact hData
  · exact h.receipts r hOld

theorem Hidden.setOffsets (offsets : Client → Int) : Hidden g { s with offsets := offsets } :=
  ⟨h.elsewhere, h.threads, h.network, h.receipts⟩

theorem Hidden.committed_of_sectors (hn : n ≠ g.home)
    (hSectors : (s.copies n).sectors ≠ []) : (s.copies g.home).committed = true := by
  by_contra hc
  exact hSectors (h.elsewhere (by simpa using hc) n hn)

theorem sendRead_hidden (os : Os) {n : Nat}
    (hData : 0 < n → 0 ≤ offset → s.producers c = true ∨ (s.copies g.home).committed = true) :
    Yields (s.sendRead g os c offset n) (Hidden g) := by
  refine (createBuffer_sameData os _ false).bind fun f hf => ?_
  refine (sendBytes_ends f offset n).bind fun data hSent => ?_
  refine ((h.sameData hf).setOffsets _).receive fun hne => ?_
  obtain hProducer | hCommitted := hData (hSent hne).1 (hSent hne).2
  · exact .inl hProducer
  · exact .inr ((committed_setCopy hf).trans hCommitted)

end

/-- Who reads from the object of its own node: a producer, a client of the home node, or one of
another node as if it were a producer. -/
def ReadsHere (g : Sharing) (s : SharedFile) (c : Client) (isProd : Bool) : Prop :=
  isProd = true ∧ (s.producers c = true ∨ c.node ≠ g.home) ∨ isProd = false ∧ c.node = g.home

section

variable (hFirable : g.firable = false) (h : Hidden g s) (os : Os)
include hFirable h

theorem handleLocalRead_hidden (count : Nat) (hWho : ReadsHere g s c isProd) :
    Yields (s.handleLocalRead g os c count isProd) (Hidden g) := by
  unfold SharedFile.handleLocalRead
  have hStrict := localRead_strict (s.copies c.node) (s.offsets c) count isProd
  have hEmpty := fun he => localRead_of_empty (f := s.copies c.node) he g.firable (s.offsets c) count
  rw [hFirable] at hEmpty ⊢
  cases hService : localRead false (s.copies c.node) (s.offsets c) count isProd with
  | waitForCommit =>
    rw [hService] at hStrict
    obtain ⟨hProd, -⟩ | ⟨-, hHome⟩ := hWho
    · cases hStrict.symm.trans hProd
    · exact h.start hHome
  | waitForData =>
    rw [hService] at hStrict
    exact hStrict.elim
  | endOfFile => exact h.receive fun hne => absurd rfl hne
  | send n =>
    rw [hService] at hStrict
    refine sendRead_hidden h os fun _ _ => ?_
    obtain ⟨rfl, hProducer | hOther⟩ | ⟨rfl, hHome⟩ := hWho
    · exact .inl hProducer
    · refine .inr (h.committed_of_sectors hOther fun he => ?_)
      cases hService.symm.trans (hEmpty he)
    · exact .inr (hHome ▸ hStrict.resolve_right Bool.false_ne_true)

theorem requestRemoteRead_hidden
    (count : Nat) (hOther : c.node ≠ g.home) : Yields (s.requestRemoteRead g os c count) (Hidden g) := by
  unfold SharedFile.requestRemoteRead
  cases hSource : remoteSource (s.copies c.node) (s.offsets c) count with
  | localRead => exact handleLocalRead_hidden hFirable h os count (.inl ⟨rfl, .inr hOther⟩)
  | here =>
    refine sendRead_hidden h os fun hn hOffset => .inr (h.committed_of_sectors hOther fun he => ?_)
    grind [remoteSource, sectorEnd_of_empty]
  | home => exact h.post hOther

theorem handleRead_hidden (c : Client)
    (count : Nat) (located : Bool) : Yields (s.handleRead g os c count located) (Hidden g) := by
  refine .ite (fun _ => h.start trivial) fun _ => ?_
  refine .ite (fun hLocal => handleLocalRead_hidden hFirable h os count ?_) fun hRemote => ?_
  · cases hProducer : s.producers c with
    | true => exact .inl ⟨rfl, .inl hProducer⟩
    | false => exact .inr ⟨rfl, hLocal.resolve_left (Bool.eq_false_iff.mp hProducer)⟩
  · exact requestRemoteRead_hidden hFirable h os count fun he => hRemote (.inr he)

end

theorem copyFileRangeData_hidden (h : Hidden g s) {offsetIn count : Nat}
    (hData : (s.copies c.node).sectors ≠ [] → s.producers c = true ∨ (s.copies g.home).committed = true) :
    Yields (s.copyFileRangeData g c offsetIn count) (Hidden g) := by
  refine .bind (Q := fun data => data ≠ [] → (s.copies c.node).sectors ≠ []) ?_ fun data hBytes =>
    h.receive fun hne => hData (hBytes hne)
  refine .ite (fun hn => .always (fun data _ he => ?_) _) fun _ hne => absurd rfl hne
  rw [CapioFile.bytesCopied, he] at hn
  exact absurd hn (Nat.lt_irrefl 0)

theorem handleLocalCopyFileRange_hidden (hFirable : g.firable = false) (h : Hidden g s)
    (offsetIn count : Nat) (hWho : isProd = true ∧ s.producers c = true ∨ isProd = false ∧ c.node = g.home) :
    Yields (s.handleLocalCopyFileRange g c offsetIn count isProd) (Hidden g) := by
  unfold SharedFile.handleLocalCopyFileRange
  have hStrict := localCopy_strict (s.copies c.node) offsetIn count isProd
  rw [hFirable]
  cases hService : localCopy false (s.copies c.node) offsetIn count isProd with
  | waitForCommit =>
    rw [hService] at hStrict
    obtain ⟨hProd, -⟩ | ⟨-, hHome⟩ := hWho
    · cases hStrict.symm.trans hProd
    · exact h.start hHome
  | waitForData =>
    rw [hService] at hStrict
    exact hStrict.elim
  | endOfFile | send =>
    rw [hService] at hStrict
    refine copyFileRangeData_hidden h fun _ => ?_
    obtain ⟨rfl, hProducer⟩ | ⟨rfl, hHome⟩ := hWho
    · exact .inl hProducer
    · exact .inr (hHome ▸ hStrict.resolve_right Bool.false_ne_true)

theorem handleCopyFileRange_hidden (hFirable : g.firable = false) (h : Hidden g s) (c : Client)
    (offsetIn count : Nat) (hProd : isProd = true → s.producers c = true) :
    Yields (s.handleCopyFileRange g c offsetIn count isProd) (Hidden g) := by
  refine .ite (fun hLocal => handleLocalCopyFileRange_hidden hFirable h offsetIn count ?_)
    fun hRemote => ?_
  · grind
  · have hOther : c.node ≠ g.home := fun he => hRemote (.inr he)
    refine .ite (fun _ => ?_) fun _ => h.post hOther
    exact copyFileRangeData_hidden h fun he => .inr (h.committed_of_sectors hOther he)

section

variable (h : Hidden g s) (hOther : c.node ≠ g.home) (hCommitted : (s.copies g.home).committed = true)
include h hOther hCommitted

theorem serveRemoteRead_hidden (count : Nat) (offset : Int) :
    Yields (s.serveRemoteRead g c count offset) (Hidden g) :=
  Ends.skip fun _ => h.post ⟨hOther, hCommitted⟩

theorem serveRemoteCopy_hidden (offsetIn count : Nat) :
    Yields (s.serveRemoteCopy g c offsetIn count) (Hidden g) :=
  Ends.skip fun _ => h.post ⟨hOther, hCommitted⟩

end

theorem committed_of_servesAtOnce (hFirable : g.firable = false) {count : Nat}
    (h : servesAtOnce g.firable f offset count = true) : f.committed = true := by
  grind [servesAtOnce]

theorem storedReply (h : Hidden g s) (hOther : c.node ≠ g.home)
    (hCommitted : (s.copies g.home).committed = true) (f : CapioFile) :
    Hidden g (s.setCopy c.node f) ∧ ((s.setCopy c.node f).copies g.home).committed = true := by
  refine ⟨h.setCopy (fun he => absurd he hOther) fun _ hc => ?_, ?_⟩
  · rw [hCommitted] at hc
    cases hc
  · change (update s.copies c.node f g.home).committed = true
    rwa [update_of_ne hOther.symm]

theorem deliver_hidden (hFirable : g.firable = false) (h : Hidden g s) (os : Nat → Os)
    (hm : MessageOk g (s.copies g.home).committed m) : Yields (s.deliver g os m) (Hidden g) := by
  cases m with
  | read c count offset =>
    refine .ite (fun hAtOnce => ?_) fun _ => h.start hm
    exact serveRemoteRead_hidden h hm (committed_of_servesAtOnce hFirable hAtOnce) count offset
  | copyFileRange c offsetIn count =>
    refine .ite (fun hAtOnce => ?_) fun _ => h.start hm
    exact serveRemoteCopy_hidden h hm (committed_of_servesAtOnce hFirable hAtOnce) offsetIn count
  | readReply c count fileSize complete data =>
    obtain ⟨hOther, hCommitted⟩ := hm
    refine .ite (fun _ => trivial) fun _ => ?_
    refine .skip fun f => ?_
    obtain ⟨h1, hStill⟩ := storedReply h hOther hCommitted f
    refine .ite (fun _ => ?_) fun _ => sendRead_hidden h1 (os 2) fun _ _ => .inr hStill
    refine .ite (fun _ => ?_) fun _ => trivial
    exact (h1.setOffsets _).receive fun hne => absurd rfl hne
  | copyFileRangeReply c offsetIn count fileSize complete data =>
    obtain ⟨hOther, hCommitted⟩ := hm
    refine .skip fun f => ?_
    obtain ⟨h1, hStill⟩ := storedReply h hOther hCommitted f
    exact copyFileRangeData_hidden h1 fun _ => .inr hStill

/-- A thread of the home node that waits for data, for a client of another node, goes on after the
commit; and a read that waited for the location of the file finds on the home node that it is local. -/
def Thread.Awaits (g : Sharing) (s : SharedFile) (own : Bool) : Thread → Prop
  | .readFile c _ => c.node = g.home → own = true
  | .remoteRead _ count offset =>
    offset + count ≤ (s.copies g.home).getStoredSize → (s.copies g.home).committed = true
  | .remoteCopy _ offsetIn count =>
    (offsetIn + count : Int) ≤ (s.copies g.home).getStoredSize → (s.copies g.home).committed = true
  | _ => True

theorem committed_of_dataReady (h : f.dataReady offset = true)
    (hAwaits : offset ≤ f.getStoredSize → f.committed = true) : f.committed = true := by
  obtain hData | hCommitted := Bool.or_eq_true_iff.mp h
  · exact hAwaits (of_decide_eq_true hData)
  · exact hCommitted

theorem resume_hidden (hFirable : g.firable = false) (h : Hidden g s) (os : Nat → Os) (ht : ThreadOk g t)
    (hAwaits : t.Awaits g s own) :
    Yields (s.resume g os own t) (fun r => ∀ s', r = some s' → Hidden g s') := by
  have hSome : ∀ {x : Except Failure SharedFile}, Yields x (Hidden g) →
      Yields (some <$> x) (fun r => ∀ s', r = some s' → Hidden g s') := fun hx =>
    Ends.map (hx.imp (fun s1 hs1 s' he => Option.some.inj he ▸ hs1))
  have hNone : ∀ s', (none : Option SharedFile) = some s' → Hidden g s' := fun _ he => (nomatch he)
  cases t with
  | readFile c count =>
    refine hSome (Ends.ite (fun hLocal => ?_) fun hRemote => ?_)
    · exact handleLocalRead_hidden hFirable h (os 0) count (.inr ⟨rfl, hLocal.1⟩)
    · exact requestRemoteRead_hidden hFirable h (os 0) count fun he => hRemote ⟨he, hAwaits he⟩
  | readCommit c offset count =>
    have hHome : c.node = g.home := ht
    refine .ite (fun hCommitted => hSome ?_) fun _ => hNone
    exact sendRead_hidden h (os 0) fun _ _ => .inr (hHome ▸ hCommitted)
  | copyFile c offsetIn count =>
    exact hSome (handleCopyFileRange_hidden hFirable h c offsetIn count
      fun he => absurd he Bool.false_ne_true)
  | copyCommit c offsetIn count =>
    have hHome : c.node = g.home := ht
    refine .ite (fun hCommitted => hSome ?_) fun _ => hNone
    exact copyFileRangeData_hidden h fun _ => .inr (hHome ▸ hCommitted)
  | readData | copyData => exact ht.elim
  | remoteRead c count offset =>
    refine .ite (fun hReady => hSome ?_) fun _ => hNone
    exact serveRemoteRead_hidden h ht (committed_of_dataReady hReady hAwaits) count offset
  | remoteCopy c offsetIn count =>
    refine .ite (fun hReady => hSome ?_) fun _ => hNone
    exact serveRemoteCopy_hidden h ht (committed_of_dataReady hReady hAwaits) offsetIn count

/-- The producers write on the home node, and every thread that goes on meets its condition. -/
def Disciplined (g : Sharing) (s : SharedFile) (i : Input) : Prop :=
  match i.event with
  | .write c _ => c.node = g.home
  | .resume k own => ∀ t ∈ s.threads[k]?, t.Awaits g s own
  | _ => True

theorem handleClose_hidden (h : Hidden g s) (n : Node) : Yields (s.handleClose g n) (Hidden g) := by
  refine .bind (Q := fun f => f.sectors = (s.copies n).sectors ∧
    ((s.copies n).committed = true → f.committed = true)) ?_ fun f hf => ?_
  · refine .ite (fun _ => ?_) fun _ => ⟨rfl, id⟩
    exact (commit_ends (s.copies n).close).imp (fun f hf => ⟨hf.1, fun _ => hf.2⟩)
  · exact h.setCopy (fun _ => hf.2) fun hn hc => hf.1.trans (h.elsewhere hc n hn)

theorem commitOnTermination_hidden (h : Hidden g s) (n : Node) :
    Yields (s.commitOnTermination g n) (Hidden g) := by
  refine .ite (fun _ => ?_) fun _ => h
  refine (commit_ends (s.copies n)).bind fun f hf => ?_
  exact h.setCopy (fun _ _ => hf.2) fun hn hc => hf.1.trans (h.elsewhere hc n hn)

theorem writeHandler_hidden (h : Hidden g s) (os : Nat → Os) (hHome : c.node = g.home)
    (data : List Byte) : Yields (s.writeHandler os c data) (Hidden g) := by
  refine .ite (fun _ => trivial) fun _ => ?_
  refine (writeData_ends (os 0) (os 1) _ _ data).bind fun f hf => ?_
  have h1 := h.setCopy (fun _ hc => hf.2.trans hc) fun hn => absurd hHome hn
  exact ⟨h1.elsewhere, h1.threads, h1.network, h1.receipts⟩

theorem step_hidden (hFirable : g.firable = false) (h : Hidden g s) (hi : Disciplined g s i) :
    Yields (step g s i) (Hidden g) := by
  obtain ⟨event, os⟩ := i
  cases event with
  | openFile n => exact h.sameData ⟨rfl, rfl⟩
  | close n => exact handleClose_hidden h n
  | terminate n => exact commitOnTermination_hidden h n
  | produce c => exact ⟨h.elsewhere, h.threads, h.network, h.receipts⟩
  | write c data => exact writeHandler_hidden h os hi data
  | seek c offset => exact h.setOffsets _
  | read c count located => exact handleRead_hidden hFirable h (os 0) c count located
  | copyFileRange c offsetIn count located =>
    refine .ite (fun _ => h.start trivial) fun _ => ?_
    exact handleCopyFileRange_hidden hFirable h c offsetIn count id
  | resume k own =>
    simp only [step]
    split
    · exact h
    · rename_i t ht
      have h1 : Hidden g { s with threads := s.threads.eraseIdx k } :=
        ⟨h.elsewhere, fun t' ht' => h.threads t' (mem_of_mem_eraseIdx ht'), h.network, h.receipts⟩
      refine (resume_hidden hFirable h1 os (h.threads t (mem_of_getElem? ht)) ?_).bind fun r hr => ?_
      · have hAwaits := hi t ht
        cases t with
        | readFile | remoteRead | remoteCopy => exact hAwaits
        | readCommit | readData | copyFile | copyCommit | copyData => trivial
      · cases r with
        | none => exact h
        | some s' => exact hr s' rfl
  | deliver k =>
    simp only [step]
    split
    · exact h
    · rename_i m hm
      have h1 : Hidden g { s with network := s.network.eraseIdx k } :=
        ⟨h.elsewhere, h.threads, fun m' hm' => h.network m' (mem_of_mem_eraseIdx hm'), h.receipts⟩
      exact deliver_hidden hFirable h1 os (h.network m (mem_of_getElem? hm))

theorem hidden_start {copies : Node → CapioFile} (hEmpty : ∀ n ≠ g.home, (copies n).sectors = []) :
    Hidden g { copies := copies } :=
  ⟨fun _ => hEmpty, fun _ ht => (nomatch ht), fun _ hm => (nomatch hm), fun _ hr => (nomatch hr)⟩

/-- In every disciplined run only producers obtain bytes of a file that is not firable before it is
committed on its home node. -/
theorem no_byte_before_commit {g : Sharing} {copies : Node → CapioFile} {inputs : List Input}
    {s : SharedFile} (hFirable : g.firable = false) (hEmpty : ∀ n ≠ g.home, (copies n).sectors = [])
    (hInputs : Meets (Disciplined g) (step g) { copies := copies } inputs)
    (hRun : inputs.foldlM (step g) { copies := copies } = .ok s) :
    ∀ r ∈ s.receipts, r.data ≠ [] → r.producer = true ∨ r.committed = true :=
  ((run_ends (fun _ _ h hi => step_hidden hFirable h hi)
    (hidden_start hEmpty) inputs hInputs).result hRun).receipts

end

instance (g : Sharing) (s : SharedFile) (own : Bool) : DecidablePred (Thread.Awaits g s own) :=
  fun op => by cases op <;> dsimp only [Thread.Awaits] <;> infer_instance

instance (g : Sharing) (s : SharedFile) : DecidablePred (Disciplined g s)
  | ⟨op, _⟩ => by cases op <;> dsimp only [Disciplined] <;> infer_instance

def updatable : Sharing := ⟨['a'], false, .onTermination, 0, 4⟩

def run (events : List Event) : Except Failure SharedFile :=
  (inputs events).foldlM (step updatable) noData

def readThenTerminate : List Event :=
  [.read consumer 1 true, .deliver 0, .write producer [42], .terminate ['a'], .resume 0 true, .deliver 0]

theorem read_after_commit : ∃ s, run readThenTerminate = .ok s ∧
    s.receipts = [⟨consumer, [42], false, true⟩] ∧
    ∀ r ∈ s.receipts, r.data ≠ [] → r.producer = true ∨ r.committed = true := by
  have hInputs : Meets (Disciplined updatable) (step updatable) noData (inputs readThenTerminate) := by
    decide +kernel
  have hSeen : ∃ s, run readThenTerminate = .ok s ∧ s.receipts = [⟨consumer, [42], false, true⟩] := by
    decide +kernel
  obtain ⟨s, hRun, hReceipts⟩ := hSeen
  exact ⟨s, hRun, hReceipts, no_byte_before_commit rfl (fun _ _ => rfl) hInputs hRun⟩

/-- Three clients obtain the first byte before the commit: a reader and a copy of another node, and
a reader of a node on which another client has written. -/
theorem byte_before_commit :
    (∃ s, run [.read consumer 1 true, .deliver 0, .write producer [42], .resume 0 true, .deliver 0] =
        .ok s ∧ s.receipts = [⟨consumer, [42], false, false⟩]) ∧
    (∃ s, run [.copyFileRange consumer 0 1 true, .deliver 0, .write producer [42], .resume 0 true,
        .deliver 0] = .ok s ∧ s.receipts = [⟨consumer, [42], false, false⟩]) ∧
    ∃ s, run [.write ⟨['b'], 1, 3⟩ [42], .read consumer 1 true] = .ok s ∧
      s.receipts = [⟨consumer, [42], false, false⟩] :=
  ⟨⟨_, rfl, rfl⟩, ⟨_, rfl, rfl⟩, ⟨_, rfl, rfl⟩⟩

end Capio.Remote
