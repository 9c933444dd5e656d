import Capio.Posix.Agreement

/-! # What the calls of a thread leave as it is

Reads, writes and seeks move offsets and caches.  The descriptors of both sides and the objects of
the server stay, and the write cache is what its own functions make of it.
-/
namespace Capio.Posix.Session

open Common Lib.Outcome Lib.Pieces Server

structure Leaves (c : WriteCache) (s s' : Session) : Prop where
  files : s'.files = s.files
  write : s'.write = c
  map : s'.sm.openedFdMap = s.sm.openedFdMap
  objects : s'.sm.objects = s.sm.objects
  storage : s'.sm.storage = s.sm.storage
  length : s'.sm.offsets.length = s.sm.offsets.length

theorem leaves_self (s : Session) : Leaves s.write s s := ⟨rfl, rfl, rfl, rfl, rfl, rfl⟩

theorem Leaves.trans (h : Leaves c s s') (h' : Leaves c' s' s'') : Leaves c' s s'' :=
  ⟨h'.files.trans h.files, h'.write, h'.map.trans h.map, h'.objects.trans h.objects,
    h'.storage.trans h.storage, h'.length.trans h.length⟩

section

variable (s : Session)

theorem setFileOffset_leaves (tid : Tid) (fd : Fd) (offset : Int) :
    Yields (s.sm.setFileOffset tid fd offset) (fun sm => Leaves s.write s { s with sm := sm }) := by
  unfold StorageManager.setFileOffset
  split
  · exact ⟨rfl, rfl, rfl, rfl, rfl, List.length_set⟩
  · trivial

theorem seekRequest_leaves (fd : Fd) (offset : Int) :
    Yields (s.seekRequest g fd offset) (Leaves s.write s) := by
  refine (ask_ends fun sm hsm => (setFileOffset_leaves s g.tid fd offset).result hsm).bind ?_
  exact fun sm hsm => hsm

theorem sendData_leaves (fd : Fd) (bytes : Int → List Byte) :
    Yields (s.sendData g fd bytes) (fun r => Leaves s.write s r.2) := by
  refine .skip fun offset => ?_
  refine (ask_ends fun sm hsm => (setFileOffset_leaves s g.tid fd _).result hsm).bind fun sm hsm => ?_
  exact ⟨rfl, rfl, hsm.map, hsm.objects, hsm.storage, hsm.length⟩

theorem perform_leaves (a : CacheAction) : Yields (s.perform g a) (Leaves s.write s) := by
  cases a with
  | request fd count =>
    refine .skip fun offset => ?_
    exact seekRequest_leaves s fd _
  | reserve | store | push => exact leaves_self s

theorem applyWrite_leaves (r : WriteCache × List CacheAction) :
    Yields (s.applyWrite g r) (Leaves r.1 s) := by
  refine .foldlM (fun a _ s1 h1 => ?_) ⟨rfl, rfl, rfl, rfl, rfl, rfl⟩
  exact (perform_leaves s1 a).imp (fun s2 h2 => h1.trans (h1.write ▸ h2))

theorem flushRead_leaves : Yields (s.flushRead g) (Leaves s.write s) := by
  refine .ite (fun _ => ?_) fun _ => leaves_self s
  refine .skip fun offset => ?_
  refine (seekRequest_leaves _ _ offset).imp (fun s' h => ?_)
  exact ⟨h.files, h.write, h.map, h.objects, h.storage, h.length⟩

theorem switchRead_leaves (fd : Fd) : Yields (s.switchRead g fd) (Leaves s.write s) := by
  refine .ite (fun _ => ?_) fun _ => leaves_self s
  refine (flushRead_leaves s).bind fun s' h => ?_
  exact ⟨h.files, h.write, h.map, h.objects, h.storage, h.length⟩

theorem copyCached_leaves (count : Int) : Leaves s.write s (s.copyCached g count).2 := by
  unfold copyCached
  split
  · exact ⟨rfl, rfl, rfl, rfl, rfl, rfl⟩
  · exact leaves_self s

theorem setOffset_leaves (fd : Fd) (offset : Int) : Yields (s.setOffset fd offset) (Leaves s.write s) := by
  unfold setOffset
  split
  · exact ⟨rfl, rfl, rfl, rfl, rfl, rfl⟩
  · trivial

theorem readMore_leaves (fd : Fd) (fileOffset remaining count : Int) (isGetdents : Bool) :
    Yields (s.readMore g fd fileOffset remaining count isGetdents) (fun r => Leaves s.write s r.2.2) := by
  refine .ite (fun _ => ?_) fun _ => ?_
  · refine .bind (Q := fun r => Leaves s.write s r.2) ?_ fun r hr => ?_
    · exact .ite (fun _ => sendData_leaves s fd _) fun _ => sendData_leaves s fd _
    · refine .bind (Q := fun r' : List Byte × Session => Leaves s.write s r'.2) ?_
        fun ⟨_, _⟩ hr' => hr'
      unfold readQueue
      split
      · exact ⟨hr.files, hr.write, hr.map, hr.objects, hr.storage, hr.length⟩
      · trivial
  · refine .bind (sendData_leaves s fd _) fun r hr => ?_
    refine .bind (Q := fun s' => Leaves s.write s s') ?_ fun s' hs' => ?_
    · refine .ite (fun _ => ?_) fun _ =>
        ⟨hr.files, hr.write, hr.map, hr.objects, hr.storage, hr.length⟩
      unfold fetch
      split
      · trivial
      · exact ⟨hr.files, hr.write, hr.map, hr.objects, hr.storage, hr.length⟩
    · refine .ite (fun _ => ?_) fun _ => ?_
      · exact hs'.trans (hs'.write ▸ copyCached_leaves s' _)
      · exact hs'.trans (hs'.write ▸ copyCached_leaves s' _)

theorem readThrough_leaves (fd : Fd) (count : Int) (isGetdents : Bool) :
    Yields (s.readThrough g fd count isGetdents) (fun r => Leaves s.write s r.2.2) := by
  refine (switchRead_leaves s fd).bind fun s1 h1 => ?_
  refine .skip fun offset => ?_
  refine .bind (Q := fun r => Leaves s.write s r.2.2) ?_ fun r hr => ?_
  · refine .ite (fun _ => h1.trans (h1.write ▸ copyCached_leaves s1 _)) fun _ => ?_
    have hCopied := h1.trans (h1.write ▸ copyCached_leaves (g := g) s1
      (s1.read.actualSize - s1.read.cacheOffset))
    refine (readMore_leaves _ fd _ _ _ _).bind fun r hr => ?_
    exact hCopied.trans (hCopied.write ▸ hr)
  · refine (setOffset_leaves r.2.2 fd _).bind fun s' hs' => ?_
    exact hr.trans (hr.write ▸ hs')

theorem flushWrite_leaves : Yields (s.flushWrite g) (Leaves s.write.flush.1 s) :=
  applyWrite_leaves s s.write.flush

theorem cachedWrite_leaves (fd : Fd) (buffer : List Byte) (count : Int) :
    Yields (s.cachedWrite g fd buffer count) (Leaves (s.write.write g.maxLineSize fd buffer count).1 s) := by
  refine .bind (Q := Leaves s.write s) ?_ fun s1 h1 => ?_
  · exact .ite (fun _ => flushRead_leaves s) fun _ => leaves_self s
  · refine (applyWrite_leaves s1 _).bind fun s2 h2 => ?_
    refine .skip fun offset => ?_
    refine (setOffset_leaves s2 fd _).imp (fun s3 h3 => ?_)
    rw [h1.write] at h2
    exact h1.trans (h2.trans (h2.write ▸ h3))

end

theorem flush_flush (c : WriteCache) : c.flush.1.flush.1 = c.flush.1 := by
  unfold WriteCache.flush
  split <;> rfl

theorem flushed_leaves (h : Leaves c s s') :
    Yields (s'.flushRead g >>= fun s => s.flushWrite g) (Leaves c.flush.1 s) := by
  refine (flushRead_leaves s').bind fun s1 h1 => (flushWrite_leaves s1).imp (fun _ h2 => ?_)
  rw [h1.write, h.write] at h2
  exact h.trans (h1.trans h2)

theorem setFdOffset_leaves (h : Leaves c s s') (fd : Fd) (offset : Int) :
    Yields (s'.setFdOffset g fd offset) (Leaves c.flush.1 s) := by
  unfold setFdOffset
  rw [← bind_assoc]
  refine (flushed_leaves h).bind fun s1 h1 => ?_
  refine (setOffset_leaves s1 fd offset).bind fun s2 h2 => ?_
  refine (seekRequest_leaves s2 fd offset).imp (fun _ h3 => ?_)
  rw [h2.write, h1.write] at h3
  exact h1.trans (h2.trans h3)

theorem lseek_leaves (s : Session) (fd : Fd) (offset : Int) (relative : Bool) :
    Yields (s.lseek g fd offset relative) (Leaves s.write.flush.1 s) := by
  unfold lseek
  rw [← bind_assoc]
  refine (flushed_leaves (leaves_self s)).bind fun s1 h1 => ?_
  refine .skip fun fileOffset => ?_
  refine .ite (fun _ => ?_) fun _ => h1
  grind [flush_flush, setFdOffset_leaves]

end Capio.Posix.Session
