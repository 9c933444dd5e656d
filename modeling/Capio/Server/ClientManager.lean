import Capio.Common.Types

/-! # Clients of a server

The tables of `ClientManager`.  A set of paths is kept as the list of its elements.  The shared
memory of a client is present or not; what is written to it is the log of replies.
-/
namespace Capio.Server

open Common

/-- A value for the response buffer of a thread, with the bytes that follow it in its data queue. -/
structure Reply where
  tid : Tid
  offset : Int
  data : List Byte := []
  deriving DecidableEq

structure ClientManager where
  dataBuffers : Tid → Bool := fun _ => false
  responses : Tid → Bool := fun _ => false
  appNames : Tid → Option AppName := fun _ => none
  filesCreatedByProducer : Tid → Option (List Path) := fun _ => none
  filesCreatedByAppName : AppName → Option (List Path) := fun _ => none
  threadAllowedToContinue : List Tid := []
  replies : List Reply := []

namespace ClientManager

def getAppName (cm : ClientManager) (tid : Tid) : AppName :=
  (cm.appNames tid).getD CAPIO_DEFAULT_APP_NAME

def registerClient (cm : ClientManager) (tid : Tid) (appName : AppName) : ClientManager :=
  { cm with
    dataBuffers := Function.update cm.dataBuffers tid true
    responses := Function.update cm.responses tid true
    appNames := emplace cm.appNames tid appName
    filesCreatedByProducer := emplace cm.filesCreatedByProducer tid []
    filesCreatedByAppName := emplace cm.filesCreatedByAppName appName [] }

def unlockClonedChild (cm : ClientManager) (tid : Tid) : ClientManager :=
  { cm with threadAllowedToContinue := cm.threadAllowedToContinue ++ [tid] }

def removeClient (cm : ClientManager) (tid : Tid) : ClientManager :=
  { cm with
    dataBuffers := Function.update cm.dataBuffers tid false
    responses := Function.update cm.responses tid false
    filesCreatedByProducer := Function.update cm.filesCreatedByProducer tid none
    filesCreatedByAppName := Function.update cm.filesCreatedByAppName (cm.getAppName tid) none }

def registerProducedFile (cm : ClientManager) (tid : Tid) (path : Path) : ClientManager :=
  match cm.filesCreatedByProducer tid with
  | none => cm
  | some files =>
    let cm := { cm with
      filesCreatedByProducer := Function.update cm.filesCreatedByProducer tid (some (files.insert path)) }
    match cm.filesCreatedByAppName (cm.getAppName tid) with
    | none => cm
    | some files => { cm with
        filesCreatedByAppName :=
          Function.update cm.filesCreatedByAppName (cm.getAppName tid) (some (files.insert path)) }

def removeProducedFile (cm : ClientManager) (tid : Tid) (path : Path) : ClientManager :=
  { cm with
    filesCreatedByProducer := Function.update cm.filesCreatedByProducer tid
      ((cm.filesCreatedByProducer tid).map (List.erase · path))
    filesCreatedByAppName := Function.update cm.filesCreatedByAppName (cm.getAppName tid)
      ((cm.filesCreatedByAppName (cm.getAppName tid)).map (List.erase · path)) }

def isProducer (cm : ClientManager) (tid : Tid) (path : Path) : Bool :=
  ((cm.filesCreatedByProducer tid).getD []).any (SamePath · path) ||
    ((cm.filesCreatedByAppName (cm.getAppName tid)).getD []).any (SamePath · path)

def getProducedFiles (cm : ClientManager) (tid : Tid) : List Path × ClientManager :=
  ((cm.filesCreatedByProducer tid).getD [],
    { cm with filesCreatedByProducer := emplace cm.filesCreatedByProducer tid [] })

def reply (cm : ClientManager) (tid : Tid) (offset : Int) : Except Failure ClientManager :=
  if cm.responses tid then .ok { cm with replies := ⟨tid, offset, []⟩ :: cm.replies }
  else .error (.noClientBuffers tid)

def replyData (cm : ClientManager) (tid : Tid) (offset : Int) (data : List Byte) :
    Except Failure ClientManager :=
  if cm.dataBuffers tid && cm.responses tid then
    .ok { cm with replies := ⟨tid, offset + data.length, data⟩ :: cm.replies }
  else .error (.noClientBuffers tid)

def produced (cm : ClientManager) (tid : Tid) : List Path :=
  (cm.filesCreatedByProducer tid).getD []

theorem mem_produced_registerProducedFile {cm : ClientManager}
    (h : p ∈ (cm.registerProducedFile tid path).produced t) : p ∈ cm.produced t ∨ p = path := by
  unfold registerProducedFile at h
  cases hFiles : cm.filesCreatedByProducer tid with
  | none =>
    simp only [hFiles] at h
    exact .inl h
  | some files =>
    have hUpdate : p ∈ (Function.update cm.filesCreatedByProducer tid
      (some (files.insert path)) t).getD [] := by
      simp only [hFiles] at h
      split at h <;> exact h
    grind [produced, Function.update_of_ne]

theorem produced_emplace_nil (cm : ClientManager) (tid t : Tid) :
    (emplace cm.filesCreatedByProducer tid [] t).getD [] = cm.produced t := by
  unfold emplace
  cases hFiles : cm.filesCreatedByProducer tid with
  | some files => rfl
  | none => grind [produced]

theorem mem_produced_removeClient {cm : ClientManager} (h : p ∈ (cm.removeClient tid).produced t) :
    p ∈ cm.produced t := by
  by_cases ht : t = tid
  · subst ht
    simp [produced, removeClient] at h
  · simpa [produced, removeClient, ht] using h

end ClientManager

end Capio.Server
