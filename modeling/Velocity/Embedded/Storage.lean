import Mathlib.Logic.Function.Basic
import Mathlib.Tactic.Common

namespace Velocity.Embedded

/-!
# Storage of the embedded engine

What executing a workflow asks of `StorageBackend`, and `InMemoryStorage`.
-/

/-! ### JSON values -/

inductive Number where
  | posInt (n : UInt64)
  | negInt (n : Int64)
  | float (bits : UInt64)
  deriving DecidableEq, Repr

inductive Value where
  | null
  | bool (b : Bool)
  | number (n : Number)
  | string (s : String)
  | array (elements : List Value)
  | object (fields : List (String × Value))
  deriving Repr

namespace Value

def get (v : Value) (key : String) : Option Value :=
  match v with
  | .object fields => fields.lookup key
  | _ => none

def asU64 : Value → Option UInt64
  | .number (.posInt n) => some n
  | _ => none

def asStr : Value → Option String
  | .string s => some s
  | _ => none

def asBool : Value → Option Bool
  | .bool b => some b
  | _ => none

end Value

/-! ### Backends -/

inductive StorageError where
  | connection (msg : String)
  | query (msg : String)
  | serialization (msg : String)
  | notFound (msg : String)
  | conflict (msg : String)
  deriving DecidableEq, Repr

def StorageError.message : StorageError → String
  | .connection msg => s!"Connection error: {msg}"
  | .query msg => s!"Query error: {msg}"
  | .serialization msg => s!"Serialization error: {msg}"
  | .notFound msg => s!"Not found: {msg}"
  | .conflict msg => s!"Conflict: {msg}"

class StorageBackend (σ : Type) where
  saveWorkflow (storage : σ) (workflowId functionName : String) (output : Value) :
    Except StorageError σ
  saveJournalEntry (storage : σ) (workflowId : String) (entry : Value) : Except StorageError σ
  loadJournal (storage : σ) (workflowId : String) : Except StorageError (List Value)

/-- A storage whose saves succeed. -/
class LawfulStorage (σ : Type) [StorageBackend σ] : Prop where
  loadJournal_saveWorkflow (storage : σ) (workflowId functionName : String) (output : Value) :
    ∃ storage', StorageBackend.saveWorkflow storage workflowId functionName output = .ok storage'
      ∧ ∀ id, StorageBackend.loadJournal storage' id = StorageBackend.loadJournal storage id
  loadJournal_saveJournalEntry (storage : σ) (workflowId : String) (entry : Value) :
    ∃ storage', StorageBackend.saveJournalEntry storage workflowId entry = .ok storage'
      ∧ ∀ journal, StorageBackend.loadJournal storage workflowId = .ok journal →
        StorageBackend.loadJournal storage' workflowId = .ok (journal ++ [entry])

structure WorkflowData where
  functionName : String
  output : Value

structure InMemoryStorage where
  workflows : String → Option WorkflowData
  journals : String → List Value

def InMemoryStorage.new : InMemoryStorage := ⟨fun _ => none, fun _ => []⟩

instance : StorageBackend InMemoryStorage where
  saveWorkflow storage workflowId functionName output :=
    .ok { storage with
      workflows := Function.update storage.workflows workflowId (some ⟨functionName, output⟩) }
  saveJournalEntry storage workflowId entry :=
    .ok { storage with
      journals :=
        Function.update storage.journals workflowId (storage.journals workflowId ++ [entry]) }
  loadJournal storage workflowId := .ok (storage.journals workflowId)

instance : LawfulStorage InMemoryStorage where
  loadJournal_saveWorkflow _ _ _ _ := ⟨_, rfl, fun _ => rfl⟩
  loadJournal_saveJournalEntry storage workflowId entry := by
    refine ⟨_, rfl, fun journal hjournal => ?_⟩
    have hheld : storage.journals workflowId = journal := Except.ok.inj hjournal
    show Except.ok (Function.update storage.journals workflowId _ workflowId) = _
    rw [Function.update_self, hheld]

end Velocity.Embedded
