import Velocity.Embedded.StepReplay

namespace Velocity.Embedded

open EmbeddedEngine

/-!
# Executing again after a restart

`execute` never calls `load_workflow`, which would find the persisted output.
-/

class OutputStorage (σ : Type) extends StorageBackend σ where
  loadWorkflow (storage : σ) (workflowId : String) : Except StorageError (Option Value)

/-- Saves succeed, and an output is found under its id until it is saved again. -/
class LawfulOutputs (σ : Type) [OutputStorage σ] : Prop where
  loadWorkflow_saveWorkflow (storage : σ) (workflowId functionName : String) (output : Value) :
    ∃ storage', StorageBackend.saveWorkflow storage workflowId functionName output = .ok storage'
      ∧ ∀ id, OutputStorage.loadWorkflow storage' id
          = if id = workflowId then .ok (some output) else OutputStorage.loadWorkflow storage id
  loadWorkflow_saveJournalEntry (storage : σ) (workflowId : String) (entry : Value) :
    ∃ storage', StorageBackend.saveJournalEntry storage workflowId entry = .ok storage'
      ∧ ∀ id, OutputStorage.loadWorkflow storage' id = OutputStorage.loadWorkflow storage id

instance : OutputStorage InMemoryStorage where
  loadWorkflow storage workflowId := .ok ((storage.workflows workflowId).map (·.output))

instance : LawfulOutputs InMemoryStorage where
  loadWorkflow_saveWorkflow storage workflowId functionName output := by
    refine ⟨_, rfl, fun id => ?_⟩
    by_cases hid : id = workflowId
    · subst hid
      simp [OutputStorage.loadWorkflow]
    · simp [OutputStorage.loadWorkflow, hid]
  loadWorkflow_saveJournalEntry _ _ _ := ⟨_, rfl, fun _ => rfl⟩

open OutputStorage

/-! ### What an execution stores -/

section Outputs

variable {σ W O I R : Type} [OutputStorage σ]

def storedOutput (outputSerde : Serde R) : Except EmbeddedError R → Value
  | .ok output => (outputSerde.toValue output).toOption.getD .null
  | .error _ => .null

variable [LawfulOutputs σ]

@[simp] theorem loadWorkflow_saveEntry (ctx : DurableContext) (e : EmbeddedEngine σ)
    (entry : Value) (id : String) :
    loadWorkflow (ctx.saveEntry e entry).storage id
      = loadWorkflow e.storage id := by
  obtain ⟨storage', hsave, hload⟩ :=
    LawfulOutputs.loadWorkflow_saveJournalEntry e.storage ctx.workflowId entry
  simp only [DurableContext.saveEntry, hsave, hload]

theorem loadWorkflow_run (ctx : DurableContext) (e : EmbeddedEngine σ) (stepName : String)
    (serde : Serde O) (handler : W → O × W) (world : W) (id : String) :
    loadWorkflow (ctx.run e stepName serde handler world).2.2.1.storage id
      = loadWorkflow e.storage id := by
  unfold DurableContext.run
  split
  · rfl
  · simp only
    split
    · rfl
    · exact loadWorkflow_saveEntry _ _ _ id

/-- **A handler stores no output**, whatever steps it calls. -/
theorem loadWorkflow_exec (handler : Handler W O R) (ctx : DurableContext) (e : EmbeddedEngine σ)
    (world : W) (id : String) :
    loadWorkflow (handler.exec ctx e world).2.2.1.storage id
      = loadWorkflow e.storage id := by
  induction handler generalizing ctx e world with
  | done result => rfl
  | run stepName serde step next ih =>
    simp only [Handler.exec]
    rw [ih, loadWorkflow_run]

theorem loadWorkflow_enter (e : EmbeddedEngine σ) (workflowId functionName : String)
    (input : Value) :
    loadWorkflow (e.enter workflowId functionName input).2.storage workflowId
      = .ok (some .null) := by
  obtain ⟨storage', hsave, hload⟩ :=
    LawfulOutputs.loadWorkflow_saveWorkflow e.storage workflowId functionName .null
  simp only [enter, hsave, DurableContext.new]
  rw [hload, if_pos rfl]

theorem loadWorkflow_finish (e : EmbeddedEngine σ) (workflowId functionName : String)
    (outputSerde : Serde R) (result : Except EmbeddedError R)
    (hnull : loadWorkflow e.storage workflowId = .ok (some .null)) :
    loadWorkflow (e.finish workflowId functionName outputSerde result).2.storage
      workflowId = .ok (some (storedOutput outputSerde result)) := by
  unfold finish storedOutput
  cases result with
  | error err => exact hnull
  | ok output =>
    simp only
    cases outputSerde.toValue output with
    | error msg => exact hnull
    | ok value =>
      obtain ⟨storage', hsave, hload⟩ :=
        LawfulOutputs.loadWorkflow_saveWorkflow e.storage workflowId functionName value
      simp only [updateRecord, hsave]
      rw [hload, if_pos rfl]
      rfl

/-- **An execution is stored**: what the handler returned, by any engine that takes it on. -/
theorem loadWorkflow_execute (e : EmbeddedEngine σ) (workflowId functionName : String) (input : I)
    {inputSerde : Serde I} (outputSerde : Serde R) (handler : I → Handler W O R) (world : W)
    (hnew : e.existing workflowId outputSerde = none) {inputValue : Value}
    (hinput : inputSerde.toValue input = .ok inputValue) :
    let entered := e.enter workflowId functionName inputValue
    loadWorkflow (e.execute workflowId functionName input inputSerde outputSerde
        handler world).2.2.1.storage workflowId
      = .ok (some (storedOutput outputSerde
          ((handler input).exec entered.1 entered.2 world).2.1)) := by
  simp only [execute, hnew, hinput]
  refine loadWorkflow_finish _ workflowId functionName outputSerde _ ?_
  rw [loadWorkflow_exec, loadWorkflow_enter]

end Outputs

theorem loadWorkflow_execute_count :
    let e := ((withStorage InMemoryStorage.new).execute "first" "count" 0 u64Serde
      u64Serde countHandler 0).2.2.1
    loadWorkflow (e.execute "wf" "count" 0 u64Serde u64Serde countHandler
      3).2.2.1.storage "wf" = .ok (some (.number (.posInt 3))) :=
  (loadWorkflow_execute _ "wf" "count" 0 u64Serde countHandler 3 rfl rfl).trans rfl

/-! ### Idempotency -/

section Restart

variable {σ W O I R : Type} [OutputStorage σ]

/-- A stored output is the answer, and the handler is not run. -/
def AnswersFromStorage (storage : σ) (workflowId functionName : String) (input : I)
    (inputSerde : Serde I) (outputSerde : Serde R) (handler : I → Handler W O R) (world : W) :
    Prop :=
  let execute := fun handler : I → Handler W O R =>
    (withStorage storage).execute workflowId functionName input inputSerde
      outputSerde handler world
  (∃ output result, loadWorkflow storage workflowId = .ok (some output)
    ∧ outputSerde.fromValue output = .ok result
    ∧ (execute handler).2.1 = .ok (.completed workflowId result))
  ∧ (∀ handler', execute handler' = execute handler)
  ∧ loadWorkflow (execute handler).2.2.1.storage workflowId
      = loadWorkflow storage workflowId

theorem execute_withStorage_of_error (storage : σ) (workflowId functionName : String) (input : I)
    (inputSerde : Serde I) (outputSerde : Serde R) (err : EmbeddedError) (world : W) (result : R) :
    ((withStorage storage).execute workflowId functionName input inputSerde
      outputSerde (fun _ => (.done (.error err) : Handler W O R)) world).2.1
        ≠ .ok (.completed workflowId result) := by
  simp only [execute, existing_withStorage]
  cases inputSerde.toValue input with
  | error msg => exact fun hok => by cases hok
  | ok inputValue =>
    simp [Handler.exec, finish, WorkflowHandle.failed, WorkflowHandle.completed]

/-- **No idempotency across restarts.** No new engine answers from the storage. -/
theorem not_answersFromStorage (storage : σ) (workflowId functionName : String) (input : I)
    (inputSerde : Serde I) (outputSerde : Serde R) (handler : I → Handler W O R) (world : W) :
    ¬ AnswersFromStorage storage workflowId functionName input inputSerde outputSerde handler
      world := by
  rintro ⟨⟨output, result, -, -, hanswer⟩, hsame, -⟩
  -- a handler that never ran could as well be one that fails
  have hfail := hsame (fun _ => .done (.error .lockPoisoned))
  rw [← hfail] at hanswer
  exact execute_withStorage_of_error storage workflowId functionName input inputSerde outputSerde
    .lockPoisoned world result hanswer

end Restart

def countFirst : List (StepCall UInt64) × Except EmbeddedError (WorkflowHandle UInt64)
    × EmbeddedEngine InMemoryStorage × UInt64 :=
  (withStorage InMemoryStorage.new).execute "wf" "count" 0 u64Serde u64Serde
    countHandler 0

def countSecond (handler : UInt64 → Handler UInt64 UInt64 UInt64) :
    List (StepCall UInt64) × Except EmbeddedError (WorkflowHandle UInt64)
      × EmbeddedEngine InMemoryStorage × UInt64 :=
  (withStorage countFirst.2.2.1.storage).execute "wf" "count" 0 u64Serde u64Serde
    handler 7

theorem restart_executes_again :
    (countFirst.2.1 = .ok (.completed "wf" 0)
      ∧ loadWorkflow countFirst.2.2.1.storage "wf"
          = .ok (some (.number (.posInt 0))))
    ∧ ((countSecond countHandler).2.1 = .ok (.completed "wf" 7)
      ∧ loadWorkflow (countSecond countHandler).2.2.1.storage "wf"
          = .ok (some (.number (.posInt 7))))
    ∧ ((countSecond (fun _ => .done (.error (.execution "down")))).2.1
        = .ok (.failed "wf" "Execution error: down")
      ∧ loadWorkflow
          (countSecond (fun _ => .done (.error (.execution "down")))).2.2.1.storage "wf"
          = .ok (some .null)) :=
  ⟨⟨rfl, rfl⟩, ⟨rfl, rfl⟩, rfl, rfl⟩

end Velocity.Embedded
