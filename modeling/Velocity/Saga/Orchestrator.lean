import Velocity.Lib.Keyed
import Velocity.Lib.LittleEndian
import Velocity.Lib.Run
import Velocity.Lib.Slots

namespace Velocity.Saga

open Lib

/-!
# Sagas

Completions, failures and compensations, for any index and in any order.

* `SagaOrchestrator`: steps complete, fail and are compensated.
* `completesSoundly_iff`: a saga is complete exactly when its steps are, iff calls are `InOrder`.
-/

inductive StepExecutionMode where
  | sequential
  | parallel
  deriving DecidableEq, Repr

inductive SagaStepStatus where
  | pending
  | running
  | completed
  | failed
  | compensating
  | compensated
  | compensationFailed
  deriving DecidableEq, Repr

inductive SagaStatus where
  | created
  | running
  | completed
  | failed
  | compensating
  | compensated
  | partiallyCompensated
  deriving DecidableEq, Repr

structure SagaStepDefinition where
  name : String
  workflowTypeId : UInt64
  input : Option Bytes
  compensationWorkflowTypeId : Option UInt64
  compensationInput : Option Bytes
  executionMode : StepExecutionMode
  timeoutMs : UInt64
  maxRetries : UInt32
  deriving DecidableEq, Repr

structure SagaStep where
  stepId : UInt64
  name : String
  workflowTypeId : UInt64
  input : Option Bytes
  result : Option Bytes
  compensationWorkflowTypeId : Option UInt64
  compensationInput : Option Bytes
  status : SagaStepStatus
  executionMode : StepExecutionMode
  timeoutMs : UInt64
  maxRetries : UInt32
  retryCount : UInt32
  deriving DecidableEq, Repr

structure SagaExecution where
  sagaId : UInt64
  workflowKey : UInt64
  steps : List SagaStep
  currentStep : Nat
  status : SagaStatus
  deriving DecidableEq, Repr

def SagaStepDefinition.new (name : String) (workflowTypeId : UInt64) : SagaStepDefinition where
  name := name
  workflowTypeId := workflowTypeId
  input := none
  compensationWorkflowTypeId := none
  compensationInput := none
  executionMode := .sequential
  timeoutMs := 0
  maxRetries := 0

def SagaStepDefinition.withCompensation (d : SagaStepDefinition) (compTypeId : UInt64)
    (compInput : Option Bytes) : SagaStepDefinition :=
  { d with compensationWorkflowTypeId := some compTypeId, compensationInput := compInput }

def SagaStepDefinition.toStep (i : Nat) (d : SagaStepDefinition) : SagaStep where
  stepId := UInt64.ofNat i
  name := d.name
  workflowTypeId := d.workflowTypeId
  input := d.input
  result := none
  compensationWorkflowTypeId := d.compensationWorkflowTypeId
  compensationInput := d.compensationInput
  status := .pending
  executionMode := d.executionMode
  timeoutMs := d.timeoutMs
  maxRetries := d.maxRetries
  retryCount := 0

namespace SagaStep

def due (s : SagaStep) : Option (UInt64 × Option Bytes) :=
  if s.status = .completed then
    s.compensationWorkflowTypeId.map (fun compTypeId => (compTypeId, s.compensationInput))
  else none

def settled (s : SagaStep) : Bool :=
  s.status == .compensated || s.status == .pending || s.status == .failed

end SagaStep

/-! ### One saga -/

namespace SagaExecution

def new (sagaId workflowKey : UInt64) (steps : List SagaStepDefinition) : SagaExecution where
  sagaId := sagaId
  workflowKey := workflowKey
  steps := steps.mapIdx SagaStepDefinition.toStep
  currentStep := 0
  status := .created

variable (saga : SagaExecution)

def completeStep (stepIndex : Nat) (result : Option Bytes) : SagaExecution :=
  if stepIndex < saga.steps.length then
    { saga with
      steps := saga.steps.modify stepIndex
        (fun s => { s with status := .completed, result := result })
      currentStep := stepIndex + 1
      status :=
        if stepIndex + 1 ≥ saga.steps.length then .completed
        else if saga.status = .created then .running
        else saga.status }
  else saga

def compensateStep (acc : List SagaStep × List (UInt64 × Option Bytes)) (i : Nat) :
    List SagaStep × List (UInt64 × Option Bytes) :=
  match acc.1[i]?.bind SagaStep.due with
  | some compensation =>
    (acc.1.modify i (fun s => { s with status := .compensating }), acc.2 ++ [compensation])
  | none => acc

def failStep (stepIndex : Nat) : List (UInt64 × Option Bytes) × SagaExecution :=
  if stepIndex < saga.steps.length then
    let failed := saga.steps.modify stepIndex (fun s => { s with status := .failed })
    let acc := (List.range stepIndex).reverse.foldl compensateStep (failed, [])
    (acc.2, { saga with steps := acc.1, status := .compensating })
  else ([], saga)

def completeCompensation (stepIndex : Nat) : SagaExecution :=
  if stepIndex < saga.steps.length then
    let steps := saga.steps.modify stepIndex (fun s => { s with status := .compensated })
    { saga with
      steps := steps
      status := if steps.all SagaStep.settled then .compensated else saga.status }
  else saga

def AllCompleted : Prop := ∀ s ∈ saga.steps, s.status = .completed

def OthersCompleted (i : Nat) : Prop :=
  ∀ j s, saga.steps[j]? = some s → j ≠ i → s.status = .completed

def CompletesSoundly (failed : Bool) (saga : SagaExecution) : Prop :=
  (saga.status = .completed → saga.AllCompleted) ∧ (failed = true → saga.status ≠ .completed)

variable {saga} {failed : Bool}

theorem getElem?_completeCompensation (i j : Nat) :
    (saga.completeCompensation i).steps[j]?
      = if j = i then saga.steps[j]?.map (fun s => { s with status := .compensated })
        else saga.steps[j]? := by
  rw [← getElem?_modify_eq_ite, completeCompensation]
  split
  · rfl
  · next hi => rw [List.modify_eq_self (by omega)]

theorem allCompleted_completeStep {i : Nat} (hi : i < saga.steps.length) (result : Option Bytes) :
    (saga.completeStep i result).AllCompleted ↔ saga.OthersCompleted i := by
  simp only [AllCompleted, OthersCompleted, completeStep, if_pos hi, List.mem_iff_getElem?,
    getElem?_modify_eq_ite]
  constructor
  · intro hall j s hs hne
    exact hall s ⟨j, by rw [if_neg hne, hs]⟩
  · rintro hothers s ⟨j, hs⟩
    split at hs
    · obtain ⟨s', -, rfl⟩ := Option.map_eq_some_iff.mp hs
      rfl
    · next hne => exact hothers j s hs hne

theorem AllCompleted.others (h : saga.AllCompleted) (i : Nat) : saga.OthersCompleted i :=
  fun _ s hs _ => h s (List.mem_of_getElem? hs)

theorem completesSoundly_completeStep (h : saga.CompletesSoundly failed) (i : Nat)
    (result : Option Bytes) :
    (saga.completeStep i result).CompletesSoundly failed
      ↔ (i + 1 = saga.steps.length → failed = false ∧ saga.OthersCompleted i) := by
  by_cases hi : i < saga.steps.length
  · have hall := allCompleted_completeStep hi result
    by_cases hlast : i + 1 = saga.steps.length
    · have hstatus : (saga.completeStep i result).status = .completed := by
        rw [completeStep, if_pos hi]
        exact if_pos (by omega)
      simp [CompletesSoundly, hstatus, hall, hlast, and_comm]
    · -- the status is that before the call, or the saga has only started
      refine iff_of_true ?_ (fun h => absurd h hlast)
      have hstatus : (saga.completeStep i result).status = .completed → saga.status = .completed := by
        rw [completeStep, if_pos hi]
        simp only [if_neg (show ¬ i + 1 ≥ saga.steps.length by omega)]
        split
        · exact nofun
        · exact id
      exact ⟨fun hdone => hall.mpr ((h.1 (hstatus hdone)).others i),
        fun hfailed hdone => h.2 hfailed (hstatus hdone)⟩
  · rw [completeStep, if_neg hi]
    exact iff_of_true h (fun hlast => absurd hlast (by omega))

theorem completesSoundly_failStep (h : saga.CompletesSoundly failed) (i : Nat) :
    (saga.failStep i).2.CompletesSoundly (failed || decide (i < saga.steps.length)) := by
  rw [failStep]
  split
  · exact ⟨nofun, nofun⟩
  · next hi => simpa [hi] using h

theorem status_completeCompensation {i : Nat} (hi : i < saga.steps.length) :
    (saga.completeCompensation i).status
      = if (saga.completeCompensation i).steps.all SagaStep.settled then .compensated
        else saga.status := by
  rw [completeCompensation, if_pos hi]

theorem not_completesSoundly_completeCompensation (h : saga.AllCompleted)
    (hstatus : saga.status = .completed) {i j : Nat} (hi : i < saga.steps.length)
    (hj : j < saga.steps.length) (hne : j ≠ i) :
    ¬ (saga.completeCompensation i).CompletesSoundly failed := by
  intro hsound
  have hother : (saga.completeCompensation i).steps[j]? = some saga.steps[j] := by
    rw [getElem?_completeCompensation, if_neg hne, List.getElem?_eq_getElem hj]
  have hunsettled : ¬ (saga.completeCompensation i).steps.all SagaStep.settled = true := by
    intro hall
    have hsettled := List.all_eq_true.mp hall _ (List.mem_of_getElem? hother)
    simp [SagaStep.settled, h saga.steps[j] (List.getElem_mem hj)] at hsettled
  have hundone : (saga.completeCompensation i).steps[i]?
      = some { saga.steps[i] with status := .compensated } := by
    rw [getElem?_completeCompensation, if_pos rfl, List.getElem?_eq_getElem hi, Option.map_some]
  have hstill : (saga.completeCompensation i).status = .completed := by
    rw [status_completeCompensation hi, if_neg hunsettled, hstatus]
  cases hsound.1 hstill _ (List.mem_of_getElem? hundone)

theorem completesSoundly_completeCompensation (h : saga.CompletesSoundly failed) (i : Nat) :
    (saga.completeCompensation i).CompletesSoundly failed
      ↔ (i < saga.steps.length → saga.status ≠ .completed ∨ saga.steps.length = 1) := by
  by_cases hi : i < saga.steps.length
  · constructor
    · intro hsound _
      by_contra hboth
      obtain ⟨hdone, hone⟩ := not_or.mp hboth
      have hdone := Decidable.not_not.mp hdone
      obtain ⟨j, hj, hne⟩ : ∃ j, j < saga.steps.length ∧ j ≠ i := by
        by_cases h0 : i = 0
        · exact ⟨1, by omega, by omega⟩
        · exact ⟨0, by omega, Ne.symm h0⟩
      exact not_completesSoundly_completeCompensation (h.1 hdone) hdone hi hj hne hsound
    · intro hor
      have hstatus : (saga.completeCompensation i).status ≠ .completed := by
        rw [status_completeCompensation hi]
        split
        · exact nofun
        · next hunsettled =>
          refine (hor hi).resolve_right (fun hone => hunsettled ?_)
          obtain ⟨s, hs⟩ := List.length_eq_one_iff.mp hone
          have hi0 : i = 0 := by omega
          simp [completeCompensation, hs, hi0, SagaStep.settled]
      exact ⟨fun hdone => absurd hdone hstatus, fun _ => hstatus⟩
  · rw [completeCompensation, if_neg hi]
    exact iff_of_true h (fun hlt => absurd hlt hi)

end SagaExecution

/-! ### The orchestrator -/

structure SagaOrchestrator where
  sagas : AList (fun _ : UInt64 => SagaExecution)
  nextId : UInt64

namespace SagaOrchestrator

variable (o : SagaOrchestrator)

def createSaga (workflowKey : UInt64) (steps : List SagaStepDefinition) :
    UInt64 × SagaOrchestrator :=
  (o.nextId,
    { sagas := o.sagas.insert o.nextId (.new o.nextId workflowKey steps),
      nextId := o.nextId + 1 })

def getSaga (sagaId : UInt64) : Option SagaExecution :=
  o.sagas.lookup sagaId

def completeStep (o : SagaOrchestrator) (sagaId : UInt64) (stepIndex : Nat)
    (result : Option Bytes) : Bool × SagaOrchestrator :=
  ((o.getSaga sagaId).any (fun saga => stepIndex < saga.steps.length),
    { o with sagas := modifyKey o.sagas sagaId (·.completeStep stepIndex result) })

def failStep (o : SagaOrchestrator) (sagaId : UInt64) (stepIndex : Nat) :
    List (UInt64 × Option Bytes) × SagaOrchestrator :=
  (((o.getSaga sagaId).map (fun saga => (saga.failStep stepIndex).1)).getD [],
    { o with sagas := modifyKey o.sagas sagaId (fun saga => (saga.failStep stepIndex).2) })

def completeCompensation (o : SagaOrchestrator) (sagaId : UInt64) (stepIndex : Nat) :
    SagaOrchestrator :=
  { o with sagas := modifyKey o.sagas sagaId (·.completeCompensation stepIndex) }

theorem getSaga_createSaga (workflowKey : UInt64) (steps : List SagaStepDefinition) :
    (o.createSaga workflowKey steps).2.getSaga o.nextId
      = some (.new o.nextId workflowKey steps) :=
  AList.lookup_insert _

end SagaOrchestrator

inductive SagaOp where
  | completeStep (sagaId : UInt64) (stepIndex : Nat) (result : Option Bytes)
  | failStep (sagaId : UInt64) (stepIndex : Nat)
  | completeCompensation (sagaId : UInt64) (stepIndex : Nat)
  deriving DecidableEq

def SagaOrchestrator.apply (o : SagaOrchestrator) : SagaOp → SagaOrchestrator
  | .completeStep sagaId stepIndex result => (o.completeStep sagaId stepIndex result).2
  | .failStep sagaId stepIndex => (o.failStep sagaId stepIndex).2
  | .completeCompensation sagaId stepIndex => o.completeCompensation sagaId stepIndex

/-! ### A saga and its completion -/

structure Watched where
  orchestrator : SagaOrchestrator
  failed : Bool

namespace Watched

def fails (sagaId : UInt64) (w : Watched) : SagaOp → Bool
  | .failStep sagaId' stepIndex =>
    sagaId' = sagaId
      && (w.orchestrator.getSaga sagaId).any (fun saga => stepIndex < saga.steps.length)
  | _ => false

def step (sagaId : UInt64) (w : Watched) (op : SagaOp) : Watched where
  orchestrator := w.orchestrator.apply op
  failed := w.failed || w.fails sagaId op

def start (o : SagaOrchestrator) (workflowKey : UInt64) (steps : List SagaStepDefinition) :
    Watched :=
  ⟨(o.createSaga workflowKey steps).2, false⟩

/-- `Completed` only when all steps are completed and none failed. -/
def CompletesSoundly (sagaId : UInt64) (w : Watched) : Prop :=
  ∀ saga, w.orchestrator.getSaga sagaId = some saga → saga.CompletesSoundly w.failed

/-- The last step is completed last, and not after a failure. -/
def InOrder (sagaId : UInt64) (w : Watched) : SagaOp → Prop
  | .completeStep sagaId' stepIndex _ => sagaId' = sagaId →
    ∀ saga, w.orchestrator.getSaga sagaId = some saga → stepIndex + 1 = saga.steps.length →
      w.failed = false ∧ saga.OthersCompleted stepIndex
  | .failStep _ _ => True
  | .completeCompensation sagaId' stepIndex => sagaId' = sagaId →
    ∀ saga, w.orchestrator.getSaga sagaId = some saga → stepIndex < saga.steps.length →
      saga.status ≠ .completed ∨ saga.steps.length = 1

theorem completesSoundly_iff_of_self {sagaId : UInt64} {w : Watched} {o : SagaOrchestrator}
    {f : SagaExecution → SagaExecution} {failed : Bool}
    (ho : o.sagas = modifyKey w.orchestrator.sagas sagaId f) :
    CompletesSoundly sagaId ⟨o, failed⟩
      ↔ ∀ saga, w.orchestrator.getSaga sagaId = some saga → (f saga).CompletesSoundly failed := by
  simp only [CompletesSoundly, SagaOrchestrator.getSaga, ho, lookup_modifyKey_self,
    Option.map_eq_some_iff]
  exact ⟨fun h saga hs => h _ ⟨saga, hs, rfl⟩, fun h _ ⟨saga, hs, heq⟩ => heq ▸ h saga hs⟩

theorem completesSoundly_iff_of_other {sagaId sagaId' : UInt64} {w : Watched}
    {o : SagaOrchestrator} {f : SagaExecution → SagaExecution} {failed : Bool}
    (hne : sagaId' ≠ sagaId) (ho : o.sagas = modifyKey w.orchestrator.sagas sagaId' f)
    (hfailed : failed = w.failed) :
    CompletesSoundly sagaId ⟨o, failed⟩ ↔ w.CompletesSoundly sagaId := by
  simp only [CompletesSoundly, SagaOrchestrator.getSaga, ho, lookup_modifyKey, if_neg hne.symm,
    hfailed]

theorem completesSoundly_step_iff {sagaId : UInt64} {w : Watched} (h : w.CompletesSoundly sagaId)
    (op : SagaOp) : (w.step sagaId op).CompletesSoundly sagaId ↔ w.InOrder sagaId op := by
  cases op with
  | completeStep sagaId' i result =>
    by_cases hid : sagaId' = sagaId
    · subst hid
      rw [step, completesSoundly_iff_of_self rfl, InOrder]
      simp only [fails, Bool.or_false, true_implies]
      exact forall₂_congr fun saga hs =>
        SagaExecution.completesSoundly_completeStep (h saga hs) i result
    · rw [step, completesSoundly_iff_of_other hid rfl (by simp [fails])]
      exact iff_of_true h (fun heq => absurd heq hid)
  | failStep sagaId' i =>
    refine iff_of_true ?_ trivial
    by_cases hid : sagaId' = sagaId
    · subst hid
      rw [step, completesSoundly_iff_of_self rfl]
      intro saga hs
      simpa [fails, hs] using SagaExecution.completesSoundly_failStep (h saga hs) i
    · rwa [step, completesSoundly_iff_of_other hid rfl (by simp [fails, hid])]
  | completeCompensation sagaId' i =>
    by_cases hid : sagaId' = sagaId
    · subst hid
      rw [step, completesSoundly_iff_of_self rfl, InOrder]
      simp only [fails, Bool.or_false, true_implies]
      exact forall₂_congr fun saga hs =>
        SagaExecution.completesSoundly_completeCompensation (h saga hs) i
    · rw [step, completesSoundly_iff_of_other hid rfl (by simp [fails])]
      exact iff_of_true h (fun heq => absurd heq hid)

end Watched

/-- **Completion** is sound along any calls iff every call is in order. -/
theorem completesSoundly_iff (o : SagaOrchestrator) (workflowKey : UInt64)
    (steps : List SagaStepDefinition) (ops : List SagaOp) :
    (∀ ps, ps <+: ops →
        (ps.foldl (Watched.step o.nextId) (.start o workflowKey steps)).CompletesSoundly o.nextId)
      ↔ StepsMeet (Watched.step o.nextId) (Watched.InOrder o.nextId)
          (.start o workflowKey steps) ops := by
  have hstart : (Watched.start o workflowKey steps).CompletesSoundly o.nextId := by
    intro saga hs
    cases hs.symm.trans (o.getSaga_createSaga workflowKey steps)
    exact ⟨nofun, nofun⟩
  exact forall_prefixes_iff_stepsMeet (I := Watched.CompletesSoundly o.nextId)
    (fun _ h => h)
    (fun _ op h _ hop => (Watched.completesSoundly_step_iff h op).mpr hop)
    (fun _ op h _ hnext => (Watched.completesSoundly_step_iff h op).mp hnext) hstart
    (stepsMeet_of_mem fun _ _ _ => trivial)

theorem completed_before_first_step :
    ((((⟨∅, 1⟩ : SagaOrchestrator).createSaga 7 [.new "reserve" 10, .new "charge" 20]).2.completeStep
        1 1 none).2.getSaga 1).map (fun saga => (saga.status, saga.steps.map (·.status)))
      = some (.completed, [.pending, .completed]) := by
  decide +kernel

end Velocity.Saga
