import Velocity.Core.Slab
import Velocity.Store.SlotMap

namespace Velocity

open Lib

/-!
# Workflow contexts

The state of one workflow. Instants are milliseconds; fields that nothing reads are left out.
-/

inductive WorkflowStatus where
  | void
  | running
  | completed
  | failed
  | canceled
  | terminated
  | continuedAsNew
  | timedOut
  deriving DecidableEq, Repr

def WorkflowStatus.isClosed : WorkflowStatus → Bool
  | .completed | .failed | .canceled | .terminated | .continuedAsNew | .timedOut => true
  | .void | .running => false

structure WorkflowContext where
  workflowId : UInt64
  runId : UInt64
  workflowTypeId : UInt64
  namespaceId : UInt64
  taskQueueHash : UInt64
  slab : SlabHeader
  status : WorkflowStatus
  stepResults : SlotMap Bytes
  signalBuffer : SlotVec Bytes
  startTime : Nat
  closeTime : Option Nat
  eventSequence : Nat
  parentKey : Option UInt64
  childKeys : List UInt64
  inputData : Option Bytes
  resultData : Option Bytes
  workflowExecutionTimeout : Option Nat
  workflowRunTimeout : Option Nat
  deriving DecidableEq, Repr

namespace WorkflowContext

variable [Sha256]

def new (workflowId runId workflowTypeId taskQueueHash : UInt64) (totalSteps : UInt32)
    (now : Nat) : WorkflowContext where
  workflowId := workflowId
  runId := runId
  workflowTypeId := workflowTypeId
  namespaceId := 0
  taskQueueHash := taskQueueHash
  slab := SlabHeader.new workflowId runId totalSteps
  status := .running
  stepResults := SlotMap.withCapacity 64
  signalBuffer := SlotVec.withCapacity 16
  startTime := now
  closeTime := none
  eventSequence := 0
  parentKey := none
  childKeys := []
  inputData := none
  resultData := none
  workflowExecutionTimeout := none
  workflowRunTimeout := none

variable (ctx : WorkflowContext) (r : UInt64)

def isStepCompleted (step : UInt32) : Bool :=
  ctx.slab.stepBitmask.isStepSet step.toNat

def completeStep (step : UInt32) (result : Bytes) : WorkflowContext :=
  { ctx with
    slab := (ctx.slab.markStepCompleted step.toNat).2
    stepResults := ctx.stepResults.insert step.toUInt64 result
    eventSequence := ctx.eventSequence + 1 }

def getStepResult (step : UInt32) : Option Bytes :=
  ctx.stepResults.get step.toUInt64

def signal (signalNameId : UInt64) (payload : Bytes) : WorkflowContext :=
  { ctx with
    signalBuffer := ctx.signalBuffer.push signalNameId payload
    eventSequence := ctx.eventSequence + 1 }

def takeSignal (signalNameId : UInt64) : Option Bytes × WorkflowContext :=
  let (payload, signalBuffer) := ctx.signalBuffer.popFront signalNameId
  (payload, { ctx with signalBuffer := signalBuffer })

def complete (now : Nat) (result : Option Bytes) : WorkflowContext :=
  { ctx with resultData := result, status := .completed, closeTime := some now }

def fail (now : Nat) : WorkflowContext :=
  { ctx with status := .failed, closeTime := some now }

def cancel (now : Nat) : WorkflowContext :=
  { ctx with status := .canceled, closeTime := some now }

def terminate (now : Nat) : WorkflowContext :=
  { ctx with status := .terminated, closeTime := some now }

def signalIfRunning (signalNameId : UInt64) (payload : Bytes) : WorkflowContext :=
  if ctx.status ≠ .running then ctx else ctx.signal signalNameId payload

def continuedAsNew (ctx : WorkflowContext) (now : Nat) : WorkflowContext :=
  { ctx with status := .continuedAsNew, closeTime := some now }

/-- The closure of `reset_workflow`, which leaves the Merkle root as it is. -/
def reset (resetToEventId : UInt64) : Bool × WorkflowContext :=
  if ctx.status ≠ .running ∧ ctx.status ≠ .failed then (false, ctx)
  else
    (true,
      { ctx with
        stepResults := ctx.stepResults.retain (fun step _ => step < resetToEventId)
        slab := { ctx.slab with
          stepBitmask :=
            ctx.slab.stepBitmask.clearSteps resetToEventId.toNat ctx.slab.totalSteps.toNat }
        status := .running
        closeTime := none })

/-- The closure of `recover_steps_from_pg`. -/
def mergeSteps (steps : List (UInt32 × Option Bytes)) : Nat × WorkflowContext :=
  steps.foldl
    (fun (recovered, ctx) (stepNum, resultData) =>
      if !ctx.isStepCompleted stepNum then
        (recovered + 1, ctx.completeStep stepNum (resultData.getD []))
      else (recovered, ctx))
    (0, ctx)

def runTimedOut (elapsed : Nat) : Bool :=
  match ctx.workflowRunTimeout with
  | some timeout => elapsed > timeout
  | none => false

def timedOutAt (now : Nat) : Bool :=
  let elapsed := now - ctx.startTime
  match ctx.workflowExecutionTimeout with
  | some timeout => if elapsed > timeout then true else ctx.runTimedOut elapsed
  | none => ctx.runTimedOut elapsed

/-! ### Completing and resetting -/

theorem isStepCompleted_completeStep (step : UInt32) (result : Bytes) (s : UInt32) :
    (ctx.completeStep step result).isStepCompleted s
      = (ctx.isStepCompleted s || (decide (s = step) && decide (step.toNat < 256))) := by
  have hinj : s.toNat = step.toNat ↔ s = step := UInt32.toNat_inj
  simp only [isStepCompleted, completeStep, SlabHeader.stepBitmask_markStepCompleted,
    Bitmask256.isStepSet_setStep, hinj]

theorem getStepResult_completeStep (step : UInt32) (result : Bytes) (s : UInt32) :
    (ctx.completeStep step result).getStepResult s
      = if s = step then some result else ctx.getStepResult s := by
  have hinj : s.toUInt64 = step.toUInt64 ↔ s = step := by
    rw [← UInt64.toNat_inj, UInt32.toNat_toUInt64, UInt32.toNat_toUInt64, UInt32.toNat_inj]
  simp only [getStepResult, completeStep, SlotMap.get_insert, hinj]

def mergeStep (step : UInt32 × Option Bytes) : WorkflowContext :=
  if !ctx.isStepCompleted step.1 then ctx.completeStep step.1 (step.2.getD []) else ctx

theorem mergeSteps_snd (steps : List (UInt32 × Option Bytes)) :
    (ctx.mergeSteps steps).2 = steps.foldl mergeStep ctx := by
  unfold mergeSteps
  refine (List.foldl_hom Prod.snd (fun s step => ?_)).symm
  dsimp only [mergeStep]
  split <;> rfl

variable {ctx}

theorem mergeSteps_induction {P : WorkflowContext → Prop}
    {steps : List (UInt32 × Option Bytes)} (hctx : P ctx)
    (hstep : ∀ ctx, ∀ step ∈ steps, P ctx → P (ctx.completeStep step.1 (step.2.getD []))) :
    P (ctx.mergeSteps steps).2 := by
  rw [mergeSteps_snd]
  refine List.foldlRecOn (motive := P) steps _ hctx (fun ctx hctx step hmem => ?_)
  unfold mergeStep
  split
  · exact hstep ctx step hmem hctx
  · exact hctx

omit [Sha256] in
theorem reset_of_refused
    (h : ¬ (ctx.status = .running ∨ ctx.status = .failed)) : (ctx.reset r).2 = ctx := by
  rw [reset, if_pos (not_or.mp h)]

omit [Sha256] in
theorem reset_fst (ctx : WorkflowContext) (r : UInt64) :
    (ctx.reset r).1 = true ↔ ctx.status = .running ∨ ctx.status = .failed := by
  unfold reset
  split
  · next h => exact iff_of_false Bool.false_ne_true (not_or.mpr h)
  · next h => exact iff_of_true rfl (Decidable.not_and_iff_not_or_not.mp h |>.imp
      Decidable.of_not_not Decidable.of_not_not)

omit [Sha256] in
theorem status_reset
    (h : ctx.status = .running ∨ ctx.status = .failed) : (ctx.reset r).2.status = .running := by
  rw [reset, if_neg (fun hne => h.elim hne.1 hne.2)]

omit [Sha256] in
theorem slab_reset (h : ctx.status = .running ∨ ctx.status = .failed) : (ctx.reset r).2.slab
      = { ctx.slab with
          stepBitmask := ctx.slab.stepBitmask.clearSteps r.toNat ctx.slab.totalSteps.toNat } := by
  have hnot : ¬ (ctx.status ≠ .running ∧ ctx.status ≠ .failed) := fun hne =>
    h.elim hne.1 hne.2
  rw [reset, if_neg hnot]

omit [Sha256] in
theorem isStepCompleted_reset (h : ctx.status = .running ∨ ctx.status = .failed) (s : UInt32) :
    (ctx.reset r).2.isStepCompleted s
      = (ctx.isStepCompleted s
          && !decide (r.toNat ≤ s.toNat ∧ s.toNat < ctx.slab.totalSteps.toNat)) := by
  rw [isStepCompleted, slab_reset r h]
  exact Bitmask256.isStepSet_clearSteps ..

omit [Sha256] in
theorem getStepResult_reset (h : ctx.status = .running ∨ ctx.status = .failed) (s : UInt32) :
    (ctx.reset r).2.getStepResult s
      = if s.toNat < r.toNat then ctx.getStepResult s else none := by
  have hnot : ¬ (ctx.status ≠ .running ∧ ctx.status ≠ .failed) := fun hne =>
    h.elim hne.1 hne.2
  have hlt : s.toUInt64 < r ↔ s.toNat < r.toNat := by
    rw [UInt64.lt_iff_toNat_lt, UInt32.toNat_toUInt64]
  rw [getStepResult, reset, if_neg hnot]
  simp only [SlotMap.get_retain (q := fun step => decide (step < r)), decide_eq_true_eq, hlt]
  rfl

end WorkflowContext

end Velocity
