import Velocity.Engine.State

namespace Velocity

open Lib

/-!
# The engine's operations

Steps and signals are logged before memory changes, starts and closes after, others never.
-/

namespace WorkflowEngine

/-! ### Reading -/

variable (e : WorkflowEngine)

def getSlab (key : UInt64) : Option SlabHeader × WorkflowEngine :=
  match e.workflows.withCtx key id with
  | none => (none, e)
  | some ctx =>
    let healed := e.hal.merkleEccSelfHeal key ctx.slab.merkleRoot
    let slab := { ctx.slab with merkleRoot := healed.2.1 }
    (some slab, { e.update key (fun ctx => { ctx with slab := slab }) with hal := healed.2.2 })

theorem workflows_getSlab (k : UInt64) : (e.getSlab k).2.workflows = e.workflows := by
  simp only [getSlab, WorkflowContextPool.withCtx, id_eq]
  cases hctx : e.workflows.lookup k with
  | none => rfl
  | some ctx =>
    simp only [HardwareAbstractionLayer.merkleEccSelfHeal_data, workflows_update]
    refine WorkflowContextPool.modify_of_eq (fun held hheld => ?_)
    have hsame : ctx = held := Option.some.inj (hctx.symm.trans hheld)
    rw [hsame]

/-! ### Signals -/

def signalData (signalNameId : UInt64) (payload : Bytes) : Bytes :=
  u64ToLeBytes signalNameId ++ payload

/-- Logged whether or not the workflow takes the signal. -/
def signalWorkflow (key signalNameId : UInt64) (payload : Bytes) : WorkflowEngine :=
  let e := e.logEvent .signalReceived key (signalData signalNameId payload)
  let e := e.update key (·.signalIfRunning signalNameId payload)
  -- read whether or not the signal was taken
  let tqHash := e.workflows.withCtx key (fun c => (c.map (·.taskQueueHash)).getD 0)
  if tqHash > 0 then e.enqueue (newTask .signalTask key tqHash 0 signalNameId) else e

def takeSignal (e : WorkflowEngine) (key signalNameId : UInt64) : Option Bytes × WorkflowEngine :=
  let (payload, workflows) := e.workflows.withMut key none (·.takeSignal signalNameId)
  (payload, { e with workflows := workflows })

def signalRecord (key signalNameId : UInt64) (payload : Bytes) : WalRecord :=
  ⟨.signalReceived, key, signalData signalNameId payload⟩

theorem logGrows_signalWorkflow (k n : UInt64) (d : Bytes) :
    e.LogGrows (e.signalWorkflow k n d) [signalRecord k n d] := by
  refine (logGrows_logEvent e .signalReceived k (signalData n d)).congr ?_
  simp only [signalWorkflow]
  split <;> rfl

/-! ### Closing -/

def completeWorkflow (key : UInt64) (result : Option Bytes) : WorkflowEngine :=
  (e.update key (·.complete e.now result)).logEvent .workflowCompleted key []

def failWorkflow (key : UInt64) : WorkflowEngine :=
  (e.update key (·.fail e.now)).logEvent .workflowFailed key []

def cancelWorkflow (key : UInt64) : WorkflowEngine :=
  (e.update key (·.cancel e.now)).logEvent .workflowCanceled key []

def terminateWorkflow (key : UInt64) : WorkflowEngine :=
  (e.update key (·.terminate e.now)).logEvent .workflowTerminated key []

theorem logGrows_cancelWorkflow (k : UInt64) :
    e.LogGrows (e.cancelWorkflow k) [⟨.workflowCanceled, k, []⟩] :=
  (logGrows_of_wal_eq rfl).trans (logGrows_logEvent _ _ _ _)

theorem logGrows_terminateWorkflow (k : UInt64) :
    e.LogGrows (e.terminateWorkflow k) [⟨.workflowTerminated, k, []⟩] :=
  (logGrows_of_wal_eq rfl).trans (logGrows_logEvent _ _ _ _)

inductive ParentClosePolicy where
  | terminate
  | cancel
  | abandon
  deriving DecidableEq, Repr

def applyParentClosePolicy (parentKey : UInt64) (policy : ParentClosePolicy) : WorkflowEngine :=
  let childKeys := e.workflows.withCtx parentKey (fun c => (c.map (·.childKeys)).getD [])
  childKeys.foldl
    (fun e childKey =>
      match policy with
      | .terminate => e.terminateWorkflow childKey
      | .cancel => e.cancelWorkflow childKey
      | .abandon => e)
    e

def setWorkflowExecutionTimeout (key : UInt64) (timeoutMs : Nat) : WorkflowEngine :=
  e.update key (fun ctx =>
    { ctx with workflowExecutionTimeout := if timeoutMs > 0 then some timeoutMs else none })

def timedOutKeys : List UInt64 :=
  (e.workflows.entries.filter (fun entry =>
    entry.2.status == .running && entry.2.timedOutAt e.now)).map (·.1)

def checkWorkflowTimeouts : UInt32 × WorkflowEngine :=
  let timedOut := e.timedOutKeys
  (UInt32.ofNat timedOut.length, timedOut.foldl terminateWorkflow e)

/-! ### Resetting and purging -/

def resetWorkflow (key resetToEventId : UInt64) : Bool × WorkflowEngine :=
  -- no record is written: the log does not know of resets
  let (ok, workflows) := e.workflows.withMut key false (·.reset resetToEventId)
  (ok, { e with workflows := workflows })

def purgeWorkflow (key : UInt64) : WorkflowEngine :=
  { e with workflows := (e.workflows.remove key).2 }

variable [Sha256]

/-! ### Starting -/

def workflowKey (namespaceId workflowId : UInt64) : UInt64 := (namespaceId <<< 32) ||| workflowId

def startData (workflowId workflowTypeId namespaceId taskQueueHash : UInt64)
    (totalSteps : UInt32) : Bytes :=
  u64ToLeBytes workflowId ++ u64ToLeBytes workflowTypeId ++ u64ToLeBytes namespaceId
    ++ u64ToLeBytes taskQueueHash ++ u32ToLeBytes totalSteps

def startContext (workflowId runId workflowTypeId namespaceId taskQueueHash : UInt64)
    (totalSteps : UInt32) (input : Option Bytes) (now : Nat) : WorkflowContext :=
  { WorkflowContext.new workflowId runId workflowTypeId taskQueueHash totalSteps now with
    namespaceId := namespaceId
    inputData := input }

variable (workflowId runId workflowTypeId namespaceId taskQueueHash : UInt64)

@[simp] theorem isStepCompleted_startContext (totalSteps : UInt32) (input : Option Bytes) (now : Nat)
    (step : UInt32) :
    (startContext workflowId runId workflowTypeId namespaceId taskQueueHash totalSteps input
      now).isStepCompleted step = false :=
  Bitmask256.isStepSet_new _

@[simp] theorem getStepResult_startContext (totalSteps : UInt32) (input : Option Bytes) (now : Nat)
    (step : UInt32) :
    (startContext workflowId runId workflowTypeId namespaceId taskQueueHash totalSteps input
      now).getStepResult step = none :=
  SlotMap.get_withCapacity 64 _

def startWorkflow
    (workflowId workflowTypeId namespaceId taskQueueHash : UInt64) (totalSteps : UInt32)
    (input : Option Bytes) : UInt64 × WorkflowEngine :=
  let runId := e.nextRunId
  let key := workflowKey namespaceId workflowId
  let ctx := startContext workflowId runId workflowTypeId namespaceId taskQueueHash totalSteps
    input e.now
  let e := { e with nextRunId := e.nextRunId + 1 }
  -- queued also when the pool refuses the context
  let e := e.enqueue (newTask .workflowTask key taskQueueHash 0 0)
  let e := { e with workflows := (e.workflows.insert key ctx).2 }
  let e := e.logEvent .workflowStarted key
    (startData workflowId workflowTypeId namespaceId taskQueueHash totalSteps)
  (key, e)

def startChildWorkflow
    (parentKey childWorkflowId workflowTypeId taskQueueHash : UInt64) (totalSteps : UInt32)
    (input : Option Bytes) : UInt64 × WorkflowEngine :=
  let namespaceId := parentKey >>> 32
  let (childKey, e) :=
    e.startWorkflow childWorkflowId workflowTypeId namespaceId taskQueueHash totalSteps input
  let e := e.update parentKey (fun parent =>
    { parent with childKeys := parent.childKeys ++ [childKey] })
  let e := e.update childKey (fun child => { child with parentKey := some parentKey })
  (childKey, e)

/-! ### Completing steps -/

def stepData (step : UInt32) (result : Bytes) : Bytes := u32ToLeBytes step ++ result

/-- The pool access shared by the step completions. -/
def applyStep (key : UInt64) (step : UInt32) (result : Bytes) :
    Option (UInt64 × Bytes) × WorkflowEngine :=
  let (found, workflows) := e.workflows.withMut key none (fun ctx =>
    let ctx := ctx.completeStep step result
    (some (ctx.taskQueueHash, ctx.slab.merkleRoot), ctx))
  (found, { e with workflows := workflows })

def completeStep (key : UInt64) (step : UInt32) (result : Bytes) : WorkflowEngine :=
  let e := e.logEvent .stepCompleted key (stepData step result)
  match e.applyStep key step result with
  -- an unknown key is logged all the same
  | (none, e) => e
  | (some (taskQueueHash, merkleRoot), e) =>
    let e := e.onSlabWrite key merkleRoot merkleRoot
    e.enqueue (newTask .workflowTask key taskQueueHash (step + 1) 0)

def persistStep (key : UInt64) (step : UInt32) : WorkflowEngine :=
  e.completeStep key step []

def completeStepSync (key : UInt64) (step : UInt32) (result : Bytes) : WorkflowEngine :=
  let e := (e.logEvent .stepCompleted key (stepData step result)).syncWal
  match e.applyStep key step result with
  | (none, e) => e
  | (some (taskQueueHash, merkleRoot), e) =>
    let e := e.onSlabWrite key merkleRoot merkleRoot
    e.enqueue (newTask .workflowTask key taskQueueHash (step + 1) 0)

/-- An fsync per step (`sync_steps = 0`) or per batch. -/
def completeStepDurable (key : UInt64) (step : UInt32) (result : Bytes) : WorkflowEngine :=
  let syncSteps := e.durabilityConfig.syncSteps
  let direct := e.durabilityConfig.directExecution
  if syncSteps = 0 then
    let e := (e.logEvent .stepCompleted key (stepData step result)).syncWal
    match e.applyStep key step result with
    | (none, e) => e
    | (some (taskQueueHash, merkleRoot), e) =>
      let e := e.onSlabWrite key merkleRoot merkleRoot
      if !direct then e.enqueue (newTask .workflowTask key taskQueueHash (step + 1) 0) else e
  else
    let e := e.logEvent .stepCompleted key (stepData step result)
    match e.applyStep key step result with
    | (none, e) => e
    | (some (taskQueueHash, merkleRoot), e) =>
      let e := e.onSlabWrite key merkleRoot merkleRoot
      let e := e.syncBatch
      if !direct then e.enqueue (newTask .workflowTask key taskQueueHash (step + 1) 0) else e

/-! ### Signalled starts, continuations -/

def signalWithStart
    (workflowId workflowTypeId namespaceId taskQueueHash : UInt64) (totalSteps : UInt32)
    (signalNameId : UInt64) (payload : Bytes) : (UInt64 × Bool) × WorkflowEngine :=
  let key := workflowKey namespaceId workflowId
  if e.getStatus key = .running then ((key, false), e.signalWorkflow key signalNameId payload)
  else
    let (wk, e) :=
      e.startWorkflow workflowId workflowTypeId namespaceId taskQueueHash totalSteps none
    ((wk, true), e.signalWorkflow wk signalNameId payload)

def continueAsNew (key : UInt64) (newInput : Option Bytes) : UInt64 × WorkflowEngine :=
  match e.workflows.withCtx key id with
  | none => (0, e)
  | some old =>
    if old.workflowId = 0 ∧ old.workflowTypeId = 0 ∧ old.namespaceId = 0 then (0, e)
    else
      let e := e.update key (·.continuedAsNew e.now)
      let newRunId := e.nextRunId
      -- the run id is the new workflow id; not logged
      let newKey := workflowKey old.namespaceId newRunId
      let ctx := startContext newRunId newRunId old.workflowTypeId old.namespaceId
        old.taskQueueHash old.slab.totalSteps newInput e.now
      let e := { e with nextRunId := e.nextRunId + 1 }
      let e := e.enqueue (newTask .workflowTask newKey old.taskQueueHash 0 0)
      (newKey, { e with workflows := (e.workflows.insert newKey ctx).2 })

end WorkflowEngine

end Velocity
