import Velocity.Engine.Ops

namespace Velocity

open Lib

/-!
# Recovery

`recover_from_wal` and `recover_steps_from_pg`, over what the engine already holds.
-/

variable [Sha256]

structure StartFields where
  workflowId : UInt64
  workflowTypeId : UInt64
  namespaceId : UInt64
  taskQueueHash : UInt64
  totalSteps : UInt32
  deriving DecidableEq, Repr

def StartFields.ofData (data : Bytes) : Option StartFields :=
  if data.length < 36 then none
  else some
    { workflowId := u64FromLeBytes (data.take 8)
      workflowTypeId := u64FromLeBytes ((data.drop 8).take 8)
      namespaceId := u64FromLeBytes ((data.drop 16).take 8)
      taskQueueHash := u64FromLeBytes ((data.drop 24).take 8)
      totalSteps := u32FromLeBytes ((data.drop 32).take 4) }

/-- The run id is the low half of the key, the input is gone. -/
def replayContext (key : UInt64) (fields : StartFields) (now : Nat) : WorkflowContext :=
  WorkflowEngine.startContext fields.workflowId (key &&& 0xFFFFFFFF) fields.workflowTypeId
    fields.namespaceId fields.taskQueueHash fields.totalSteps none now

def WalRecord.stepIndex (r : WalRecord) : UInt32 := u32FromLeBytes (r.data.take 4)

def replayContextUpdate (now : Nat) (record : WalRecord) (ctx : WorkflowContext) :
    WorkflowContext :=
  match record.eventType with
  | .stepCompleted =>
    if record.data.length ≥ 4 then
      ctx.completeStep (u32FromLeBytes (record.data.take 4)) (record.data.drop 4)
    else ctx
  | .signalReceived =>
    -- the status is not looked at, unlike in `signal_workflow`
    if record.data.length ≥ 8 then
      ctx.signal (u64FromLeBytes (record.data.take 8)) (record.data.drop 8)
    else ctx
  | .workflowCompleted =>
    ctx.complete now (if record.data.isEmpty then none else some record.data)
  | .workflowFailed => ctx.fail now
  | .workflowCanceled => ctx.cancel now
  | .workflowTerminated => ctx.terminate now
  -- timers, activities and child starts are not replayed
  | _ => ctx

def replayRecord (now : Nat) (workflows : WorkflowContextPool WorkflowContext)
    (record : WalRecord) : Bool × WorkflowContextPool WorkflowContext :=
  match record.eventType with
  | .workflowStarted =>
    match StartFields.ofData record.data with
    | none => (false, workflows)
    | some fields =>
      workflows.insertIfAbsent record.workflowKey (replayContext record.workflowKey fields now)
  | _ => (false, workflows.modify record.workflowKey (replayContextUpdate now record))

def replayRecords (now : Nat) (workflows : WorkflowContextPool WorkflowContext)
    (records : List WalRecord) : Nat × WorkflowContextPool WorkflowContext :=
  records.foldl
    (fun (recovered, workflows) record =>
      let (inserted, workflows) := replayRecord now workflows record
      (if inserted then recovered + 1 else recovered, workflows))
    (0, workflows)

namespace WorkflowEngine

variable (e : WorkflowEngine)

def recoverFromWal : Except String (Nat × Nat) × WorkflowEngine :=
  match e.wal with
  | none => (.error "WAL not enabled", e)
  | some wal =>
    match wal.replayAll with
    | .error err =>
      let text := err.message
      (.error s!"WAL replay failed: {text}", e)
    | .ok records =>
      let (recovered, workflows) := replayRecords e.now e.workflows records
      -- the largest key, not the largest run id, moves the counter
      let maxRunId := workflows.keys.foldl max 0
      let nextRunId := if maxRunId > 0 then maxRunId + 1 else e.nextRunId
      (.ok (records.length, recovered),
        { e with workflows := workflows, nextRunId := nextRunId })

abbrev StepJournal := UInt64 → Except String (List (UInt32 × Option Bytes))

/-- A journal that cannot be loaded is skipped. -/
def mergeJournal (journal : StepJournal) (counts : Nat × Nat)
    (workflows : WorkflowContextPool WorkflowContext) (key : UInt64) :
    (Nat × Nat) × WorkflowContextPool WorkflowContext :=
  match journal key with
  | .error _ => (counts, workflows)
  | .ok steps =>
    if steps.isEmpty then (counts, workflows)
    else
      let (recovered, workflows) := workflows.withMut key 0 (·.mergeSteps steps)
      ((if recovered > 0 then counts.1 + 1 else counts.1, counts.2 + recovered), workflows)

def recoverStepsFromPg (adapter : Option StepJournal) :
    Except String (Nat × Nat) × WorkflowEngine :=
  match adapter with
  | none => (.ok (0, 0), e)
  | some journal =>
    let (counts, workflows) := e.workflows.keys.foldl
      (fun (counts, workflows) key => mergeJournal journal counts workflows key)
      ((0, 0), e.workflows)
    (.ok counts, { e with workflows := workflows })

def recovered (now : Nat) : WorkflowEngine :=
  ((e.restart now).recoverFromWal).2

end WorkflowEngine

end Velocity
