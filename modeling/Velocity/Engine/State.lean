import Velocity.Engine.Context
import Velocity.Engine.Hal
import Velocity.Store.ContextPool
import Velocity.Wal.Manager

namespace Velocity

open Lib WorkflowContextPool

/-!
# The engine's state

The parts that operations read. Services that are only written are left out.

* `WorkflowEngine`: pool, task queue, log, counters and configuration.
* `LogGrows`: which records an operation appends.
-/

/-! ### Tasks -/

inductive TaskKind where
  | workflowTask
  | activityTask
  | timerTask
  | signalTask
  deriving DecidableEq, Repr

structure TaskItem where
  taskId : UInt64
  kind : TaskKind
  workflowKey : UInt64
  taskQueueHash : UInt64
  stepIndex : UInt32
  activityNameId : UInt64
  attempt : UInt32
  priority : UInt8
  deadlineMs : UInt64
  deriving DecidableEq, Repr

structure TaskQueue where
  queues : UInt64 → List TaskItem
  nextTaskId : UInt64

namespace TaskQueue

def new : TaskQueue := ⟨fun _ => [], 1⟩

/-- Priority zero goes to the back, others before the first larger value. -/
def enqueue (q : TaskQueue) (tqHash : UInt64) (task : TaskItem) : TaskQueue :=
  let task := { task with taskId := q.nextTaskId }
  let deque := q.queues tqHash
  let deque :=
    if task.priority > 0 then
      deque.insertIdx (deque.findIdx (fun t => t.priority > task.priority)) task
    else deque ++ [task]
  ⟨Function.update q.queues tqHash deque, q.nextTaskId + 1⟩

end TaskQueue

/-! ### The engine -/

structure DurabilityConfig where
  syncSteps : UInt32
  flushIntervalMs : Nat
  directExecution : Bool
  deriving DecidableEq, Repr

def DurabilityConfig.strict : DurabilityConfig := ⟨0, 0, false⟩

structure WorkflowEngine where
  workflows : WorkflowContextPool WorkflowContext
  taskQueue : TaskQueue
  wal : Option WalManager
  nextRunId : UInt64
  hal : HardwareAbstractionLayer
  durabilityConfig : DurabilityConfig
  stepsSinceSync : UInt32
  lastSyncInstant : Nat
  now : Nat

namespace WorkflowEngine

def new (wal : Option WalManager) (durabilityConfig : DurabilityConfig) (now : Nat) :
    WorkflowEngine where
  workflows := WorkflowContextPool.new
  taskQueue := TaskQueue.new
  wal := wal
  nextRunId := 1
  hal := HardwareAbstractionLayer.withSimulatedHardware
  durabilityConfig := durabilityConfig
  stepsSinceSync := 0
  lastSyncInstant := now
  now := now

def withWal (maxFileSize retainCount : Nat) (durabilityConfig : DurabilityConfig) (now : Nat) :
    WorkflowEngine :=
  new (some (WalManager.withRetention (fun _ => none) maxFileSize retainCount)) durabilityConfig
    now

def restart (e : WorkflowEngine) (now : Nat) : WorkflowEngine :=
  new (e.wal.map WalManager.reopen) e.durabilityConfig now

/-! ### Building blocks -/

def update (e : WorkflowEngine) (key : UInt64) (f : WorkflowContext → WorkflowContext) :
    WorkflowEngine :=
  { e with workflows := e.workflows.modify key f }

def logEvent (e : WorkflowEngine) (eventType : WalEventType) (key : UInt64) (data : Bytes) :
    WorkflowEngine :=
  { e with wal := e.wal.map (·.append eventType key data) }

def syncWal (e : WorkflowEngine) : WorkflowEngine := { e with wal := e.wal.map (·.sync) }

def newTask (kind : TaskKind) (key taskQueueHash : UInt64) (stepIndex : UInt32)
    (activityNameId : UInt64) : TaskItem where
  taskId := 0
  kind := kind
  workflowKey := key
  taskQueueHash := taskQueueHash
  stepIndex := stepIndex
  activityNameId := activityNameId
  attempt := 1
  priority := 0
  deadlineMs := 0

def enqueue (e : WorkflowEngine) (task : TaskItem) : WorkflowEngine :=
  { e with taskQueue := e.taskQueue.enqueue task.taskQueueHash task }

def onSlabWrite (e : WorkflowEngine) (key : UInt64) (slabData merkleRoot : Bytes) :
    WorkflowEngine :=
  { e with hal := e.hal.onSlabWrite key slabData merkleRoot }

/-- The fsync decision of the batched mode. -/
def syncBatch (e : WorkflowEngine) : WorkflowEngine :=
  let count := e.stepsSinceSync + 1
  let e := { e with stepsSinceSync := count }
  if count ≥ e.durabilityConfig.syncSteps
      ∨ e.now - e.lastSyncInstant ≥ e.durabilityConfig.flushIntervalMs then
    { e.syncWal with stepsSinceSync := 0, lastSyncInstant := e.now }
  else e

def getStatus (e : WorkflowEngine) (key : UInt64) : WorkflowStatus :=
  e.workflows.withCtx key (fun c => (c.map (·.status)).getD .void)

def getTotalSteps (e : WorkflowEngine) (key : UInt64) : UInt32 :=
  e.workflows.withCtx key (fun c => (c.map (·.slab.totalSteps)).getD 0)

def getCurrentStep (e : WorkflowEngine) (key : UInt64) : UInt32 :=
  e.workflows.withCtx key (fun c => (c.map (·.slab.currentStep)).getD 0)

def isStepCompleted (e : WorkflowEngine) (key : UInt64) (step : UInt32) : Bool :=
  e.workflows.withCtx key (fun c => c.any (·.isStepCompleted step))

def getStepResult (e : WorkflowEngine) (key : UInt64) (step : UInt32) : Option Bytes :=
  e.workflows.withCtx key (fun c => c.bind (·.getStepResult step))

section Reading

variable {e : WorkflowEngine} {key : UInt64}

theorem getStatus_of_none (h : e.workflows.lookup key = none) : e.getStatus key = .void := by
  rw [getStatus, withCtx, h]
  rfl

theorem getStatus_of_some {ctx : WorkflowContext} (h : e.workflows.lookup key = some ctx) :
    e.getStatus key = ctx.status := by
  rw [getStatus, withCtx, h]
  rfl

theorem getStepResult_of_none (h : e.workflows.lookup key = none) (step : UInt32) :
    e.getStepResult key step = none := by
  rw [getStepResult, withCtx, h]
  rfl

theorem getStepResult_of_some {ctx : WorkflowContext} (h : e.workflows.lookup key = some ctx)
    (step : UInt32) : e.getStepResult key step = ctx.getStepResult step := by
  rw [getStepResult, withCtx, h]
  rfl

end Reading

/-! ### What they leave alone -/

variable (e : WorkflowEngine)

@[simp] theorem workflows_logEvent (t : WalEventType) (k : UInt64)
    (d : Bytes) : (e.logEvent t k d).workflows = e.workflows := rfl

@[simp] theorem workflows_syncWal : e.syncWal.workflows = e.workflows := rfl

@[simp] theorem workflows_enqueue (task : TaskItem) :
    (e.enqueue task).workflows = e.workflows := rfl

@[simp] theorem workflows_onSlabWrite (k : UInt64) (d r : Bytes) :
    (e.onSlabWrite k d r).workflows = e.workflows := rfl

@[simp] theorem workflows_update (k : UInt64) (f : WorkflowContext → WorkflowContext) :
    (e.update k f).workflows = e.workflows.modify k f := rfl

@[simp] theorem workflows_syncBatch : e.syncBatch.workflows = e.workflows := by
  simp only [syncBatch]
  split <;> rfl

/-! ### The log of an engine -/

/-- The log, if there is one, gains exactly the records `rs`. -/
def LogGrows (e e' : WorkflowEngine) (rs : List WalRecord) : Prop :=
  ∀ w, e.wal = some w → ∃ w', e'.wal = some w' ∧ w.Grows w' rs

theorem logGrows_of_wal_eq {e e' : WorkflowEngine} (h : e'.wal = e.wal) : e.LogGrows e' [] :=
  fun w hw => ⟨w, h.trans hw, WalManager.Grows.refl w⟩

theorem LogGrows.trans {e e' e'' : WorkflowEngine} {rs rs' : List WalRecord}
    (h : e.LogGrows e' rs) (h' : e'.LogGrows e'' rs') : e.LogGrows e'' (rs ++ rs') := by
  intro w hw
  obtain ⟨w', hw', hgrows⟩ := h w hw
  obtain ⟨w'', hw'', hgrows'⟩ := h' w' hw'
  exact ⟨w'', hw'', hgrows.trans hgrows'⟩

theorem LogGrows.congr {e e' e'' : WorkflowEngine} {rs : List WalRecord}
    (h : e.LogGrows e' rs) (hwal : e''.wal = e'.wal) : e.LogGrows e'' rs := by
  intro w hw
  obtain ⟨w', hw', hgrows⟩ := h w hw
  exact ⟨w', hwal.trans hw', hgrows⟩

theorem logGrows_logEvent (t : WalEventType) (k : UInt64) (d : Bytes) :
    e.LogGrows (e.logEvent t k d) [⟨t, k, d⟩] := by
  intro w hw
  refine ⟨w.append t k d, ?_, WalManager.grows_append w t k d⟩
  show e.wal.map _ = _
  rw [hw]
  rfl

theorem logGrows_syncWal : e.LogGrows e.syncWal [] := by
  intro w hw
  refine ⟨w.sync, ?_, WalManager.grows_sync w⟩
  show e.wal.map _ = _
  rw [hw]
  rfl

theorem logGrows_syncBatch : e.LogGrows e.syncBatch [] := by
  simp only [syncBatch]
  split
  · exact (logGrows_syncWal e).congr rfl
  · exact logGrows_of_wal_eq rfl

theorem logGrows_foldl {ι : Type} (op : WorkflowEngine → ι → WorkflowEngine) (r : ι → WalRecord)
    (hop : ∀ e i, LogGrows e (op e i) [r i]) (is : List ι) (e : WorkflowEngine) :
    e.LogGrows (is.foldl op e) (is.map r) := by
  induction is generalizing e with
  | nil => exact logGrows_of_wal_eq rfl
  | cons i is ih => exact (hop e i).trans (ih (op e i))

end WorkflowEngine

end Velocity
