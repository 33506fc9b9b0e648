import Velocity.Engine.Ops
import Velocity.Services.History
import Velocity.Services.Visibility

namespace Velocity

open Lib WorkflowEngine WorkflowContextPool

/-!
# Starting a workflow, with its services

A start enqueues, stores, registers, records and logs, whether or not there was room.
-/

/-- Matching service, metrics, tracker and change versions are left out. -/
structure EngineServices where
  engine : WorkflowEngine
  visibility : VisibilityIndex
  historyStore : HistoryStore

def startHistoryData (workflowTypeId namespaceId : UInt64) : Bytes :=
  "type=".toUTF8.toList ++ u64ToLeBytes workflowTypeId ++ ";ns=".toUTF8.toList
    ++ u64ToLeBytes namespaceId

namespace EngineServices

def new (engine : WorkflowEngine) : EngineServices :=
  ⟨engine, VisibilityIndex.new, HistoryStore.new⟩

section Services

variable [Sha256]

variable (s : EngineServices)

def startWorkflowWithAttrs
    (workflowId workflowTypeId namespaceId taskQueueHash : UInt64) (totalSteps : UInt32)
    (input : Option Bytes) (searchAttributes : SearchAttributes) (nowMs : UInt64) :
    UInt64 × EngineServices :=
  let runId := s.engine.nextRunId
  let (key, engine) := s.engine.startWorkflow workflowId workflowTypeId namespaceId taskQueueHash
    totalSteps input
  let visibility := s.visibility.register
    { workflowKey := key
      workflowId := workflowId
      runId := runId
      workflowTypeId := workflowTypeId
      namespaceId := namespaceId
      status := .running
      startTimeMs := nowMs
      closeTimeMs := none
      taskQueueHash := taskQueueHash
      searchAttributes := searchAttributes
      memo := ∅ }
  let (_, historyStore) := s.historyStore.recordEvent key .workflowStarted
    (startHistoryData workflowTypeId namespaceId)
  (key, ⟨engine, visibility, historyStore⟩)

def startWorkflow
    (workflowId workflowTypeId namespaceId taskQueueHash : UInt64) (totalSteps : UInt32)
    (input : Option Bytes) (nowMs : UInt64) : UInt64 × EngineServices :=
  s.startWorkflowWithAttrs workflowId workflowTypeId namespaceId taskQueueHash totalSteps input ∅
    nowMs

/-- The new run is stored under the key returned. -/
def Started (totalSteps : UInt32) (answer : UInt64 × EngineServices) : Prop :=
  answer.2.engine.getStatus answer.1 = .running
  ∧ answer.2.engine.getTotalSteps answer.1 = totalSteps
  ∧ (answer.2.engine.workflows.lookup answer.1).map (·.runId) = some s.engine.nextRunId

/-- Queue, visibility, history and log are as before. -/
def Untouched (answer : UInt64 × EngineServices) : Prop :=
  answer.2.engine.taskQueue = s.engine.taskQueue
  ∧ answer.2.visibility = s.visibility
  ∧ answer.2.historyStore = s.historyStore
  ∧ answer.2.engine.wal = s.engine.wal

/-! ### With and without room -/

theorem startWorkflowWithAttrs_fst (w t ns tq : UInt64) (total : UInt32)
    (input : Option Bytes) (attrs : SearchAttributes) (nowMs : UInt64) :
    (s.startWorkflowWithAttrs w t ns tq total input attrs nowMs).1
      = WorkflowEngine.workflowKey ns w := rfl

theorem started_of_hasRoom {s : EngineServices} {w ns : UInt64}
    (h : s.engine.workflows.HasRoom (WorkflowEngine.workflowKey ns w)) (t tq : UInt64)
    (total : UInt32) (input : Option Bytes) (attrs : SearchAttributes) (nowMs : UInt64) :
    s.Started total (s.startWorkflowWithAttrs w t ns tq total input attrs nowMs) := by
  have hlookup : (s.startWorkflowWithAttrs w t ns tq total input attrs
      nowMs).2.engine.workflows.lookup (WorkflowEngine.workflowKey ns w)
      = some (startContext w s.engine.nextRunId t ns tq total input s.engine.now) :=
    lookup_insert_self h _
  unfold Started getStatus getTotalSteps
    withCtx
  rw [startWorkflowWithAttrs_fst, hlookup]
  exact ⟨rfl, rfl, rfl⟩

theorem lookup_of_not_hasRoom {s : EngineServices} {w ns : UInt64}
    (h : ¬ s.engine.workflows.HasRoom (WorkflowEngine.workflowKey ns w)) (t tq : UInt64)
    (total : UInt32) (input : Option Bytes) (attrs : SearchAttributes) (nowMs : UInt64) :
    (s.startWorkflowWithAttrs w t ns tq total input attrs nowMs).2.engine.workflows.lookup
      (WorkflowEngine.workflowKey ns w) = none := by
  obtain ⟨hsame, hnone⟩ := insert_of_not_hasRoom h
    (startContext w s.engine.nextRunId t ns tq total input s.engine.now)
  show (s.engine.workflows.insert _ _).2.lookup _ = none
  rw [hsame, hnone]

theorem taskQueue_startWorkflowWithAttrs_ne (w t ns tq : UInt64)
    (total : UInt32) (input : Option Bytes) (attrs : SearchAttributes) (nowMs : UInt64) :
    (s.startWorkflowWithAttrs w t ns tq total input attrs nowMs).2.engine.taskQueue
      ≠ s.engine.taskQueue := by
  intro heq
  have hnext : s.engine.taskQueue.nextTaskId + 1 = s.engine.taskQueue.nextTaskId :=
    congrArg TaskQueue.nextTaskId heq
  have hnat := congrArg UInt64.toNat hnext
  rw [UInt64.toNat_add, UInt64.toNat_one] at hnat
  have hbound := s.engine.taskQueue.nextTaskId.toNat_lt
  omega

/-- **All or nothing**: a start is whole iff the pool has room for the key. -/
theorem startsWhole_iff (s : EngineServices) (w t ns tq : UInt64) (total : UInt32)
    (input : Option Bytes) (attrs : SearchAttributes) (nowMs : UInt64) :
    (s.Started total (s.startWorkflowWithAttrs w t ns tq total input attrs nowMs)
        ∨ s.Untouched (s.startWorkflowWithAttrs w t ns tq total input attrs nowMs))
      ↔ s.engine.workflows.HasRoom (WorkflowEngine.workflowKey ns w) := by
  constructor
  · intro hwhole
    by_contra hfull
    have hnone := lookup_of_not_hasRoom hfull t tq total input attrs nowMs
    rcases hwhole with ⟨-, -, hrun⟩ | ⟨htasks, -⟩
    · rw [startWorkflowWithAttrs_fst, hnone] at hrun
      cases hrun
    · exact taskQueue_startWorkflowWithAttrs_ne s w t ns tq total input attrs nowMs htasks
  · exact fun hroom => Or.inl (started_of_hasRoom hroom t tq total input attrs nowMs)

end Services

/-! ### A full pool -/

def startedBelow (n : Nat) : EngineServices :=
  (List.range n).foldl (fun s id => (s.startWorkflow (UInt64.ofNat id) 1 0 1 1 none 0).2)
    (new (WorkflowEngine.withWal 1024 3 .strict 0))

theorem startedBelow_succ (n : Nat) :
    startedBelow (n + 1) = ((startedBelow n).startWorkflow (UInt64.ofNat n) 1 0 1 1 none 0).2 := by
  rw [startedBelow, List.range_succ, List.foldl_append]
  rfl

theorem workflowKey_zero_left (w : UInt64) : WorkflowEngine.workflowKey 0 w = w := by
  simp [WorkflowEngine.workflowKey]

theorem pool_startedBelow {n : Nat} (hn : n ≤ workflowPoolCapacity) :
    (startedBelow n).engine.workflows.WellFormed
    ∧ (startedBelow n).engine.workflows.freeList.length + n = workflowPoolCapacity
    ∧ ∀ k : UInt64, n ≤ k.toNat → (startedBelow n).engine.workflows.lookup k = none := by
  induction n with
  | zero =>
    exact ⟨WorkflowContextPool.wellFormed_new, List.length_finRange, fun _ _ => rfl⟩
  | succ n ih =>
    obtain ⟨hwf, hfree, habsent⟩ := ih (by omega)
    have hnat : (UInt64.ofNat n).toNat = n :=
      UInt64.toNat_ofNat_of_lt' (by have := workflowPoolCapacity_lt; simp only [UInt64.size]; omega)
    have hnone := hwf.lookup_eq_none.mp (habsent (UInt64.ofNat n) (by omega))
    obtain ⟨idx, rest, hcons⟩ := List.exists_cons_of_length_pos
      (show 0 < (startedBelow n).engine.workflows.freeList.length by omega)
    -- the start inserts a context under its own id
    obtain ⟨ctx, hpool⟩ : ∃ ctx, (startedBelow (n + 1)).engine.workflows
        = ((startedBelow n).engine.workflows.insert
            (WorkflowEngine.workflowKey 0 (UInt64.ofNat n)) ctx).2 := by
      rw [startedBelow_succ]
      exact ⟨_, rfl⟩
    rw [hpool, workflowKey_zero_left]
    refine ⟨hwf.insert _ ctx, ?_, fun k hk => ?_⟩
    · rw [insert_of_free hnone hcons]
      rw [hcons, List.length_cons] at hfree
      show rest.length + (n + 1) = _
      omega
    · have hne : k ≠ UInt64.ofNat n := by
        rintro rfl
        omega
      rw [hwf.lookup_insert, if_neg (fun hand => hne hand.1)]
      exact habsent k (by omega)

def startedOneTooMany : UInt64 × EngineServices :=
  (startedBelow workflowPoolCapacity).startWorkflow (UInt64.ofNat workflowPoolCapacity) 1 0 1 1
    none 0

theorem lookup_startedOneTooMany :
    startedOneTooMany.2.engine.workflows.lookup startedOneTooMany.1 = none := by
  obtain ⟨hwf, hfree, habsent⟩ := pool_startedBelow (Nat.le_refl workflowPoolCapacity)
  have hnat : (UInt64.ofNat workflowPoolCapacity).toNat = workflowPoolCapacity :=
    UInt64.toNat_ofNat_of_lt' (by have := workflowPoolCapacity_lt; simp only [UInt64.size]; omega)
  have hempty : (startedBelow workflowPoolCapacity).engine.workflows.freeList = [] :=
    List.eq_nil_of_length_eq_zero (by omega)
  refine lookup_of_not_hasRoom ?_ 1 1 1 none ∅ 0
  rw [workflowKey_zero_left]
  rintro (hsome | hne)
  · rw [hwf.lookup_eq_none.mp (habsent _ (by omega))] at hsome
    cases hsome
  · exact hne hempty

theorem started_halfway :
    startedOneTooMany.2.engine.getStatus startedOneTooMany.1 = .void
    ∧ startedOneTooMany.2.engine.getTotalSteps startedOneTooMany.1 = 0
    ∧ startedOneTooMany.2.engine.taskQueue
        ≠ (startedBelow workflowPoolCapacity).engine.taskQueue
    ∧ (startedOneTooMany.2.visibility.executions.lookup startedOneTooMany.1).map (·.status)
        = some .running
    ∧ ((startedOneTooMany.2.historyStore.getHistory startedOneTooMany.1).bind
        List.getLast?).map (·.eventType) = some .workflowStarted
    ∧ startedOneTooMany.2.engine.wal
        = (startedBelow workflowPoolCapacity).engine.wal.map (·.append .workflowStarted
            startedOneTooMany.1 (WorkflowEngine.startData startedOneTooMany.1 1 0 1 1)) := by
  have hnone := lookup_startedOneTooMany
  refine ⟨?_, ?_, taskQueue_startWorkflowWithAttrs_ne _ _ 1 0 1 1 none ∅ 0, ?_, ?_, ?_⟩
  · exact getStatus_of_none hnone
  · rw [getTotalSteps, withCtx, hnone]
    rfl
  · exact congrArg (Option.map _)
      ((startedBelow workflowPoolCapacity).visibility.lookup_executions_register _)
  · have hhistory : startedOneTooMany.2.historyStore.getHistory startedOneTooMany.1 = _ :=
      (startedBelow workflowPoolCapacity).historyStore.getHistory_recordEvent _ _ _
    rw [hhistory, Option.bind_some, List.getLast?_concat]
    rfl
  · have hkey : startedOneTooMany.1 = UInt64.ofNat workflowPoolCapacity :=
      workflowKey_zero_left _
    rw [hkey]
    show (startedBelow workflowPoolCapacity).engine.wal.map _ = _
    rw [workflowKey_zero_left]

end EngineServices

end Velocity
