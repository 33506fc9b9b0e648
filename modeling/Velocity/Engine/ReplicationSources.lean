import Velocity.Engine.Replication

namespace Velocity

open Lib

/-!
# Replication from several clusters

Clusters number tasks from `1` on; the receiver forgets whose an id was.
-/

/-! ### The sending side -/

structure ReplicationRequest where
  source : UInt64
  target : UInt64
  workflowKey : UInt64
  eventType : UInt32
  payload : Bytes
  taskType : ReplicationTaskType
  deriving DecidableEq, Repr

structure ReplicationSource where
  replicationQueue : List ReplicationTask
  nextTaskId : UInt64
  nextEventId : UInt64
  deriving DecidableEq, Repr

namespace ReplicationSource

def new : ReplicationSource := ⟨[], 1, 1⟩

def taskOf (request : ReplicationRequest) (taskId eventId : UInt64) : ReplicationTask where
  taskId := taskId
  sourceClusterId := request.source
  targetClusterId := request.target
  workflowKey := request.workflowKey
  eventType := request.eventType
  payload := request.payload
  failoverVersion := 0
  taskType := request.taskType
  firstEventId := eventId
  lastEventId := eventId
  createdMs := 0

variable (s : ReplicationSource)

def enqueueReplication (request : ReplicationRequest) : UInt64 × ReplicationSource :=
  let taskId := s.nextTaskId
  let eventId := s.nextEventId
  (taskId,
    { replicationQueue := s.replicationQueue ++ [taskOf request taskId eventId]
      nextTaskId := s.nextTaskId + 1
      nextEventId := s.nextEventId + 1 })

def drainReplicationTasks : List ReplicationTask × ReplicationSource :=
  (s.replicationQueue, { s with replicationQueue := [] })

def enqueueAll (requests : List ReplicationRequest) : ReplicationSource :=
  requests.foldl (fun s request => (s.enqueueReplication request).2) s

def sent (requests : List ReplicationRequest) : List ReplicationTask :=
  (new.enqueueAll requests).drainReplicationTasks.1

def tasksFrom (taskId eventId : UInt64) : List ReplicationRequest → List ReplicationTask
  | [] => []
  | request :: requests =>
    taskOf request taskId eventId :: tasksFrom (taskId + 1) (eventId + 1) requests

theorem replicationQueue_enqueueAll (requests : List ReplicationRequest) (s : ReplicationSource) :
    (s.enqueueAll requests).replicationQueue
      = s.replicationQueue ++ tasksFrom s.nextTaskId s.nextEventId requests := by
  induction requests generalizing s with
  | nil => exact (List.append_nil _).symm
  | cons request requests ih =>
    show ((s.enqueueReplication request).2.enqueueAll requests).replicationQueue = _
    rw [ih]
    simp [enqueueReplication, tasksFrom]

variable {i : Nat}

theorem taskId_tasksFrom {requests : List ReplicationRequest} {first event : UInt64}
    {task : ReplicationTask} (h : (tasksFrom first event requests)[i]? = some task) :
    task.taskId = first + UInt64.ofNat i := by
  induction requests generalizing first event i with
  | nil => cases h
  | cons request requests ih =>
    cases i with
    | zero =>
      rw [← Option.some.inj h]
      exact (UInt64.add_zero first).symm
    | succ i =>
      rw [tasksFrom, List.getElem?_cons_succ] at h
      rw [ih h, UInt64.ofNat_add, UInt64.add_assoc, UInt64.add_comm 1]
      rfl

theorem taskId_sent {requests : List ReplicationRequest} {task : ReplicationTask}
    (h : (sent requests)[i]? = some task) : task.taskId = 1 + UInt64.ofNat i := by
  have hsent : sent requests = tasksFrom 1 1 requests := replicationQueue_enqueueAll requests new
  rw [hsent] at h
  exact taskId_tasksFrom h

theorem taskId_eq_iff {ps qs : List ReplicationRequest} {j : Nat} {t u : ReplicationTask}
    (ht : (sent ps)[i]? = some t) (hu : (sent qs)[j]? = some u) :
    t.taskId = u.taskId ↔ i % 2 ^ 64 = j % 2 ^ 64 := by
  rw [taskId_sent ht, taskId_sent hu, UInt64.add_right_inj, ← UInt64.toNat_inj,
    UInt64.toNat_ofNat', UInt64.toNat_ofNat']

end ReplicationSource

open ReplicationSource

/-! ### The receiving side -/

namespace ClusterManager

variable (m : ClusterManager)

/-- The source cluster of the task is registered. -/
def Knows (task : ReplicationTask) : Prop :=
  (m.clusters.lookup task.sourceClusterId).isSome

/-- No task with this id has been applied. -/
def Unseen (task : ReplicationTask) : Prop :=
  m.appliedTasks.lookup task.taskId = none

theorem applies_iff (task : ReplicationTask) :
    (m.applyIncomingReplication task).1 = true ↔ m.Knows task ∧ m.Unseen task := by
  rw [applyIncomingReplication, Knows, Unseen]
  cases m.clusters.lookup task.sourceClusterId <;> cases m.appliedTasks.lookup task.taskId <;> simp

variable {m}

theorem Knows.applyIncomingReplication {u : ReplicationTask} (h : m.Knows u)
    (t : ReplicationTask) : (m.applyIncomingReplication t).2.Knows u := by
  rw [ClusterManager.applyIncomingReplication]
  split
  · exact h
  · split
    · exact h
    · rw [Knows] at h ⊢
      rw [lookup_modifyKey]
      split
      · next heq => rw [Option.isSome_map, ← heq]; exact h
      · exact h

theorem unseen_applyIncomingReplication {t : ReplicationTask}
    (happlied : (m.applyIncomingReplication t).1 = true) (u : ReplicationTask) :
    (m.applyIncomingReplication t).2.Unseen u ↔ t.taskId ≠ u.taskId ∧ m.Unseen u := by
  rcases m.applyIncomingReplication_cases t with hrefused | ⟨-, -, hremembered⟩
  · rw [hrefused] at happlied
    cases happlied
  · rw [Unseen, hremembered, lookup_insert_eq_ite, Unseen]
    by_cases hid : u.taskId = t.taskId
    · simp [hid]
    · simp [hid, Ne.symm hid]

def AppliesInOrder (m : ClusterManager) (t u : ReplicationTask) : Prop :=
  (m.applyIncomingReplication t).1 = true
    ∧ ((m.applyIncomingReplication t).2.applyIncomingReplication u).1 = true

theorem appliesInOrder_iff {t u : ReplicationTask} (ht : m.Knows t) (hu : m.Knows u) :
    m.AppliesInOrder t u ↔ t.taskId ≠ u.taskId ∧ m.Unseen t ∧ m.Unseen u := by
  rw [AppliesInOrder]
  constructor
  · rintro ⟨happlied, hsecond⟩
    obtain ⟨hne, hunseen⟩ :=
      (unseen_applyIncomingReplication happlied u).mp ((applies_iff _ u).mp hsecond).2
    exact ⟨hne, ((m.applies_iff t).mp happlied).2, hunseen⟩
  · rintro ⟨hne, htunseen, huunseen⟩
    have happlied : (m.applyIncomingReplication t).1 = true := (m.applies_iff t).mpr ⟨ht, htunseen⟩
    have hunseen := (unseen_applyIncomingReplication happlied u).mpr ⟨hne, huunseen⟩
    exact ⟨happlied, (applies_iff _ u).mpr ⟨hu.applyIncomingReplication t, hunseen⟩⟩

end ClusterManager

namespace EngineReplication

/-- The task is newer than the workflow's recorded version. -/
def Fresh (r : EngineReplication) (task : ReplicationTask) : Prop :=
  r.versionHistoryStore.checkIncoming task.workflowKey task.failoverVersion task.lastEventId = true

variable {r : EngineReplication}

theorem applyReplicationTask_fst {task : ReplicationTask} (h : r.Fresh task) :
    (r.applyReplicationTask task).1 = (r.clusterManager.applyIncomingReplication task).1 := by
  rw [Fresh] at h
  rw [applyReplicationTask, h]
  cases happlied : (r.clusterManager.applyIncomingReplication task).1 <;> simp [happlied]

theorem clusterManager_applyReplicationTask {task : ReplicationTask} (h : r.Fresh task) :
    (r.applyReplicationTask task).2.clusterManager
      = (r.clusterManager.applyIncomingReplication task).2 := by
  rw [Fresh] at h
  rw [applyReplicationTask, h]
  cases happlied : (r.clusterManager.applyIncomingReplication task).1 <;> simp [happlied]

theorem Fresh.applyReplicationTask {u : ReplicationTask} (h : r.Fresh u)
    {t : ReplicationTask} (hworkflow : t.workflowKey ≠ u.workflowKey) :
    (r.applyReplicationTask t).2.Fresh u := by
  rcases r.applyReplicationTask_cases t with hrefused | ⟨-, -, -, hversions, -⟩
  · rw [hrefused]
    exact h
  · rw [Fresh, VersionHistoryStore.checkIncoming_iff] at h ⊢
    intro history hlookup
    rw [hversions, VersionHistoryStore.lookup_recordEvent, if_neg (Ne.symm hworkflow)] at hlookup
    exact h history hlookup

def AppliesInOrder (r : EngineReplication) (t u : ReplicationTask) : Prop :=
  (r.applyReplicationTask t).1 = true ∧ ((r.applyReplicationTask t).2.applyReplicationTask u).1 = true

theorem appliesInOrder_iff_clusterManager {t u : ReplicationTask}
    (ht : r.Fresh t) (hu : r.Fresh u) (hworkflow : t.workflowKey ≠ u.workflowKey) :
    r.AppliesInOrder t u ↔ r.clusterManager.AppliesInOrder t u := by
  rw [AppliesInOrder, ClusterManager.AppliesInOrder, applyReplicationTask_fst ht,
    applyReplicationTask_fst (hu.applyReplicationTask hworkflow),
    clusterManager_applyReplicationTask ht]

/-- Both tasks are applied, whichever comes first. -/
def AppliedInAnyOrder (r : EngineReplication) (t u : ReplicationTask) : Prop :=
  (r.clusterManager.AppliesInOrder t u ∧ r.clusterManager.AppliesInOrder u t)
    ∧ (r.AppliesInOrder t u ∧ r.AppliesInOrder u t)

/-- **Two sources** are both applied in either order iff positions differ and no id was applied. -/
theorem appliedInAnyOrder_iff (r : EngineReplication) {ps qs : List ReplicationRequest} {i j : Nat}
    {t u : ReplicationTask} (htsent : (sent ps)[i]? = some t)
    (husent : (sent qs)[j]? = some u) (htknown : r.clusterManager.Knows t)
    (huknown : r.clusterManager.Knows u) (hworkflow : t.workflowKey ≠ u.workflowKey)
    (htfresh : r.Fresh t) (hufresh : r.Fresh u) :
    r.AppliedInAnyOrder t u
      ↔ i % 2 ^ 64 ≠ j % 2 ^ 64 ∧ r.clusterManager.Unseen t ∧ r.clusterManager.Unseen u := by
  have hid : t.taskId ≠ u.taskId ↔ i % 2 ^ 64 ≠ j % 2 ^ 64 :=
    not_congr (taskId_eq_iff htsent husent)
  rw [AppliedInAnyOrder, appliesInOrder_iff_clusterManager htfresh hufresh hworkflow,
    appliesInOrder_iff_clusterManager hufresh htfresh hworkflow.symm, and_self_iff,
    ClusterManager.appliesInOrder_iff htknown huknown,
    ClusterManager.appliesInOrder_iff huknown htknown, ← hid]
  -- the condition is the same in both orders
  constructor
  · exact fun h => h.1
  · rintro ⟨hne, ht, hu⟩
    exact ⟨⟨hne, ht, hu⟩, hne.symm, hu, ht⟩

def receiver : EngineReplication where
  versionHistoryStore := .new
  clusterManager :=
    (((ClusterManager.new "local").registerCluster "east" "east:1").2.registerCluster "west"
      "west:1").2
  historyStore := .new

def requestFrom (source workflowKey : UInt64) : ReplicationRequest :=
  ⟨source, 0, workflowKey, 1, [], .syncHistory⟩

theorem appliedInAnyOrder_first_second :
    receiver.AppliedInAnyOrder (taskOf (requestFrom 1 10) 1 1)
      (taskOf (requestFrom 2 21) 2 2) := by
  have hfirst : (sent [requestFrom 1 10])[0]?
      = some (taskOf (requestFrom 1 10) 1 1) := rfl
  have hsecond : (sent [requestFrom 2 20, requestFrom 2 21])[1]?
      = some (taskOf (requestFrom 2 21) 2 2) := rfl
  refine (appliedInAnyOrder_iff receiver hfirst hsecond ?_ ?_ (by decide) ?_ ?_).mpr
    ⟨by decide, rfl, rfl⟩
  · unfold ClusterManager.Knows
    decide +kernel
  · unfold ClusterManager.Knows
    decide +kernel
  · unfold Fresh
    decide +kernel
  · unfold Fresh
    decide +kernel

theorem second_source_refused :
    ∃ t u, sent [requestFrom 1 10] = [t]
      ∧ sent [requestFrom 2 20] = [u]
      ∧ t.workflowKey ≠ u.workflowKey ∧ receiver.Fresh t ∧ receiver.Fresh u
      ∧ (receiver.clusterManager.applyIncomingReplication t).1 = true
      ∧ ((receiver.clusterManager.applyIncomingReplication t).2.applyIncomingReplication u).1 = false
      ∧ (receiver.clusterManager.applyIncomingReplication u).1 = true
      ∧ ((receiver.clusterManager.applyIncomingReplication u).2.applyIncomingReplication t).1
        = false := by
  refine ⟨taskOf (requestFrom 1 10) 1 1,
    taskOf (requestFrom 2 20) 1 1, rfl, rfl, ?_⟩
  unfold Fresh
  decide +kernel

end EngineReplication

end Velocity
