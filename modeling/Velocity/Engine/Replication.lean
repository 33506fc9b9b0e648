import Velocity.Lib.Run
import Velocity.Services.Cluster
import Velocity.Services.History

namespace Velocity

open Lib

/-!
# Incoming replication

`apply_replication_task` checks the versions of a task and then its id.
-/

structure EngineReplication where
  versionHistoryStore : VersionHistoryStore
  clusterManager : ClusterManager
  historyStore : HistoryStore

namespace EngineReplication

def historyEventType (eventType : UInt32) : HistoryEventType :=
  if eventType = 1 then .workflowStarted
  else if eventType = 2 then .workflowCompleted
  else if eventType = 3 then .workflowFailed
  else if eventType = 4 then .activityScheduled
  else if eventType = 5 then .activityCompleted
  else if eventType = 6 then .activityFailed
  else if eventType = 7 then .signalReceived
  else if eventType = 8 then .timerStarted
  else if eventType = 9 then .timerFired
  else .workflowStarted

def applyReplicationTask (r : EngineReplication) (task : ReplicationTask) :
    Bool × EngineReplication :=
  if !r.versionHistoryStore.checkIncoming task.workflowKey task.failoverVersion
      task.lastEventId then (false, r)
  else
    let (applied, clusterManager) := r.clusterManager.applyIncomingReplication task
    if !applied then (false, { r with clusterManager := clusterManager })
    else
      (true,
        { versionHistoryStore := r.versionHistoryStore.recordEvent task.workflowKey
            task.failoverVersion task.lastEventId
          clusterManager := clusterManager
          historyStore := (r.historyStore.recordEvent task.workflowKey
            (historyEventType task.eventType) task.payload).2 })

variable (r : EngineReplication)

theorem applyReplicationTask_cases (task : ReplicationTask) :
    r.applyReplicationTask task = (false, r)
      ∨ (r.applyReplicationTask task).1 = true
        ∧ r.versionHistoryStore.checkIncoming task.workflowKey task.failoverVersion
            task.lastEventId = true
        ∧ r.clusterManager.appliedTasks.lookup task.taskId = none
        ∧ (r.applyReplicationTask task).2.versionHistoryStore
          = r.versionHistoryStore.recordEvent task.workflowKey task.failoverVersion
              task.lastEventId
        ∧ (r.applyReplicationTask task).2.clusterManager.appliedTasks
          = r.clusterManager.appliedTasks.insert task.taskId true
        ∧ (r.applyReplicationTask task).2.historyStore
          = (r.historyStore.recordEvent task.workflowKey (historyEventType task.eventType)
              task.payload).2 := by
  rw [applyReplicationTask]
  split
  · exact .inl rfl
  · next hcheck =>
    have hcheck : r.versionHistoryStore.checkIncoming task.workflowKey task.failoverVersion
        task.lastEventId = true := by simpa using hcheck
    rcases r.clusterManager.applyIncomingReplication_cases task with
      hrefused | ⟨happlied, hnew, hremembered⟩
    · left
      simp [hrefused]
    · right
      simp only [happlied, Bool.not_true, Bool.false_eq_true, ↓reduceIte]
      exact ⟨trivial, hcheck, hnew, trivial, hremembered, trivial⟩

def run (r : EngineReplication) (tasks : List ReplicationTask) : EngineReplication :=
  tasks.foldl (fun r task => (r.applyReplicationTask task).2) r

theorem accepted_versions_increase (tasks : List ReplicationTask) :
    (accepted applyReplicationTask r tasks).Pairwise fun t u =>
      t.workflowKey = u.workflowKey → VersionLt t.version u.version := by
  refine accepted_pairwise
    (fun r u => ∀ h, r.versionHistoryStore.histories.lookup u.workflowKey = some h →
      VersionLt h.current u.version) ?_ ?_ ?_ r tasks
  · intro r t hacc
    rcases r.applyReplicationTask_cases t with hrefused | ⟨-, hcheck, -⟩
    · rw [hrefused] at hacc
      cases hacc
    · exact (VersionHistoryStore.checkIncoming_iff ..).mp hcheck
  · intro r t u hmay h hh
    rcases r.applyReplicationTask_cases t with hrefused | ⟨-, hcheck, -, hversions, -⟩
    · rw [hrefused] at hmay
      exact hmay h hh
    · rw [hversions] at hmay
      simp only [VersionHistoryStore.lookup_recordEvent] at hmay
      split at hmay
      · next hkey =>
        -- the task lies between what was applied and `u`
        rw [hkey] at hh
        have hbefore := (VersionHistoryStore.checkIncoming_iff ..).mp hcheck h hh
        have hafter := hmay _ rfl
        rw [VersionHistory.current_addItem] at hafter
        exact hbefore.trans hafter
      · exact hmay h hh
  · intro r t u hacc hmay hkey
    rcases r.applyReplicationTask_cases t with hrefused | ⟨-, -, -, hversions, -⟩
    · rw [hrefused] at hacc
      cases hacc
    · rw [hversions, VersionHistoryStore.lookup_recordEvent, if_pos hkey.symm] at hmay
      have hafter := hmay _ rfl
      rwa [VersionHistory.current_addItem] at hafter

theorem accepted_once (tasks : List ReplicationTask) :
    ((accepted applyReplicationTask r tasks).map (·.taskId)).Nodup := by
  rw [List.Nodup, List.pairwise_map]
  refine accepted_pairwise
    (fun r u => r.clusterManager.appliedTasks.lookup u.taskId = none) ?_ ?_ ?_ r tasks
  · intro r t hacc
    rcases r.applyReplicationTask_cases t with hrefused | ⟨-, -, hnew, -⟩
    · rw [hrefused] at hacc
      cases hacc
    · exact hnew
  · intro r t u hmay
    rcases r.applyReplicationTask_cases t with hrefused | ⟨-, -, -, -, happlied, -⟩
    · rwa [hrefused] at hmay
    · rw [happlied, lookup_insert_eq_ite] at hmay
      split at hmay
      · cases hmay
      · exact hmay
  · intro r t u hacc hmay hid
    rcases r.applyReplicationTask_cases t with hrefused | ⟨-, -, -, -, happlied, -⟩
    · rw [hrefused] at hacc
      cases hacc
    · rw [happlied, lookup_insert_eq_ite, if_pos hid.symm] at hmay
      cases hmay

/-- One event if the task is accepted, nothing otherwise. -/
def RecordsOnce (r : EngineReplication) (task : ReplicationTask) : Prop :=
  if (r.applyReplicationTask task).1 then
    (∃ event, (r.applyReplicationTask task).2.historyStore.getHistory task.workflowKey
        = some ((r.historyStore.getHistory task.workflowKey).getD [] ++ [event]))
      ∧ ∀ k, k ≠ task.workflowKey →
        (r.applyReplicationTask task).2.historyStore.getHistory k = r.historyStore.getHistory k
  else (r.applyReplicationTask task).2.historyStore = r.historyStore

theorem recordsOnce (task : ReplicationTask) : r.RecordsOnce task := by
  rw [RecordsOnce]
  rcases r.applyReplicationTask_cases task with hrefused | ⟨hacc, -, -, -, -, hhistory⟩
  · simp [hrefused]
  · rw [if_pos hacc, hhistory]
    exact ⟨⟨_, HistoryStore.getHistory_recordEvent ..⟩,
      fun k hk => HistoryStore.getHistory_recordEvent_of_ne _ hk ..⟩

/-- **Replication is monotone and at most once**, and appends exactly the accepted events. -/
theorem replication_monotone_once (r : EngineReplication) (tasks : List ReplicationTask) :
    ((accepted applyReplicationTask r tasks).Pairwise fun t u =>
        t.workflowKey = u.workflowKey → VersionLt t.version u.version)
      ∧ ((accepted applyReplicationTask r tasks).map (·.taskId)).Nodup
      ∧ ∀ ps task, ps ++ [task] <+: tasks → (r.run ps).RecordsOnce task :=
  ⟨accepted_versions_increase r tasks, accepted_once r tasks,
    fun ps task _ => recordsOnce (r.run ps) task⟩

def sampleTask (taskId failoverVersion lastEventId : UInt64) : ReplicationTask where
  taskId := taskId
  sourceClusterId := 0
  targetClusterId := 0
  workflowKey := 7
  eventType := 1
  payload := []
  failoverVersion := failoverVersion
  taskType := .syncHistory
  firstEventId := lastEventId
  lastEventId := lastEventId
  createdMs := 0

/-- A task that is repeated and one of an older version are refused. -/
example : accepted applyReplicationTask ⟨.new, .new "local", .new⟩
    [sampleTask 1 2 5, sampleTask 1 2 6, sampleTask 2 1 9, sampleTask 3 2 6]
      = [sampleTask 1 2 5, sampleTask 3 2 6] := by
  decide +kernel

end EngineReplication

end Velocity
