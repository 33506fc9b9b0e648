import Velocity.Lib.Keyed
import Velocity.Lib.LittleEndian

namespace Velocity

open Lib

/-!
# Clusters and version histories

The versions, event ids, clusters and task ids that a task is checked against.
-/

inductive ReplicationTaskType where
  | syncHistory
  | syncActivity
  | syncWorkflowState
  | namespaceMetadata
  | syncHSM
  | verifyTransition
  | deleteExecution
  | backfillHistory
  | syncVersionedTransition
  deriving DecidableEq, Repr

structure ClusterInfo where
  clusterName : String
  clusterId : UInt64
  isActive : Bool
  failoverVersion : UInt64
  address : String
  replicationEnabled : Bool
  initialReplicationLevel : UInt64
  deriving DecidableEq, Repr

structure ReplicationTask where
  taskId : UInt64
  sourceClusterId : UInt64
  targetClusterId : UInt64
  workflowKey : UInt64
  eventType : UInt32
  payload : Bytes
  failoverVersion : UInt64
  taskType : ReplicationTaskType
  firstEventId : UInt64
  lastEventId : UInt64
  createdMs : UInt64
  deriving DecidableEq, Repr

/-- Failover version first, then event id. -/
def VersionLt (a b : UInt64 × UInt64) : Prop := a.1 < b.1 ∨ a.1 = b.1 ∧ a.2 < b.2

theorem VersionLt.trans {a b c : UInt64 × UInt64} (hab : VersionLt a b) (hbc : VersionLt b c) :
    VersionLt a c := by
  rcases hab with hab | ⟨hab, hab'⟩ <;> rcases hbc with hbc | ⟨hbc, hbc'⟩
  · exact .inl (UInt64.lt_trans hab hbc)
  · exact .inl (hbc ▸ hab)
  · exact .inl (hab ▸ hbc)
  · exact .inr ⟨hab.trans hbc, UInt64.lt_trans hab' hbc'⟩

def ReplicationTask.version (task : ReplicationTask) : UInt64 × UInt64 :=
  (task.failoverVersion, task.lastEventId)

/-! ### Version histories -/

structure VersionHistoryItem where
  failoverVersion : UInt64
  eventId : UInt64
  deriving DecidableEq, Repr

structure VersionHistory where
  items : List VersionHistoryItem
  deriving DecidableEq, Repr

namespace VersionHistory

def new : VersionHistory := ⟨[]⟩

variable (h : VersionHistory)

def addItem (failoverVersion eventId : UInt64) : VersionHistory :=
  match h.items.getLast? with
  | some last =>
    if last.failoverVersion = failoverVersion then
      ⟨h.items.dropLast ++ [{ last with eventId := eventId }]⟩
    else ⟨h.items ++ [⟨failoverVersion, eventId⟩]⟩
  | none => ⟨h.items ++ [⟨failoverVersion, eventId⟩]⟩

def currentVersion : UInt64 :=
  (h.items.getLast?.map (·.failoverVersion)).getD 0

def currentEventId : UInt64 :=
  (h.items.getLast?.map (·.eventId)).getD 0

def current : UInt64 × UInt64 := (h.currentVersion, h.currentEventId)

theorem current_addItem (failoverVersion eventId : UInt64) :
    (h.addItem failoverVersion eventId).current = (failoverVersion, eventId) := by
  rw [addItem]
  split
  · split
    · next last _ hversion => simp [current, currentVersion, currentEventId, hversion]
    · simp [current, currentVersion, currentEventId]
  · simp [current, currentVersion, currentEventId]

end VersionHistory

structure VersionHistoryStore where
  histories : AList (fun _ : UInt64 => VersionHistory)

namespace VersionHistoryStore

def new : VersionHistoryStore := ⟨∅⟩

variable (store : VersionHistoryStore)

def getOrCreate (workflowKey : UInt64) : VersionHistory × VersionHistoryStore :=
  match store.histories.lookup workflowKey with
  | some history => (history, store)
  | none => (VersionHistory.new, ⟨store.histories.insert workflowKey VersionHistory.new⟩)

def recordEvent (workflowKey failoverVersion eventId : UInt64) : VersionHistoryStore :=
  let history := (store.histories.lookup workflowKey).getD VersionHistory.new
  ⟨store.histories.insert workflowKey (history.addItem failoverVersion eventId)⟩

def checkIncoming (workflowKey remoteVersion remoteEventId : UInt64) : Bool :=
  match store.histories.lookup workflowKey with
  | none => true
  | some localHistory =>
    let localVersion := localHistory.currentVersion
    if remoteVersion > localVersion then true
    else if remoteVersion < localVersion then false
    else remoteEventId > localHistory.currentEventId

theorem checkIncoming_iff (k v e : UInt64) : store.checkIncoming k v e = true
      ↔ ∀ h, store.histories.lookup k = some h → VersionLt h.current (v, e) := by
  rw [checkIncoming]
  split
  · next hnone => simp [hnone]
  · next h hsome =>
    simp only [hsome, Option.some.injEq, forall_eq', VersionLt, VersionHistory.current]
    split
    · next hgt => exact iff_of_true rfl (.inl hgt)
    · next hgt =>
      split
      · next hlt =>
        refine iff_of_false Bool.false_ne_true ?_
        rintro (hgt' | ⟨heq, -⟩)
        · exact hgt hgt'
        · exact UInt64.lt_irrefl _ (heq ▸ hlt)
      · next hlt =>
        have heq : h.currentVersion = v := UInt64.le_antisymm (UInt64.not_lt.mp hlt)
          (UInt64.not_lt.mp hgt)
        simp [heq]

theorem lookup_recordEvent (k v e k' : UInt64) : (store.recordEvent k v e).histories.lookup k'
      = if k' = k then some (((store.histories.lookup k).getD VersionHistory.new).addItem v e)
        else store.histories.lookup k' :=
  lookup_insert_eq_ite _ _ _ _

end VersionHistoryStore

/-! ### The cluster manager -/

/-- Outgoing tasks and the counters are left out. -/
structure ClusterManager where
  clusters : AList (fun _ : UInt64 => ClusterInfo)
  appliedTasks : AList (fun _ : UInt64 => Bool)

namespace ClusterManager

def new (localName : String) : ClusterManager where
  clusters := (∅ : AList fun _ : UInt64 => ClusterInfo).insert 0
    { clusterName := localName, clusterId := 0, isActive := true, failoverVersion := 0,
      address := "localhost", replicationEnabled := false, initialReplicationLevel := 0 }
  appliedTasks := ∅

variable (m : ClusterManager)

def registerCluster (name address : String) : UInt64 × ClusterManager :=
  let id := UInt64.ofNat (size m.clusters)
  let info : ClusterInfo :=
    { clusterName := name, clusterId := id, isActive := true, failoverVersion := 0,
      address := address, replicationEnabled := true, initialReplicationLevel := 0 }
  (id, { m with clusters := m.clusters.insert id info })

def raiseFailoverVersion (version : UInt64) (info : ClusterInfo) : ClusterInfo :=
  if version > info.failoverVersion then { info with failoverVersion := version } else info

def applyIncomingReplication (task : ReplicationTask) : Bool × ClusterManager :=
  if (m.clusters.lookup task.sourceClusterId).isNone then (false, m)
  else if (m.appliedTasks.lookup task.taskId).isSome then (false, m)
  else
    (true,
      { clusters := modifyKey m.clusters task.sourceClusterId
          (raiseFailoverVersion task.failoverVersion)
        appliedTasks := m.appliedTasks.insert task.taskId true })

theorem applyIncomingReplication_cases (task : ReplicationTask) :
    m.applyIncomingReplication task = (false, m)
      ∨ (m.applyIncomingReplication task).1 = true
        ∧ m.appliedTasks.lookup task.taskId = none
        ∧ (m.applyIncomingReplication task).2.appliedTasks
          = m.appliedTasks.insert task.taskId true := by
  rw [applyIncomingReplication]
  split
  · exact .inl rfl
  · split
    · exact .inl rfl
    · next hnew => exact .inr ⟨rfl, by simpa using hnew, rfl⟩

end ClusterManager

end Velocity
