import Mathlib.Logic.Function.Basic

namespace Velocity

/-!
# The matching service

A poll passes over a partition whose first task does not fit. Pollers are left out.
-/

structure MatchTask where
  taskId : UInt64
  workflowKey : UInt64
  taskQueue : String
  buildId : Option String
  priority : UInt32
  createdAt : Nat
  forwardedFrom : Option UInt64
  deriving DecidableEq, Repr

inductive TaskKindFilter where
  | workflow
  | activity
  | nexus
  | any
  deriving DecidableEq, Repr

structure PartitionQueue where
  tasks : List MatchTask
  maxDepth : Nat

structure MatchingServiceConfig where
  numPartitions : Nat
  maxQueueDepth : Nat
  taskTtl : Nat
  /-- `partition_for` divides by the number. -/
  numPartitions_pos : 0 < numPartitions

def MatchingServiceConfig.default : MatchingServiceConfig := ⟨4, 10000, 60000, by decide⟩

structure MatchingService where
  config : MatchingServiceConfig
  queues : String → Option (Fin config.numPartitions → PartitionQueue)

def PartitionQueue.enqueue (pq : PartitionQueue) (task : MatchTask) : Bool × PartitionQueue :=
  if pq.tasks.length ≥ pq.maxDepth then (false, pq)
  else (true, { pq with tasks := pq.tasks ++ [task] })

def isTaskCompatible (task : MatchTask) (buildId : Option String) (_kind : TaskKindFilter) : Bool :=
  match task.buildId, buildId with
  | none, _ => true
  | some _, none => false
  | some a, some b => a == b

namespace MatchingService

def new (config : MatchingServiceConfig) : MatchingService := ⟨config, fun _ => none⟩

variable (s : MatchingService)

def partition (i : Nat) : Fin s.config.numPartitions :=
  ⟨i % s.config.numPartitions, Nat.mod_lt _ s.config.numPartitions_pos⟩

def partitionFor (queueName : String) : Fin s.config.numPartitions :=
  let hash : UInt64 := queueName.toUTF8.toList.foldl (fun acc b => acc * 31 + b.toUInt64) 0
  s.partition hash.toNat

def addTask (task : MatchTask) : Bool × MatchingService :=
  let partition := s.partitionFor task.taskQueue
  let partitions := (s.queues task.taskQueue).getD fun _ => ⟨[], s.config.maxQueueDepth⟩
  let (ok, pq) := (partitions partition).enqueue task
  let partitions := Function.update partitions partition pq
  (ok, { s with queues := Function.update s.queues task.taskQueue (some partitions) })

def pollOrder (first : Fin s.config.numPartitions) : List (Fin s.config.numPartitions) :=
  let numParts := s.config.numPartitions
  first :: (List.range' 1 (numParts - 1)).map fun offset => s.partition (first + offset)

def takeFrom (pq : PartitionQueue) (buildId : Option String) (kind : TaskKindFilter) :
    Option (MatchTask × PartitionQueue) :=
  match pq.tasks with
  | [] => none
  | task :: rest =>
    if isTaskCompatible task buildId kind then some (task, { pq with tasks := rest }) else none

def tryPollTask (queueName : String) (buildId : Option String)
    (kind : TaskKindFilter) : Option MatchTask × MatchingService :=
  match s.queues queueName with
  | none => (none, s)
  | some partitions =>
    match (s.pollOrder (s.partitionFor queueName)).findSome? fun i =>
        (takeFrom (partitions i) buildId kind).map fun (task, pq) => (i, task, pq) with
    | none => (none, s)
    | some (i, task, pq) =>
      let partitions := Function.update partitions i pq
      (some task, { s with queues := Function.update s.queues queueName (some partitions) })

/-! ### What a poll finds -/

variable {s} {queueName : String} {buildId : Option String}
  {kind : TaskKindFilter}

theorem mem_pollOrder (first i : Fin s.config.numPartitions) : i ∈ s.pollOrder first := by
  rw [pollOrder, List.mem_cons, or_iff_not_imp_left]
  intro hne
  have hval : i.val ≠ first.val := fun h => hne (Fin.ext h)
  have hi := i.isLt
  have hfirst := first.isLt
  -- the distance, around the end of the list
  by_cases hlt : first.val < i.val
  · refine List.mem_map.mpr ⟨i - first, List.mem_range'_1.mpr (by omega), Fin.ext ?_⟩
    show (first.val + (i.val - first.val)) % _ = i.val
    rw [Nat.add_sub_cancel' (Nat.le_of_lt hlt), Nat.mod_eq_of_lt hi]
  · refine List.mem_map.mpr ⟨s.config.numPartitions + i - first, List.mem_range'_1.mpr (by omega),
      Fin.ext ?_⟩
    show (first.val + (s.config.numPartitions + i.val - first.val)) % _ = i.val
    rw [Nat.add_sub_cancel' (by omega), Nat.add_mod_left, Nat.mod_eq_of_lt hi]

theorem takeFrom_isSome {pq : PartitionQueue} :
    (takeFrom pq buildId kind).isSome = true
      ↔ ∃ task ∈ pq.tasks.head?, isTaskCompatible task buildId kind = true := by
  unfold takeFrom
  cases pq.tasks <;> simp

/-- Some partition holds a task for this poller. -/
def HasWork (s : MatchingService) (queueName : String) (buildId : Option String)
    (kind : TaskKindFilter) (now : Nat) : Prop :=
  ∃ partitions ∈ s.queues queueName, ∃ i, ∃ task ∈ (partitions i).tasks,
    now - task.createdAt < s.config.taskTtl ∧ isTaskCompatible task buildId kind = true

/-- Some partition has such a task in front. -/
def LeadsWithWork (s : MatchingService) (queueName : String) (buildId : Option String)
    (kind : TaskKindFilter) : Prop :=
  ∃ partitions ∈ s.queues queueName, ∃ i, ∃ task ∈ (partitions i).tasks.head?,
    isTaskCompatible task buildId kind = true

theorem isSome_tryPollTask :
    (s.tryPollTask queueName buildId kind).1.isSome = true
      ↔ s.LeadsWithWork queueName buildId kind := by
  unfold tryPollTask LeadsWithWork
  cases s.queues queueName with
  | none => simp
  | some partitions =>
    simp only [Option.mem_some_iff, exists_eq_left', ← takeFrom_isSome]
    cases hfind : (s.pollOrder (s.partitionFor queueName)).findSome? fun i =>
        (takeFrom (partitions i) buildId kind).map fun (task, pq) => (i, task, pq) with
    | none =>
      simp only [List.findSome?_eq_none_iff, Option.map_eq_none_iff] at hfind
      simp [hfind _ (mem_pollOrder _ _)]
    | some found =>
      obtain ⟨i, -, hi⟩ := List.exists_of_findSome?_eq_some hfind
      obtain ⟨taken, htaken, rfl⟩ := Option.map_eq_some_iff.mp hi
      simp only [Option.isSome_some, true_iff]
      exact ⟨i, by rw [htaken]; rfl⟩

/-- **Finding work**: a poll finds a task iff some partition leads with one. -/
theorem findsWork_iff (s : MatchingService) (queueName : String) (buildId : Option String)
    (kind : TaskKindFilter) (now : Nat) :
    (s.HasWork queueName buildId kind now → (s.tryPollTask queueName buildId kind).1.isSome = true)
      ↔ (s.HasWork queueName buildId kind now → s.LeadsWithWork queueName buildId kind) := by
  rw [isSome_tryPollTask]

theorem not_findsWork_mixed :
    let task (id : UInt64) (build : String) : MatchTask := ⟨id, 1, "q", some build, 0, 0, none⟩
    let s := (((new .default).addTask (task 1 "a")).2.addTask (task 2 "b")).2
    s.HasWork "q" (some "b") .any 0 ∧ (s.tryPollTask "q" (some "b") .any).1 = none := by
  refine ⟨⟨_, rfl, (new .default).partitionFor "q", ?_⟩, by decide +kernel⟩
  decide +kernel

end MatchingService

end Velocity
