import Velocity.Lib.LittleEndian
import Velocity.Lib.Run

namespace Velocity

open Lib List

/-!
# The log of a Raft node

A snapshot moves positions but not indices. Peers, timers and flushes are left out.

* `RaftNode`: proposals, commits, applies and snapshots.
* `AppliesInOrder`: each entry once, in order; exactly when, along a run.
-/

inductive RaftState where
  | follower
  | candidate
  | leader
  deriving DecidableEq, Repr

inductive RaftEventType where
  | workflowStarted
  | stepCompleted
  | activityScheduled
  | activityCompleted
  | timerScheduled
  | timerFired
  | signalReceived
  | workflowCompleted
  | workflowFailed
  | workflowCanceled
  deriving DecidableEq, Repr

structure RaftLogEntry where
  term : UInt64
  index : Nat
  workflowKey : UInt64
  eventType : RaftEventType
  payload : Bytes
  timestampMs : UInt64
  committed : Bool
  deriving DecidableEq, Repr

structure RaftConfig where
  nodeId : UInt64
  deferPersistence : Bool
  deriving DecidableEq, Repr

structure RaftStats where
  electionsWon : UInt64
  entriesCommitted : UInt64
  entriesApplied : UInt64
  snapshotsTaken : UInt64
  deriving DecidableEq, Repr

structure RaftNode where
  config : RaftConfig
  state : RaftState
  currentTerm : UInt64
  votedFor : Option UInt64
  log : List RaftLogEntry
  commitIndex : Nat
  lastApplied : Nat
  peers : List UInt64
  pendingFlush : List Nat
  stats : RaftStats
  deriving DecidableEq, Repr

namespace RaftNode

def new (config : RaftConfig) : RaftNode where
  config := config
  state := .follower
  currentTerm := 0
  votedFor := none
  log := []
  commitIndex := 0
  lastApplied := 0
  peers := []
  pendingFlush := []
  stats := ⟨0, 0, 0, 0⟩

variable (n : RaftNode)

def startElection : Bool × RaftNode :=
  if n.state = .leader then (false, n)
  else
    (true,
      { n with
        currentTerm := n.currentTerm + 1
        state := .candidate
        votedFor := some n.config.nodeId
        stats := { n.stats with electionsWon := n.stats.electionsWon + 1 } })

def becomeLeader : RaftNode := { n with state := .leader }

def singleNodeLeader (config : RaftConfig) : RaftNode := (new config).startElection.2.becomeLeader

def commitLast (log : List RaftLogEntry) : List RaftLogEntry :=
  match log.getLast? with
  | some e => log.dropLast ++ [{ e with committed := true }]
  | none => log

def appendEntry (workflowKey : UInt64) (eventType : RaftEventType)
    (payload : Bytes) : Option Nat × RaftNode :=
  if n.state ≠ .leader then (none, n)
  else
    let index := n.log.length + 1
    let entry : RaftLogEntry := {
      term := n.currentTerm
      index := index
      workflowKey := workflowKey
      eventType := eventType
      payload := payload
      timestampMs := 0
      committed := false }
    let log := n.log ++ [entry]
    let pendingFlush :=
      if n.config.deferPersistence then n.pendingFlush ++ [index] else n.pendingFlush
    if n.peers.isEmpty then
      (some index,
        { n with
          log := commitLast log
          pendingFlush := pendingFlush
          commitIndex := index
          stats := { n.stats with entriesCommitted := n.stats.entriesCommitted + 1 } })
    else (some index, { n with log := log, pendingFlush := pendingFlush })

def applyRounds (n : RaftNode) : Nat → List RaftLogEntry × RaftNode
  | 0 => ([], n)
  | rounds + 1 =>
    let n := { n with lastApplied := n.lastApplied + 1 }
    match n.log[n.lastApplied - 1]? with
    | some entry =>
      let stats := { n.stats with entriesApplied := n.stats.entriesApplied + 1 }
      let (applied, n) := applyRounds { n with stats := stats } rounds
      (entry :: applied, n)
    | none => applyRounds n rounds

def applyCommitted : List RaftLogEntry × RaftNode :=
  applyRounds n (n.commitIndex - n.lastApplied)

def takeSnapshot : Nat × RaftNode :=
  if n.lastApplied = 0 then (0, n)
  else
    let snapshotIndex := n.lastApplied
    let entriesToRemove := (n.log.takeWhile (·.index ≤ snapshotIndex)).length
    (snapshotIndex,
      { n with
        log := n.log.drop entriesToRemove
        stats := { n.stats with snapshotsTaken := n.stats.snapshotsTaken + 1 } })

/-! ### What the calls do -/

@[simp] theorem commitLast_concat (log : List RaftLogEntry) (e : RaftLogEntry) :
    commitLast (log ++ [e]) = log ++ [{ e with committed := true }] := by
  simp [commitLast]

variable {n}

theorem appendEntry_of_alone (hleader : n.state = .leader) (halone : n.peers = [])
    (workflowKey : UInt64) (eventType : RaftEventType) (payload : Bytes) :
    ∃ entry : RaftLogEntry, ∃ n', n.appendEntry workflowKey eventType payload =
    (some entry.index, n')
      ∧ entry.index = n.log.length + 1 ∧ n'.log = n.log ++ [entry]
      ∧ n'.commitIndex = n.log.length + 1 ∧ n'.lastApplied = n.lastApplied
      ∧ n'.state = .leader ∧ n'.peers = [] := by
  have hempty : n.peers.isEmpty = true := isEmpty_iff.mpr halone
  rw [appendEntry, if_neg (not_not.mpr hleader), if_pos hempty, commitLast_concat]
  exact ⟨⟨n.currentTerm, n.log.length + 1, workflowKey, eventType, payload, 0, true⟩, _, rfl, rfl,
    rfl, rfl, rfl, hleader, halone⟩

theorem applyRounds_spec (n : RaftNode) (rounds : Nat) :
    ∃ stats, applyRounds n rounds = ((n.log.drop n.lastApplied).take rounds,
      { n with lastApplied := n.lastApplied + rounds, stats := stats }) := by
  induction rounds generalizing n with
  | zero => exact ⟨n.stats, rfl⟩
  | succ rounds ih =>
    rw [applyRounds, Nat.add_sub_cancel]
    cases hget : n.log[n.lastApplied]? with
    | some entry =>
      obtain ⟨hlt, rfl⟩ := List.getElem?_eq_some_iff.mp hget
      obtain ⟨stats, heq⟩ := ih { n with
        lastApplied := n.lastApplied + 1
        stats := { n.stats with entriesApplied := n.stats.entriesApplied + 1 } }
      refine ⟨stats, ?_⟩
      dsimp only at heq ⊢
      rw [heq, drop_eq_getElem_cons hlt, take_succ_cons, Nat.add_right_comm, Nat.add_assoc]
    | none =>
      -- past the end of the log nothing is left to apply
      have hlen : n.log.length ≤ n.lastApplied := getElem?_eq_none_iff.mp hget
      obtain ⟨stats, heq⟩ := ih { n with lastApplied := n.lastApplied + 1 }
      refine ⟨stats, ?_⟩
      dsimp only at heq ⊢
      rw [heq, drop_eq_nil_of_le hlen, drop_eq_nil_of_le (Nat.le_succ_of_le hlen),
        take_nil, take_nil, Nat.add_right_comm, Nat.add_assoc]

theorem applyCommitted_entries (n : RaftNode) :
    n.applyCommitted.1 = (n.log.drop n.lastApplied).take (n.commitIndex - n.lastApplied) := by
  obtain ⟨stats, heq⟩ := applyRounds_spec n (n.commitIndex - n.lastApplied)
  rw [applyCommitted, heq]

theorem applyCommitted_node (hle : n.lastApplied ≤ n.commitIndex) :
    ∃ stats, n.applyCommitted.2 = { n with lastApplied := n.commitIndex, stats := stats } := by
  obtain ⟨stats, heq⟩ := applyRounds_spec n (n.commitIndex - n.lastApplied)
  refine ⟨stats, ?_⟩
  rw [applyCommitted, heq, Nat.add_sub_cancel' hle]

theorem takeSnapshot_log (hindices : n.log.map (·.index) = List.range' 1 n.log.length) :
    n.takeSnapshot.2.log.length ≤ n.log.length - n.lastApplied := by
  rw [takeSnapshot]
  split
  · next hzero => rw [hzero]; exact Nat.le_refl _
  · dsimp only
    have hfirst : ∀ e ∈ n.log.take n.lastApplied, decide (e.index ≤ n.lastApplied) = true := by
      intro e he
      obtain ⟨i, hi, rfl⟩ := mem_take_iff_getElem.mp he
      have hlt : i < n.log.length := Nat.lt_of_lt_of_le hi (Nat.min_le_right ..)
      have hindex : n.log[i].index = 1 + i := by
        have heq := congrArg (·[i]?) hindices
        simpa [hlt] using heq
      exact decide_eq_true (by omega)
    have hsplit : (n.log.take n.lastApplied ++ n.log.drop n.lastApplied).takeWhile
          (fun e => decide (e.index ≤ n.lastApplied))
        = n.log.take n.lastApplied ++ (n.log.drop n.lastApplied).takeWhile
          (fun e => decide (e.index ≤ n.lastApplied)) := takeWhile_append_of_pos hfirst
    rw [take_append_drop] at hsplit
    rw [length_drop, hsplit, length_append, length_take]
    omega

end RaftNode

open RaftNode

/-! ### Runs -/

inductive RaftCall where
  | appendEntry (workflowKey : UInt64) (eventType : RaftEventType) (payload : Bytes)
  | applyCommitted
  | takeSnapshot
  deriving DecidableEq, Repr

/-- A node, with what was appended, given out and applied. -/
structure RaftRun where
  node : RaftNode
  appended : List RaftLogEntry
  indices : List Nat
  applied : List RaftLogEntry
  commits : List Nat

namespace RaftRun

def init (n : RaftNode) : RaftRun := ⟨n, [], [], [], [n.commitIndex]⟩

def step (r : RaftRun) : RaftCall → RaftRun
  | .appendEntry workflowKey eventType payload =>
    let (index, n) := r.node.appendEntry workflowKey eventType payload
    { r with
      node := n
      appended := r.appended ++ (if index.isSome then n.log.getLast?.toList else [])
      indices := r.indices ++ index.toList
      commits := r.commits ++ [n.commitIndex] }
  | .applyCommitted =>
    let (entries, n) := r.node.applyCommitted
    { r with
      node := n
      applied := r.applied ++ entries
      commits := r.commits ++ [n.commitIndex] }
  | .takeSnapshot =>
    let (_, n) := r.node.takeSnapshot
    { r with node := n, commits := r.commits ++ [n.commitIndex] }

/-- What was applied is a prefix of what was appended. -/
structure AppliesInOrder (r : RaftRun) : Prop where
  indices : r.indices.Pairwise (· < ·)
  commits : r.commits.Pairwise (· ≤ ·)
  applied : r.applied <+: r.appended
  complete : r.applied ++ r.node.applyCommitted.1 = r.appended

/-- Appends find a whole log, snapshots one not partly applied. -/
def CallMeetsLog (r : RaftRun) : RaftCall → Prop
  | .appendEntry .. => r.node.log.length = r.node.commitIndex
  | .applyCommitted => True
  | .takeSnapshot => r.node.lastApplied = 0 ∨ r.node.lastApplied = r.node.commitIndex

/-- The log is all that was appended, or empty for good. -/
structure Invariant (r : RaftRun) : Prop where
  leader : r.node.state = .leader
  alone : r.node.peers = []
  committed : r.node.commitIndex = r.appended.length
  entries : r.appended.map (·.index) = List.range' 1 r.appended.length
  indices : r.indices = List.range' 1 r.appended.length
  commits : r.commits.Pairwise (· ≤ ·)
  commits_le : ∀ c ∈ r.commits, c ≤ r.node.commitIndex
  lastApplied_le : r.node.lastApplied ≤ r.appended.length
  applied : r.applied = r.appended.take r.node.lastApplied
  log : r.node.log = r.appended
    ∨ r.node.log = [] ∧ r.node.lastApplied = r.appended.length ∧ 0 < r.appended.length

theorem invariant_init (config : RaftConfig) :
    (init (singleNodeLeader config)).Invariant where
  leader := rfl
  alone := rfl
  committed := rfl
  entries := rfl
  indices := rfl
  commits := pairwise_singleton ..
  commits_le := fun _ hc => Nat.le_of_eq (mem_singleton.mp hc)
  lastApplied_le := Nat.le_refl 0
  applied := rfl
  log := .inl rfl

variable {r : RaftRun}

theorem Invariant.appliesInOrder (h : r.Invariant) : r.AppliesInOrder where
  indices := h.indices ▸ pairwise_lt_range'
  commits := h.commits
  applied := h.applied ▸ take_prefix ..
  complete := by
    rw [applyCommitted_entries, h.applied, h.committed]
    rcases h.log with hlog | ⟨hlog, hlast, -⟩
    · rw [hlog, ← length_drop, take_length, take_append_drop]
    · rw [hlog, hlast, drop_nil, take_nil, append_nil, take_length]

theorem Invariant.commits_concat (h : r.Invariant) {c : Nat}
    (hle : r.node.commitIndex ≤ c) : (r.commits ++ [c]).Pairwise (· ≤ ·) := by
  refine pairwise_append.mpr ⟨h.commits, pairwise_singleton .., fun d hd e he => ?_⟩
  rw [mem_singleton.mp he]
  exact Nat.le_trans (h.commits_le d hd) hle

theorem Invariant.commits_concat_le (h : r.Invariant) {c : Nat}
    (hle : r.node.commitIndex ≤ c) : ∀ d ∈ r.commits ++ [c], d ≤ c := by
  intro d hd
  rcases mem_append.mp hd with hd | hd
  · exact Nat.le_trans (h.commits_le d hd) hle
  · exact Nat.le_of_eq (mem_singleton.mp hd)

theorem Invariant.appendEntry (h : r.Invariant) (workflowKey : UInt64)
    (eventType : RaftEventType) (payload : Bytes)
    (hwhole : r.node.log.length = r.node.commitIndex) :
    (r.step (.appendEntry workflowKey eventType payload)).Invariant := by
  obtain ⟨entry, n, happend, hindex, hlog, hcommit, hlast, hleader, halone⟩ :=
    appendEntry_of_alone h.leader h.alone workflowKey eventType payload
  have hlen : r.node.log.length = r.appended.length := hwhole.trans h.committed
  have hall : r.node.log = r.appended := h.log.resolve_right (fun hno => by
    rw [hno.1, length_nil] at hlen
    omega)
  have hrange : List.range' 1 (r.appended.length + 1)
      = List.range' 1 r.appended.length ++ [entry.index] := by
    rw [range'_1_concat, hindex, hlen, Nat.add_comm]
  have hle : r.node.commitIndex ≤ n.commitIndex := by
    rw [hcommit, hwhole]
    exact Nat.le_succ _
  rw [step, happend]
  simp only [Option.isSome_some, if_true, hlog, getLast?_concat, Option.toList_some]
  exact {
    leader := hleader
    alone := halone
    committed := by rw [hcommit, hlen, length_append, length_singleton]
    entries := by
      rw [map_append, h.entries, length_append, length_singleton, hrange]
      rfl
    indices := by rw [h.indices, length_append, length_singleton, hrange]
    commits := h.commits_concat hle
    commits_le := h.commits_concat_le hle
    lastApplied_le := by
      rw [hlast, length_append]
      exact Nat.le_add_right_of_le h.lastApplied_le
    applied := by rw [hlast, h.applied, take_append_of_le_length h.lastApplied_le]
    log := .inl (by rw [hlog, hall]) }

theorem Invariant.applyCommitted (h : r.Invariant) : (r.step .applyCommitted).Invariant := by
  obtain ⟨stats, hnode⟩ := applyCommitted_node (h.committed ▸ h.lastApplied_le)
  have hcomplete := h.appliesInOrder.complete
  rw [step]
  dsimp only
  rw [hnode]
  exact {
    leader := h.leader
    alone := h.alone
    committed := h.committed
    entries := h.entries
    indices := h.indices
    commits := h.commits_concat (Nat.le_refl _)
    commits_le := h.commits_concat_le (Nat.le_refl _)
    lastApplied_le := Nat.le_of_eq h.committed
    applied := by rw [hcomplete, h.committed, take_length]
    log := h.log.imp_right (fun hno => ⟨hno.1, h.committed, hno.2.2⟩) }

theorem Invariant.of_takeSnapshot (h : r.Invariant)
    (hlog : r.node.takeSnapshot.2.log = r.appended ∨ r.node.takeSnapshot.2.log = []
      ∧ r.node.lastApplied = r.appended.length ∧ 0 < r.appended.length) :
    (r.step .takeSnapshot).Invariant := by
  obtain ⟨log, stats, hnode⟩ : ∃ log stats,
      r.node.takeSnapshot.2 = { r.node with log := log, stats := stats } := by
    rw [takeSnapshot]
    split
    · exact ⟨_, _, rfl⟩
    · exact ⟨_, _, rfl⟩
  rw [hnode] at hlog
  rw [step]
  dsimp only
  rw [hnode]
  exact {
    leader := h.leader
    alone := h.alone
    committed := h.committed
    entries := h.entries
    indices := h.indices
    commits := h.commits_concat (Nat.le_refl _)
    commits_le := h.commits_concat_le (Nat.le_refl _)
    lastApplied_le := h.lastApplied_le
    applied := h.applied
    log := hlog }

theorem Invariant.takeSnapshot_log_le (h : r.Invariant) :
    r.node.takeSnapshot.2.log.length ≤ r.appended.length - r.node.lastApplied := by
  rcases h.log with hlog | ⟨hlog, -, -⟩
  · have hindices : r.node.log.map (·.index) = List.range' 1 r.node.log.length := by
      rw [hlog, h.entries]
    exact hlog ▸ takeSnapshot_log hindices
  · have hempty : r.node.takeSnapshot.2.log = [] := by
      rw [takeSnapshot]
      split
      · exact hlog
      · dsimp only
        rw [hlog, drop_nil]
    rw [hempty]
    exact Nat.zero_le _

theorem Invariant.takeSnapshot (h : r.Invariant)
    (hmeets : r.node.lastApplied = 0 ∨ r.node.lastApplied = r.node.commitIndex) :
    (r.step .takeSnapshot).Invariant := by
  by_cases hzero : r.node.lastApplied = 0
  · apply h.of_takeSnapshot
    rw [RaftNode.takeSnapshot, if_pos hzero]
    exact h.log
  · have hlast : r.node.lastApplied = r.appended.length :=
      (hmeets.resolve_left hzero).trans h.committed
    have hle := h.takeSnapshot_log_le
    rw [hlast, Nat.sub_self, Nat.le_zero, length_eq_zero_iff] at hle
    exact h.of_takeSnapshot (.inr ⟨hle, hlast, by omega⟩)

theorem Invariant.whole_of_appendEntry (h : r.Invariant) {workflowKey : UInt64}
    {eventType : RaftEventType} {payload : Bytes}
    (horder : (r.step (.appendEntry workflowKey eventType payload)).AppliesInOrder) :
    r.node.log.length = r.node.commitIndex := by
  obtain ⟨entry, n, happend, hindex, -⟩ :=
    appendEntry_of_alone h.leader h.alone workflowKey eventType payload
  have hindices := horder.indices
  rw [step, happend] at hindices
  rcases h.log with hlog | ⟨hlog, -, hpos⟩
  · rw [hlog, h.committed]
  · have hone : (1 : Nat) ∈ r.indices := by
      rw [h.indices, mem_range'_1]
      omega
    rw [hlog] at hindex
    have hlt : 1 < entry.index :=
      (pairwise_append.mp hindices).2.2 1 hone _ mem_cons_self
    rw [hindex] at hlt
    exact absurd hlt (Nat.lt_irrefl 1)

theorem Invariant.nothing_left_of_takeSnapshot (h : r.Invariant)
    (horder : (r.step .takeSnapshot).AppliesInOrder) :
    r.node.lastApplied = 0 ∨ r.node.lastApplied = r.node.commitIndex := by
  have hle := h.takeSnapshot_log_le
  have hlast : r.node.takeSnapshot.2.lastApplied = r.node.lastApplied := by
    rw [RaftNode.takeSnapshot]
    split <;> rfl
  have hcomplete := congrArg List.length horder.complete
  rw [step] at hcomplete
  dsimp only at hcomplete
  rw [applyCommitted_entries, length_append, h.applied, length_take,
    length_take, length_drop, hlast] at hcomplete
  have hbound := h.lastApplied_le
  rw [h.committed]
  omega

/-- **Each entry is applied once** iff snapshots come when all entries, or none, were
    applied, and nothing is appended after. -/
theorem run_appliesInOrder_iff (config : RaftConfig) (calls : List RaftCall) :
    (∀ past, past <+: calls →
        (past.foldl step (init (singleNodeLeader config))).AppliesInOrder)
      ↔ StepsMeet step CallMeetsLog (init (singleNodeLeader config)) calls := by
  have hkeeps : ∀ r call, Invariant r → True → CallMeetsLog r call → (step r call).Invariant := by
    intro r call h _ hmeets
    cases call with
    | appendEntry workflowKey eventType payload => exact h.appendEntry _ _ _ hmeets
    | applyCommitted => exact h.applyCommitted
    | takeSnapshot => exact h.takeSnapshot hmeets
  have hexact : ∀ r call, Invariant r → True → (step r call).AppliesInOrder →
      CallMeetsLog r call := by
    intro r call h _ horder
    cases call with
    | appendEntry workflowKey eventType payload => exact h.whole_of_appendEntry horder
    | applyCommitted => trivial
    | takeSnapshot => exact h.nothing_left_of_takeSnapshot horder
  exact forall_prefixes_iff_stepsMeet (fun _ h => h.appliesInOrder) hkeeps hexact
    (invariant_init config) (stepsMeet_of_forall fun _ _ => trivial)

theorem not_appliesInOrder :
    let start := init (singleNodeLeader ⟨1, true⟩)
    let append : UInt64 → RaftCall := fun key => .appendEntry key .workflowStarted []
    let after := [append 1, append 2, .applyCommitted, .takeSnapshot, append 3,
      .applyCommitted].foldl step start
    let between := [append 1, .applyCommitted, append 2, .takeSnapshot,
      .applyCommitted].foldl step start
    after.indices = [1, 2, 1] ∧ after.commits = [0, 1, 2, 2, 2, 1, 1]
      ∧ after.applied.map (·.workflowKey) = [1, 2]
      ∧ after.appended.map (·.workflowKey) = [1, 2, 3] ∧ ¬ after.AppliesInOrder
      ∧ between.indices = [1, 2] ∧ between.applied.map (·.workflowKey) = [1]
      ∧ between.appended.map (·.workflowKey) = [1, 2] ∧ ¬ between.AppliesInOrder := by
  refine ⟨by decide, by decide, by decide, by decide, fun h => ?_, by decide, by decide, by decide,
    fun h => ?_⟩
  · exact absurd h.indices (by decide)
  · exact absurd h.complete (by decide)

end RaftRun

end Velocity
