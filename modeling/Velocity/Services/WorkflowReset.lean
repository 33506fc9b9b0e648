import Mathlib.Algebra.Group.Nat.Defs
import Mathlib.Logic.Function.Basic
import Velocity.Lib.Run

namespace Velocity

open Lib

/-!
# Automatic resets

`maybe_auto_reset` counts the results of every workflow:
* `WorkflowResetter.maybeAutoReset`: the automatic reset, and `executeReset` behind it. Branches
  are left out.
* `withinBudget_iff`: when the count decides as the workflow's own resets would.
-/

inductive ResetReason where
  | manualReset
  | deadlockDetection
  | nonDeterminism
  | buildIdChange
  | testDebug
  | custom (reason : String)
  deriving DecidableEq, Repr

structure ResetSpec where
  workflowKey : UInt64
  resetToEventId : UInt64
  reason : ResetReason
  requestId : String
  deriving DecidableEq, Repr

structure ResetResult where
  resetId : UInt64
  newRunId : UInt64
  newBranchId : UInt64
  eventsTruncated : UInt64
  success : Bool
  error : Option String
  deriving DecidableEq, Repr

structure LastFailureResetPolicy where
  enabled : Bool
  maxAutoResets : UInt32
  reason : ResetReason
  deriving DecidableEq, Repr

def LastFailureResetPolicy.disabled : LastFailureResetPolicy := ⟨false, 0, .manualReset⟩

structure WorkflowResetter where
  autoResetPolicies : UInt64 → Option LastFailureResetPolicy
  resetResults : List ResetResult
  processedRequests : List String
  nextResetId : UInt64
  nextBranchId : UInt64
  nextRunId : UInt64

namespace WorkflowResetter

def new (policies : UInt64 → Option LastFailureResetPolicy) : WorkflowResetter :=
  ⟨policies, [], [], 1, 100, 1000⟩

variable (r : WorkflowResetter)

def getAutoResetPolicy (workflowTypeId : UInt64) : LastFailureResetPolicy :=
  (r.autoResetPolicies workflowTypeId).getD .disabled

def executeReset (spec : ResetSpec) (currentLastEventId : UInt64) :
    ResetResult × WorkflowResetter :=
  if r.processedRequests.contains spec.requestId then
    (⟨0, 0, 0, 0, false, some "duplicate request"⟩, r)
  else
    let r := { r with processedRequests := spec.requestId :: r.processedRequests }
    if spec.resetToEventId ≥ currentLastEventId then
      (⟨0, 0, 0, 0, false, some "reset_to_event_id must be less than current last event ID"⟩, r)
    else
      let result := ⟨r.nextResetId, r.nextRunId, r.nextBranchId,
        currentLastEventId - spec.resetToEventId, true, none⟩
      (result, { r with
        resetResults := r.resetResults ++ [result]
        nextResetId := r.nextResetId + 1
        nextBranchId := r.nextBranchId + 1
        nextRunId := r.nextRunId + 1 })

def autoResetCount : UInt32 :=
  UInt32.ofNat (r.resetResults.countP fun result => result.success && result.newRunId > 0)

def maybeAutoReset (workflowKey workflowTypeId currentLastEventId : UInt64)
    (requestId : String) : Option ResetResult × WorkflowResetter :=
  let policy := r.getAutoResetPolicy workflowTypeId
  if !policy.enabled then (none, r)
  else if r.autoResetCount ≥ policy.maxAutoResets then (none, r)
  else
    let (result, r) := r.executeReset ⟨workflowKey, 1, policy.reason, requestId⟩ currentLastEventId
    (some result, r)

/-! ### Runs -/

inductive Call where
  | executeReset (spec : ResetSpec) (currentLastEventId : UInt64)
  | maybeAutoReset (workflowKey workflowTypeId currentLastEventId : UInt64) (requestId : String)

abbrev Resets := WorkflowResetter × List (UInt64 × Bool)

def step (s : Resets) : Call → Resets
  | .executeReset spec last =>
    let (result, r) := s.1.executeReset spec last
    (r, if result.success then s.2 ++ [(spec.workflowKey, false)] else s.2)
  | .maybeAutoReset key type last requestId =>
    let (result, r) := s.1.maybeAutoReset key type last requestId
    (r, if result.any (·.success) then s.2 ++ [(key, true)] else s.2)

def Applies (type last : UInt64) (requestId : String) : Prop :=
  (r.getAutoResetPolicy type).enabled = true ∧ 1 < last ∧ requestId ∉ r.processedRequests

/-- A reset happens iff the workflow's own automatic ones are below the limit. -/
def WithinBudget (s : Resets) : Call → Prop
  | .executeReset .. => True
  | .maybeAutoReset key type last requestId => Applies s.1 type last requestId →
    ((s.1.maybeAutoReset key type last requestId).1.any (·.success) = true
      ↔ s.2.count (key, true) < (s.1.getAutoResetPolicy type).maxAutoResets.toNat)

/-- How many of `n` resets count: run ids begin with 1000, and one that wraps to 0 does not. -/
def counted (n : Nat) : Nat := n - (n + 999) / 2 ^ 64

/-- All resets that count, modulo `2 ^ 32`, decide as its own do. -/
def CountsAlike (s : Resets) : Call → Prop
  | .executeReset .. => True
  | .maybeAutoReset key type last requestId => Applies s.1 type last requestId →
    (counted s.2.length % UInt32.size < (s.1.getAutoResetPolicy type).maxAutoResets.toNat
      ↔ s.2.count (key, true) < (s.1.getAutoResetPolicy type).maxAutoResets.toNat)

structure Counted (s : Resets) : Prop where
  runIds : s.1.nextRunId.toNat = (s.2.length + 1000) % 2 ^ 64
  count : s.1.resetResults.countP (fun result => result.success && result.newRunId > 0)
    = counted s.2.length

theorem Counted.executeReset {s : Resets} (h : Counted s) (spec : ResetSpec) (last : UInt64)
    (entry : UInt64 × Bool) :
    Counted ((s.1.executeReset spec last).2,
      if (s.1.executeReset spec last).1.success then s.2 ++ [entry] else s.2) := by
  obtain ⟨hrun, hcount⟩ := h
  unfold WorkflowResetter.executeReset
  split
  · exact ⟨hrun, hcount⟩
  dsimp only
  split
  · exact ⟨hrun, hcount⟩
  · refine ⟨?_, ?_⟩
    · simp only [if_true, List.length_append, List.length_singleton, UInt64.toNat_add,
        UInt64.toNat_one, hrun]
      omega
    · have hpos : s.1.nextRunId > 0 ↔ (s.2.length + 1000) % 2 ^ 64 ≠ 0 := by
        rw [gt_iff_lt, UInt64.lt_iff_toNat_lt, hrun]
        exact Nat.pos_iff_ne_zero
      simp only [if_true, List.countP_append, hcount, List.countP_singleton, Bool.true_and,
        decide_eq_true_eq, hpos, List.length_append, List.length_singleton, counted]
      split <;> omega

theorem Counted.step {s : Resets} (h : Counted s) (call : Call) :
    Counted (WorkflowResetter.step s call) := by
  cases call with
  | executeReset spec last => exact h.executeReset spec last _
  | maybeAutoReset key type last requestId =>
    simp only [WorkflowResetter.step, maybeAutoReset]
    split
    · exact h
    split
    · exact h
    · exact h.executeReset _ last (key, true)

theorem success_maybeAutoReset {r : WorkflowResetter} {type last : UInt64} {requestId : String}
    (happlies : Applies r type last requestId) (key : UInt64) :
    (r.maybeAutoReset key type last requestId).1.any (·.success) = true
      ↔ r.autoResetCount < (r.getAutoResetPolicy type).maxAutoResets := by
  obtain ⟨henabled, hlast, hnew⟩ := happlies
  have hreset : ∀ reason, (r.executeReset ⟨key, 1, reason, requestId⟩ last).1.success = true := by
    intro reason
    simp only [executeReset]
    rw [if_neg (by simpa using hnew), if_neg (UInt64.not_le.mpr hlast)]
  simp only [maybeAutoReset, henabled]
  by_cases hcount : r.autoResetCount ≥ (r.getAutoResetPolicy type).maxAutoResets
  · simp [hcount]
  · simp [hcount, hreset, UInt32.not_le.mp hcount]

/-- **Budgets** are kept iff the count of all resets decides like that of the workflow's own. -/
theorem withinBudget_iff (policies : UInt64 → Option LastFailureResetPolicy) (calls : List Call) :
    StepsMeet step WithinBudget (new policies, []) calls
      ↔ StepsMeet step CountsAlike (new policies, []) calls := by
  refine stepsMeet_iff_stepsMeet (I := Counted) (fun s call h (_ : True) _ => h.step call)
    (fun s call h _ => ?_) (by constructor <;> simp [new, counted])
    (stepsMeet_of_mem fun _ _ _ => trivial)
  cases call with
  | executeReset spec last => exact Iff.rfl
  | maybeAutoReset key type last requestId =>
    refine forall_congr' fun happlies => ?_
    rw [success_maybeAutoReset happlies, UInt32.lt_iff_toNat_lt, autoResetCount, h.count]
    exact Iff.rfl

theorem not_withinBudget_manual :
    ¬ StepsMeet step WithinBudget (new fun _ => some ⟨true, 1, .deadlockDetection⟩, [])
      [.executeReset ⟨1, 1, .manualReset, "r"⟩ 9, .maybeAutoReset 2 0 9 "reset-1"] := by
  intro h
  have hauto := h.2.1 ⟨rfl, by decide, by decide⟩
  revert hauto
  decide

end WorkflowResetter

end Velocity
