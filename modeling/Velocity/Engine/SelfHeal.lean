import Velocity.Engine.Step

namespace Velocity

open Lib

/-!
# Reading untouched slabs

`get_slab` compares the recorded root with a hash of it.
-/

namespace HardwareAbstractionLayer

variable {hal : HardwareAbstractionLayer} {key : UInt64} {data : Bytes}

def Paired (hal : HardwareAbstractionLayer) : Prop :=
  ∀ key, (hal.merkleRoots key).isSome = (hal.parityMap key).isSome

/-- No record, or the one that a check makes of `data`. -/
def RecordedAs (hal : HardwareAbstractionLayer) (key : UInt64) (data : Bytes) : Prop :=
  hal.merkleRoots key = none
    ∨ hal.merkleRoots key = some (computeSimpleMerkleRoot data)
      ∧ hal.parityMap key = some (computeParity data)

/-- The check finds the slab valid and changes neither data nor counters. -/
structure HealsNothing (hal : HardwareAbstractionLayer) (key : UInt64) (data : Bytes) : Prop where
  valid : (hal.merkleEccSelfHeal key data).1 = .valid
  unaltered : (hal.merkleEccSelfHeal key data).2.1 = data
  repairs : (hal.merkleEccSelfHeal key data).2.2.totalRepairs = hal.totalRepairs
  unrecoverable : (hal.merkleEccSelfHeal key data).2.2.totalUnrecoverable = hal.totalUnrecoverable

theorem Paired.storeParity (h : hal.Paired) (key : UInt64) (parity root : Bytes) :
    (hal.storeParity key parity root).Paired := by
  intro k
  by_cases hk : k = key
  · simp [HardwareAbstractionLayer.storeParity, hk]
  · simpa [HardwareAbstractionLayer.storeParity, hk] using h k

theorem Paired.merkleEccSelfHeal (h : hal.Paired) (key : UInt64) (data : Bytes) :
    (hal.merkleEccSelfHeal key data).2.2.Paired := by
  simp only [HardwareAbstractionLayer.merkleEccSelfHeal]
  repeat' split
  all_goals first | exact h | exact Paired.storeParity h key _ _

theorem healsNothing_iff (h : hal.Paired) :
    hal.HealsNothing key data ↔ hal.RecordedAs key data := by
  have hkey := h key
  cases hroot : hal.merkleRoots key with
  | none =>
    refine iff_of_true ?_ (.inl hroot)
    constructor <;> simp [merkleEccSelfHeal, hroot, storeParity]
  | some root =>
    rw [hroot] at hkey
    obtain ⟨parity, hparity⟩ := Option.isSome_iff_exists.mp hkey.symm
    constructor
    · intro hvalid
      have hverdict := hvalid.valid
      grind [merkleEccSelfHeal, verifyAndRepair, RecordedAs]
    · intro hrecord
      obtain ⟨hroot', hparity'⟩ := hrecord.resolve_left (by simp [hroot])
      constructor <;> simp [merkleEccSelfHeal, verifyAndRepair, hroot', hparity']

end HardwareAbstractionLayer

/-! ### Runs -/

inductive SlabCall where
  | startWorkflow (workflowId workflowTypeId namespaceId taskQueueHash : UInt64)
      (totalSteps : UInt32) (input : Option Bytes)
  | completeStep (key : UInt64) (step : UInt32) (result : Bytes)
  | getSlab (key : UInt64)

namespace WorkflowEngine

open HardwareAbstractionLayer

variable [Sha256]

def slabCall (e : WorkflowEngine) : SlabCall → WorkflowEngine
  | .startWorkflow workflowId workflowTypeId namespaceId taskQueueHash totalSteps input =>
    (e.startWorkflow workflowId workflowTypeId namespaceId taskQueueHash totalSteps input).2
  | .completeStep key step result => e.completeStep key step result
  | .getSlab key => (e.getSlab key).2

variable {e : WorkflowEngine}

theorem hal_applyStep {key : UInt64} {step : UInt32} {result : Bytes}
    {found : Option (UInt64 × Bytes)} {e' : WorkflowEngine}
    (h : e.applyStep key step result = (found, e')) : e'.hal = e.hal := by
  rw [applyStep] at h
  cases h
  rfl

theorem paired_slabCall (h : e.hal.Paired) (call : SlabCall) : (e.slabCall call).hal.Paired := by
  cases call with
  | startWorkflow => exact h
  | completeStep key step result =>
    simp only [slabCall, completeStep]
    split
    · next heq => exact hal_applyStep heq ▸ h
    · next e' heq => exact Paired.storeParity (hal_applyStep heq ▸ h : e'.hal.Paired) key _ _
  | getSlab key =>
    simp only [slabCall, getSlab]
    split
    · exact h
    · exact h.merkleEccSelfHeal key _

end WorkflowEngine

section Reads

variable [Sha256]

/-- **Reads heal nothing** iff each finds no record, or that of the present root. -/
theorem healsNothing_run_iff (wal : Option WalManager) (durability : DurabilityConfig) (now : Nat)
    (calls : List SlabCall) :
    let run := List.foldl WorkflowEngine.slabCall (.new wal durability now)
    (∀ ps key ctx, ps ++ [.getSlab key] <+: calls → (run ps).workflows.lookup key = some ctx →
        (run ps).hal.HealsNothing key ctx.slab.merkleRoot)
      ↔ ∀ ps key ctx, ps ++ [.getSlab key] <+: calls → (run ps).workflows.lookup key = some ctx →
        (run ps).hal.RecordedAs key ctx.slab.merkleRoot := by
  intro run
  refine forall₅_congr fun ps key ctx _ _ => HardwareAbstractionLayer.healsNothing_iff ?_
  exact foldl_invariant (I := fun e : WorkflowEngine => e.hal.Paired)
    (fun _ call he (_ : True) => WorkflowEngine.paired_slabCall he call) ps _
    (fun _ => rfl) (stepsMeet_of_mem fun _ _ _ => trivial)

end Reads

theorem repaired_after_step :
    let e := [.startWorkflow 1 1 0 1 1 none, .completeStep 1 0 [42]].foldl WorkflowEngine.slabCall
      (.new none .strict 0)
    (e.workflows.lookup 1).map (fun ctx => (e.hal.merkleEccSelfHeal 1 ctx.slab.merkleRoot).1)
        = some .repaired
      ∧ e.hal.totalRepairs = 0 ∧ (e.getSlab 1).2.hal.totalRepairs = 1 := by
  decide +kernel

end Velocity
