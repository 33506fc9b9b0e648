import Velocity.Core.Slab
import Velocity.Lib.Run

namespace Velocity

open Lib List

/-!
# The Merkle chain of a header

`mark_step_completed` and `wal_append_step` of the core crate along whole sequences of calls.

* `StepCall.apply`: one call, with the root it leaves.
* `merkle_chain`: what the last root determines.
-/

namespace SlabHeader

theorem length_flatMap_bits (m : Bitmask256) :
    (m.bits.toList.flatMap u64ToLeBytes).length = 32 := by
  simp [length_flatMap]

theorem hashedFields_inj {h h' : SlabHeader} (heq : h.hashedFields = h'.hashedFields) :
    h.magic = h'.magic ∧ h.schemaVersion = h'.schemaVersion ∧ h.workflowId = h'.workflowId
      ∧ h.runId = h'.runId ∧ h.currentStep = h'.currentStep ∧ h.totalSteps = h'.totalSteps
      ∧ h.prevMerkleRoot = h'.prevMerkleRoot ∧ h.stepBitmask = h'.stepBitmask := by
  have hu32 : ∀ {x y : UInt32}, u32ToLeBytes x = u32ToLeBytes y → x = y := fun {x y} hxy => by
    rw [← u32FromLeBytes_toLeBytes x, hxy, u32FromLeBytes_toLeBytes]
  have hu64 : ∀ {x y : UInt64}, u64ToLeBytes x = u64ToLeBytes y → x = y := fun {x y} hxy => by
    rw [← u64FromLeBytes_toLeBytes x, hxy, u64FromLeBytes_toLeBytes]
  unfold hashedFields at heq
  -- both ends have a fixed length
  obtain ⟨heq, hbits⟩ := append_inj' heq (by rw [length_flatMap_bits, length_flatMap_bits])
  obtain ⟨heq, hprev⟩ := append_inj heq (by simp)
  obtain ⟨heq, htotal⟩ := append_inj' heq (by simp)
  obtain ⟨heq, hcurrent⟩ := append_inj' heq (by simp)
  obtain ⟨heq, hrun⟩ := append_inj' heq (by simp)
  obtain ⟨heq, hworkflow⟩ := append_inj' heq (by simp)
  obtain ⟨hmagic, hschema⟩ := append_inj' heq (by simp)
  exact ⟨hu32 hmagic, hu32 hschema, hu64 hworkflow, hu64 hrun, hu32 hcurrent, hu32 htotal, hprev,
    stepBitmask_eq_of_bytes hbits⟩

variable [Sha256]

def walAppendStep (h : SlabHeader) (stepIndex : UInt32) : Except Int Unit × SlabHeader :=
  if stepIndex ≥ h.totalSteps then (.error (-1), h)
  else
    let (ok, h) := h.markStepCompleted stepIndex.toNat
    if ok then (.ok (), h) else (.error (-2), h)

def complete (h : SlabHeader) (stepIndex : Nat) : SlabHeader :=
  recalculateMerkleRoot { h with
    stepBitmask := (h.stepBitmask.setStep stepIndex).2
    prevMerkleRoot := h.merkleRoot
    currentStep := UInt32.ofNat (stepIndex + 1) }

end SlabHeader

inductive StepCall where
  | markStepCompleted (stepIndex : Nat)
  | walAppendStep (stepIndex : UInt32)
  deriving DecidableEq

namespace StepCall

open SlabHeader

def stepIndex : StepCall → Nat
  | .markStepCompleted stepIndex => stepIndex
  | .walAppendStep stepIndex => stepIndex.toNat

variable [Sha256]

def apply (h : SlabHeader) : StepCall → Bool × SlabHeader
  | .markStepCompleted stepIndex => h.markStepCompleted stepIndex
  | .walAppendStep stepIndex =>
    let r := h.walAppendStep stepIndex
    (r.1.toBool, r.2)

theorem apply_eq (h : SlabHeader) (call : StepCall) :
    (call.stepIndex < 256 ∧ call.apply h = (true, h.complete call.stepIndex))
      ∨ call.apply h = (false, h) := by
  cases call with
  | markStepCompleted s =>
    by_cases hs : s < 256
    · exact .inl ⟨hs, h.markStepCompleted_of_lt hs⟩
    · exact .inr (h.markStepCompleted_of_ge (by omega))
  | walAppendStep s =>
    by_cases htotal : s ≥ h.totalSteps
    · refine .inr ?_
      simp only [apply, SlabHeader.walAppendStep, if_pos htotal]
      rfl
    · by_cases hs : s.toNat < 256
      · refine .inl ⟨hs, ?_⟩
        simp only [apply, SlabHeader.walAppendStep, if_neg htotal, h.markStepCompleted_of_lt hs]
        rfl
      · refine .inr ?_
        simp only [apply, SlabHeader.walAppendStep, if_neg htotal,
          h.markStepCompleted_of_ge (Nat.le_of_not_lt hs)]
        rfl

theorem apply_true {h : SlabHeader} {call : StepCall} (hok : (call.apply h).1 = true) :
    call.stepIndex < 256 ∧ (call.apply h).2 = h.complete call.stepIndex := by
  rcases call.apply_eq h with ⟨hs, heq⟩ | heq
  · rw [heq]
    exact ⟨hs, rfl⟩
  · rw [heq] at hok
    exact absurd hok (by simp)

theorem apply_false {h : SlabHeader} {call : StepCall} (hfail : (call.apply h).1 = false) :
    (call.apply h).2 = h := by
  rcases call.apply_eq h with ⟨_, heq⟩ | heq
  · rw [heq] at hfail
    exact absurd hfail (by simp)
  · rw [heq]

def applyAll (h : SlabHeader) (calls : List StepCall) : SlabHeader :=
  calls.foldl (fun h call => (call.apply h).2) h

/-- Every call of the run answers `true`. -/
def AllSucceed (h : SlabHeader) (calls : List StepCall) : Prop :=
  StepsMeet (fun h call => (StepCall.apply h call).2) (fun h call => (StepCall.apply h call).1 = true)
    h calls

theorem applyAll_eq :
    ∀ {calls : List StepCall} {h : SlabHeader}, AllSucceed h calls →
      applyAll h calls = (calls.map stepIndex).foldl complete h
        ∧ ∀ s ∈ calls.map stepIndex, s < 256
  | [], _, _ => ⟨rfl, by simp⟩
  | call :: calls, h, hok => by
    obtain ⟨hs, heq⟩ := apply_true hok.1
    have hlater : AllSucceed (h.complete call.stepIndex) calls := heq ▸ hok.2
    obtain ⟨hrest, hbelow⟩ := applyAll_eq hlater
    refine ⟨?_, forall_mem_cons.mpr ⟨hs, hbelow⟩⟩
    show applyAll (call.apply h).2 calls = _
    rw [heq, hrest]
    rfl

end StepCall

open StepCall

/-! ### The last root -/

section Roots

open SlabHeader

variable [Sha256]

/-- No two headers with different hashed fields have one digest. -/
def SeparatesHeaders : Prop :=
  ∀ h h' : SlabHeader, Sha256.digest h.hashedFields = Sha256.digest h'.hashedFields →
    h.hashedFields = h'.hashedFields

def headerAfter (h : SlabHeader) : List Nat → SlabHeader
  | [] => h
  | s :: older => (headerAfter h older).complete s

theorem rootAfter_inj (hsep : SeparatesHeaders) (workflowId runId : UInt64) (totalSteps : UInt32) :
    ∀ {xs ys : List Nat}, (∀ s ∈ xs, s < 256) → (∀ s ∈ ys, s < 256) →
      (headerAfter (.new workflowId runId totalSteps) xs).merkleRoot
        = (headerAfter (.new workflowId runId totalSteps) ys).merkleRoot → xs = ys := by
  have hstep : ∀ {s : Nat}, s < 256 → (UInt32.ofNat (s + 1)).toNat = s + 1 := fun {s} hs => by
    rw [UInt32.toNat_ofNat', Nat.mod_eq_of_lt (by omega)]
  intro xs
  induction xs with
  | nil =>
    intro ys _ hys hroot
    cases ys with
    | nil => rfl
    | cons y ys =>
      -- only a new header is at step 0
      obtain ⟨_, _, _, _, hcurrent, _⟩ := hashedFields_inj (hsep _ _ hroot)
      have hnat := congrArg UInt32.toNat hcurrent
      rw [hstep (hys y mem_cons_self)] at hnat
      exact absurd hnat (Nat.succ_ne_zero y).symm
  | cons x xs ih =>
    intro ys hxs hys hroot
    cases ys with
    | nil =>
      obtain ⟨_, _, _, _, hcurrent, _⟩ := hashedFields_inj (hsep _ _ hroot)
      have hnat := congrArg UInt32.toNat hcurrent
      rw [hstep (hxs x mem_cons_self)] at hnat
      exact absurd hnat (Nat.succ_ne_zero x)
    | cons y ys =>
      obtain ⟨_, _, _, _, hcurrent, _, hprev, _⟩ := hashedFields_inj (hsep _ _ hroot)
      have hnat := congrArg UInt32.toNat hcurrent
      rw [hstep (hxs x mem_cons_self), hstep (hys y mem_cons_self)] at hnat
      have hxy : x = y := Nat.succ.inj hnat
      -- older steps follow from the root before
      have htail : xs = ys := ih (fun s hs => hxs s (mem_cons_of_mem _ hs))
        (fun s hs => hys s (mem_cons_of_mem _ hs)) hprev
      rw [hxy, htail]

theorem foldl_complete (h : SlabHeader) (steps : List Nat) :
    steps.foldl complete h = headerAfter h steps.reverse := by
  rw [← reverse_reverse steps, foldl_reverse, reverse_reverse]
  induction steps.reverse with
  | nil => rfl
  | cons s older ih => rw [foldr_cons, ih, headerAfter]

/-- **The Merkle chain.** Every header verifies, and the last root determines the steps and their
    order. -/
theorem merkle_chain (hsep : SeparatesHeaders) (workflowId runId : UInt64) (totalSteps : UInt32)
    (calls : List StepCall) (hok : StepCall.AllSucceed (.new workflowId runId totalSteps) calls) :
    (∀ before call, before ++ [call] <+: calls →
        let h := applyAll (.new workflowId runId totalSteps) before
        (call.apply h).2.verifyMerkleRoot = true ∧ (call.apply h).2.prevMerkleRoot = h.merkleRoot)
      ∧ (∀ before, before <+: calls → ∀ call : StepCall,
          let h := applyAll (.new workflowId runId totalSteps) before
          (call.apply h).1 = false → (call.apply h).2 = h)
      ∧ ∀ calls', StepCall.AllSucceed (.new workflowId runId totalSteps) calls' →
          ((applyAll (.new workflowId runId totalSteps) calls).merkleRoot
              = (applyAll (.new workflowId runId totalSteps) calls').merkleRoot
            ↔ calls.map stepIndex = calls'.map stepIndex) := by
  refine ⟨?_, fun _ _ call => apply_false, ?_⟩
  · intro before call hpre
    have hcall := (stepsMeet_iff_prefixes _ _).mp hok before call hpre
    obtain ⟨_, heq⟩ := apply_true hcall
    simp only
    rw [applyAll, heq]
    exact ⟨verifyMerkleRoot_recalculate _, rfl⟩
  · intro calls' hok'
    obtain ⟨heq, hbelow⟩ := applyAll_eq hok
    obtain ⟨heq', hbelow'⟩ := applyAll_eq hok'
    rw [heq, heq']
    constructor
    · intro hroot
      rw [foldl_complete, foldl_complete] at hroot
      have hrev := rootAfter_inj hsep workflowId runId totalSteps
        (fun s hs => hbelow s (mem_reverse.mp hs))
        (fun s hs => hbelow' s (mem_reverse.mp hs)) hroot
      exact reverse_injective hrev
    · intro hsteps
      rw [hsteps]

end Roots

abbrev identityHash : Sha256 := ⟨id⟩

theorem merkle_chain_two_steps :
    letI := identityHash
    SeparatesHeaders
      ∧ (applyAll (.new 1 1 2) [.markStepCompleted 0, .walAppendStep 1]).merkleRoot
        ≠ (applyAll (.new 1 1 2) [.walAppendStep 1, .markStepCompleted 0]).merkleRoot := by
  let _ : Sha256 := identityHash
  have hsep : SeparatesHeaders := fun _ _ heq => heq
  refine ⟨hsep, fun hroot => ?_⟩
  have hsteps := ((merkle_chain hsep 1 1 2 [.markStepCompleted 0, .walAppendStep 1]
    ⟨rfl, rfl, trivial⟩).2.2 [.walAppendStep 1, .markStepCompleted 0] ⟨rfl, rfl, trivial⟩).mp hroot
  exact absurd hsteps (by decide)

theorem mark_and_append_same_root :
    letI := identityHash
    [markStepCompleted 0] ≠ [walAppendStep 0]
      ∧ StepCall.AllSucceed (.new 1 1 1) [.markStepCompleted 0]
      ∧ StepCall.AllSucceed (.new 1 1 1) [.walAppendStep 0]
      ∧ (applyAll (.new 1 1 1) [.markStepCompleted 0]).merkleRoot
        = (applyAll (.new 1 1 1) [.walAppendStep 0]).merkleRoot :=
  ⟨by decide, ⟨rfl, trivial⟩, ⟨rfl, trivial⟩, rfl⟩

end Velocity
