import Velocity.Core.Bitmask
import Velocity.Lib.Sha256

namespace Velocity

open Lib

/-!
# The slab header

`SlabHeader` with its Merkle root. SHA-256 is the parameter `Sha256.digest`.
-/

class Sha256 where
  digest : Bytes → Bytes

instance : Sha256 := ⟨Velocity.Lib.Sha256.hash⟩

def magicVlct : UInt32 := 0x564C4354

def currentSchemaVersion : UInt32 := 1

structure SlabHeader where
  magic : UInt32
  schemaVersion : UInt32
  workflowId : UInt64
  runId : UInt64
  currentStep : UInt32
  totalSteps : UInt32
  merkleRoot : Bytes
  stepBitmask : Bitmask256
  prevMerkleRoot : Bytes
  deriving DecidableEq, Repr

namespace SlabHeader

def hashedFields (h : SlabHeader) : Bytes :=
  u32ToLeBytes h.magic ++ u32ToLeBytes h.schemaVersion ++ u64ToLeBytes h.workflowId
    ++ u64ToLeBytes h.runId ++ u32ToLeBytes h.currentStep ++ u32ToLeBytes h.totalSteps
    ++ h.prevMerkleRoot ++ h.stepBitmask.bits.toList.flatMap u64ToLeBytes

theorem stepBitmask_eq_of_bytes {m m' : Bitmask256}
    (heq : m.bits.toList.flatMap u64ToLeBytes = m'.bits.toList.flatMap u64ToLeBytes) : m = m' := by
  have hbits : m.bits = m'.bits := Vector.toList_inj.mp (flatMap_u64ToLeBytes_inj heq)
  cases m
  exact congrArg Bitmask256.mk hbits

theorem stepBitmask_eq_of_hashedFields {h : SlabHeader} {m : Bitmask256}
    (heq : { h with stepBitmask := m }.hashedFields = h.hashedFields) : m = h.stepBitmask :=
  stepBitmask_eq_of_bytes (List.append_cancel_left heq)

variable [Sha256]

def recalculateMerkleRoot (h : SlabHeader) : SlabHeader :=
  { h with merkleRoot := Sha256.digest h.hashedFields }

def verifyMerkleRoot (h : SlabHeader) : Bool := h.merkleRoot == Sha256.digest h.hashedFields

def new (workflowId runId : UInt64) (totalSteps : UInt32) : SlabHeader :=
  recalculateMerkleRoot
    { magic := magicVlct
      schemaVersion := currentSchemaVersion
      workflowId := workflowId
      runId := runId
      currentStep := 0
      totalSteps := totalSteps
      merkleRoot := List.replicate 32 0
      stepBitmask := Bitmask256.new
      prevMerkleRoot := List.replicate 32 0 }

def markStepCompleted (h : SlabHeader) (stepIndex : Nat) : Bool × SlabHeader :=
  let (ok, bitmask) := h.stepBitmask.setStep stepIndex
  if ok then
    (true, recalculateMerkleRoot
      { h with
        stepBitmask := bitmask
        prevMerkleRoot := h.merkleRoot
        currentStep := UInt32.ofNat (stepIndex + 1) })
  else (false, { h with stepBitmask := bitmask })

/-! ### Verification -/

@[simp] theorem verifyMerkleRoot_recalculate (h : SlabHeader) :
    h.recalculateMerkleRoot.verifyMerkleRoot = true := by
  show (Sha256.digest h.hashedFields == Sha256.digest h.hashedFields) = true
  exact beq_self_eq_true _

theorem verifyMerkleRoot_new (workflowId runId : UInt64) (totalSteps : UInt32) :
    (new workflowId runId totalSteps).verifyMerkleRoot = true :=
  verifyMerkleRoot_recalculate _

theorem markStepCompleted_of_ge (h : SlabHeader) {stepIndex : Nat} (hs : 256 ≤ stepIndex) :
    h.markStepCompleted stepIndex = (false, h) := by
  have hset : h.stepBitmask.setStep stepIndex = (false, h.stepBitmask) := by
    rw [Bitmask256.setStep, dif_neg (by omega)]
  simp only [markStepCompleted, hset, Bool.false_eq_true, if_false]

theorem markStepCompleted_of_lt (h : SlabHeader) {stepIndex : Nat} (hs : stepIndex < 256) :
    h.markStepCompleted stepIndex
      = (true, recalculateMerkleRoot
          { h with
            stepBitmask := (h.stepBitmask.setStep stepIndex).2
            prevMerkleRoot := h.merkleRoot
            currentStep := UInt32.ofNat (stepIndex + 1) }) := by
  have hset := h.stepBitmask.setStep_fst stepIndex
  rw [decide_eq_true hs] at hset
  simp only [markStepCompleted, hset, if_true]

theorem verifyMerkleRoot_markStepCompleted {h : SlabHeader} (hv : h.verifyMerkleRoot = true)
    (stepIndex : Nat) : (h.markStepCompleted stepIndex).2.verifyMerkleRoot = true := by
  by_cases hs : stepIndex < 256
  · rw [h.markStepCompleted_of_lt hs]
    exact verifyMerkleRoot_recalculate _
  · rw [h.markStepCompleted_of_ge (by omega)]
    exact hv

@[simp] theorem stepBitmask_markStepCompleted (h : SlabHeader) (stepIndex : Nat) :
    (h.markStepCompleted stepIndex).2.stepBitmask = (h.stepBitmask.setStep stepIndex).2 := by
  simp only [markStepCompleted]
  split <;> rfl

@[simp] theorem currentStep_markStepCompleted (h : SlabHeader) (stepIndex : Nat) :
    (h.markStepCompleted stepIndex).2.currentStep
      = if stepIndex < 256 then UInt32.ofNat (stepIndex + 1) else h.currentStep := by
  by_cases hs : stepIndex < 256
  · rw [h.markStepCompleted_of_lt hs, if_pos hs]
    rfl
  · rw [h.markStepCompleted_of_ge (by omega), if_neg hs]

@[simp] theorem totalSteps_markStepCompleted (h : SlabHeader) (stepIndex : Nat) :
    (h.markStepCompleted stepIndex).2.totalSteps = h.totalSteps := by
  simp only [markStepCompleted]
  split <;> rfl

end SlabHeader

end Velocity
