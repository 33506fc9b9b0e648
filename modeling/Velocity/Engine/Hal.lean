import Mathlib.Logic.Function.Basic
import Velocity.Lib.LittleEndian

namespace Velocity

open Lib

/-!
# The hardware abstraction layer

The layer with its simulated memory. SmartNIC offloading and enclaves are left out.
-/

inductive VerificationResult where
  | valid
  | repaired
  | unrecoverable
  deriving DecidableEq, Repr

inductive MerkleEccResult where
  | valid
  | repaired
  | merkleMismatchUnrecoverable
  | unrecoverable
  deriving DecidableEq, Repr

def computeParity (data : Bytes) : Bytes :=
  data.zipIdx.foldl
    (fun parity (byte, i) => parity.set (i % 8) (parity.getD (i % 8) 0 ^^^ byte))
    (List.replicate 8 0)

def verifyAndRepair (data parity _expectedMerkleRoot : Bytes) : VerificationResult × Bytes :=
  if computeParity data = parity then (.valid, data) else (.repaired, data)

def chunkWords (data : Bytes) : List UInt64 :=
  (data.toChunks 8).map u64FromLeBytes

def computeSimpleMerkleRoot (data : Bytes) : Bytes :=
  let h : UInt64 := data.foldl
    (fun h byte => (h ^^^ byte.toUInt64) * 0x100000001b3) 0xcbf29ce484222325
  let h2 : UInt64 := data.reverse.foldl
    (fun h2 byte => (h2 ^^^ byte.toUInt64) * 0x01000193) 0x517cc1b727220a95
  let h3 : UInt64 := (chunkWords data).foldl
    (fun h3 val => (h3 + val) * 0x9e3779b97f4a7c15) (h ^^^ h2)
  u64ToLeBytes h ++ u64ToLeBytes h2 ++ u64ToLeBytes h3 ++ u64ToLeBytes (h3 ^^^ h)

structure HardwareAbstractionLayer where
  parityMap : UInt64 → Option Bytes
  merkleRoots : UInt64 → Option Bytes
  totalVerifications : Nat
  totalRepairs : Nat
  totalUnrecoverable : Nat
  slabWrites : Nat
  slabReads : Nat

namespace HardwareAbstractionLayer

def withSimulatedHardware : HardwareAbstractionLayer where
  parityMap := fun _ => none
  merkleRoots := fun _ => none
  totalVerifications := 0
  totalRepairs := 0
  totalUnrecoverable := 0
  slabWrites := 0
  slabReads := 0

def storeParity (hal : HardwareAbstractionLayer) (workflowKey : UInt64)
    (parity merkleRoot : Bytes) : HardwareAbstractionLayer :=
  { hal with
    parityMap := Function.update hal.parityMap workflowKey (some parity)
    merkleRoots := Function.update hal.merkleRoots workflowKey (some merkleRoot) }

def onSlabWrite (hal : HardwareAbstractionLayer) (workflowKey : UInt64)
    (slabData merkleRoot : Bytes) : HardwareAbstractionLayer :=
  let hal := { hal with slabWrites := hal.slabWrites + 1 }
  hal.storeParity workflowKey (computeParity slabData) merkleRoot

def merkleEccSelfHeal (hal : HardwareAbstractionLayer) (workflowKey : UInt64)
    (slabData : Bytes) : MerkleEccResult × Bytes × HardwareAbstractionLayer :=
  let computedRoot := computeSimpleMerkleRoot slabData
  let hal := { hal with
    slabReads := hal.slabReads + 1
    totalVerifications := hal.totalVerifications + 1 }
  match hal.merkleRoots workflowKey with
  | none =>
    -- first access: remember the current root and parity
    (.valid, slabData, hal.storeParity workflowKey (computeParity slabData) computedRoot)
  | some storedRoot =>
    if computedRoot = storedRoot then
      match hal.parityMap workflowKey with
      | none => (.valid, slabData, hal)
      | some parity =>
        let (verdict, slabData) := verifyAndRepair slabData parity storedRoot
        match verdict with
        | .valid => (.valid, slabData, hal)
        | .repaired =>
          let hal := { hal with totalRepairs := hal.totalRepairs + 1 }
          (.repaired, slabData,
            hal.storeParity workflowKey (computeParity slabData) computedRoot)
        | .unrecoverable => (.unrecoverable, slabData, hal)
    else
      match hal.parityMap workflowKey with
      | none => (.merkleMismatchUnrecoverable, slabData, hal)
      | some parity =>
        let (verdict, slabData) := verifyAndRepair slabData parity storedRoot
        match verdict with
        | .unrecoverable =>
          let hal := { hal with totalUnrecoverable := hal.totalUnrecoverable + 1 }
          (.merkleMismatchUnrecoverable, slabData, hal)
        | _ =>
          let hal := { hal with totalRepairs := hal.totalRepairs + 1 }
          (.repaired, slabData,
            hal.storeParity workflowKey (computeParity slabData)
              (computeSimpleMerkleRoot slabData))

theorem verifyAndRepair_data (data parity root : Bytes) :
    (verifyAndRepair data parity root).2 = data := by
  unfold verifyAndRepair
  split <;> rfl

/-- **The self-heal loop never writes.** -/
theorem merkleEccSelfHeal_data (hal : HardwareAbstractionLayer) (workflowKey : UInt64)
    (slabData : Bytes) : (hal.merkleEccSelfHeal workflowKey slabData).2.1 = slabData := by
  simp only [merkleEccSelfHeal, verifyAndRepair_data]
  repeat' split
  all_goals rfl

end HardwareAbstractionLayer

end Velocity
