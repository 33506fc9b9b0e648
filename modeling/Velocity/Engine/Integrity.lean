import Velocity.Engine.RunConditions

namespace Velocity

open Lib WorkflowEngine

/-!
# Slab integrity

`reset_workflow` lowers completed flags and leaves the root over them.
-/

/-- The reset is refused, or clears no flag that is up. -/
def WorkflowContext.ClearsNoFlag (ctx : WorkflowContext) (resetToEventId : UInt64) : Prop :=
  (ctx.status = .running ∨ ctx.status = .failed) →
    ∀ s < ctx.slab.totalSteps.toNat, resetToEventId.toNat ≤ s →
      ctx.slab.stepBitmask.isStepSet s = false

instance (ctx : WorkflowContext) (r : UInt64) : Decidable (ctx.ClearsNoFlag r) :=
  inferInstanceAs (Decidable (_ → ∀ s < _, _ → _))

namespace WorkflowEngine

/-- No reset clears a flag that is up. -/
def ClearsNoFlag (e : WorkflowEngine) : EngineOp → Prop
  | .resetWorkflow key resetToEventId =>
    ∀ ctx ∈ e.workflows.lookup key, ctx.ClearsNoFlag resetToEventId
  | _ => True

instance (e : WorkflowEngine) (op : EngineOp) : Decidable (e.ClearsNoFlag op) := by
  induction op using EngineOp.casesOn with
  | resetWorkflow key =>
    exact inferInstanceAs (Decidable (∀ ctx ∈ e.workflows.lookup key, ctx.ClearsNoFlag _))
  | _ => exact instDecidableTrue

end WorkflowEngine

section Integrity

variable [Sha256]

def WorkflowContext.Verifies (ctx : WorkflowContext) : Prop := ctx.slab.verifyMerkleRoot = true

namespace WorkflowEngine

/-- Every slab in the pool has the root of its fields. -/
def SlabsVerify (e : WorkflowEngine) : Prop := e.workflows.All WorkflowContext.Verifies

/-- No collision between the headers around a reset. -/
def CollisionFree (e : WorkflowEngine) : EngineOp → Prop
  | .resetWorkflow key resetToEventId => ∀ ctx ∈ e.workflows.lookup key,
    Sha256.digest (ctx.reset resetToEventId).2.slab.hashedFields
        = Sha256.digest ctx.slab.hashedFields →
      (ctx.reset resetToEventId).2.slab.hashedFields = ctx.slab.hashedFields
  | _ => True

instance (e : WorkflowEngine) (op : EngineOp) : Decidable (e.CollisionFree op) := by
  induction op using EngineOp.casesOn with
  | resetWorkflow key =>
    exact inferInstanceAs (Decidable (∀ ctx ∈ e.workflows.lookup key, _ = _ → _ = _))
  | _ => exact instDecidableTrue

end WorkflowEngine

/-! ### Resets -/

namespace WorkflowContext

theorem verifies_reset_iff {ctx : WorkflowContext} (hctx : ctx.Verifies) (r : UInt64)
    (hfree : Sha256.digest (ctx.reset r).2.slab.hashedFields
        = Sha256.digest ctx.slab.hashedFields →
      (ctx.reset r).2.slab.hashedFields = ctx.slab.hashedFields) :
    (ctx.reset r).2.Verifies ↔ ctx.ClearsNoFlag r := by
  by_cases hopen : ctx.status = .running ∨ ctx.status = .failed
  · constructor
    · intro hafter _ s hs hr
      -- the root is still that of the header before
      have hroot : (ctx.reset r).2.slab.merkleRoot = ctx.slab.merkleRoot := by
        rw [slab_reset r hopen]
      have hdigest := (beq_iff_eq.mp hafter).symm.trans (hroot.trans (beq_iff_eq.mp hctx))
      have hfields := hfree hdigest
      rw [slab_reset r hopen] at hfields
      have hmask := SlabHeader.stepBitmask_eq_of_hashedFields hfields
      have hflag := Bitmask256.isStepSet_clearSteps ctx.slab.stepBitmask r.toNat
        ctx.slab.totalSteps.toNat s
      rw [hmask, decide_eq_true ⟨hr, hs⟩, Bool.not_true, Bool.and_false] at hflag
      exact hflag
    · intro hclears
      have hsame := Bitmask256.clearSteps_of_not_set
        (fun s hlo hhi => hclears hopen s hhi hlo)
      unfold Verifies
      rw [slab_reset r hopen, hsame]
      exact hctx
  · rw [reset_of_refused r hopen]
    exact iff_of_true hctx (fun h => absurd h hopen)

end WorkflowContext

/-! ### The other writers -/

theorem verifies_startContext (workflowId runId workflowTypeId namespaceId taskQueueHash : UInt64)
    (totalSteps : UInt32) (input : Option Bytes) (now : Nat) :
    (startContext workflowId runId workflowTypeId namespaceId taskQueueHash
      totalSteps input now).Verifies :=
  SlabHeader.verifyMerkleRoot_new workflowId runId totalSteps

namespace WorkflowContext

theorem Verifies.completeStep {ctx : WorkflowContext} (h : ctx.Verifies) (step : UInt32)
    (result : Bytes) : (ctx.completeStep step result).Verifies :=
  SlabHeader.verifyMerkleRoot_markStepCompleted h step.toNat

theorem Verifies.signalIfRunning {ctx : WorkflowContext} (h : ctx.Verifies) (n : UInt64)
    (payload : Bytes) : (ctx.signalIfRunning n payload).Verifies := by
  unfold WorkflowContext.signalIfRunning
  split <;> exact h

theorem Verifies.mergeSteps {ctx : WorkflowContext} (h : ctx.Verifies)
    (steps : List (UInt32 × Option Bytes)) : (ctx.mergeSteps steps).2.Verifies :=
  mergeSteps_induction h (fun _ _ _ hctx => hctx.completeStep _ _)

theorem Verifies.replayContextUpdate {ctx : WorkflowContext} (h : ctx.Verifies) (now : Nat)
    (record : WalRecord) : (replayContextUpdate now record ctx).Verifies := by
  unfold Velocity.replayContextUpdate
  split
  · split
    · exact h.completeStep _ _
    · exact h
  · split <;> exact h
  all_goals exact h

end WorkflowContext

def Effect.KeepsRoots : Effect → Prop
  | .insert _ ctx | .insertIfAbsent _ ctx => ctx.Verifies
  | .update _ u => ∀ ctx : WorkflowContext, ctx.Verifies → (u.apply ctx).Verifies
  | .remove _ => True

theorem Effect.KeepsRoots.keepsIn {effect : Effect} (h : effect.KeepsRoots)
    (p : WorkflowContextPool WorkflowContext) : effect.KeepsIn WorkflowContext.Verifies p := by
  cases effect with
  | update key u => exact fun ctx _ hctx => h ctx hctx
  | _ => exact h

theorem keepsRoots_of_replayEffect {now : Nat} {record : WalRecord} {effect : Effect}
    (h : replayEffect now record = some effect) : effect.KeepsRoots := by
  rcases eq_of_replayEffect h with ⟨fields, rfl⟩ | rfl
  · exact verifies_startContext ..
  · exact fun ctx hctx => hctx.replayContextUpdate now record

namespace WorkflowEngine

/-- **Every writer but the reset** computes the root last. -/
theorem keepsRoots_of_mem_effects {e : WorkflowEngine} {op : EngineOp}
    (hop : ∀ key r, op ≠ .resetWorkflow key r) : ∀ effect ∈ e.effects op, effect.KeepsRoots := by
  intro effect heffect
  obtain ⟨move, hmove, rfl⟩ := List.mem_map.mp heffect
  cases isMove_of_mem_moves hmove with
  | start | successor => exact verifies_startContext ..
  | step k s r h => exact fun _ hctx => hctx.completeStep s r
  | signal k n d h => exact fun _ hctx => hctx.signalIfRunning n d
  | close k h => cases h <;> exact fun _ hctx => hctx
  | reset k r h => exact absurd h (hop k r)
  | rewrite k h =>
    intro ctx hctx
    unfold WorkflowContext.Verifies
    rw [(slab_stepResults_of_isSide h ctx).1]
    exact hctx
  | merge k steps => exact fun _ hctx => hctx.mergeSteps steps
  | replay record h => exact keepsRoots_of_replayEffect h
  | remove k => trivial

theorem slabsVerify_step_iff {e : WorkflowEngine} (he : e.SlabsVerify) {op : EngineOp}
    (hfree : e.CollisionFree op) : (e.step op).SlabsVerify ↔ e.ClearsNoFlag op := by
  by_cases hop : ∃ key r, op = .resetWorkflow key r
  · obtain ⟨key, r, rfl⟩ := hop
    have hstep : (e.step (.resetWorkflow key r)).workflows
        = e.workflows.modify key (fun ctx => (ctx.reset r).2) := step_workflows e _
    unfold SlabsVerify
    rw [hstep]
    rw [he.modify_iff]
    exact forall₂_congr (fun ctx hctx =>
      WorkflowContext.verifies_reset_iff (he.lookup hctx) r (hfree ctx hctx))
  · have hother : ∀ key r, op ≠ .resetWorkflow key r := fun key r h => hop ⟨key, r, h⟩
    refine iff_of_true ?_ ?_
    · refine all_step he (stepsMeet_of_mem (fun effect heffect p => ?_))
      exact (keepsRoots_of_mem_effects hother effect heffect).keepsIn p
    · cases op with
      | resetWorkflow key r => exact absurd rfl (hother key r)
      | _ => trivial

end WorkflowEngine

/-! ### Runs -/

/-- **Slab integrity** holds along a run iff no reset lowers a flag that is up. -/
theorem slabsVerify_iff_clearsNoFlag (wal : Option WalManager) (config : DurabilityConfig)
    (now : Nat) (ops : List EngineOp)
    (hfree : StepsMeet step WorkflowEngine.CollisionFree
      (new wal config now) ops) :
    (∀ ps, ps <+: ops → ((new wal config now).run ps).SlabsVerify)
      ↔ StepsMeet step WorkflowEngine.ClearsNoFlag
          (new wal config now) ops := by
  have hnew : (new wal config now).SlabsVerify := WorkflowContextPool.all_new _
  exact forall_prefixes_iff_stepsMeet (I := WorkflowEngine.SlabsVerify) (fun _ => id)
    (fun _ _ he hop => (slabsVerify_step_iff he hop).mpr)
    (fun _ _ he hop => (slabsVerify_step_iff he hop).mp) hnew hfree

end Integrity

theorem slabsVerify_reset_tail :
    ((new none .strict 0).run
      [.startWorkflow 1 1 0 1 2 none, .completeStep 1 0 [42], .resetWorkflow 1 1,
        .completeStep 1 1 [43], .getSlab 1]).SlabsVerify :=
  (slabsVerify_iff_clearsNoFlag none .strict 0
    [.startWorkflow 1 1 0 1 2 none, .completeStep 1 0 [42], .resetWorkflow 1 1,
      .completeStep 1 1 [43], .getSlab 1] (by decide +kernel)).mpr (by decide +kernel) _
    (List.prefix_refl _)

theorem not_verifyMerkleRoot_reset :
    ((sampleRun [.startWorkflow 1 1 0 1 1 none, .completeStep 1 0 [42]]).workflows.lookup 1).map
        (·.slab.verifyMerkleRoot) = some true
    ∧ ((sampleRun [.startWorkflow 1 1 0 1 1 none, .completeStep 1 0 [42],
        .resetWorkflow 1 0]).workflows.lookup 1).map (·.slab.verifyMerkleRoot) = some false := by
  decide +kernel

end Velocity
