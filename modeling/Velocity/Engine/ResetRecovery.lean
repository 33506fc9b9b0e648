import Velocity.Engine.RunConditions

namespace Velocity

open Lib WorkflowEngine

/-!
# Recovery after resets and continuations

Resets and continuations log nothing, so a recovery undoes them.
-/

def completedView (ctx : WorkflowContext) : WorkflowStatus × Bitmask256 :=
  (ctx.status, ctx.slab.stepBitmask)

/-- Starts, steps, failures, resets, continuations, and time. -/
def EngineOp.IsResetOp : EngineOp → Prop
  | .advanceClock _ | .startWorkflow .. | .completeStep .. | .completeStepSync ..
  | .completeStepDurable .. | .failWorkflow .. | .resetWorkflow .. | .continueAsNew .. => True
  | _ => False

/-- The reset is refused, or clears nothing that was completed. -/
def WorkflowContext.ResetKeeps (ctx : WorkflowContext) (resetToEventId : UInt64) : Prop :=
  ctx.status ≠ .failed ∧ (ctx.status = .running →
    ∀ s < ctx.slab.totalSteps.toNat, resetToEventId.toNat ≤ s →
      ctx.slab.stepBitmask.isStepSet s = false)

instance (ctx : WorkflowContext) (r : UInt64) : Decidable (ctx.ResetKeeps r) :=
  inferInstanceAs (Decidable (_ ∧ (_ → ∀ s < _, _ → _)))

def WorkflowContext.IsBlank (ctx : WorkflowContext) : Prop :=
  ctx.workflowId = 0 ∧ ctx.workflowTypeId = 0 ∧ ctx.namespaceId = 0

instance (ctx : WorkflowContext) : Decidable ctx.IsBlank :=
  inferInstanceAs (Decidable (_ ∧ _ ∧ _))

/-- No unlogged change to a status, a flag or the keys. -/
def WorkflowEngine.KeepsUnlogged (e : WorkflowEngine) : EngineOp → Prop
  | .resetWorkflow key resetToEventId =>
    ∀ ctx ∈ e.workflows.lookup key, ctx.ResetKeeps resetToEventId
  | .continueAsNew key _ => ∀ ctx ∈ e.workflows.lookup key, ctx.IsBlank
  | _ => True

instance (e : WorkflowEngine) (op : EngineOp) : Decidable (e.KeepsUnlogged op) := by
  induction op using EngineOp.casesOn with
  | resetWorkflow key | continueAsNew key =>
    exact inferInstanceAs (Decidable (∀ ctx ∈ e.workflows.lookup key, _))
  | _ => exact instDecidableTrue

/-! ### The view of each update -/

theorem completedView_reset {c : WorkflowContext} {resetToEventId : UInt64}
    (h : c.ResetKeeps resetToEventId) :
    completedView (c.reset resetToEventId).2 = completedView c := by
  unfold WorkflowContext.reset
  split
  · rfl
  · next hstatus =>
    -- running, and no cleared flag was up
    have hrunning : c.status = .running := by
      by_contra hne
      exact hstatus ⟨hne, h.1⟩
    have hmask : c.slab.stepBitmask.clearSteps resetToEventId.toNat c.slab.totalSteps.toNat
        = c.slab.stepBitmask :=
      Bitmask256.clearSteps_of_not_set (fun s hlo hhi => h.2 hrunning s hhi hlo)
    show (WorkflowStatus.running, _) = (c.status, c.slab.stepBitmask)
    rw [hrunning, hmask]

theorem moves_continueAsNew_of_blank [Sha256] {e : WorkflowEngine} {k : UInt64}
    (h : ∀ ctx ∈ e.workflows.lookup k, ctx.IsBlank) (input : Option Bytes) :
    e.moves (.continueAsNew k input) = [] := by
  simp only [moves]
  split
  · rfl
  · next old hold => exact if_pos (h old hold)

section Recovery

variable [Sha256]

theorem completedView_completeStep {c d : WorkflowContext} (h : completedView c = completedView d)
    (s : UInt32) (r : Bytes) :
    completedView (c.completeStep s r) = completedView (d.completeStep s r) := by
  obtain ⟨hstatus, hmask⟩ := by simpa only [completedView, Prod.mk.injEq] using h
  simp only [completedView, WorkflowContext.completeStep,
    SlabHeader.stepBitmask_markStepCompleted, hstatus, hmask]

/-- **The moves of these operations mirror** on statuses and flags. -/
theorem movesMirror_of_isResetOp (now : Nat) {e : WorkflowEngine} {op : EngineOp}
    (hop : op.IsResetOp) (hkeeps : e.KeepsUnlogged op) (habsent : e.StartsAbsent op) :
    MovesMirror (fun c d => completedView c = completedView d) now e.workflows (e.moves op) := by
  cases op with
  | advanceClock ms => trivial
  | startWorkflow w t ns tq total input =>
    exact ⟨mirrors_startMove (fun _ _ _ _ => rfl) (habsent _ rfl), trivial⟩
  | completeStep k s r | completeStepSync k s r | completeStepDurable k s r =>
    exact ⟨mirrors_completeStep (fun _ _ hcd => completedView_completeStep hcd s r), trivial⟩
  | failWorkflow k =>
    exact ⟨mirrors_logged (r := ⟨.workflowFailed, k, []⟩) (by simp)
      (fun _ _ _ hcd => Prod.ext rfl (Prod.ext_iff.mp hcd).2), trivial⟩
  | resetWorkflow k r =>
    refine ⟨mirrors_silent (fun c d hc hcd => ?_), trivial⟩
    exact (completedView_reset (hkeeps c hc)).trans hcd
  | continueAsNew k input =>
    rw [moves_continueAsNew_of_blank hkeeps]
    trivial
  | _ => exact hop.elim

theorem addsStarted_of_isResetOp {e : WorkflowEngine} {op : EngineOp} (hop : op.IsResetOp)
    (hkeeps : e.KeepsUnlogged op) : e.AddsStarted op := by
  cases op with
  | continueAsNew k input =>
    intro effect heffect
    rw [effects, moves_continueAsNew_of_blank hkeeps] at heffect
    cases heffect
  | startChildWorkflow | signalWithStart | purgeWorkflow | recoverFromWal => exact hop.elim
  | _ => exact addsStarted_of_startsOnly trivial

/-! ### Recovery -/

/-- **Resets across recovery**: harmless if they change no status and no flag. -/
theorem recovered_completedView (maxFileSize retainCount : Nat) (config : DurabilityConfig)
    (start now : Nat) (ops : List EngineOp) (hops : ∀ op ∈ ops, op.IsResetOp)
    (honce : (ops.filterMap EngineOp.startedKey).Nodup) (hpayload : ∀ op ∈ ops, op.PayloadFits)
    (hkeeps : StepsMeet WorkflowEngine.step WorkflowEngine.KeepsUnlogged
      (WorkflowEngine.withWal maxFileSize retainCount config start) ops)
    (hretained : ((WorkflowEngine.withWal maxFileSize retainCount config start).run
      ops).StartsRetained) (key : UInt64) (c : WorkflowContext)
    (hlive : ((WorkflowEngine.withWal maxFileSize retainCount config start).run
      ops).workflows.lookup key = some c) :
    ∃ d, (((WorkflowEngine.withWal maxFileSize retainCount config start).run ops).recovered
        now).workflows.lookup key = some d
      ∧ d.status = c.status ∧ d.slab.stepBitmask = c.slab.stepBitmask := by
  have hmeet : StepsMeet WorkflowEngine.step (fun e op => op.IsResetOp ∧ e.KeepsUnlogged op)
      (WorkflowEngine.withWal maxFileSize retainCount config start) ops :=
    (stepsMeet_of_forall hops).and hkeeps
  have hview := map_eq_of_rel (rel_recovered
    (fun _ _ hop => addsStarted_of_isResetOp hop.1 hop.2)
    (fun _ _ hop => movesMirror_of_isResetOp now hop.1 hop.2) honce hpayload hmeet hretained key)
  rw [hlive, Option.map_some] at hview
  obtain ⟨d, hd, hcd⟩ := Option.map_eq_some_iff.mp hview.symm
  exact ⟨d, hd, congrArg Prod.fst hcd, congrArg Prod.snd hcd⟩

end Recovery

theorem recovered_completedView_reset_tail :
    ∃ c d, (sampleRun [.startWorkflow 1 1 0 1 2 none, .completeStep 1 0 [42],
        .resetWorkflow 1 1]).workflows.lookup 1 = some c
      ∧ (sampleRun [.startWorkflow 1 1 0 1 2 none, .completeStep 1 0 [42], .resetWorkflow 1 1]
          |>.recovered 9).workflows.lookup 1 = some d
      ∧ d.status = c.status ∧ d.slab.stepBitmask = c.slab.stepBitmask := by
  have hlive : ((sampleRun [.startWorkflow 1 1 0 1 2 none, .completeStep 1 0 [42],
      .resetWorkflow 1 1]).workflows.lookup 1).isSome = true := by decide +kernel
  obtain ⟨c, hc⟩ := Option.isSome_iff_exists.mp hlive
  obtain ⟨d, hd⟩ := recovered_completedView 1024 3 .strict 0 9
    [.startWorkflow 1 1 0 1 2 none, .completeStep 1 0 [42], .resetWorkflow 1 1]
    (by simp [EngineOp.IsResetOp]) (by decide) (by simp [EngineOp.PayloadFits])
    (by decide +kernel) (by decide +kernel) 1 c hc
  exact ⟨c, d, hc, hd⟩

theorem recovered_undoes_reset_continueAsNew :
    (((sampleRun [.startWorkflow 1 1 0 1 2 none, .completeStep 1 0 [42],
        .resetWorkflow 1 0]).workflows.lookup 1).map (·.isStepCompleted 0) = some false
      ∧ ((sampleRun [.startWorkflow 1 1 0 1 2 none, .completeStep 1 0 [42], .resetWorkflow 1 0]
          |>.recovered 9).workflows.lookup 1).map (·.isStepCompleted 0) = some true)
    ∧ ((sampleRun [.startWorkflow 7 1 0 1 2 none,
        .continueAsNew 7 none]).workflows.lookup 7).map (·.status) = some .continuedAsNew
      ∧ ((sampleRun [.startWorkflow 7 1 0 1 2 none,
          .continueAsNew 7 none]).workflows.lookup 2).map (·.status) = some .running
      ∧ ((sampleRun [.startWorkflow 7 1 0 1 2 none, .continueAsNew 7 none]
          |>.recovered 9).workflows.lookup 7).map (·.status) = some .running
      ∧ (sampleRun [.startWorkflow 7 1 0 1 2 none, .continueAsNew 7 none]
          |>.recovered 9).workflows.lookup 2 = none := by
  decide +kernel

end Velocity
