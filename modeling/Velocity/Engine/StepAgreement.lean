import Velocity.Engine.StepProperty

namespace Velocity

open Lib WorkflowEngine

/-!
# Step flags and step results

Flags end at step 255, results do not; a reset treats the two differently.
-/

namespace WorkflowContext

def Agrees (ctx : WorkflowContext) : Prop :=
  ∀ step, ctx.isStepCompleted step = true ↔ (ctx.getStepResult step).isSome = true

/-- The reset is refused, or leaves no flag up past its point. -/
def LowersAll (ctx : WorkflowContext) (resetToEventId : UInt64) : Prop :=
  (ctx.status = .running ∨ ctx.status = .failed) →
    ∀ s < 256, resetToEventId.toNat ≤ s → ctx.slab.totalSteps.toNat ≤ s →
      ctx.slab.stepBitmask.isStepSet s = false

instance (ctx : WorkflowContext) (r : UInt64) : Decidable (ctx.LowersAll r) :=
  inferInstanceAs (Decidable (_ → ∀ s < _, _ → _ → _))

end WorkflowContext

/-- Completed steps have a flag; resets lower those of dropped results. -/
def CtxUpdate.KeepsAgreement : CtxUpdate → WorkflowContext → Prop
  | .completeStep step _, _ => step.toNat < 256
  | .mergeSteps steps, _ => ∀ step ∈ steps, step.1.toNat < 256
  | .replay _ record, _ =>
    record.eventType = .stepCompleted ∧ 4 ≤ record.data.length → record.stepIndex.toNat < 256
  | .reset resetToEventId, ctx => ctx.LowersAll resetToEventId
  | _, _ => True

instance (u : CtxUpdate) (ctx : WorkflowContext) : Decidable (u.KeepsAgreement ctx) := by
  induction u using CtxUpdate.casesOn with
  | completeStep => exact inferInstanceAs (Decidable (_ < _))
  | mergeSteps steps => exact inferInstanceAs (Decidable (∀ step ∈ steps, _ < _))
  | replay => exact inferInstanceAs (Decidable (_ ∧ _ → _ < _))
  | reset => exact inferInstanceAs (Decidable (ctx.LowersAll _))
  | _ => exact instDecidableTrue

/-- Steps reported completed are those with a result. -/
def WorkflowEngine.StepsAgree (e : WorkflowEngine) : Prop :=
  ∀ key step, e.isStepCompleted key step = true ↔ (e.getStepResult key step).isSome = true

theorem stepsAgree_iff (e : WorkflowEngine) :
    e.StepsAgree ↔ ∀ key, ∀ ctx ∈ e.workflows.lookup key, ctx.Agrees := by
  refine forall_congr' (fun key => ?_)
  unfold isStepCompleted getStepResult WorkflowContextPool.withCtx
  cases e.workflows.lookup key with
  | none => simp
  | some ctx => simp [WorkflowContext.Agrees]

section Agreement

variable [Sha256]

/-! ### What each writer does -/

namespace WorkflowContext

theorem agrees_completeStep_iff {ctx : WorkflowContext} (h : ctx.Agrees) (step : UInt32)
    (result : Bytes) : (ctx.completeStep step result).Agrees ↔ step.toNat < 256 := by
  unfold Agrees
  simp only [isStepCompleted_completeStep, getStepResult_completeStep]
  constructor
  · intro hafter
    by_contra hbeyond
    -- the step has a result now, and no flag can say so
    have hflag : ctx.isStepCompleted step = false :=
      Bitmask256.isStepSet_of_ge _ (Nat.le_of_not_lt hbeyond)
    simpa [hflag, hbeyond] using hafter step
  · intro hlt s
    by_cases hs : s = step
    · simp [hs, hlt]
    · simp [hs, h s]

omit [Sha256] in
theorem agrees_reset_iff {ctx : WorkflowContext} (h : ctx.Agrees) (r : UInt64) :
    (ctx.reset r).2.Agrees ↔ ctx.LowersAll r := by
  by_cases hopen : ctx.status = .running ∨ ctx.status = .failed
  · unfold Agrees
    simp only [isStepCompleted_reset r hopen, getStepResult_reset r hopen]
    constructor
    · intro hafter _ s hs hr htotal
      have hnat : (UInt32.ofNat s).toNat = s :=
        UInt32.toNat_ofNat_of_lt' (by simp only [UInt32.size]; omega)
      have hstep := hafter (UInt32.ofNat s)
      rw [hnat, if_neg (by omega), decide_eq_false (by omega)] at hstep
      have hflag : ctx.isStepCompleted (UInt32.ofNat s) = false := by simpa using hstep
      rwa [isStepCompleted, hnat] at hflag
    · intro hlowers s
      by_cases hr : s.toNat < r.toNat
      · simp [hr, Nat.not_le.mpr hr, h s]
      · -- from the reset point on there is no result left, so no flag may be
        simp only [if_neg hr, Option.isSome_none, Bool.false_eq_true, iff_false,
          Bool.and_eq_true, Bool.not_eq_true', decide_eq_false_iff_not, not_and]
        intro hset hin
        have hlt : s.toNat < 256 := by
          by_contra hge
          rw [isStepCompleted, Bitmask256.isStepSet_of_ge _ (by omega)] at hset
          exact Bool.false_ne_true hset
        have hdown := hlowers hopen s.toNat hlt (by omega) (by omega)
        rw [isStepCompleted, hdown] at hset
        exact Bool.false_ne_true hset
  · rw [reset_of_refused r hopen]
    exact iff_of_true h (fun hstatus => absurd hstatus hopen)

theorem Agrees.mergeSteps {ctx : WorkflowContext} (h : ctx.Agrees)
    {steps : List (UInt32 × Option Bytes)} (hsteps : ∀ step ∈ steps, step.1.toNat < 256) :
    (ctx.mergeSteps steps).2.Agrees :=
  mergeSteps_induction h (fun _ step hstep hctx =>
    (agrees_completeStep_iff hctx _ _).mpr (hsteps step hstep))

end WorkflowContext

theorem agrees_startContext (workflowId runId workflowTypeId namespaceId taskQueueHash : UInt64)
    (totalSteps : UInt32) (input : Option Bytes) (now : Nat) :
    (startContext workflowId runId workflowTypeId namespaceId taskQueueHash
      totalSteps input now).Agrees := by
  intro step
  simp

theorem stepProperty_agrees : StepProperty WorkflowContext.Agrees CtxUpdate.KeepsAgreement where
  congr h hslab hresults step := by
    rw [WorkflowContext.isStepCompleted, WorkflowContext.getStepResult, hslab, hresults]
    exact h step
  fresh := agrees_startContext
  completeStep_iff step result h := WorkflowContext.agrees_completeStep_iff h step result
  reset_iff r h := WorkflowContext.agrees_reset_iff h r
  mergeSteps h hsteps := h.mergeSteps hsteps
  replay hgood htype hlen := hgood ⟨htype, hlen⟩
  quiet u ctx hu := by
    cases u with
    | completeStep | mergeSteps | reset | replay => exact absurd trivial hu
    | _ => trivial

/-! ### Runs -/

/-- **Flags and results agree** iff steps stay below 256 and no reset leaves a late flag up. -/
theorem stepsAgree_iff_keepsAgreement (wal : Option WalManager) (config : DurabilityConfig)
    (now : Nat) (ops : List EngineOp) (hrec : StepsMeet WorkflowEngine.step
      (fun e op => op.IsRecovery → e.Admits CtxUpdate.KeepsAgreement op)
      (WorkflowEngine.new wal config now) ops) :
    (∀ ps, ps <+: ops → ((WorkflowEngine.new wal config now).run ps).StepsAgree)
      ↔ StepsMeet WorkflowEngine.step (WorkflowEngine.Admits CtxUpdate.KeepsAgreement)
          (WorkflowEngine.new wal config now) ops := by
  simp only [stepsAgree_iff]
  exact forall_prefixes_iff_admits stepProperty_agrees wal config now ops hrec

end Agreement

theorem stepsAgree_reset_recover :
    ((WorkflowEngine.withWal 1024 3 .strict 0).run
      [.startWorkflow 1 1 0 1 2 none, .completeStep 1 0 [42], .completeStep 1 1 [43],
        .resetWorkflow 1 0, .completeStep 1 255 [44], .recoverFromWal]).StepsAgree :=
  (stepsAgree_iff_keepsAgreement (some (WalManager.withRetention (fun _ => none) 1024 3)) .strict 0
    [.startWorkflow 1 1 0 1 2 none, .completeStep 1 0 [42], .completeStep 1 1 [43],
      .resetWorkflow 1 0, .completeStep 1 255 [44], .recoverFromWal] (by decide +kernel)).mpr
    (by decide +kernel) _ (List.prefix_refl _)

theorem stepsAgree_fails_beyond_ranges :
    (let e := sampleRun [.startWorkflow 1 1 0 1 300 none, .completeStep 1 256 [42]];
      (e.isStepCompleted 1 256, e.getStepResult 1 256) = (false, some [42]))
    ∧ (let e := sampleRun [.startWorkflow 1 1 0 1 1 none, .completeStep 1 5 [42],
        .resetWorkflow 1 0];
      (e.isStepCompleted 1 5, e.getStepResult 1 5) = (true, none)) := by
  decide +kernel

end Velocity
