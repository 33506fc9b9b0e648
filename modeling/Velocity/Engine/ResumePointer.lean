import Velocity.Engine.StepProperty

namespace Velocity

open Lib WorkflowEngine

/-!
# The resume pointer

`mark_step_completed` moves past open steps, and `reset_workflow` never moves back.
-/

namespace WorkflowContext

variable (ctx : WorkflowContext)

def Resumes : Prop :=
  ∀ s < ctx.slab.currentStep.toNat, ctx.slab.stepBitmask.isStepSet s = true

/-- Beyond the bitmask, or all steps before it are completed. -/
def CompletesInOrder (step : UInt32) : Prop :=
  256 ≤ step.toNat ∨ ∀ s < step.toNat, ctx.slab.stepBitmask.isStepSet s = true

def ResetsAhead (resetToEventId : UInt64) : Prop :=
  (ctx.status = .running ∨ ctx.status = .failed) →
    ctx.slab.totalSteps.toNat ≤ resetToEventId.toNat
      ∨ ctx.slab.currentStep.toNat ≤ resetToEventId.toNat

instance (ctx : WorkflowContext) (step : UInt32) : Decidable (ctx.CompletesInOrder step) :=
  inferInstanceAs (Decidable (_ ∨ ∀ s < _, _))

instance (ctx : WorkflowContext) (r : UInt64) : Decidable (ctx.ResetsAhead r) :=
  inferInstanceAs (Decidable (_ → _ ∨ _))

end WorkflowContext

/-- No step before `get_current_step` is open. -/
def WorkflowEngine.NeverSkips (e : WorkflowEngine) : Prop :=
  ∀ key step, step < e.getCurrentStep key → e.isStepCompleted key step = true

theorem WorkflowEngine.neverSkips_iff (e : WorkflowEngine) :
    e.NeverSkips ↔ ∀ key, ∀ ctx ∈ e.workflows.lookup key, ctx.Resumes := by
  refine forall_congr' (fun key => ?_)
  unfold getCurrentStep isStepCompleted WorkflowContextPool.withCtx
  cases e.workflows.lookup key with
  | none => simp
  | some ctx =>
    simp only [Option.map_some, Option.getD_some, Option.any_some, Option.mem_def,
      Option.some.injEq, forall_eq', WorkflowContext.Resumes, WorkflowContext.isStepCompleted,
      UInt32.lt_iff_toNat_lt]
    constructor
    · intro h s hs
      have hnat : (UInt32.ofNat s).toNat = s :=
        UInt32.toNat_ofNat_of_lt' (hs.trans (UInt32.toNat_lt_size _))
      have hstep := h (UInt32.ofNat s)
      rw [hnat] at hstep
      exact hstep hs
    · exact fun h step hstep => h step.toNat hstep

section Pointer

variable [Sha256]

/-- Journal entries that are flagged already are passed over. -/
def CtxUpdate.KeepsPointer : CtxUpdate → WorkflowContext → Prop
  | .completeStep step _, ctx => ctx.CompletesInOrder step
  | .mergeSteps steps, ctx => StepsMeet WorkflowContext.mergeStep
      (fun ctx step => ctx.isStepCompleted step.1 = true ∨ ctx.CompletesInOrder step.1) ctx steps
  | .replay _ record, ctx =>
    record.eventType = .stepCompleted ∧ 4 ≤ record.data.length →
      ctx.CompletesInOrder record.stepIndex
  | .reset resetToEventId, ctx => ctx.ResetsAhead resetToEventId
  | _, _ => True

instance (u : CtxUpdate) (ctx : WorkflowContext) : Decidable (u.KeepsPointer ctx) := by
  cases u <;> dsimp only [CtxUpdate.KeepsPointer] <;> infer_instance

/-! ### What each writer does -/

namespace WorkflowContext

theorem resumes_completeStep_iff {ctx : WorkflowContext} (h : ctx.Resumes) (step : UInt32)
    (result : Bytes) : (ctx.completeStep step result).Resumes ↔ ctx.CompletesInOrder step := by
  unfold Resumes CompletesInOrder
  simp only [completeStep, SlabHeader.currentStep_markStepCompleted,
    SlabHeader.stepBitmask_markStepCompleted, Bitmask256.isStepSet_setStep]
  by_cases hlt : step.toNat < 256
  · -- the pointer is now the step's successor, and the step itself has its flag
    have hpointer : (UInt32.ofNat (step.toNat + 1)).toNat = step.toNat + 1 :=
      UInt32.toNat_ofNat_of_lt' (by simp only [UInt32.size]; omega)
    rw [if_pos hlt, hpointer]
    constructor
    · intro hafter
      refine Or.inr (fun s hs => ?_)
      have hflag := hafter s (by omega)
      simpa [Nat.ne_of_lt hs] using hflag
    · rintro (hge | hbefore) s hs
      · omega
      · by_cases heq : s = step.toNat
        · simp [heq, hlt]
        · simp [hbefore s (by omega)]
  · rw [if_neg hlt]
    refine iff_of_true (fun s hs => ?_) (Or.inl (by omega))
    rw [h s hs, Bool.true_or]

omit [Sha256] in
theorem resumes_reset_iff {ctx : WorkflowContext} (h : ctx.Resumes) (r : UInt64) :
    (ctx.reset r).2.Resumes ↔ ctx.ResetsAhead r := by
  by_cases hopen : ctx.status = .running ∨ ctx.status = .failed
  · unfold Resumes ResetsAhead
    rw [slab_reset r hopen]
    simp only [Bitmask256.isStepSet_clearSteps, hopen, true_imp_iff]
    constructor
    · intro hafter
      by_contra hboth
      -- the flag at the reset point is down
      have hpoint := hafter r.toNat (by omega)
      rw [decide_eq_true (by omega), Bool.not_true, Bool.and_false] at hpoint
      exact Bool.false_ne_true hpoint
    · intro hahead s hs
      rw [h s hs, decide_eq_false (by omega)]
      rfl
  · rw [reset_of_refused r hopen]
    exact iff_of_true h (fun hstatus => absurd hstatus hopen)

theorem Resumes.mergeSteps {ctx : WorkflowContext} (h : ctx.Resumes)
    {steps : List (UInt32 × Option Bytes)}
    (hsteps : StepsMeet mergeStep (fun ctx step => ctx.isStepCompleted step.1 = true
      ∨ ctx.CompletesInOrder step.1) ctx steps) : (ctx.mergeSteps steps).2.Resumes := by
  rw [mergeSteps_snd]
  refine foldl_invariant (fun ctx step hctx hstep => ?_) steps ctx h hsteps
  unfold mergeStep
  split
  · next hopen =>
    have hnot : ¬ ctx.isStepCompleted step.1 = true := by simpa using hopen
    exact (resumes_completeStep_iff hctx _ _).mpr (hstep.resolve_left hnot)
  · exact hctx

end WorkflowContext

theorem stepProperty_resumes : StepProperty WorkflowContext.Resumes CtxUpdate.KeepsPointer where
  congr h hslab _ s hs := by
    rw [hslab] at hs ⊢
    exact h s hs
  fresh _ _ _ _ _ _ _ _ s hs := absurd hs (Nat.not_lt_zero s)
  completeStep_iff step result h := WorkflowContext.resumes_completeStep_iff h step result
  reset_iff r h := WorkflowContext.resumes_reset_iff h r
  mergeSteps h hsteps := h.mergeSteps hsteps
  replay hgood htype hlen := hgood ⟨htype, hlen⟩
  quiet u ctx hu := by
    cases u with
    | completeStep | mergeSteps | reset | replay => exact absurd trivial hu
    | _ => trivial

/-! ### Runs -/

/-- **The pointer skips no work** iff steps are completed in order and no reset goes before it. -/
theorem neverSkips_iff_keepsPointer (wal : Option WalManager) (config : DurabilityConfig)
    (now : Nat) (ops : List EngineOp) (hrec : StepsMeet step
      (fun e op => op.IsRecovery → e.Admits CtxUpdate.KeepsPointer op)
      (new wal config now) ops) :
    (∀ ps, ps <+: ops → ((new wal config now).run ps).NeverSkips)
      ↔ StepsMeet step (WorkflowEngine.Admits CtxUpdate.KeepsPointer)
          (new wal config now) ops := by
  simp only [neverSkips_iff]
  exact forall_prefixes_iff_admits stepProperty_resumes wal config now ops hrec

end Pointer

theorem neverSkips_in_order :
    ((withWal 1024 3 .strict 0).run
      [.startWorkflow 1 1 0 1 3 none, .completeStep 1 0 [42], .completeStep 1 1 [43],
        .resetWorkflow 1 2, .recoverFromWal, .completeStep 1 2 [44]]).NeverSkips :=
  (neverSkips_iff_keepsPointer (some (WalManager.withRetention (fun _ => none) 1024 3)) .strict 0
    [.startWorkflow 1 1 0 1 3 none, .completeStep 1 0 [42], .completeStep 1 1 [43],
      .resetWorkflow 1 2, .recoverFromWal, .completeStep 1 2 [44]] (by decide +kernel)).mpr
    (by decide +kernel) _ (List.prefix_refl _)

theorem neverSkips_fails_out_of_order :
    (let e := sampleRun [.startWorkflow 1 1 0 1 8 none, .completeStep 1 5 [42]];
      (e.getCurrentStep 1, e.isStepCompleted 1 0) = (6, false))
    ∧ (let e := sampleRun [.startWorkflow 1 1 0 1 8 none, .completeStep 1 0 [42],
        .resetWorkflow 1 0];
      (e.getCurrentStep 1, e.isStepCompleted 1 0) = (1, false)) := by
  decide +kernel

end Velocity
