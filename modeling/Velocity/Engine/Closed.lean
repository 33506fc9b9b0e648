import Velocity.Engine.RunConditions

namespace Velocity

open Lib List WorkflowEngine

/-!
# Closed workflows

No operation that closes a workflow looks at its status first.
-/

def closedView (ctx : WorkflowContext) : WorkflowStatus × Option Bytes :=
  (ctx.status, ctx.resultData)

/-- Step completions, signals, closes, and time. -/
def EngineOp.IsLifecycleOp : EngineOp → Prop
  | .advanceClock _ | .completeStep .. | .completeStepSync .. | .completeStepDurable ..
  | .signalWorkflow .. => True
  | op => op.IsClosingOp

/-- Closed workflows keep their status and result from `p` to `q`. -/
def ClosedKept (p q : WorkflowContextPool WorkflowContext) : Prop :=
  ∀ key ctx, p.lookup key = some ctx → ctx.status.isClosed = true →
    ∃ ctx', q.lookup key = some ctx' ∧ ctx'.status = ctx.status
      ∧ ctx'.resultData = ctx.resultData

namespace WorkflowEngine

variable (e : WorkflowEngine)

def ClosedAs (status : WorkflowStatus) (key : UInt64) : Prop :=
  ∀ ctx ∈ e.workflows.lookup key, ctx.status.isClosed = true → ctx.status = status

def CompletedWith (result : Option Bytes) (key : UInt64) : Prop :=
  ∀ ctx ∈ e.workflows.lookup key, ctx.status.isClosed = true →
    ctx.status = .completed ∧ ctx.resultData = result

/-- No closed workflow is met, or one closed the same way. -/
def KeepsClosed : EngineOp → Prop
  | .completeWorkflow key result => e.CompletedWith result key
  | .failWorkflow key => e.ClosedAs .failed key
  | .cancelWorkflow key => e.ClosedAs .canceled key
  | .terminateWorkflow key => e.ClosedAs .terminated key
  | .applyParentClosePolicy parentKey .terminate =>
    ∀ childKey ∈ e.childKeys parentKey, e.ClosedAs .terminated childKey
  | .applyParentClosePolicy parentKey .cancel =>
    ∀ childKey ∈ e.childKeys parentKey, e.ClosedAs .canceled childKey
  | .checkWorkflowTimeouts => ∀ key ∈ e.timedOutKeys, e.ClosedAs .terminated key
  | _ => True

instance (e : WorkflowEngine) (status : WorkflowStatus) (key : UInt64) :
    Decidable (e.ClosedAs status key) :=
  inferInstanceAs (Decidable (∀ ctx ∈ e.workflows.lookup key, _ → _ = status))

instance (e : WorkflowEngine) (result : Option Bytes) (key : UInt64) :
    Decidable (e.CompletedWith result key) :=
  inferInstanceAs (Decidable (∀ ctx ∈ e.workflows.lookup key, _ → _ ∧ _ = result))

instance (e : WorkflowEngine) (op : EngineOp) : Decidable (e.KeepsClosed op) := by
  induction op using EngineOp.casesOn with
  | completeWorkflow => exact inferInstanceAs (Decidable (e.CompletedWith _ _))
  | failWorkflow | cancelWorkflow | terminateWorkflow =>
    exact inferInstanceAs (Decidable (e.ClosedAs _ _))
  | applyParentClosePolicy parentKey policy =>
    induction policy using ParentClosePolicy.casesOn with
    | abandon => exact instDecidableTrue
    | terminate | cancel =>
      exact inferInstanceAs (Decidable (∀ key ∈ e.childKeys parentKey, e.ClosedAs _ key))
  | checkWorkflowTimeouts =>
    exact inferInstanceAs (Decidable (∀ key ∈ e.timedOutKeys, e.ClosedAs _ key))
  | _ => exact instDecidableTrue

/-- A timeout meets running workflows only. -/
theorem keepsClosed_checkWorkflowTimeouts {e : WorkflowEngine} (hwf : e.workflows.WellFormed) :
    e.KeepsClosed .checkWorkflowTimeouts := by
  intro key hkey ctx hctx hclosed
  obtain ⟨⟨key', running⟩, hentry, rfl⟩ := mem_map.mp hkey
  obtain ⟨hmem, htimedOut⟩ := mem_filter.mp hentry
  have hfound := hwf.lookup_of_mem_entries hmem
  have hsame : running = ctx := Option.some.inj (hfound.symm.trans hctx)
  simp only [Bool.and_eq_true, beq_iff_eq] at htimedOut
  rw [← hsame, htimedOut.1] at hclosed
  cases hclosed

end WorkflowEngine

/-! ### Closing in a pool -/

theorem closedKept_refl (p : WorkflowContextPool WorkflowContext) : ClosedKept p p :=
  fun _ ctx hctx _ => ⟨ctx, hctx, rfl, rfl⟩

theorem ClosedKept.trans {p q r : WorkflowContextPool WorkflowContext} (h : ClosedKept p q)
    (h' : ClosedKept q r) : ClosedKept p r := by
  intro key ctx hctx hclosed
  obtain ⟨ctx', hctx', hstatus, hresult⟩ := h key ctx hctx hclosed
  obtain ⟨ctx'', hctx'', hstatus', hresult'⟩ := h' key ctx' hctx' (hstatus ▸ hclosed)
  exact ⟨ctx'', hctx'', hstatus'.trans hstatus, hresult'.trans hresult⟩

@[simp] theorem closedView_complete (ctx : WorkflowContext) (now : Nat) (r : Option Bytes) :
    closedView (ctx.complete now r) = closedView ctx
      ↔ ctx.status = .completed ∧ ctx.resultData = r := by
  rw [closedView, closedView, Prod.mk.injEq]
  exact and_congr eq_comm eq_comm

@[simp] theorem closedView_status (ctx : WorkflowContext) (now : Nat) (status : WorkflowStatus) :
    closedView { ctx with status := status, closeTime := some now } = closedView ctx
      ↔ ctx.status = status := by
  rw [closedView, closedView, Prod.mk.injEq]
  exact ⟨fun h => h.1.symm, fun h => ⟨h.symm, rfl⟩⟩

theorem closedKept_modify {p : WorkflowContextPool WorkflowContext} {key : UInt64}
    {f : WorkflowContext → WorkflowContext} (hf : ∀ ctx, closedView (f ctx) = closedView ctx) :
    ClosedKept p (p.modify key f) := by
  intro k ctx hctx _
  rw [WorkflowContextPool.lookup_modify, hctx]
  split
  · exact ⟨f ctx, rfl, (Prod.ext_iff.mp (hf ctx)).1, (Prod.ext_iff.mp (hf ctx)).2⟩
  · exact ⟨ctx, rfl, rfl, rfl⟩

section Step

variable [Sha256]

theorem lookup_foldl_update {u : CtxUpdate} (hu : ∀ ctx, u.apply (u.apply ctx) = u.apply ctx)
    (keys : List UInt64) (p : WorkflowContextPool WorkflowContext) (k : UInt64) :
    ((keys.map (Effect.update · u)).foldl Effect.apply p).lookup k
      = if k ∈ keys then (p.lookup k).map u.apply else p.lookup k := by
  induction keys generalizing p with
  | nil => rfl
  | cons key keys ih =>
    have hhead : (Effect.apply p (.update key u)).lookup k
        = if k = key then (p.lookup k).map u.apply else p.lookup k :=
      WorkflowContextPool.lookup_modify p key u.apply k
    rw [map_cons, foldl_cons, ih, hhead]
    by_cases hkey : k = key
    · rw [if_pos hkey, if_pos (mem_cons.mpr (Or.inl hkey))]
      split
      · rw [Option.map_map]
        exact congrArg (Option.map · (p.lookup k)) (funext hu)
      · rfl
    · simp only [mem_cons, hkey, false_or, if_false]

theorem closedKept_foldl_update {u : CtxUpdate}
    (hu : ∀ ctx, u.apply (u.apply ctx) = u.apply ctx) (keys : List UInt64)
    (p : WorkflowContextPool WorkflowContext) :
    ClosedKept p ((keys.map (Effect.update · u)).foldl Effect.apply p)
      ↔ ∀ key ∈ keys, ∀ ctx ∈ p.lookup key, ctx.status.isClosed = true →
          closedView (u.apply ctx) = closedView ctx := by
  constructor
  · intro hkept key hkey ctx hctx hclosed
    obtain ⟨ctx', hctx', hstatus, hresult⟩ := hkept key ctx hctx hclosed
    rw [lookup_foldl_update hu, if_pos hkey, Option.mem_def.mp hctx] at hctx'
    cases hctx'
    exact Prod.ext hstatus hresult
  · intro hsame key ctx hctx hclosed
    rw [lookup_foldl_update hu, hctx]
    split
    · next hkey =>
      have hview := Prod.ext_iff.mp (hsame key hkey ctx hctx hclosed)
      exact ⟨u.apply ctx, rfl, hview.1, hview.2⟩
    · exact ⟨ctx, rfl, rfl, rfl⟩

namespace WorkflowEngine

theorem closedKept_status_iff (e : WorkflowEngine) {u : CtxUpdate} {status : WorkflowStatus}
    (hu : ∀ ctx, u.apply ctx = { ctx with status := status, closeTime := some e.now })
    (keys : List UInt64) :
    ClosedKept e.workflows ((keys.map (Effect.update · u)).foldl Effect.apply e.workflows)
      ↔ ∀ key ∈ keys, e.ClosedAs status key := by
  have htwice : ∀ ctx, u.apply (u.apply ctx) = u.apply ctx := fun ctx => by simp only [hu]
  rw [closedKept_foldl_update htwice]
  simp only [hu, closedView_status, ClosedAs]

theorem closedKept_step_iff {e : WorkflowEngine} {op : EngineOp} (hop : op.IsLifecycleOp) :
    ClosedKept e.workflows (e.step op).workflows ↔ e.KeepsClosed op := by
  rw [step_workflows]
  cases op with
  | advanceClock ms => exact iff_of_true (closedKept_refl _) trivial
  | completeStep k s r | completeStepSync k s r | completeStepDurable k s r =>
    exact iff_of_true (closedKept_modify (fun _ => rfl)) trivial
  | signalWorkflow k n d =>
    refine iff_of_true (closedKept_modify (fun ctx => ?_)) trivial
    show closedView (ctx.signalIfRunning n d) = _
    unfold WorkflowContext.signalIfRunning
    split <;> rfl
  | completeWorkflow k r =>
    refine (closedKept_foldl_update (u := .complete e.now r) (fun _ => rfl) [k] _).trans ?_
    simp [CtxUpdate.apply, KeepsClosed, CompletedWith]
  | failWorkflow k =>
    exact (e.closedKept_status_iff (u := .fail e.now) (fun _ => rfl) [k]).trans
      forall_mem_singleton
  | cancelWorkflow k =>
    exact (e.closedKept_status_iff (u := .cancel e.now) (fun _ => rfl) [k]).trans
      forall_mem_singleton
  | terminateWorkflow k =>
    exact (e.closedKept_status_iff (u := .terminate e.now) (fun _ => rfl) [k]).trans
      forall_mem_singleton
  | applyParentClosePolicy k policy =>
    rw [effects, moves, map_filterMap]
    cases policy with
    | terminate =>
      rw [show (e.childKeys k).filterMap _
          = (e.childKeys k).map (Effect.update · (.terminate e.now)) from
        filterMap_eq_map ▸ rfl]
      exact e.closedKept_status_iff (fun _ => rfl) _
    | cancel =>
      rw [show (e.childKeys k).filterMap _
          = (e.childKeys k).map (Effect.update · (.cancel e.now)) from
        filterMap_eq_map ▸ rfl]
      exact e.closedKept_status_iff (fun _ => rfl) _
    | abandon =>
      have hnone : (e.childKeys k).filterMap
          (fun k => (ParentClosePolicy.abandon.move e.now k).map (·.effect)) = [] :=
        filterMap_eq_nil_iff.mpr (fun _ _ => rfl)
      rw [hnone]
      exact iff_of_true (closedKept_refl _) trivial
  | checkWorkflowTimeouts =>
    rw [effects, moves, map_map]
    exact e.closedKept_status_iff (u := .terminate e.now) (fun _ => rfl) e.timedOutKeys
  | _ => exact hop.elim

end WorkflowEngine

/-! ### Runs -/

/-- **Closed workflows stay closed** iff no closing operation reaches one that it would change. -/
theorem closedKept_iff_keepsClosed (e : WorkflowEngine) (ops : List EngineOp)
    (hops : ∀ op ∈ ops, op.IsLifecycleOp) :
    (∀ ps qs, ps ++ qs <+: ops → ClosedKept (e.run ps).workflows (e.run (ps ++ qs)).workflows)
      ↔ StepsMeet step WorkflowEngine.KeepsClosed e ops := by
  constructor
  · intro hkept
    refine (stepsMeet_iff_prefixes e ops).mpr (fun ps op hpre => ?_)
    have hop : op.IsLifecycleOp := hops op (hpre.subset (by simp))
    refine (closedKept_step_iff hop).mp ?_
    have hstep := hkept ps [op] hpre
    rwa [run, run, foldl_append] at hstep
  · intro hmeet ps qs hpre
    have hqs : ∀ op ∈ qs, op.IsLifecycleOp := fun op hop =>
      hops op (hpre.subset (mem_append_right ps hop))
    -- the part of the run after `ps` meets the condition too
    have hrest := ((stepsMeet_append e ps qs).mp (hmeet.initial hpre)).2
    rw [run, run, foldl_append]
    refine foldl_invariant (I := fun e' => ClosedKept (ps.foldl step e).workflows
      e'.workflows) (fun e' op hkept hgood => ?_) qs _ (closedKept_refl _)
      ((stepsMeet_of_forall hqs).and hrest)
    exact hkept.trans ((closedKept_step_iff hgood.1).mpr hgood.2)

end Step

theorem closedKept_completed_again :
    (sampleRun [.startWorkflow 1 1 0 1 2 none, .completeWorkflow 1 (some [42])]).getStatus 1
      = .completed
    ∧ ClosedKept
        (sampleRun [.startWorkflow 1 1 0 1 2 none, .completeWorkflow 1 (some [42])]).workflows
        ((sampleRun [.startWorkflow 1 1 0 1 2 none, .completeWorkflow 1 (some [42])]).run
          [.completeStep 1 0 [7], .signalWorkflow 1 5 [8],
            .completeWorkflow 1 (some [42])]).workflows :=
  ⟨by decide +kernel,
    (closedKept_iff_keepsClosed
      (sampleRun [.startWorkflow 1 1 0 1 2 none, .completeWorkflow 1 (some [42])])
      [.completeStep 1 0 [7], .signalWorkflow 1 5 [8], .completeWorkflow 1 (some [42])]
      (by simp [EngineOp.IsLifecycleOp, EngineOp.IsClosingOp])).mpr (by decide +kernel) [] _
      (prefix_refl _)⟩

theorem closed_status_result_overwritten :
    (sampleRun [.startWorkflow 1 1 0 1 2 none, .completeWorkflow 1 (some [42])]).getStatus 1
        = .completed
    ∧ (sampleRun [.startWorkflow 1 1 0 1 2 none, .completeWorkflow 1 (some [42]),
        .cancelWorkflow 1]).getStatus 1 = .canceled
    ∧ ((sampleRun [.startWorkflow 1 1 0 1 2 none, .completeWorkflow 1 (some [42])]).workflows.lookup
        1).map (·.resultData) = some (some [42])
    ∧ ((sampleRun [.startWorkflow 1 1 0 1 2 none, .completeWorkflow 1 (some [42]),
        .completeWorkflow 1 (some [7])]).workflows.lookup 1).map (·.resultData)
        = some (some [7]) := by
  decide +kernel

end Velocity
