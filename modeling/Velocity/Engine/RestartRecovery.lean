import Velocity.Engine.Tracks

namespace Velocity

open Lib WorkflowEngine

/-!
# Recovery of workflows that are started again

A replay inserts only where there is no context: a key is recovered as its first run.
-/

def runView (ctx : WorkflowContext) :
    WorkflowStatus × UInt32 × UInt64 × Bitmask256 × SlotMap Bytes :=
  (ctx.status, ctx.slab.totalSteps, ctx.workflowTypeId, ctx.slab.stepBitmask, ctx.stepResults)

/-- Starting, completing steps, closing, and the passing of time. -/
def EngineOp.IsRunOp : EngineOp → Prop
  | .advanceClock _ | .startWorkflow .. | .completeStep .. | .completeStepSync ..
  | .completeStepDurable .. => True
  | op => op.IsClosingOp

def WorkflowContext.IsFresh (ctx : WorkflowContext) (workflowTypeId : UInt64)
    (totalSteps : UInt32) : Prop :=
  ctx.status = .running ∧ ctx.slab.totalSteps = totalSteps ∧ ctx.workflowTypeId = workflowTypeId
    ∧ ctx.slab.stepBitmask = .new ∧ ctx.stepResults = SlotMap.withCapacity 64

instance (ctx : WorkflowContext) (t : UInt64) (total : UInt32) : Decidable (ctx.IsFresh t total) :=
  inferInstanceAs (Decidable (_ ∧ _ ∧ _ ∧ _ ∧ _))

namespace WorkflowEngine

variable (e : WorkflowEngine)

/-- There is room, and no start in the log or a fresh workflow. -/
def StartsFresh (key workflowTypeId : UInt64) (totalSteps : UInt32) : Prop :=
  ((e.workflows.lookup key).isSome ∨ 0 < e.workflows.available)
    ∧ (¬ HasStart key e.retained
      ∨ ∃ ctx ∈ e.workflows.lookup key, ctx.IsFresh workflowTypeId totalSteps)

instance (e : WorkflowEngine) (key t : UInt64) (total : UInt32) :
    Decidable (e.StartsFresh key t total) :=
  inferInstanceAs (Decidable ((_ ∨ _) ∧ (¬ _ ∨ ∃ ctx ∈ e.workflows.lookup key, _)))

/-- Every start meets `StartsFresh`. -/
def RestartsFresh : EngineOp → Prop
  | .startWorkflow workflowId workflowTypeId namespaceId _ totalSteps _ =>
    e.StartsFresh (workflowKey namespaceId workflowId) workflowTypeId totalSteps
  | _ => True

instance (e : WorkflowEngine) (op : EngineOp) : Decidable (e.RestartsFresh op) := by
  induction op using EngineOp.casesOn with
  | startWorkflow => exact inferInstanceAs (Decidable (e.StartsFresh _ _ _))
  | _ => exact instDecidableTrue

/-- Every workflow held has its start record in the retained log. -/
def KeepsStarts : Prop :=
  ∀ k, (e.workflows.lookup k).isSome → HasStart k e.retained

end WorkflowEngine

theorem EngineOp.IsRunOp.startsOnly {op : EngineOp} (hop : op.IsRunOp) : op.StartsOnly := by
  cases op <;> first | exact trivial | exact hop.elim

section Recovery

variable [Sha256]

/-! ### The view of each update -/

theorem runView_completeStep {c d : WorkflowContext} (h : runView c = runView d) (s : UInt32)
    (r : Bytes) : runView (c.completeStep s r) = runView (d.completeStep s r) := by
  obtain ⟨hstatus, htotal, htype, hmask, hresults⟩ := by
    simpa only [runView, Prod.mk.injEq] using h
  simp only [runView, WorkflowContext.completeStep, SlabHeader.stepBitmask_markStepCompleted,
    SlabHeader.totalSteps_markStepCompleted, hstatus, htotal, htype, hmask, hresults]

theorem closesAlike_runView : WorkflowEngine.ClosesAlike (fun c d => runView c = runView d) := by
  intro now now' u t hclose k c d h
  cases hclose <;> exact Prod.ext rfl (Prod.ext_iff.mp h).2

theorem replayView_runView : ReplayView runView where
  fresh _ _ _ _ := rfl
  update r now now' c d h := by
    unfold replayContextUpdate
    cases r.eventType with
    | stepCompleted =>
      show runView (if _ then _ else _) = runView (if _ then _ else _)
      split
      · exact runView_completeStep h _ _
      · exact h
    | signalReceived =>
      show runView (if _ then _ else _) = runView (if _ then _ else _)
      split <;> exact h
    | workflowCompleted | workflowFailed | workflowCanceled | workflowTerminated =>
      exact Prod.ext rfl (Prod.ext_iff.mp h).2
    | _ => exact h

variable {e : WorkflowEngine} {op : EngineOp}

/-- **The moves of these operations track** the latest run of every workflow. -/
theorem movesTrack_of_isRunOp (now : Nat) (hp : e.workflows.WellFormed) (hop : op.IsRunOp)
    (hfresh : e.RestartsFresh op) :
    MovesTrack runView (fun _ => True) now e.workflows e.retained (e.moves op) := by
  cases op with
  | advanceClock ms => trivial
  | startWorkflow w t ns tq total input =>
    refine ⟨moveTracks_startMove replayView_runView hp rfl ?_, trivial⟩
    -- a replay keeps the first start it meets
    rcases hfresh.2 with hno | ⟨c, hc, hstatus, htotal, htype, hmask, hresults⟩
    · exact Or.inl hno
    · refine Or.inr ⟨c, hc, trivial, ?_⟩
      rw [runView, hstatus, htotal, htype, hmask, hresults]
      rfl
  | completeStep k s r | completeStepSync k s r | completeStepDurable k s r =>
    refine ⟨moveTracks_logged (r := stepRecord k s r) replayView_runView hp
      (by simp [stepRecord]) (fun c _ _ => ⟨trivial, fun d hd => ?_⟩), trivial⟩
    rw [replayContextUpdate_stepRecord]
    exact runView_completeStep hd s r
  | completeWorkflow | failWorkflow | cancelWorkflow | terminateWorkflow
  | applyParentClosePolicy | checkWorkflowTimeouts =>
    refine movesTrack_of_isClosingOp replayView_runView hp ?_ (fun hclose k c _ => ?_) _
    · exact hop
    · exact ⟨trivial, fun d hd => (closesAlike_runView hclose k c d hd.symm).symm⟩
  | _ => exact hop.elim

theorem startedKey_of_mem_logged (hop : op.IsRunOp)
    {r : WalRecord} (hr : r ∈ e.logged op) (hstart : r.eventType = .workflowStarted) :
    op.startedKey = some r.workflowKey := by
  obtain ⟨move, hmove, hrec⟩ := List.mem_filterMap.mp hr
  cases op with
  | startWorkflow w t ns tq total input =>
    rw [List.mem_singleton.mp hmove] at hrec
    cases hrec
    rfl
  | completeStep k s d | completeStepSync k s d | completeStepDurable k s d =>
    rw [List.mem_singleton.mp hmove] at hrec
    cases hrec
    cases hstart
  | advanceClock ms => cases hmove
  | completeWorkflow | failWorkflow | cancelWorkflow | terminateWorkflow
  | applyParentClosePolicy | checkWorkflowTimeouts =>
    obtain ⟨k, u, t, hclose, rfl⟩ := exists_isClose_of_mem_moves
      (by exact hop) hmove
    cases hrec
    exact absurd hstart hclose.ne_started
  | _ => exact hop.elim

/-! ### Recovery -/

/-- The log tracks the latest runs, and what it starts is held. -/
structure TracksRuns (now : Nat) (e : WorkflowEngine) (w : WalManager) : Prop
    extends TracksLog runView (fun _ => True) now e w where
  held : ∀ r ∈ w.log.visible w.retainCount, r.eventType = .workflowStarted →
    (e.workflows.lookup r.workflowKey).isSome

theorem isSome_lookup_startWorkflow (hp : e.workflows.WellFormed) (hfresh : e.RestartsFresh op)
    {k : UInt64} (hk : op.startedKey = some k) :
    ((e.step op).workflows.lookup k).isSome := by
  cases op with
  | startWorkflow w t ns tq total input =>
    cases hk
    have hroom : (e.workflows.lookup (WorkflowEngine.workflowKey ns w)).isSome
        ∨ e.workflows.freeList ≠ [] := by
      rcases hfresh.1 with hheld | havailable
      · exact Or.inl hheld
      · exact Or.inr (List.ne_nil_of_length_pos havailable)
    rw [step_workflows]
    show ((e.workflows.insert (WorkflowEngine.workflowKey ns w) _).2.lookup _).isSome
    rw [hp.lookup_insert, if_pos ⟨rfl, hroom⟩]
    rfl
  | _ => cases hk

theorem TracksRuns.step {now : Nat} {w : WalManager}
    (h : TracksRuns now e w) (hop : op.IsRunOp) (hpayload : op.PayloadFits)
    (hfresh : e.RestartsFresh op) : ∃ w', TracksRuns now (e.step op) w' := by
  have hmoves := movesTrack_of_isRunOp now h.wellFormed hop hfresh
  rw [h.toTracksLog.retained_eq] at hmoves
  obtain ⟨w', hw'⟩ :=
    h.toTracksLog.step_of_moves (fits_of_mem_logged hpayload) hmoves
  obtain ⟨w'', hwal, hgrows⟩ := e.step_logGrows op w h.wal
  obtain rfl : w' = w'' := Option.some.inj (hw'.wal.symm.trans hwal)
  refine ⟨w', hw', fun r hr hstart => ?_⟩
  -- a start in the log is old, or this one
  rcases List.mem_append.mp (hgrows.visible.mem hr) with hold | hnew
  · exact isSome_lookup_step_of_addsStarted
      (addsStarted_of_startsOnly hop.startsOnly) h.wellFormed (h.held r hold hstart)
  · exact isSome_lookup_startWorkflow h.wellFormed hfresh
      (startedKey_of_mem_logged hop hnew hstart)

/-- **The latest run is recovered** if its start finds none left in the log, or a fresh workflow. -/
theorem recovered_runView (maxFileSize retainCount : Nat) (config : DurabilityConfig)
    (start now : Nat) (ops : List EngineOp) (hops : ∀ op ∈ ops, op.IsRunOp)
    (hpayload : ∀ op ∈ ops, op.PayloadFits)
    (hfresh : StepsMeet WorkflowEngine.step WorkflowEngine.RestartsFresh
      (WorkflowEngine.withWal maxFileSize retainCount config start) ops)
    (hkeeps : ((WorkflowEngine.withWal maxFileSize retainCount config start).run ops).KeepsStarts)
    (k : UInt64) :
    let e := (WorkflowEngine.withWal maxFileSize retainCount config start).run ops
    ((e.recovered now).workflows.lookup k).map runView = (e.workflows.lookup k).map runView := by
  intro e
  have hinit : TracksRuns now (WorkflowEngine.withWal maxFileSize retainCount config start)
      (WalManager.withRetention (fun _ => none) maxFileSize retainCount) := by
    refine ⟨TracksLog.withWal maxFileSize retainCount config start now, fun r hr => ?_⟩
    rw [show WalManager.log _ = SegmentedLog.empty from rfl, SegmentedLog.visible_empty] at hr
    cases hr
  have hmeet : StepsMeet WorkflowEngine.step
      (fun e op => (op.IsRunOp ∧ op.PayloadFits) ∧ e.RestartsFresh op)
      (WorkflowEngine.withWal maxFileSize retainCount config start) ops :=
    (stepsMeet_of_forall fun op hop => ⟨hops op hop, hpayload op hop⟩).and hfresh
  obtain ⟨w, hruns⟩ : ∃ w, TracksRuns now e w := by
    refine foldl_invariant (I := fun e => ∃ w, TracksRuns now e w) ?_ ops _ ⟨_, hinit⟩ hmeet
    rintro e op ⟨w, h⟩ ⟨⟨hop, hfits⟩, hrestart⟩
    exact h.step hop hfits hrestart
  -- a replay of a part holds no more
  have hsub : ∀ rs, (∀ r ∈ rs, r ∈ w.log.visible w.retainCount) → ∀ k,
      ((replayOn now WorkflowContextPool.new rs).lookup k).isSome →
      (e.workflows.lookup k).isSome := by
    intro rs hrs k hk
    by_contra hnot
    have hno : ¬ HasStart k rs := by
      rintro ⟨r, hr, rfl, hstart, _⟩
      exact hnot (hruns.held r (hrs r hr) hstart)
    rw [lookup_replayOn_new_of_no_start now hno] at hk
    cases hk
  cases hlive : e.workflows.lookup k with
  | none =>
    have hnone : (e.recovered now).workflows.lookup k = none := by
      rw [recovered_workflows hruns.wal hruns.holds hruns.fits, ← Option.not_isSome_iff_eq_none]
      intro hheld
      have hlive' := hsub _ (fun _ hr => hr) k hheld
      rw [hlive] at hlive'
      cases hlive'
    rw [hnone]
  | some c =>
    have hstart : HasStart k (w.log.visible w.retainCount) := by
      rw [← hruns.toTracksLog.retained_eq]
      exact hkeeps k (by rw [hlive]; rfl)
    obtain ⟨pre, r, post, hsplit, hr, hfirst⟩ := hstart.exists_first
    have hmem : ∀ r ∈ pre, r ∈ w.log.visible w.retainCount := fun r hr => by
      rw [hsplit]
      exact List.mem_append_left _ hr
    -- before it, `k` is not held
    have hroom := hruns.wellFormed.freeList_ne_nil_of_subset
      (wellFormed_replayOn now WorkflowContextPool.wellFormed_new pre) (hsub pre hmem)
      (by rw [hlive]; rfl) (lookup_replayOn_new_of_no_start now hfirst)
    obtain ⟨d, hd, hview⟩ := hruns.toTracksLog.recovered hlive trivial hstart (by
      rw [hsplit]
      exact lookup_replayOn_new hr hfirst hroom)
    rw [hd, Option.map_some, Option.map_some, hview]

end Recovery

theorem recovered_runView_restart_fresh :
    ((sampleRun [.startWorkflow 1 1 0 1 2 none, .startWorkflow 1 1 0 1 2 none,
        .completeStep 1 0 [42]] |>.recovered 9).workflows.lookup 1).map runView
      = ((sampleRun [.startWorkflow 1 1 0 1 2 none, .startWorkflow 1 1 0 1 2 none,
        .completeStep 1 0 [42]]).workflows.lookup 1).map runView := by
  have hkeeps : (sampleRun [.startWorkflow 1 1 0 1 2 none, .startWorkflow 1 1 0 1 2 none,
      .completeStep 1 0 [42]]).workflows.keys.all (fun k => decide (HasStart k (sampleRun
        [.startWorkflow 1 1 0 1 2 none, .startWorkflow 1 1 0 1 2 none,
          .completeStep 1 0 [42]]).retained)) = true := by
    decide +kernel
  exact recovered_runView 1024 3 .strict 0 9
    [.startWorkflow 1 1 0 1 2 none, .startWorkflow 1 1 0 1 2 none, .completeStep 1 0 [42]]
    (by simp [EngineOp.IsRunOp]) (by simp [EngineOp.PayloadFits]) (by decide +kernel)
    (fun k hk => of_decide_eq_true (List.all_eq_true.mp hkeeps k
      (WorkflowContextPool.mem_keys hk))) 1

def secondRun : List EngineOp :=
  [.startWorkflow 1 1 0 1 2 none, .completeStep 1 0 [42], .completeWorkflow 1 none,
    .startWorkflow 1 7 0 1 3 none]

theorem recovered_runView_first_run :
    (((sampleRun secondRun).workflows.lookup 1).map
        (fun c => (c.status, c.slab.totalSteps, c.workflowTypeId)) = some (.running, 3, 7)
      ∧ ((sampleRun secondRun).workflows.lookup 1).map
          (fun c => (c.isStepCompleted 0, c.stepResults.get 0)) = some (false, none))
    ∧ ((sampleRun secondRun |>.recovered 9).workflows.lookup 1).map
        (fun c => (c.status, c.slab.totalSteps, c.workflowTypeId)) = some (.completed, 2, 1)
      ∧ ((sampleRun secondRun |>.recovered 9).workflows.lookup 1).map
          (fun c => (c.isStepCompleted 0, c.stepResults.get 0)) = some (true, some [42]) := by
  decide +kernel

end Velocity
