import Velocity.Engine.Frame
import Velocity.Engine.ResetRecovery
import Velocity.Engine.Tracks

namespace Velocity

open Lib WorkflowEngine

/-!
# Rotation and running workflows

Rotation deletes files by count, with no checkpoint of running workflows.
-/

/-! ### What a run must not do -/

def WorkflowContext.StepKnown (ctx : WorkflowContext) (step : UInt32) : Prop :=
  256 ≤ step.toNat ∨ ctx.isStepCompleted step = true

instance (ctx : WorkflowContext) (step : UInt32) : Decidable (ctx.StepKnown step) :=
  inferInstanceAs (Decidable (_ ∨ _))

namespace WorkflowEngine

variable (e : WorkflowEngine)

/-- No start is left, or nothing is completed yet. -/
def StartsTracked (key : UInt64) : Prop :=
  ¬ HasStart key e.retained
    ∨ ∃ ctx ∈ e.workflows.lookup key, ctx.status = .running ∧ ctx.slab.stepBitmask = .new

def ReplayAddsNoStep : Prop :=
  ∀ r ∈ e.retained, r.eventType = .stepCompleted → ∀ ctx ∈ e.workflows.lookup r.workflowKey,
    ctx.status = .running → ctx.StepKnown r.stepIndex

def JournalAddsNoStep (journal : StepJournal) : Prop :=
  ∀ k steps, journal k = .ok steps → ∀ ctx ∈ e.workflows.lookup k, ctx.status = .running →
    ∀ step ∈ steps, ctx.StepKnown step.1

/-- The operation does nothing to a running workflow that the log does not replay. -/
def KeepsRunning : EngineOp → Prop
  | .startWorkflow workflowId _ namespaceId _ _ _ =>
    e.StartsTracked (workflowKey namespaceId workflowId)
  | .startChildWorkflow parentKey childWorkflowId _ _ _ _ =>
    e.StartsTracked (workflowKey (parentKey >>> 32) childWorkflowId)
  | .signalWithStart workflowId _ namespaceId _ _ _ _ =>
    let key := workflowKey namespaceId workflowId
    e.getStatus key = .running ∨ e.StartsTracked key
  | .resetWorkflow key resetToEventId =>
    ∀ ctx ∈ e.workflows.lookup key, ctx.ResetKeeps resetToEventId
  | .continueAsNew key _ => ∀ ctx ∈ e.workflows.lookup key, ctx.IsBlank
  | .purgeWorkflow key => e.PurgesAlone key
  | .recoverFromWal => e.ReplayAddsNoStep
  | .recoverStepsFromPg (some journal) => e.JournalAddsNoStep journal
  | _ => True

/-- A start is left, and the pool has room for those before it. -/
def KeepsStartOf (k : UInt64) : Prop :=
  ∃ pre r post, e.retained = pre ++ r :: post ∧ r.IsStartOf k
    ∧ pre.countP (·.eventType = .workflowStarted) < workflowPoolCapacity

end WorkflowEngine

abbrev WorkflowContext.IsRunning (ctx : WorkflowContext) : Prop := ctx.status = .running

/-! ### The view of each update -/

theorem completedView_signalIfRunning (c : WorkflowContext) (n : UInt64) (p : Bytes) :
    completedView (c.signalIfRunning n p) = completedView c := by
  unfold WorkflowContext.signalIfRunning
  split <;> rfl

theorem isRunning_of_completedView {c d : WorkflowContext} (h : completedView c = completedView d)
    (hd : d.IsRunning) : c.IsRunning :=
  (congrArg Prod.fst h).trans hd

theorem stepKnown_of_completedView {c d : WorkflowContext} (h : completedView c = completedView d)
    {s : UInt32} (hd : d.StepKnown s) : c.StepKnown s := by
  have hmask : c.slab.stepBitmask = d.slab.stepBitmask := congrArg Prod.snd h
  unfold WorkflowContext.StepKnown WorkflowContext.isStepCompleted at hd ⊢
  rw [hmask]
  exact hd

section Recovery

variable [Sha256]

variable {c : WorkflowContext}

theorem completedView_completeStep_known {s : UInt32} (h : c.StepKnown s)
    (r : Bytes) : completedView (c.completeStep s r) = completedView c := by
  have hmask : (c.slab.stepBitmask.setStep s.toNat).2 = c.slab.stepBitmask :=
    Bitmask256.setStep_of_known h
  simp only [completedView, WorkflowContext.completeStep,
    SlabHeader.stepBitmask_markStepCompleted, hmask]

theorem replayView_completedView : ReplayView completedView where
  fresh _ _ _ _ := rfl
  update r now now' c d h := by
    unfold replayContextUpdate
    cases r.eventType with
    | stepCompleted =>
      show completedView (if _ then _ else _) = completedView (if _ then _ else _)
      split
      · exact completedView_completeStep h _ _
      · exact h
    | signalReceived =>
      show completedView (if _ then _ else _) = completedView (if _ then _ else _)
      split <;> exact h
    | workflowCompleted | workflowFailed | workflowCanceled | workflowTerminated =>
      exact Prod.ext rfl (Prod.ext_iff.mp h).2
    | _ => exact h

theorem status_mergeSteps (c : WorkflowContext) (steps : List (UInt32 × Option Bytes)) :
    (c.mergeSteps steps).2.status = c.status :=
  WorkflowContext.mergeSteps_induction (P := fun d => d.status = c.status) rfl
    (fun _ _ _ hstatus => hstatus)

theorem completedView_mergeSteps_known
    {steps : List (UInt32 × Option Bytes)} (h : ∀ step ∈ steps, c.StepKnown step.1) :
    completedView (c.mergeSteps steps).2 = completedView c := by
  refine WorkflowContext.mergeSteps_induction (P := fun d => completedView d = completedView c) rfl
    (fun d step hstep hview => ?_)
  have hknown : d.StepKnown step.1 := stepKnown_of_completedView hview (h step hstep)
  rw [completedView_completeStep_known hknown, hview]

/-! ### Moves of operations -/

variable {p : WorkflowContextPool WorkflowContext}

theorem moveTracks_unseen (now : Nat)
    (hp : p.WellFormed) (records : List WalRecord) {u : CtxUpdate} (key : UInt64)
    (hu : ∀ c, completedView (u.apply c) = completedView c) :
    MoveTracks completedView WorkflowContext.IsRunning now p records (.silent (.update key u)) :=
  moveTracks_silent hp (fun c _ hrunning =>
    ⟨isRunning_of_completedView (hu c).symm hrunning, (hu c).symm⟩)

variable {now : Nat}

theorem moveTracks_stepMove
    (hp : p.WellFormed) (records : List WalRecord) (k : UInt64) (s : UInt32) (r : Bytes) :
    MoveTracks completedView WorkflowContext.IsRunning now p records
      (.logged (.update k (.completeStep s r)) (stepRecord k s r)) := by
  refine moveTracks_logged (r := stepRecord k s r) replayView_completedView hp
    (by simp [stepRecord]) (fun c _ hrunning => ⟨hrunning, fun d hd => ?_⟩)
  rw [replayContextUpdate_stepRecord]
  exact completedView_completeStep hd s r

theorem moveTracks_signalMove
    (hp : p.WellFormed) (records : List WalRecord) (k n : UInt64) (d : Bytes) :
    MoveTracks completedView WorkflowContext.IsRunning now p records
      (signalMove k n d) := by
  refine moveTracks_logged (r := signalRecord k n d) replayView_completedView hp
    (by simp [signalRecord]) (fun c _ hrunning => ?_)
  have hview := completedView_signalIfRunning c n d
  refine ⟨isRunning_of_completedView hview.symm hrunning, fun c' hc' => ?_⟩
  rw [replayContextUpdate_signalRecord]
  exact hc'.trans hview.symm

variable {e : WorkflowEngine}

theorem moveTracks_startMove_tracked (now : Nat)
    (hp : e.workflows.WellFormed) (w t ns tq : UInt64) (total : UInt32) (input : Option Bytes)
    (h : e.StartsTracked (WorkflowEngine.workflowKey ns w)) :
    MoveTracks completedView WorkflowContext.IsRunning now e.workflows e.retained
      (e.startMove w t ns tq total input) := by
  refine moveTracks_startMove replayView_completedView hp rfl ?_
  rcases h with hno | ⟨c, hc, hrunning, hmask⟩
  · exact Or.inl hno
  · refine Or.inr ⟨c, hc, hrunning, ?_⟩
    rw [completedView, hrunning, hmask]
    rfl

theorem movesTrack_recoverStepsFromPg
    (hp : e.workflows.WellFormed) {journal : WorkflowEngine.StepJournal}
    (h : e.JournalAddsNoStep journal) (records : List WalRecord) :
    MovesTrack completedView WorkflowContext.IsRunning now e.workflows records
      (e.moves (.recoverStepsFromPg (some journal))) := by
  -- merging known steps does not show
  refine movesTrack_of_invariant (Q := fun p => ∀ k steps, journal k = .ok steps →
    ∀ ctx ∈ p.lookup k, ctx.status = .running → ∀ step ∈ steps, ctx.StepKnown step.1)
    (fun move hmove p hp hQ => ?_) hp h records
  obtain ⟨effect, heffect, rfl⟩ := List.mem_map.mp hmove
  obtain ⟨key, _, hkey⟩ := List.mem_filterMap.mp heffect
  obtain ⟨steps, hsteps, rfl⟩ : ∃ steps, journal key = .ok steps
      ∧ effect = .update key (.mergeSteps steps) := by
    unfold mergeEffect at hkey
    split at hkey
    · next step steps hsteps => exact ⟨step :: steps, hsteps, (Option.some.inj hkey).symm⟩
    · cases hkey
  have hmerge : ∀ c, p.lookup key = some c → (c.mergeSteps steps).2.IsRunning →
      c.IsRunning ∧ completedView c = completedView (c.mergeSteps steps).2 := by
    intro c hc hrunning
    have hrunning' : c.IsRunning := (status_mergeSteps c steps).symm.trans hrunning
    exact ⟨hrunning', (completedView_mergeSteps_known (hQ key steps hsteps c hc hrunning')).symm⟩
  refine ⟨fun records => moveTracks_silent hp hmerge, fun k steps' hsteps' ctx hctx => ?_⟩
  intro hrunning step hstep
  have hctx' : (p.withMut key () _).2.lookup k = some ctx := hctx
  rw [WorkflowContextPool.lookup_withMut] at hctx'
  split at hctx'
  · next hk =>
    subst hk
    obtain ⟨c, hc, rfl⟩ := Option.map_eq_some_iff.mp hctx'
    obtain ⟨hrunning', hview⟩ := hmerge c hc hrunning
    exact stepKnown_of_completedView hview.symm (hQ k steps' hsteps' c hc hrunning' step hstep)
  · exact hQ k steps' hsteps' ctx hctx' hrunning step hstep

/-- **The moves of every operation but a replay track** the running workflows. -/
theorem movesTrack_of_keepsRunning (now : Nat)
    (hp : e.workflows.WellFormed) {op : EngineOp} (h : e.KeepsRunning op)
    (hop : op ≠ .recoverFromWal) :
    MovesTrack completedView WorkflowContext.IsRunning now e.workflows e.retained
      (e.moves op) := by
  cases op with
  | advanceClock ms | getSlab k => trivial
  | startWorkflow w t ns tq total input =>
    exact ⟨moveTracks_startMove_tracked now hp w t ns tq total input h, trivial⟩
  | startChildWorkflow parent w t tq total input =>
    have hstart := moveTracks_startMove_tracked now hp w t (parent >>> 32) tq total input h
    have hparent := moveTracks_unseen now hstart.1
      (e.retained ++ [startRecord w t (parent >>> 32) tq total]) parent
      (u := .addChild (WorkflowEngine.workflowKey (parent >>> 32) w)) (fun _ => rfl)
    exact ⟨hstart, hparent, moveTracks_unseen now hparent.1 _ _ (fun _ => rfl), trivial⟩
  | completeStep k s r | completeStepSync k s r | completeStepDurable k s r =>
    exact ⟨moveTracks_stepMove hp _ k s r, trivial⟩
  | signalWorkflow k n d => exact ⟨moveTracks_signalMove hp _ k n d, trivial⟩
  | takeSignal k n | setWorkflowExecutionTimeout k t =>
    exact ⟨moveTracks_unseen now hp _ k (fun _ => rfl), trivial⟩
  | signalWithStart w t ns tq total n d =>
    simp only [moves]
    split
    · exact ⟨moveTracks_signalMove hp _ _ n d, trivial⟩
    · next hstatus =>
      have hstart := moveTracks_startMove_tracked now hp w t ns tq total none
        (h.resolve_left hstatus)
      exact ⟨hstart, moveTracks_signalMove hstart.1 _ _ n d, trivial⟩
  | completeWorkflow | failWorkflow | cancelWorkflow | terminateWorkflow
  | applyParentClosePolicy | checkWorkflowTimeouts =>
    -- a closed workflow asks nothing of the log
    refine movesTrack_of_isClosingOp replayView_completedView hp ?_ (fun hclose k c hP => ?_) _
    · trivial
    · cases hclose <;> cases hP
  | resetWorkflow k r =>
    refine ⟨moveTracks_silent hp (fun c hc hrunning => ?_), trivial⟩
    have hview : completedView (c.reset r).2 = completedView c := completedView_reset (h c hc)
    exact ⟨isRunning_of_completedView hview.symm hrunning, hview.symm⟩
  | continueAsNew k input =>
    rw [moves_continueAsNew_of_blank h]
    trivial
  | purgeWorkflow k => exact ⟨moveTracks_remove hp h, trivial⟩
  | recoverFromWal => exact absurd rfl hop
  | recoverStepsFromPg adapter =>
    cases adapter with
    | none => trivial
    | some journal => exact movesTrack_recoverStepsFromPg hp h _

/-! ### Replay over a live engine -/

theorem isRunning_of_replayContextUpdate {r : WalRecord}
    (h : (replayContextUpdate now r c).IsRunning) : c.IsRunning := by
  unfold replayContextUpdate at h
  cases htype : r.eventType with
  | stepCompleted | signalReceived =>
    rw [htype] at h
    dsimp only at h
    split at h <;> exact h
  | workflowCompleted | workflowFailed | workflowCanceled | workflowTerminated =>
    rw [htype] at h
    cases h
  | _ =>
    rw [htype] at h
    exact h

theorem completedView_replayContextUpdate {r : WalRecord}
    (h : (replayContextUpdate now r c).IsRunning)
    (hknown : r.eventType = .stepCompleted → c.StepKnown r.stepIndex) :
    completedView (replayContextUpdate now r c) = completedView c := by
  unfold replayContextUpdate at h ⊢
  cases htype : r.eventType with
  | stepCompleted =>
    dsimp only
    split
    · exact completedView_completeStep_known (hknown htype) _
    · rfl
  | signalReceived =>
    dsimp only
    split <;> rfl
  | workflowCompleted | workflowFailed | workflowCanceled | workflowTerminated =>
    rw [htype] at h
    cases h
  | _ => rfl

theorem completedView_replayKeyOn_held {k : UInt64} {rs : List WalRecord}
    {c' : WorkflowContext} (hc' : replayKeyOn now k (some c) rs = some c') (h : c'.IsRunning)
    (hknown : c.IsRunning → ∀ r ∈ rs, r.workflowKey = k → r.eventType = .stepCompleted →
      c.StepKnown r.stepIndex) :
    c.IsRunning ∧ completedView c = completedView c' := by
  induction rs generalizing c with
  | nil =>
    cases hc'
    exact ⟨h, rfl⟩
  | cons r rs ih =>
    have hrest : replayKeyOn now k (replayKey now k (some c) r) rs = some c' := hc'
    by_cases hk : r.workflowKey = k
    · by_cases hr : r.eventType = .workflowStarted
      · rw [replayKey_start_some hr] at hrest
        exact ih hrest (fun hc r' hr' => hknown hc r' (List.mem_cons_of_mem r hr'))
      · rw [replayKey_update hk hr, Option.map_some] at hrest
        -- it was running before, with the same view
        have hstep : (replayContextUpdate now r c).IsRunning → c.IsRunning
            ∧ completedView (replayContextUpdate now r c) = completedView c := by
          intro hrunning
          have hc := isRunning_of_replayContextUpdate hrunning
          exact ⟨hc, completedView_replayContextUpdate hrunning
            (hknown hc r List.mem_cons_self hk)⟩
        obtain ⟨hrunning, hview⟩ := ih hrest (fun hrunning r' hr' hk' hs => by
          obtain ⟨hc, hview⟩ := hstep hrunning
          exact stepKnown_of_completedView hview
            (hknown hc r' (List.mem_cons_of_mem r hr') hk' hs))
        obtain ⟨hc, hview'⟩ := hstep hrunning
        exact ⟨hc, hview'.symm.trans hview⟩
    · rw [replayKey_of_ne hk] at hrest
      exact ih hrest (fun hc r' hr' => hknown hc r' (List.mem_cons_of_mem r hr'))

variable {w : WalManager}

theorem workflows_step_recoverFromWal {V : Type} {v : WorkflowContext → V}
    {P : WorkflowContext → Prop} (h : TracksLog v P now e w) :
    (e.step .recoverFromWal).workflows = replayOn e.now e.workflows e.retained := by
  have hreplay := h.holds.replayAll h.fits
  rw [h.retained_eq]
  simp only [WorkflowEngine.step, WorkflowEngine.recoverFromWal, h.wal, hreplay]
  exact workflows_replayRecords e.now e.workflows _

/-- **A replay over a live engine** that adds no step to a running workflow. -/
theorem tracks_recoverFromWal
    (h : TracksLog completedView WorkflowContext.IsRunning now e w) (hadds : e.ReplayAddsNoStep)
    (k : UInt64) :
    Tracks completedView WorkflowContext.IsRunning now k
      ((e.step .recoverFromWal).workflows.lookup k) e.retained := by
  have htracks : Tracks completedView WorkflowContext.IsRunning now k (e.workflows.lookup k)
      e.retained := by
    rw [h.retained_eq]
    exact h.tracks k
  rw [workflows_step_recoverFromWal h]
  rcases lookup_replayOn_or_none e.now k e.retained h.wellFormed with hfold | hnone
  · rw [hfold]
    cases hheld : e.workflows.lookup k with
    | some c =>
      rw [hheld] at htracks
      refine htracks.silent (fun c' hc' hrunning => ⟨c, rfl, ?_⟩)
      refine completedView_replayKeyOn_held hc' hrunning (fun hc r hr hk hs => ?_)
      exact hadds r hr hs c (hk.symm ▸ hheld) hc
    | none =>
      -- every rest of the log tells the same
      refine ⟨htracks.alike, fun c' hc' _ s hs hstart => ?_⟩
      have hall : HasStart k e.retained := isSome_replayKeyOn_none.mp (by rw [hc']; rfl)
      rw [htracks.alike s e.retained hs List.suffix_rfl hstart hall,
        replayView_completedView.map_replayKeyOn e.retained (x := none) (y := none) rfl, hc']
      rfl
  · rw [hnone]
    exact htracks.silent (fun c' hc' => by cases hc')

/-! ### Recovery -/

theorem tracksLog_step
    (h : TracksLog completedView WorkflowContext.IsRunning now e w) {op : EngineOp}
    (hpayload : op.PayloadFits) (hkeeps : e.KeepsRunning op) :
    ∃ w', TracksLog completedView WorkflowContext.IsRunning now (e.step op) w' := by
  by_cases hop : op = .recoverFromWal
  · subst hop
    refine h.step (fits_of_mem_logged hpayload) ?_ (fun k => ?_)
    · rw [workflows_step_recoverFromWal h]
      exact wellFormed_replayOn e.now h.wellFormed e.retained
    · rw [logged_recoverFromWal, List.append_nil, ← h.retained_eq]
      exact tracks_recoverFromWal h hkeeps k
  · have hmoves := movesTrack_of_keepsRunning now h.wellFormed hkeeps hop
    rw [h.retained_eq] at hmoves
    exact h.step_of_moves (fits_of_mem_logged hpayload) hmoves

/-- **Running workflows across rotation** are found, if a start of theirs is left. -/
theorem recovered_running (maxFileSize retainCount : Nat) (config : DurabilityConfig)
    (start now : Nat) (ops : List EngineOp) (hpayload : ∀ op ∈ ops, op.PayloadFits)
    (hkeeps : StepsMeet WorkflowEngine.step WorkflowEngine.KeepsRunning
      (WorkflowEngine.withWal maxFileSize retainCount config start) ops) (k : UInt64)
    (c : WorkflowContext)
    (hlive : ((WorkflowEngine.withWal maxFileSize retainCount config start).run
      ops).workflows.lookup k = some c) (hrunning : c.status = .running)
    (hstart : ((WorkflowEngine.withWal maxFileSize retainCount config start).run
      ops).KeepsStartOf k) :
    ∃ d, (((WorkflowEngine.withWal maxFileSize retainCount config start).run ops).recovered
        now).workflows.lookup k = some d
      ∧ d.status = .running ∧ d.slab.stepBitmask = c.slab.stepBitmask := by
  have hmeet : StepsMeet WorkflowEngine.step (fun e op => op.PayloadFits ∧ e.KeepsRunning op)
      (WorkflowEngine.withWal maxFileSize retainCount config start) ops :=
    (stepsMeet_of_forall hpayload).and hkeeps
  obtain ⟨w, hlog⟩ : ∃ w, TracksLog completedView WorkflowContext.IsRunning now
      ((WorkflowEngine.withWal maxFileSize retainCount config start).run ops) w := by
    refine foldl_invariant
      (I := fun e => ∃ w, TracksLog completedView WorkflowContext.IsRunning now e w) ?_ ops _
      ⟨_, TracksLog.withWal maxFileSize retainCount config start now⟩ hmeet
    rintro e op ⟨w, h⟩ ⟨hfits, hop⟩
    exact tracksLog_step h hfits hop
  obtain ⟨pre, r, post, hsplit, hr, hcount⟩ := hstart
  rw [hlog.retained_eq] at hsplit
  have hhas : HasStart k (w.log.visible w.retainCount) :=
    ⟨r, by rw [hsplit]; exact List.mem_append_right _ List.mem_cons_self, hr⟩
  obtain ⟨d, hd, hview⟩ := hlog.recovered hlive hrunning hhas (by
    rw [hsplit]
    exact lookup_replayOn_new_of_countP_lt hr hcount)
  exact ⟨d, hd, (congrArg Prod.fst hview).trans hrunning, congrArg Prod.snd hview⟩

end Recovery

theorem recovered_running_across_rotation :
    ∃ c d, ((WorkflowEngine.withWal 80 1 .strict 0).run [.startWorkflow 1 1 0 1 2 none,
        .completeStep 1 0 [42], .completeStep 1 1 [43]]).workflows.lookup 1 = some c
      ∧ (((WorkflowEngine.withWal 80 1 .strict 0).run [.startWorkflow 1 1 0 1 2 none,
          .completeStep 1 0 [42], .completeStep 1 1 [43]]).recovered 9).workflows.lookup 1 = some d
      ∧ d.status = .running ∧ d.slab.stepBitmask = c.slab.stepBitmask := by
  have hlive : (((WorkflowEngine.withWal 80 1 .strict 0).run [.startWorkflow 1 1 0 1 2 none,
      .completeStep 1 0 [42], .completeStep 1 1 [43]]).workflows.lookup 1).map (·.status)
        = some .running := by
    decide +kernel
  obtain ⟨c, hc, hrunning⟩ := Option.map_eq_some_iff.mp hlive
  have hretained : ((WorkflowEngine.withWal 80 1 .strict 0).run [.startWorkflow 1 1 0 1 2 none,
      .completeStep 1 0 [42], .completeStep 1 1 [43]]).retained
        = [] ++ startRecord 1 1 0 1 2 :: [stepRecord 1 0 [42],
          stepRecord 1 1 [43]] := by
    decide +kernel
  obtain ⟨d, hd⟩ := recovered_running 80 1 .strict 0 9
    [.startWorkflow 1 1 0 1 2 none, .completeStep 1 0 [42], .completeStep 1 1 [43]]
    (by simp [EngineOp.PayloadFits]) ⟨Or.inl (by decide +kernel), trivial, trivial, trivial⟩ 1 c hc
    hrunning ⟨[], _, _, hretained, by decide, workflowPoolCapacity_pos⟩
  exact ⟨c, d, hc, hd⟩

theorem recovered_lost_by_rotation :
    (((WorkflowEngine.withWal 16 1 .strict 0).run [.startWorkflow 1 1 0 1 1 none,
        .startWorkflow 2 1 0 1 1 none]).workflows.lookup 1).map (·.status) = some .running
    ∧ (((WorkflowEngine.withWal 16 1 .strict 0).run [.startWorkflow 1 1 0 1 1 none,
        .startWorkflow 2 1 0 1 1 none]).recovered 9).workflows.lookup 1 = none
    ∧ ((((WorkflowEngine.withWal 16 1 .strict 0).run [.startWorkflow 1 1 0 1 1 none,
        .startWorkflow 2 1 0 1 1 none]).recovered 9).workflows.lookup 2).map (·.status)
      = some .running := by
  decide +kernel

end Velocity
