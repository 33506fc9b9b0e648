import Velocity.Engine.Frame
import Velocity.Engine.Starting
import Velocity.Services.Replay

namespace Velocity

open Lib WorkflowEngine WorkflowContextPool WorkflowContext

/-!
# Replaying what the engine records

Starts, closes and resets leave events, step completions and signals none.

* `EngineServices`: the engine with the services that record; `ServiceOp` are its calls.
* `Followed`: the replay and the live workflow go together, call by call.
-/

/-- A call at the time `nowMs`, or the passing of time. -/
inductive ServiceOp where
  | advanceClock (ms : Nat)
  | startWorkflow (workflowId workflowTypeId namespaceId taskQueueHash : UInt64)
      (totalSteps : UInt32) (input : Option Bytes) (nowMs : UInt64)
  | completeStep (key : UInt64) (step : UInt32) (result : Bytes)
  | signalWorkflow (key signalNameId : UInt64) (payload : Bytes)
  | completeWorkflow (key : UInt64) (result : Option Bytes) (nowMs : UInt64)
  | failWorkflow (key nowMs : UInt64)
  | cancelWorkflow (key nowMs : UInt64)
  | terminateWorkflow (key nowMs : UInt64)
  | resetWorkflow (key resetToEventId : UInt64)

def ServiceOp.key? : ServiceOp → Option UInt64
  | .advanceClock _ => none
  | .startWorkflow workflowId _ namespaceId _ _ _ _ =>
    some (WorkflowEngine.workflowKey namespaceId workflowId)
  | .completeStep key _ _ | .signalWorkflow key _ _ | .completeWorkflow key _ _
  | .failWorkflow key _ | .cancelWorkflow key _ | .terminateWorkflow key _
  | .resetWorkflow key _ => some key

def ServiceOp.engineOp : ServiceOp → EngineOp
  | .advanceClock ms => .advanceClock ms
  | .startWorkflow workflowId workflowTypeId namespaceId taskQueueHash totalSteps input _ =>
    .startWorkflow workflowId workflowTypeId namespaceId taskQueueHash totalSteps input
  | .completeStep key s result => .completeStep key s result
  | .signalWorkflow key signalNameId payload => .signalWorkflow key signalNameId payload
  | .completeWorkflow key result _ => .completeWorkflow key result
  | .failWorkflow key _ => .failWorkflow key
  | .cancelWorkflow key _ => .cancelWorkflow key
  | .terminateWorkflow key _ => .terminateWorkflow key
  | .resetWorkflow key resetToEventId => .resetWorkflow key resetToEventId

namespace EngineServices

/-! ### Operations with services -/

/-- What the closing operations share, whether or not the pool has the key. -/
def recordClose (s : EngineServices) (engine : WorkflowEngine) (key : UInt64)
    (status : WorkflowStatus) (eventType : HistoryEventType) (nowMs : UInt64) : EngineServices where
  engine := engine
  visibility := s.visibility.updateStatus key status (some nowMs)
  historyStore := (s.historyStore.recordEvent key eventType []).2

def completeWorkflow (s : EngineServices) (key : UInt64) (result : Option Bytes) (nowMs : UInt64) :
    EngineServices :=
  s.recordClose (s.engine.completeWorkflow key result) key .completed .workflowCompleted nowMs

def failWorkflow (s : EngineServices) (key nowMs : UInt64) : EngineServices :=
  s.recordClose (s.engine.failWorkflow key) key .failed .workflowFailed nowMs

def cancelWorkflow (s : EngineServices) (key nowMs : UInt64) : EngineServices :=
  s.recordClose (s.engine.cancelWorkflow key) key .canceled .workflowCanceled nowMs

def terminateWorkflow (s : EngineServices) (key nowMs : UInt64) : EngineServices :=
  s.recordClose (s.engine.terminateWorkflow key) key .terminated .workflowTerminated nowMs

def resetWorkflow (s : EngineServices) (key resetToEventId : UInt64) : Bool × EngineServices :=
  let (ok, engine) := s.engine.resetWorkflow key resetToEventId
  if ok then
    (ok,
      { engine := engine
        visibility := s.visibility.updateStatus key .running none
        historyStore := (s.historyStore.recordEvent key .workflowReset []).2 })
  else (ok, { s with engine := engine })

section Services

variable [Sha256]

def completeStep (s : EngineServices) (key : UInt64) (step : UInt32) (result : Bytes) :
    EngineServices :=
  { s with engine := s.engine.completeStep key step result }

omit [Sha256] in
def signalWorkflow (s : EngineServices) (key signalNameId : UInt64) (payload : Bytes) :
    EngineServices :=
  { s with engine := s.engine.signalWorkflow key signalNameId payload }

def step (s : EngineServices) : ServiceOp → EngineServices
  | .advanceClock ms => { s with engine := { s.engine with now := s.engine.now + ms } }
  | .startWorkflow workflowId workflowTypeId namespaceId taskQueueHash totalSteps input nowMs =>
    (s.startWorkflow workflowId workflowTypeId namespaceId taskQueueHash totalSteps input nowMs).2
  | .completeStep key step result => s.completeStep key step result
  | .signalWorkflow key signalNameId payload => s.signalWorkflow key signalNameId payload
  | .completeWorkflow key result nowMs => s.completeWorkflow key result nowMs
  | .failWorkflow key nowMs => s.failWorkflow key nowMs
  | .cancelWorkflow key nowMs => s.cancelWorkflow key nowMs
  | .terminateWorkflow key nowMs => s.terminateWorkflow key nowMs
  | .resetWorkflow key resetToEventId => (s.resetWorkflow key resetToEventId).2

variable (s : EngineServices)

def run (ops : List ServiceOp) : EngineServices := ops.foldl step s

def history (key : UInt64) : List HistoryEvent :=
  (s.historyStore.getHistory key).getD []

/-- The replay gives the reported status and results. -/
def Replays (r : ReplayEngine) (key : UInt64) (s : EngineServices) : Prop :=
  (r.replay key (s.history key) none).status = s.engine.getStatus key
  ∧ ∀ step, (r.replay key (s.history key) none).stepResults.lookup step
      = s.engine.getStepResult key step

/-! ### What one call does -/

theorem engine_step (op : ServiceOp) : (s.step op).engine = s.engine.step op.engineOp := by
  cases op with
  | resetWorkflow key r =>
    simp only [step, resetWorkflow]
    split <;> rfl
  | _ => rfl

variable {op : ServiceOp}

theorem key_of_mem_effects_engineOp {e : WorkflowEngine} {effect : Effect}
    (h : effect ∈ e.effects op.engineOp) : op.key? = some effect.key := by
  cases op with
  | advanceClock ms => exact absurd h List.not_mem_nil
  | _ =>
    rw [List.mem_singleton.mp h]
    rfl

variable {s} {s' : EngineServices}

theorem wellFormed_pool_step (hs : s.engine.workflows.WellFormed)
    (op : ServiceOp) : (s.step op).engine.workflows.WellFormed := by
  rw [engine_step]
  refine wellFormed_step hs ?_
  cases op <;> trivial

variable {key : UInt64}

theorem lookup_pool_step_of_ne (hs : s.engine.workflows.WellFormed) (hkey : op.key? ≠ some key) :
    (s.step op).engine.workflows.lookup key = s.engine.workflows.lookup key := by
  rw [engine_step]
  refine lookup_step_of_ne hs (by cases op <;> trivial) fun effect heffect heq => hkey ?_
  rw [heq, key_of_mem_effects_engineOp heffect]

theorem history_step_of_ne (s : EngineServices)
    (hkey : op.key? ≠ some key) : (s.step op).history key = s.history key := by
  have hrecord : ∀ {k : UInt64} (t : HistoryEventType) (payload : Bytes), some k ≠ some key →
      ((s.historyStore.recordEvent k t payload).2.getHistory key).getD [] = s.history key :=
    fun t payload hk => congrArg (·.getD [])
      (s.historyStore.getHistory_recordEvent_of_ne (fun heq => hk (congrArg some heq.symm)) t
        payload)
  cases op with
  | advanceClock | completeStep | signalWorkflow => rfl
  | resetWorkflow k r =>
    simp only [step, resetWorkflow]
    split
    · exact hrecord _ _ hkey
    · rfl
  | _ => exact hrecord _ _ hkey

/-! ### The condition -/

def Fits (r : ReplayEngine) (key : UInt64) (s : EngineServices) : Prop :=
  (s.history key).length < r.maxReplayEvents

/-- The replay takes in the event iff the pool takes the status. -/
def RecordsStatus (r : ReplayEngine) (key : UInt64) (s : EngineServices) (status : WorkflowStatus)
    (reachesPool : Prop) : Prop :=
  (reachesPool → Fits r key s ∨ s.engine.getStatus key = status)
  ∧ (¬ reachesPool → ¬ Fits r key s)

def RecordsClose (r : ReplayEngine) (key : UInt64) (s : EngineServices)
    (status : WorkflowStatus) : Prop :=
  RecordsStatus r key s status ((s.engine.workflows.lookup key).isSome = true)

/-- The replay takes in what the operation does to the workflow `key`. -/
def ReplaysNext (r : ReplayEngine) (key : UInt64) (s : EngineServices) : ServiceOp → Prop
  | .advanceClock _ | .signalWorkflow .. => True
  | .startWorkflow workflowId _ namespaceId _ _ _ _ =>
    WorkflowEngine.workflowKey namespaceId workflowId = key →
      RecordsStatus r key s .running (s.engine.workflows.HasRoom key)
  | .completeStep k _ _ => k = key → s.engine.workflows.lookup key = none
  | .completeWorkflow k _ _ => k = key → RecordsClose r key s .completed
  | .failWorkflow k _ => k = key → RecordsClose r key s .failed
  | .cancelWorkflow k _ => k = key → RecordsClose r key s .canceled
  | .terminateWorkflow k _ => k = key → RecordsClose r key s .terminated
  | .resetWorkflow k _ => k = key → s.engine.getStatus key ≠ .failed

/-! ### The live workflow -/

def NoSteps (history : List HistoryEvent) : Prop :=
  ∀ event ∈ history, event.eventType ≠ .stepCompleted

variable {r : ReplayEngine}

omit [Sha256] in
theorem replays_iff_of_noSteps (h : NoSteps (s.history key)) :
    Replays r key s
      ↔ (r.replayed (s.history key)).status = s.engine.getStatus key
        ∧ ∀ step, s.engine.getStepResult key step = none := by
  obtain ⟨hstatus, hresults⟩ := r.replay_none key (s.history key)
  unfold Replays
  rw [hstatus, hresults, r.stepResults_replayed h]
  exact and_congr_right fun _ => forall_congr' fun step => eq_comm

def Records (key : UInt64) (t : HistoryEventType) (s s' : EngineServices) : Prop :=
  ∃ event : HistoryEvent, event.eventType = t ∧ s'.history key = s.history key ++ [event]

variable {t : HistoryEventType}

omit [Sha256] in
theorem records_of_recordEvent {payload : Bytes}
    (h : s'.historyStore = (s.historyStore.recordEvent key t payload).2) : Records key t s s' := by
  unfold Records history
  rw [h, s.historyStore.getHistory_recordEvent]
  exact ⟨_, rfl, rfl⟩

omit [Sha256] in
theorem Records.noSteps
    (h : Records key t s s') (ht : t ≠ .stepCompleted) (hs : NoSteps (s.history key)) :
    NoSteps (s'.history key) := by
  obtain ⟨event, rfl, hhistory⟩ := h
  rw [hhistory]
  intro e he
  rcases List.mem_append.mp he with he | he
  · exact hs e he
  · rw [List.mem_singleton.mp he]
    exact ht

omit [Sha256] in
theorem Records.status_replayed
    (h : Records key t s s') (r : ReplayEngine) [Decidable (Fits r key s)] :
    (r.replayed (s'.history key)).status
      = if Fits r key s then t.setsStatus.getD (r.replayed (s.history key)).status
        else (r.replayed (s.history key)).status := by
  obtain ⟨event, rfl, hhistory⟩ := h
  rw [hhistory, ReplayEngine.replayed_concat]
  by_cases hfits : Fits r key s
  · have hlt : (s.history key).length < r.maxReplayEvents := hfits
    rw [if_pos hfits, if_pos hlt, (ReplayState.replayEvent_spec ..).2.1]
  · have hge : ¬ (s.history key).length < r.maxReplayEvents := hfits
    rw [if_neg hfits, if_neg hge]

structure Followed (r : ReplayEngine) (key : UInt64) (s : EngineServices) : Prop where
  wellFormed : s.engine.workflows.WellFormed
  noSteps : NoSteps (s.history key)
  replays : Replays r key s

omit [Sha256] in
theorem Followed.recordsStatus_iff (hs : Followed r key s) (hrecords : Records key t s s')
    {status : WorkflowStatus} (ht : t.setsStatus = some status) (hvoid : status ≠ .void)
    {reachesPool : Prop} (htaken : reachesPool → s'.engine.getStatus key = status
      ∧ ∀ step, s'.engine.getStepResult key step = none)
    (hrefused : ¬ reachesPool → s.engine.workflows.lookup key = none
      ∧ s'.engine.workflows.lookup key = none) :
    Replays r key s' ↔ RecordsStatus r key s status reachesPool := by
  classical
  have hsteps : t ≠ .stepCompleted := by
    rintro rfl
    cases ht
  obtain ⟨hbefore, -⟩ := (replays_iff_of_noSteps hs.noSteps).mp hs.replays
  rw [replays_iff_of_noSteps (hrecords.noSteps hsteps hs.noSteps), hrecords.status_replayed r, ht,
    hbefore, Option.getD_some]
  by_cases hpool : reachesPool
  · obtain ⟨hstatus, hresults⟩ := htaken hpool
    simp only [RecordsStatus, hpool, forall_const, not_true_eq_false, false_imp_iff, and_true,
      hstatus, hresults]
    by_cases hfits : Fits r key s <;> simp [hfits]
  · obtain ⟨hnone, hnone'⟩ := hrefused hpool
    simp only [RecordsStatus, hpool, false_imp_iff, true_and, not_false_eq_true, forall_const,
      getStatus_of_none hnone, getStatus_of_none hnone',
      getStepResult_of_none hnone', and_true]
    by_cases hfits : Fits r key s <;> simp [hfits, hvoid]

def replayView (ctx : WorkflowContext) : WorkflowStatus × SlotMap Bytes :=
  (ctx.status, ctx.stepResults)

omit [Sha256] in
theorem Replays.congr (h : Replays r key s) (hhistory : s'.history key = s.history key)
    (hview : (s'.engine.workflows.lookup key).map replayView
      = (s.engine.workflows.lookup key).map replayView) :
    Replays r key s' := by
  have hstatus : ∀ e : WorkflowEngine, e.getStatus key
      = (((e.workflows.lookup key).map replayView).map (·.1)).getD .void := by
    intro e
    rw [Option.map_map]
    rfl
  have hresult : ∀ (e : WorkflowEngine) (step : UInt32), e.getStepResult key step
      = ((e.workflows.lookup key).map replayView).bind (·.2.get step.toUInt64) := by
    intro e step
    rw [Option.bind_map]
    rfl
  unfold Replays
  simp only [hhistory, hstatus s'.engine, hresult s'.engine, hview]
  simp only [← hstatus s.engine, ← hresult s.engine]
  exact h

omit [Sha256] in
theorem Followed.recordClose_iff
    (hs : Followed r key s) {engine : WorkflowEngine} {f : WorkflowContext → WorkflowContext}
    (hengine : engine.workflows = s.engine.workflows.modify key f) {status : WorkflowStatus}
    (hstatus : ∀ ctx, (f ctx).status = status)
    (hresults : ∀ ctx, (f ctx).stepResults = ctx.stepResults)
    (ht : t.setsStatus = some status) (hvoid : status ≠ .void) (nowMs : UInt64) :
    Replays r key (s.recordClose engine key status t nowMs) ↔ RecordsClose r key s status := by
  have hlookup : engine.workflows.lookup key = (s.engine.workflows.lookup key).map f := by
    rw [hengine, lookup_modify, if_pos rfl]
  obtain ⟨-, hempty⟩ := (replays_iff_of_noSteps hs.noSteps).mp hs.replays
  have hrecords : Records key t s (s.recordClose engine key status t nowMs) :=
    records_of_recordEvent rfl
  refine hs.recordsStatus_iff hrecords ht hvoid ?_ ?_
  · intro hsome
    obtain ⟨ctx, hctx⟩ := Option.isSome_iff_exists.mp hsome
    have hctx' : engine.workflows.lookup key = some (f ctx) := by
      rw [hlookup, hctx]
      rfl
    refine ⟨(getStatus_of_some hctx').trans (hstatus ctx), fun step => ?_⟩
    have hkept : (f ctx).getStepResult step = ctx.getStepResult step :=
      congrArg (·.get step.toUInt64) (hresults ctx)
    calc engine.getStepResult key step = (f ctx).getStepResult step :=
          getStepResult_of_some hctx' step
      _ = s.engine.getStepResult key step :=
          hkept.trans (getStepResult_of_some hctx step).symm
      _ = none := hempty step
  · intro hnone
    rw [Bool.not_eq_true, Option.isSome_eq_false_iff, Option.isNone_iff_eq_none] at hnone
    refine ⟨hnone, ?_⟩
    show engine.workflows.lookup key = none
    rw [hlookup, hnone]
    rfl

theorem Followed.startWorkflow_iff {w ns : UInt64}
    (hs : Followed r (workflowKey ns w) s) (t tq : UInt64) (total : UInt32)
    (input : Option Bytes) (nowMs : UInt64) :
    Replays r (workflowKey ns w) (s.startWorkflow w t ns tq total input nowMs).2
      ↔ RecordsStatus r (workflowKey ns w) s .running
          (s.engine.workflows.HasRoom (workflowKey ns w)) := by
  have hrecords : Records (workflowKey ns w) .workflowStarted s
      (s.startWorkflow w t ns tq total input nowMs).2 := records_of_recordEvent rfl
  refine hs.recordsStatus_iff hrecords rfl (by decide) (fun hroom => ?_) (fun hfull => ?_)
  · have hlookup : (s.startWorkflow w t ns tq total input nowMs).2.engine.workflows.lookup
        (workflowKey ns w)
        = some (startContext w s.engine.nextRunId t ns tq total input
            s.engine.now) :=
      lookup_insert_self hroom _
    exact ⟨getStatus_of_some hlookup, fun step =>
      (getStepResult_of_some hlookup step).trans
        (getStepResult_startContext ..)⟩
  · exact ⟨(insert_of_not_hasRoom hfull (startContext w
      s.engine.nextRunId t ns tq total input s.engine.now)).2,
      lookup_of_not_hasRoom hfull t tq total input ∅ nowMs⟩

theorem Followed.completeStep_iff (hs : Followed r key s) (step : UInt32) (result : Bytes) :
    Replays r key (s.completeStep key step result) ↔ s.engine.workflows.lookup key = none := by
  have hlookup : (s.completeStep key step result).engine.workflows.lookup key
      = (s.engine.workflows.lookup key).map (·.completeStep step result) := by
    show (s.engine.completeStep key step result).workflows.lookup key = _
    rw [workflows_completeStep, lookup_modify, if_pos rfl]
  cases hctx : s.engine.workflows.lookup key with
  | none =>
    exact iff_of_true (hs.replays.congr rfl (by rw [hlookup, hctx]; rfl)) rfl
  | some ctx =>
    refine iff_of_false (fun hreplays => ?_) (Option.some_ne_none ctx)
    have hnone := ((replays_iff_of_noSteps (s := s.completeStep key step result)
      hs.noSteps).mp hreplays).2 step
    rw [hctx] at hlookup
    rw [getStepResult_of_some hlookup,
      getStepResult_completeStep, if_pos rfl] at hnone
    cases hnone

theorem Followed.replays_signalWorkflow
    (hs : Followed r key s) (signalNameId : UInt64) (payload : Bytes) :
    Replays r key (s.signalWorkflow key signalNameId payload) := by
  refine hs.replays.congr rfl ?_
  show ((s.engine.signalWorkflow key signalNameId payload).workflows.lookup key).map replayView = _
  have hkept : replayView ∘ (CtxUpdate.signalIfRunning signalNameId payload).apply = replayView := by
    funext ctx
    show replayView (ctx.signalIfRunning signalNameId payload) = replayView ctx
    unfold WorkflowContext.signalIfRunning
    split <;> rfl
  rw [workflows_signalWorkflow, Effect.apply, lookup_modify,
    if_pos rfl, Option.map_map, hkept]

omit [Sha256] in
theorem lookup_resetWorkflow (s : EngineServices) (key resetTo : UInt64) :
    (s.resetWorkflow key resetTo).2.engine.workflows.lookup key
      = (s.engine.workflows.lookup key).map (fun ctx => (ctx.reset resetTo).2) := by
  have hengine : (s.resetWorkflow key resetTo).2.engine = (s.engine.resetWorkflow key resetTo).2 := by
    simp only [resetWorkflow]
    split <;> rfl
  rw [hengine]
  exact (lookup_withMut ..).trans (if_pos rfl)

omit [Sha256] in
theorem history_resetWorkflow (s : EngineServices) (key resetTo : UInt64) :
    ((∃ ctx ∈ s.engine.workflows.lookup key, ctx.status = .running ∨ ctx.status = .failed)
        ∧ Records key .workflowReset s (s.resetWorkflow key resetTo).2)
    ∨ ((∀ ctx ∈ s.engine.workflows.lookup key, ¬ (ctx.status = .running ∨ ctx.status = .failed))
        ∧ (s.resetWorkflow key resetTo).2.history key = s.history key) := by
  have hok : (s.engine.resetWorkflow key resetTo).1
      = (s.engine.workflows.lookup key).elim false (fun ctx => (ctx.reset resetTo).1) :=
    withMut_fst ..
  simp only [resetWorkflow]
  split
  · next haccepted =>
    left
    refine ⟨?_, records_of_recordEvent rfl⟩
    rw [hok] at haccepted
    cases hctx : s.engine.workflows.lookup key with
    | none => rw [hctx] at haccepted; cases haccepted
    | some ctx =>
      rw [hctx] at haccepted
      exact ⟨ctx, rfl, (ctx.reset_fst resetTo).mp haccepted⟩
  · next hrefused =>
    right
    refine ⟨fun ctx hctx hopen => hrefused ?_, rfl⟩
    rw [hok, Option.mem_def.mp hctx]
    exact (ctx.reset_fst resetTo).mpr hopen

omit [Sha256] in
theorem Followed.resetWorkflow_iff (hs : Followed r key s) (resetTo : UInt64) :
    Replays r key (s.resetWorkflow key resetTo).2 ↔ s.engine.getStatus key ≠ .failed := by
  have hlookup := s.lookup_resetWorkflow key resetTo
  obtain ⟨hbefore, hempty⟩ := (replays_iff_of_noSteps hs.noSteps).mp hs.replays
  rcases s.history_resetWorkflow key resetTo with ⟨⟨ctx, hctx, hopen⟩, hrecords⟩ | ⟨hshut, hsame⟩
  · classical
    rw [Option.mem_def] at hctx
    rw [hctx] at hlookup
    have hlive' : (s.resetWorkflow key resetTo).2.engine.getStatus key = .running :=
      (getStatus_of_some hlookup).trans (status_reset resetTo hopen)
    have hempty' : ∀ step, (s.resetWorkflow key resetTo).2.engine.getStepResult key step = none := by
      intro step
      rw [getStepResult_of_some hlookup,
        getStepResult_reset resetTo hopen,
        ← getStepResult_of_some hctx, hempty step, ite_self]
    rw [replays_iff_of_noSteps (hrecords.noSteps (by decide) hs.noSteps),
      hrecords.status_replayed r, hbefore, hlive', getStatus_of_some hctx,
      show HistoryEventType.workflowReset.setsStatus = none from rfl, Option.getD_none, ite_self]
    refine (and_iff_left hempty').trans ?_
    rcases hopen with h | h <;> simp [h]
  · refine iff_of_true (hs.replays.congr hsame ?_) ?_
    · rw [hlookup]
      cases hctx : s.engine.workflows.lookup key with
      | none => rfl
      | some ctx =>
        exact congrArg (fun ctx => some (replayView ctx))
          (reset_of_refused resetTo (hshut ctx hctx))
    · intro hfailed
      cases hctx : s.engine.workflows.lookup key with
      | none =>
        rw [getStatus_of_none hctx] at hfailed
        cases hfailed
      | some ctx =>
        rw [getStatus_of_some hctx] at hfailed
        exact hshut ctx hctx (Or.inr hfailed)

/-! ### Runs -/

theorem records_step (hkey : op.key? = some key) :
    (s.step op).history key = s.history key
    ∨ ∃ t, t ≠ .stepCompleted ∧ Records key t s (s.step op) := by
  cases op with
  | advanceClock | completeStep | signalWorkflow => exact Or.inl rfl
  | resetWorkflow k resetTo =>
    obtain rfl := Option.some.inj hkey
    rcases s.history_resetWorkflow k resetTo with ⟨-, hrecords⟩ | ⟨-, hsame⟩
    · exact Or.inr ⟨_, by decide, hrecords⟩
    · exact Or.inl hsame
  | _ =>
    obtain rfl := Option.some.inj hkey
    exact Or.inr ⟨_, by decide, records_of_recordEvent rfl⟩

theorem noSteps_step (hs : NoSteps (s.history key))
    (op : ServiceOp) : NoSteps ((s.step op).history key) := by
  by_cases hkey : op.key? = some key
  · rcases records_step (s := s) hkey with hsame | ⟨t, ht, hrecords⟩
    · exact hsame ▸ hs
    · exact hrecords.noSteps ht hs
  · exact (s.history_step_of_ne hkey).symm ▸ hs

theorem Followed.replays_step_iff (hs : Followed r key s) (op : ServiceOp) :
    Replays r key (s.step op) ↔ ReplaysNext r key s op := by
  by_cases hkey : op.key? = some key
  · cases op with
    | advanceClock ms => cases hkey
    | signalWorkflow k n payload =>
      obtain rfl := Option.some.inj hkey
      exact iff_of_true (hs.replays_signalWorkflow n payload) trivial
    | startWorkflow w t ns tq total input nowMs =>
      obtain rfl := Option.some.inj hkey
      simp only [ReplaysNext, true_imp_iff]
      exact hs.startWorkflow_iff t tq total input nowMs
    | completeStep k step result =>
      obtain rfl := Option.some.inj hkey
      simp only [ReplaysNext, true_imp_iff]
      exact hs.completeStep_iff step result
    | completeWorkflow k result nowMs =>
      obtain rfl := Option.some.inj hkey
      simp only [ReplaysNext, true_imp_iff]
      exact hs.recordClose_iff (f := (·.complete s.engine.now result)) (t := .workflowCompleted) rfl
        (fun _ => rfl) (fun _ => rfl) rfl (by decide) nowMs
    | failWorkflow k nowMs =>
      obtain rfl := Option.some.inj hkey
      simp only [ReplaysNext, true_imp_iff]
      exact hs.recordClose_iff (f := (·.fail s.engine.now)) (t := .workflowFailed) rfl
        (fun _ => rfl) (fun _ => rfl) rfl (by decide) nowMs
    | cancelWorkflow k nowMs =>
      obtain rfl := Option.some.inj hkey
      simp only [ReplaysNext, true_imp_iff]
      exact hs.recordClose_iff (f := (·.cancel s.engine.now)) (t := .workflowCanceled) rfl
        (fun _ => rfl) (fun _ => rfl) rfl (by decide) nowMs
    | terminateWorkflow k nowMs =>
      obtain rfl := Option.some.inj hkey
      simp only [ReplaysNext, true_imp_iff]
      exact hs.recordClose_iff (f := (·.terminate s.engine.now)) (t := .workflowTerminated) rfl
        (fun _ => rfl) (fun _ => rfl) rfl (by decide) nowMs
    | resetWorkflow k resetTo =>
      obtain rfl := Option.some.inj hkey
      simp only [ReplaysNext, true_imp_iff]
      exact hs.resetWorkflow_iff resetTo
  · refine iff_of_true (hs.replays.congr (s.history_step_of_ne hkey)
      (congrArg _ (lookup_pool_step_of_ne hs.wellFormed hkey))) ?_
    cases op with
    | advanceClock | signalWorkflow => trivial
    | _ => exact fun heq => absurd (congrArg some heq) hkey

omit [Sha256] in
theorem followed_new (r : ReplayEngine) (key : UInt64) (wal : Option WalManager)
    (config : DurabilityConfig) (now : Nat) :
    Followed r key (new (WorkflowEngine.new wal config now)) where
  wellFormed := WorkflowContextPool.wellFormed_new
  noSteps := fun _ hevent => absurd hevent List.not_mem_nil
  replays := ⟨rfl, fun _ => rfl⟩

/-- **The history replays** to the live workflow iff every call meets the condition for the key. -/
theorem replays_iff_replaysNext (r : ReplayEngine) (key : UInt64) (wal : Option WalManager)
    (config : DurabilityConfig) (now : Nat) (ops : List ServiceOp) :
    (∀ ps, ps <+: ops → Replays r key ((new (WorkflowEngine.new wal config now)).run ps))
      ↔ StepsMeet step (ReplaysNext r key) (new (WorkflowEngine.new wal config now)) ops := by
  refine forall_prefixes_iff_stepsMeet (I := Followed r key) (J := Replays r key)
    (fun _ hs => hs.replays) (fun s op hs _ hop => ?_)
    (fun s op hs _ hnext => (hs.replays_step_iff op).mp hnext)
    (followed_new r key wal config now) (stepsMeet_of_mem (fun _ _ _ => trivial))
  exact ⟨wellFormed_pool_step hs.wellFormed op, noSteps_step hs.noSteps op,
    (hs.replays_step_iff op).mpr hop⟩

end Services

theorem replay_misses_step_and_reset :
    ((new (WorkflowEngine.new none .strict 0)).run
        [.startWorkflow 1 1 0 1 2 none 0, .completeStep 1 0 [7]]).engine.getStepResult 1 0
        = some [7]
    ∧ (ReplayEngine.new.replay 1 (((new (WorkflowEngine.new none .strict 0)).run
        [.startWorkflow 1 1 0 1 2 none 0, .completeStep 1 0 [7]]).history 1)
        none).stepResults.lookup 0 = none
    ∧ ((new (WorkflowEngine.new none .strict 0)).run
        [.startWorkflow 1 1 0 1 2 none 0, .failWorkflow 1 1, .resetWorkflow 1 0]).engine.getStatus 1
        = .running
    ∧ (ReplayEngine.new.replay 1 (((new (WorkflowEngine.new none .strict 0)).run
        [.startWorkflow 1 1 0 1 2 none 0, .failWorkflow 1 1, .resetWorkflow 1 0]).history 1)
        none).status = .failed
    ∧ ((new (WorkflowEngine.new none .strict 0)).run [.cancelWorkflow 1 0]).engine.getStatus 1
        = .void
    ∧ (ReplayEngine.new.replay 1 (((new (WorkflowEngine.new none .strict 0)).run
        [.cancelWorkflow 1 0]).history 1) none).status = .canceled := by
  decide +kernel

end EngineServices

end Velocity
