import Velocity.Engine.Recovery
import Velocity.Lib.Run

namespace Velocity

open Lib List WorkflowContextPool

/-!
# One step of the engine

Later invariants start from `step_workflows` and `step_logGrows`.

* `EngineOp`: the operations of a run; `WorkflowEngine.step` applies one.
* `Effect`, `CtxUpdate`: what an operation can do to the pool.
-/

/-! ### Operations -/

inductive EngineOp where
  | advanceClock (ms : Nat)
  | startWorkflow (workflowId workflowTypeId namespaceId taskQueueHash : UInt64)
      (totalSteps : UInt32) (input : Option Bytes)
  | startChildWorkflow (parentKey childWorkflowId workflowTypeId taskQueueHash : UInt64)
      (totalSteps : UInt32) (input : Option Bytes)
  | completeStep (key : UInt64) (step : UInt32) (result : Bytes)
  | completeStepSync (key : UInt64) (step : UInt32) (result : Bytes)
  | completeStepDurable (key : UInt64) (step : UInt32) (result : Bytes)
  | signalWorkflow (key signalNameId : UInt64) (payload : Bytes)
  | takeSignal (key signalNameId : UInt64)
  | signalWithStart (workflowId workflowTypeId namespaceId taskQueueHash : UInt64)
      (totalSteps : UInt32) (signalNameId : UInt64) (payload : Bytes)
  | completeWorkflow (key : UInt64) (result : Option Bytes)
  | failWorkflow (key : UInt64)
  | cancelWorkflow (key : UInt64)
  | terminateWorkflow (key : UInt64)
  | applyParentClosePolicy (parentKey : UInt64) (policy : WorkflowEngine.ParentClosePolicy)
  | checkWorkflowTimeouts
  | setWorkflowExecutionTimeout (key : UInt64) (timeoutMs : Nat)
  | resetWorkflow (key resetToEventId : UInt64)
  | continueAsNew (key : UInt64) (newInput : Option Bytes)
  | purgeWorkflow (key : UInt64)
  | getSlab (key : UInt64)
  | recoverFromWal
  | recoverStepsFromPg (adapter : Option WorkflowEngine.StepJournal)

/-! ### Effects and moves -/

inductive CtxUpdate where
  | completeStep (step : UInt32) (result : Bytes)
  | mergeSteps (steps : List (UInt32 × Option Bytes))
  | signalIfRunning (signalNameId : UInt64) (payload : Bytes)
  | takeSignal (signalNameId : UInt64)
  | complete (now : Nat) (result : Option Bytes)
  | fail (now : Nat)
  | cancel (now : Nat)
  | terminate (now : Nat)
  | continuedAsNew (now : Nat)
  | reset (resetToEventId : UInt64)
  | setExecutionTimeout (timeoutMs : Nat)
  | addChild (childKey : UInt64)
  | setParent (parentKey : UInt64)
  | replay (now : Nat) (record : WalRecord)

inductive Effect where
  | insert (key : UInt64) (ctx : WorkflowContext)
  | insertIfAbsent (key : UInt64) (ctx : WorkflowContext)
  | update (key : UInt64) (u : CtxUpdate)
  | remove (key : UInt64)

structure Move where
  effect : Effect
  record : Option WalRecord

def Move.logged (effect : Effect) (record : WalRecord) : Move := ⟨effect, some record⟩

def Move.silent (effect : Effect) : Move := ⟨effect, none⟩

@[simp] theorem map_effect_silent (effects : List Effect) :
    (effects.map Move.silent).map (·.effect) = effects := by
  rw [map_map]
  exact map_id effects

@[simp] theorem filterMap_record_silent (effects : List Effect) :
    (effects.map Move.silent).filterMap (·.record) = [] := by
  rw [filterMap_map]
  exact filterMap_eq_nil_iff.mpr (fun _ _ => rfl)

namespace WorkflowEngine

def signalMove (key signalNameId : UInt64) (payload : Bytes) : Move :=
  .logged (.update key (.signalIfRunning signalNameId payload))
    (signalRecord key signalNameId payload)

def terminateMove (now : Nat) (key : UInt64) : Move :=
  .logged (.update key (.terminate now)) ⟨.workflowTerminated, key, []⟩

def cancelMove (now : Nat) (key : UInt64) : Move :=
  .logged (.update key (.cancel now)) ⟨.workflowCanceled, key, []⟩

def ParentClosePolicy.move (now : Nat) : ParentClosePolicy → UInt64 → Option Move
  | .terminate, childKey => some (terminateMove now childKey)
  | .cancel, childKey => some (cancelMove now childKey)
  | .abandon, _ => none

def childKeys (e : WorkflowEngine) (parentKey : UInt64) : List UInt64 :=
  e.workflows.withCtx parentKey (fun c => (c.map (·.childKeys)).getD [])

theorem logGrows_applyParentClosePolicy (e : WorkflowEngine) (k : UInt64)
    (policy : ParentClosePolicy) :
    e.LogGrows (e.applyParentClosePolicy k policy)
      (((e.childKeys k).filterMap (policy.move e.now)).filterMap (·.record)) := by
  rw [filterMap_filterMap]
  cases policy with
  | terminate =>
    rw [show (e.childKeys k).filterMap (fun k => (ParentClosePolicy.terminate.move e.now k).bind
          (·.record))
        = (e.childKeys k).map (fun k => ⟨.workflowTerminated, k, []⟩)
      from filterMap_eq_map ▸ rfl]
    exact logGrows_foldl _ _ logGrows_terminateWorkflow (e.childKeys k) e
  | cancel =>
    rw [show (e.childKeys k).filterMap (fun k => (ParentClosePolicy.cancel.move e.now k).bind
          (·.record))
        = (e.childKeys k).map (fun k => ⟨.workflowCanceled, k, []⟩)
      from filterMap_eq_map ▸ rfl]
    exact logGrows_foldl _ _ logGrows_cancelWorkflow (e.childKeys k) e
  | abandon =>
    have hnone : (e.childKeys k).filterMap
        (fun k => (ParentClosePolicy.abandon.move e.now k).bind (·.record)) = [] :=
      filterMap_eq_nil_iff.mpr (fun _ _ => rfl)
    rw [hnone]
    exact logGrows_of_wal_eq (congrArg WorkflowEngine.wal (foldl_const (e.childKeys k) e))

end WorkflowEngine

variable [Sha256]

/-! ### A step -/

namespace WorkflowEngine

def step (e : WorkflowEngine) : EngineOp → WorkflowEngine
  | .advanceClock ms => { e with now := e.now + ms }
  | .startWorkflow workflowId workflowTypeId namespaceId taskQueueHash totalSteps input =>
    (e.startWorkflow workflowId workflowTypeId namespaceId taskQueueHash totalSteps input).2
  | .startChildWorkflow parentKey childWorkflowId workflowTypeId taskQueueHash totalSteps input =>
    (e.startChildWorkflow parentKey childWorkflowId workflowTypeId taskQueueHash totalSteps
      input).2
  | .completeStep key step result => e.completeStep key step result
  | .completeStepSync key step result => e.completeStepSync key step result
  | .completeStepDurable key step result => e.completeStepDurable key step result
  | .signalWorkflow key signalNameId payload => e.signalWorkflow key signalNameId payload
  | .takeSignal key signalNameId => (e.takeSignal key signalNameId).2
  | .signalWithStart workflowId workflowTypeId namespaceId taskQueueHash totalSteps signalNameId
      payload =>
    (e.signalWithStart workflowId workflowTypeId namespaceId taskQueueHash totalSteps
      signalNameId payload).2
  | .completeWorkflow key result => e.completeWorkflow key result
  | .failWorkflow key => e.failWorkflow key
  | .cancelWorkflow key => e.cancelWorkflow key
  | .terminateWorkflow key => e.terminateWorkflow key
  | .applyParentClosePolicy parentKey policy => e.applyParentClosePolicy parentKey policy
  | .checkWorkflowTimeouts => e.checkWorkflowTimeouts.2
  | .setWorkflowExecutionTimeout key timeoutMs => e.setWorkflowExecutionTimeout key timeoutMs
  | .resetWorkflow key resetToEventId => (e.resetWorkflow key resetToEventId).2
  | .continueAsNew key newInput => (e.continueAsNew key newInput).2
  | .purgeWorkflow key => e.purgeWorkflow key
  | .getSlab key => (e.getSlab key).2
  | .recoverFromWal => e.recoverFromWal.2
  | .recoverStepsFromPg adapter => (e.recoverStepsFromPg adapter).2

def run (e : WorkflowEngine) (ops : List EngineOp) : WorkflowEngine := ops.foldl step e

end WorkflowEngine

/-! ### What a step is made of -/

def CtxUpdate.apply : CtxUpdate → WorkflowContext → WorkflowContext
  | .completeStep step result, ctx => ctx.completeStep step result
  | .mergeSteps steps, ctx => (ctx.mergeSteps steps).2
  | .signalIfRunning signalNameId payload, ctx => ctx.signalIfRunning signalNameId payload
  | .takeSignal signalNameId, ctx => (ctx.takeSignal signalNameId).2
  | .complete now result, ctx => ctx.complete now result
  | .fail now, ctx => ctx.fail now
  | .cancel now, ctx => ctx.cancel now
  | .terminate now, ctx => ctx.terminate now
  | .continuedAsNew now, ctx => ctx.continuedAsNew now
  | .reset resetToEventId, ctx => (ctx.reset resetToEventId).2
  | .setExecutionTimeout timeoutMs, ctx =>
    { ctx with workflowExecutionTimeout := if timeoutMs > 0 then some timeoutMs else none }
  | .addChild childKey, ctx => { ctx with childKeys := ctx.childKeys ++ [childKey] }
  | .setParent parentKey, ctx => { ctx with parentKey := some parentKey }
  | .replay now record, ctx => replayContextUpdate now record ctx

def Effect.apply (workflows : WorkflowContextPool WorkflowContext) :
    Effect → WorkflowContextPool WorkflowContext
  | .insert key ctx => (workflows.insert key ctx).2
  | .insertIfAbsent key ctx => (workflows.insertIfAbsent key ctx).2
  | .update key u => workflows.modify key u.apply
  | .remove key => (workflows.remove key).2

def replayEffect (now : Nat) (record : WalRecord) : Option Effect :=
  match record.eventType with
  | .workflowStarted =>
    (StartFields.ofData record.data).map fun fields =>
      .insertIfAbsent record.workflowKey (replayContext record.workflowKey fields now)
  | _ => some (.update record.workflowKey (.replay now record))

theorem eq_of_replayEffect {now : Nat} {record : WalRecord} {effect : Effect}
    (h : replayEffect now record = some effect) :
    (∃ fields, effect
        = .insertIfAbsent record.workflowKey (replayContext record.workflowKey fields now))
      ∨ effect = .update record.workflowKey (.replay now record) := by
  unfold replayEffect at h
  split at h
  · obtain ⟨fields, -, heffect⟩ := Option.map_eq_some_iff.mp h
    exact .inl ⟨fields, heffect.symm⟩
  · exact .inr (Option.some.inj h).symm

namespace WorkflowEngine

def startEffect (e : WorkflowEngine)
    (workflowId workflowTypeId namespaceId taskQueueHash : UInt64) (totalSteps : UInt32)
    (input : Option Bytes) : Effect :=
  .insert (workflowKey namespaceId workflowId)
    (startContext workflowId e.nextRunId workflowTypeId namespaceId taskQueueHash totalSteps
      input e.now)

/-- A journal that is empty or cannot be loaded has none. -/
def mergeEffect (journal : StepJournal) (key : UInt64) : Option Effect :=
  match journal key with
  | .ok (step :: steps) => some (.update key (.mergeSteps (step :: steps)))
  | _ => none

def startRecord (workflowId workflowTypeId namespaceId taskQueueHash : UInt64)
    (totalSteps : UInt32) : WalRecord :=
  ⟨.workflowStarted, workflowKey namespaceId workflowId,
    startData workflowId workflowTypeId namespaceId taskQueueHash totalSteps⟩

def stepRecord (key : UInt64) (step : UInt32) (result : Bytes) : WalRecord :=
  ⟨.stepCompleted, key, stepData step result⟩

def startMove (e : WorkflowEngine)
    (workflowId workflowTypeId namespaceId taskQueueHash : UInt64) (totalSteps : UInt32)
    (input : Option Bytes) : Move :=
  .logged (e.startEffect workflowId workflowTypeId namespaceId taskQueueHash totalSteps input)
    (startRecord workflowId workflowTypeId namespaceId taskQueueHash totalSteps)

def moves (e : WorkflowEngine) : EngineOp → List Move
  | .advanceClock _ => []
  | .startWorkflow workflowId workflowTypeId namespaceId taskQueueHash totalSteps input =>
    [e.startMove workflowId workflowTypeId namespaceId taskQueueHash totalSteps input]
  | .startChildWorkflow parentKey childWorkflowId workflowTypeId taskQueueHash totalSteps input =>
    let childKey := workflowKey (parentKey >>> 32) childWorkflowId
    [e.startMove childWorkflowId workflowTypeId (parentKey >>> 32) taskQueueHash totalSteps input,
      .silent (.update parentKey (.addChild childKey)),
      .silent (.update childKey (.setParent parentKey))]
  | .completeStep key step result | .completeStepSync key step result
  | .completeStepDurable key step result =>
    [.logged (.update key (.completeStep step result)) (stepRecord key step result)]
  | .signalWorkflow key signalNameId payload => [signalMove key signalNameId payload]
  | .takeSignal key signalNameId => [.silent (.update key (.takeSignal signalNameId))]
  | .signalWithStart workflowId workflowTypeId namespaceId taskQueueHash totalSteps signalNameId
      payload =>
    let key := workflowKey namespaceId workflowId
    if e.getStatus key = .running then [signalMove key signalNameId payload]
    else
      [e.startMove workflowId workflowTypeId namespaceId taskQueueHash totalSteps none,
        signalMove key signalNameId payload]
  | .completeWorkflow key result =>
    [.logged (.update key (.complete e.now result)) ⟨.workflowCompleted, key, []⟩]
  | .failWorkflow key => [.logged (.update key (.fail e.now)) ⟨.workflowFailed, key, []⟩]
  | .cancelWorkflow key => [cancelMove e.now key]
  | .terminateWorkflow key => [terminateMove e.now key]
  | .applyParentClosePolicy parentKey policy =>
    (e.childKeys parentKey).filterMap (policy.move e.now)
  | .checkWorkflowTimeouts => e.timedOutKeys.map (terminateMove e.now)
  | .setWorkflowExecutionTimeout key timeoutMs =>
    [.silent (.update key (.setExecutionTimeout timeoutMs))]
  | .resetWorkflow key resetToEventId => [.silent (.update key (.reset resetToEventId))]
  | .continueAsNew key newInput =>
    match e.workflows.lookup key with
    | none => []
    | some old =>
      if old.workflowId = 0 ∧ old.workflowTypeId = 0 ∧ old.namespaceId = 0 then []
      else
        [.silent (.update key (.continuedAsNew e.now)),
          .silent (.insert (workflowKey old.namespaceId e.nextRunId)
            (startContext e.nextRunId e.nextRunId old.workflowTypeId old.namespaceId
              old.taskQueueHash old.slab.totalSteps newInput e.now))]
  | .purgeWorkflow key => [.silent (.remove key)]
  | .getSlab _ => []
  | .recoverFromWal =>
    match e.wal.map WalManager.replayAll with
    | some (.ok records) => (records.filterMap (replayEffect e.now)).map .silent
    | _ => []
  | .recoverStepsFromPg none => []
  | .recoverStepsFromPg (some journal) =>
    (e.workflows.keys.filterMap (mergeEffect journal)).map .silent

def effects (e : WorkflowEngine) (op : EngineOp) : List Effect := (e.moves op).map (·.effect)

def logged (e : WorkflowEngine) (op : EngineOp) : List WalRecord :=
  (e.moves op).filterMap (·.record)

/-! ### The effects of a step -/

variable (e : WorkflowEngine)

variable (k : UInt64) (s : UInt32) (r : Bytes)

@[simp] theorem workflows_applyStep :
    (e.applyStep k s r).2.workflows = e.workflows.modify k (·.completeStep s r) :=
  withMut_snd ..

theorem workflows_completeStep :
    (e.completeStep k s r).workflows = e.workflows.modify k (·.completeStep s r) := by
  have happly := workflows_applyStep (e.logEvent .stepCompleted k (stepData s r)) k s r
  simp only [completeStep]
  split <;> next h => rw [h] at happly; exact happly

theorem workflows_completeStepSync :
    (e.completeStepSync k s r).workflows = e.workflows.modify k (·.completeStep s r) := by
  have happly := workflows_applyStep (e.logEvent .stepCompleted k (stepData s r)).syncWal k s r
  simp only [completeStepSync]
  split <;> next h => rw [h] at happly; exact happly

theorem workflows_completeStepDurable :
    (e.completeStepDurable k s r).workflows = e.workflows.modify k (·.completeStep s r) := by
  have hsync := workflows_applyStep (e.logEvent .stepCompleted k (stepData s r)).syncWal k s r
  have hbatch := workflows_applyStep (e.logEvent .stepCompleted k (stepData s r)) k s r
  simp only [completeStepDurable]
  split
  · split
    · next h => rw [h] at hsync; exact hsync
    · next h =>
      rw [h] at hsync
      split <;> exact hsync
  · split
    · next h => rw [h] at hbatch; exact hbatch
    · next h =>
      rw [h] at hbatch
      split <;> simpa using hbatch

theorem workflows_signalWorkflow (k n : UInt64) (d : Bytes) :
    (e.signalWorkflow k n d).workflows
      = Effect.apply e.workflows (.update k (.signalIfRunning n d)) := by
  simp only [signalWorkflow]
  split <;> rfl

theorem workflows_foldl_close (close : WorkflowEngine → UInt64 → WorkflowEngine)
    (move : Nat → UInt64 → Move)
    (hclose : ∀ e k, (close e k).workflows = Effect.apply e.workflows (move e.now k).effect
      ∧ (close e k).now = e.now) (ks : List UInt64) (e : WorkflowEngine) :
    (ks.foldl close e).workflows
      = ((ks.map (move e.now)).map (·.effect)).foldl Effect.apply e.workflows := by
  induction ks generalizing e with
  | nil => rfl
  | cons k ks ih =>
    rw [foldl_cons, ih, (hclose e k).2, map_cons, map_cons, foldl_cons,
      (hclose e k).1]

theorem workflows_foldl_terminate (ks : List UInt64) (e : WorkflowEngine) :
    (ks.foldl terminateWorkflow e).workflows
      = ((ks.map (terminateMove e.now)).map (·.effect)).foldl Effect.apply e.workflows :=
  workflows_foldl_close terminateWorkflow terminateMove (fun _ _ => ⟨rfl, rfl⟩) ks e

theorem workflows_applyParentClosePolicy (policy : ParentClosePolicy) :
    (e.applyParentClosePolicy k policy).workflows
      = (e.effects (.applyParentClosePolicy k policy)).foldl Effect.apply
          e.workflows := by
  -- one loop with different closures; `abandon` idles
  simp only [effects, moves]
  cases policy with
  | terminate =>
    rw [show (e.childKeys k).filterMap (ParentClosePolicy.terminate.move e.now)
        = (e.childKeys k).map (terminateMove e.now) from filterMap_eq_map ▸ rfl]
    exact workflows_foldl_terminate (e.childKeys k) e
  | cancel =>
    rw [show (e.childKeys k).filterMap (ParentClosePolicy.cancel.move e.now)
        = (e.childKeys k).map (cancelMove e.now) from filterMap_eq_map ▸ rfl]
    exact workflows_foldl_close cancelWorkflow cancelMove (fun _ _ => ⟨rfl, rfl⟩)
      (e.childKeys k) e
  | abandon =>
    have hnone : (e.childKeys k).filterMap (ParentClosePolicy.abandon.move e.now) = [] :=
      filterMap_eq_nil_iff.mpr (fun _ _ => rfl)
    rw [hnone]
    exact congrArg WorkflowEngine.workflows (foldl_const (e.childKeys k) e)

theorem workflows_continueAsNew (input : Option Bytes) : (e.continueAsNew k input).2.workflows
      = (e.effects (.continueAsNew k input)).foldl Effect.apply e.workflows := by
  simp only [effects, moves]
  cases hctx : e.workflows.lookup k with
  | none =>
    rw [continueAsNew, withCtx, hctx]
    rfl
  | some old =>
    rw [continueAsNew, withCtx, hctx]
    by_cases hzero : old.workflowId = 0 ∧ old.workflowTypeId = 0 ∧ old.namespaceId = 0
    · simp only [id_eq, if_pos hzero]
      rfl
    · simp only [id_eq, if_neg hzero]
      rfl

def applyEffect? (workflows : WorkflowContextPool WorkflowContext) (effect : Option Effect) :
    WorkflowContextPool WorkflowContext :=
  (effect.map (Effect.apply workflows)).getD workflows

theorem foldl_effects {σ ι : Type} (turn : σ × WorkflowContextPool WorkflowContext → ι →
      σ × WorkflowContextPool WorkflowContext) (effect : ι → Option Effect)
    (hturn : ∀ s i, (turn s i).2 = applyEffect? s.2 (effect i)) (is : List ι)
    (s : σ × WorkflowContextPool WorkflowContext) :
    (is.foldl turn s).2 = (is.filterMap effect).foldl Effect.apply s.2 := by
  induction is generalizing s with
  | nil => rfl
  | cons i is ih =>
    rw [foldl_cons, ih, filterMap_cons, hturn]
    cases effect i <;> rfl

theorem replayRecord_snd (now : Nat) (workflows : WorkflowContextPool WorkflowContext)
    (r : WalRecord) :
    (replayRecord now workflows r).2 = applyEffect? workflows (replayEffect now r) := by
  obtain ⟨eventType, key, data⟩ := r
  cases eventType with
  | workflowStarted =>
    simp only [replayRecord, replayEffect]
    cases StartFields.ofData data <;> rfl
  | _ => rfl

theorem workflows_replayRecords (now : Nat) (workflows : WorkflowContextPool WorkflowContext)
    (records : List WalRecord) :
    (replayRecords now workflows records).2
      = (records.filterMap (replayEffect now)).foldl Effect.apply workflows := by
  unfold replayRecords
  refine foldl_effects _ (replayEffect now) (fun s r => ?_) records _
  exact replayRecord_snd now s.2 r

theorem mergeJournal_snd (journal : StepJournal) (counts : Nat × Nat)
    (workflows : WorkflowContextPool WorkflowContext) (key : UInt64) :
    (mergeJournal journal counts workflows key).2
      = applyEffect? workflows (mergeEffect journal key) := by
  unfold mergeJournal mergeEffect
  cases journal key with
  | error err => rfl
  | ok steps =>
    cases steps with
    | nil => rfl
    | cons step steps =>
      show (workflows.withMut key 0 (·.mergeSteps (step :: steps))).2 = _
      exact withMut_snd ..

/-- **What a step does to the pool**: its effects, one after the other. -/
theorem step_workflows (op : EngineOp) :
    (e.step op).workflows = (e.effects op).foldl Effect.apply e.workflows := by
  cases op with
  | completeStep k s r => exact workflows_completeStep e k s r
  | completeStepSync k s r => exact workflows_completeStepSync e k s r
  | completeStepDurable k s r => exact workflows_completeStepDurable e k s r
  | signalWorkflow k n d => exact workflows_signalWorkflow e k n d
  | takeSignal k n => exact withMut_snd ..
  -- the signal of a new run meets the pool that the start leaves
  | signalWithStart w t ns tq total n d =>
    simp only [step, signalWithStart, effects, moves]
    split
    · exact workflows_signalWorkflow e _ n d
    · exact workflows_signalWorkflow _ _ n d
  | applyParentClosePolicy k policy => exact workflows_applyParentClosePolicy e k policy
  | checkWorkflowTimeouts => exact workflows_foldl_terminate e.timedOutKeys e
  | resetWorkflow k r => exact withMut_snd ..
  | continueAsNew k input => exact workflows_continueAsNew e k input
  | getSlab k => exact workflows_getSlab e k
  | recoverFromWal =>
    simp only [step, recoverFromWal, effects, moves]
    cases e.wal with
    | none => rfl
    | some wal =>
      simp only [Option.map_some]
      cases wal.replayAll with
      | error err => rfl
      | ok records =>
        rw [map_effect_silent]
        exact workflows_replayRecords e.now e.workflows records
  | recoverStepsFromPg adapter =>
    cases adapter with
    | none => rfl
    | some journal =>
      rw [effects, moves, map_effect_silent]
      refine foldl_effects _ (mergeEffect journal) (fun s key => ?_) e.workflows.keys _
      exact mergeJournal_snd journal s.1 s.2 key
  | _ => rfl

/-! ### The records of a step -/

theorem wal_completeStep :
    (e.completeStep k s r).wal = (e.logEvent .stepCompleted k (stepData s r)).wal := by
  simp only [completeStep]
  split <;> next h => exact congrArg (fun p => p.2.wal) h.symm

theorem logGrows_completeStep : e.LogGrows (e.completeStep k s r) [stepRecord k s r] :=
  (logGrows_logEvent e .stepCompleted k (stepData s r)).congr (wal_completeStep e k s r)

theorem logGrows_completeStepSync : e.LogGrows (e.completeStepSync k s r) [stepRecord k s r] := by
  refine ((logGrows_logEvent e .stepCompleted k (stepData s r)).trans (logGrows_syncWal _)).congr ?_
  simp only [completeStepSync]
  split <;> next h => exact congrArg (fun p => p.2.wal) h.symm

theorem logGrows_completeStepDurable :
    e.LogGrows (e.completeStepDurable k s r) [stepRecord k s r] := by
  have hlog := logGrows_logEvent e .stepCompleted k (stepData s r)
  simp only [completeStepDurable]
  -- a batched fsync comes after the pool access
  split
  · refine (hlog.trans (logGrows_syncWal _)).congr ?_
    split
    · next h => exact congrArg (fun p => p.2.wal) h.symm
    · next h =>
      have hwal := congrArg (fun p => p.2.wal) h.symm
      split <;> exact hwal
  · split
    · next h => exact hlog.congr (congrArg (fun p => p.2.wal) h.symm)
    · next taskQueueHash merkleRoot e' h =>
      have happly : e.LogGrows (e'.onSlabWrite k merkleRoot merkleRoot) [stepRecord k s r] :=
        hlog.congr (congrArg (fun p => p.2.wal) h.symm)
      have hsync := happly.trans (logGrows_syncBatch _)
      split
      · exact hsync.congr rfl
      · exact hsync

theorem logGrows_startWorkflow (w t ns tq : UInt64) (total : UInt32) (input : Option Bytes) :
    e.LogGrows (e.startWorkflow w t ns tq total input).2 [startRecord w t ns tq total] :=
  ((logGrows_of_wal_eq rfl).trans (logGrows_logEvent _ _ _ _)).congr rfl

theorem logged_continueAsNew (input : Option Bytes) : e.logged (.continueAsNew k input) = [] := by
  simp only [logged, moves]
  split
  · rfl
  · split <;> rfl

theorem logged_recoverFromWal : e.logged .recoverFromWal = [] := by
  simp only [logged, moves]
  split
  · exact filterMap_record_silent _
  · rfl

theorem logged_recoverStepsFromPg (adapter : Option StepJournal) :
    e.logged (.recoverStepsFromPg adapter) = [] := by
  cases adapter with
  | none => rfl
  | some journal => exact filterMap_record_silent _

/-- **What a step does to the log**: it appends the records of the step. -/
theorem step_logGrows (op : EngineOp) : e.LogGrows (e.step op) (e.logged op) := by
  cases op with
  | startWorkflow w t ns tq total input => exact logGrows_startWorkflow e w t ns tq total input
  | startChildWorkflow parent w t tq total input =>
    exact (logGrows_startWorkflow e w t (parent >>> 32) tq total input).congr rfl
  | completeStep k s r => exact logGrows_completeStep e k s r
  | completeStepSync k s r => exact logGrows_completeStepSync e k s r
  | completeStepDurable k s r => exact logGrows_completeStepDurable e k s r
  | signalWorkflow k n d => exact logGrows_signalWorkflow e k n d
  | signalWithStart w t ns tq total n d =>
    simp only [step, signalWithStart, logged, moves]
    split
    · exact logGrows_signalWorkflow e _ n d
    · exact (logGrows_startWorkflow e w t ns tq total none).trans (logGrows_signalWorkflow _ _ n d)
  | completeWorkflow k r | failWorkflow k =>
    exact (logGrows_of_wal_eq rfl).trans (logGrows_logEvent _ _ _ _)
  | cancelWorkflow k => exact logGrows_cancelWorkflow e k
  | terminateWorkflow k => exact logGrows_terminateWorkflow e k
  | applyParentClosePolicy k policy => exact logGrows_applyParentClosePolicy e k policy
  | checkWorkflowTimeouts =>
    have hrecords : (e.timedOutKeys.map (terminateMove e.now)).filterMap (·.record)
        = e.timedOutKeys.map (fun key => ⟨.workflowTerminated, key, []⟩) := by
      rw [filterMap_map]
      exact filterMap_eq_map ▸ rfl
    rw [logged, moves, hrecords]
    exact logGrows_foldl _ _ logGrows_terminateWorkflow e.timedOutKeys e
  | continueAsNew k input =>
    rw [logged_continueAsNew]
    refine logGrows_of_wal_eq ?_
    simp only [step, continueAsNew]
    split
    · rfl
    · split <;> rfl
  | getSlab k =>
    refine logGrows_of_wal_eq ?_
    simp only [step, getSlab]
    split <;> rfl
  | recoverFromWal =>
    rw [logged_recoverFromWal]
    refine logGrows_of_wal_eq ?_
    simp only [step, recoverFromWal]
    split
    · rfl
    · split <;> rfl
  | recoverStepsFromPg adapter =>
    rw [logged_recoverStepsFromPg]
    cases adapter <;> exact logGrows_of_wal_eq rfl
  | _ => exact logGrows_of_wal_eq rfl

end WorkflowEngine

/-! ### Stored contexts -/

/-- What the effect writes has the property if what it found had it. -/
def Effect.KeepsIn (P : WorkflowContext → Prop) (p : WorkflowContextPool WorkflowContext) :
    Effect → Prop
  | .insert _ ctx | .insertIfAbsent _ ctx => P ctx
  | .update key u => ∀ ctx, p.lookup key = some ctx → P ctx → P (u.apply ctx)
  | .remove _ => True

theorem Effect.KeepsIn.all_apply {P : WorkflowContext → Prop}
    {p : WorkflowContextPool WorkflowContext} {effect : Effect} (h : effect.KeepsIn P p)
    (hp : p.All P) : (effect.apply p).All P := by
  cases effect with
  | insert key ctx => exact hp.insert key h
  | insertIfAbsent key ctx => exact hp.insertIfAbsent key h
  | update key u => exact hp.modify h
  | remove key => exact hp.remove key

theorem WorkflowEngine.all_step {P : WorkflowContext → Prop} {e : WorkflowEngine} {op : EngineOp}
    (he : e.workflows.All P)
    (h : StepsMeet Effect.apply (fun p effect => effect.KeepsIn P p) e.workflows (e.effects op)) :
    (e.step op).workflows.All P := by
  rw [step_workflows]
  exact foldl_invariant (fun _ _ hp hkeeps => hkeeps.all_apply hp) (e.effects op) _ he h

end Velocity
