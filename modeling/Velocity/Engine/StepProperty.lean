import Velocity.Engine.RunConditions

namespace Velocity

open Lib

/-!
# Properties of the step state

A property of the step state, with the condition under which each update keeps it.

* `Admits`: an operation makes only such updates.
* `forall_prefixes_iff_admits`: the property holds along a run iff every operation is admitted.
-/

def CtxUpdate.TouchesSteps : CtxUpdate → Prop
  | .completeStep .. | .mergeSteps _ | .reset _ | .replay .. => True
  | _ => False

def Effect.Admits (good : CtxUpdate → WorkflowContext → Prop)
    (p : WorkflowContextPool WorkflowContext) : Effect → Prop
  | .update key u => ∀ ctx ∈ p.lookup key, good u ctx
  | _ => True

instance {good : CtxUpdate → WorkflowContext → Prop} [∀ u ctx, Decidable (good u ctx)]
    (p : WorkflowContextPool WorkflowContext) : ∀ effect, Decidable (Effect.Admits good p effect)
  | .update key u => inferInstanceAs (Decidable (∀ ctx ∈ p.lookup key, good u ctx))
  | .insert .. | .insertIfAbsent .. | .remove _ => inferInstanceAs (Decidable True)

variable [Sha256]

def Effect.AddsFresh : Effect → Prop
  | .insert _ ctx | .insertIfAbsent _ ctx => ∃ workflowId runId workflowTypeId namespaceId
      taskQueueHash totalSteps input now, ctx = WorkflowEngine.startContext workflowId runId
        workflowTypeId namespaceId taskQueueHash totalSteps input now
  | _ => True

/-- Fresh contexts have it, and rewrites under `good` keep it. -/
structure StepProperty (P : WorkflowContext → Prop)
    (good : CtxUpdate → WorkflowContext → Prop) : Prop where
  congr : ∀ {ctx ctx' : WorkflowContext}, P ctx → ctx'.slab = ctx.slab →
    ctx'.stepResults = ctx.stepResults → P ctx'
  fresh : ∀ workflowId runId workflowTypeId namespaceId taskQueueHash totalSteps input now,
    P (WorkflowEngine.startContext workflowId runId workflowTypeId namespaceId taskQueueHash
      totalSteps input now)
  completeStep_iff : ∀ {ctx} step result, P ctx →
    (P (ctx.completeStep step result) ↔ good (.completeStep step result) ctx)
  reset_iff : ∀ {ctx} r, P ctx → (P (ctx.reset r).2 ↔ good (.reset r) ctx)
  mergeSteps : ∀ {ctx steps}, P ctx → good (.mergeSteps steps) ctx → P (ctx.mergeSteps steps).2
  replay : ∀ {now record ctx}, good (.replay now record) ctx →
    record.eventType = .stepCompleted → 4 ≤ record.data.length →
      good (.completeStep record.stepIndex (record.data.drop 4)) ctx
  quiet : ∀ u ctx, ¬ CtxUpdate.TouchesSteps u → good u ctx

theorem StepProperty.replayContextUpdate {P : WorkflowContext → Prop}
    {good : CtxUpdate → WorkflowContext → Prop} (h : StepProperty P good) {now : Nat}
    {record : WalRecord} {ctx : WorkflowContext} (hctx : P ctx)
    (hgood : good (.replay now record) ctx) : P (replayContextUpdate now record ctx) := by
  unfold Velocity.replayContextUpdate
  split
  · next htype =>
    split
    · next hlen => exact (h.completeStep_iff _ _ hctx).mpr (h.replay hgood htype hlen)
    · exact hctx
  · split
    · exact h.congr hctx rfl rfl
    · exact hctx
  all_goals exact h.congr hctx rfl rfl

theorem StepProperty.apply {P : WorkflowContext → Prop}
    {good : CtxUpdate → WorkflowContext → Prop} (h : StepProperty P good) {u : CtxUpdate}
    {ctx : WorkflowContext} (hctx : P ctx) (hgood : good u ctx) : P (u.apply ctx) := by
  cases u with
  | completeStep step result => exact (h.completeStep_iff step result hctx).mpr hgood
  | mergeSteps steps => exact h.mergeSteps hctx hgood
  | reset r => exact (h.reset_iff r hctx).mpr hgood
  | replay now record => exact h.replayContextUpdate hctx hgood
  | signalIfRunning n d =>
    simp only [CtxUpdate.apply, WorkflowContext.signalIfRunning]
    split
    · exact hctx
    · exact h.congr hctx rfl rfl
  | _ => exact h.congr hctx rfl rfl

namespace WorkflowEngine

variable {e : WorkflowEngine} {op : EngineOp}

theorem addsFresh_of_mem_effects {effect : Effect}
    (h : effect ∈ e.effects op) : effect.AddsFresh := by
  obtain ⟨move, hmove, rfl⟩ := List.mem_map.mp h
  cases isMove_of_mem_moves hmove with
  | start | successor => exact ⟨_, _, _, _, _, _, _, _, rfl⟩
  | replay record hreplay =>
    rcases eq_of_replayEffect hreplay with ⟨fields, rfl⟩ | rfl
    · exact ⟨_, _, _, _, _, _, _, _, rfl⟩
    · trivial
  | _ => trivial

theorem not_touchesSteps_of_mem_effects
    (hstep : ∀ k s r, op ≠ .completeStep k s r ∧ op ≠ .completeStepSync k s r
      ∧ op ≠ .completeStepDurable k s r)
    (hreset : ∀ k r, op ≠ .resetWorkflow k r) (hrec : ¬ op.IsRecovery) {k : UInt64}
    {u : CtxUpdate} (h : Effect.update k u ∈ e.effects op) : ¬ u.TouchesSteps := by
  obtain ⟨move, hmove, heffect⟩ := List.mem_map.mp h
  cases isMove_of_mem_moves hmove with
  | start | successor | remove => cases heffect
  | step k s r h =>
    rcases h with rfl | rfl | rfl
    · exact absurd rfl (hstep k s r).1
    · exact absurd rfl (hstep k s r).2.1
    · exact absurd rfl (hstep k s r).2.2
  | signal => cases heffect; exact id
  | close k hclose => cases heffect; cases hclose <;> exact id
  | reset k r h => exact absurd h (hreset k r)
  | rewrite k hside =>
    cases heffect
    cases u <;> first | exact id | exact hside.elim
  | merge _ _ hop | replay _ _ hop => exact absurd hop hrec

/-- Every update that the operation makes to a context is `good`. -/
def Admits (good : CtxUpdate → WorkflowContext → Prop) (e : WorkflowEngine) (op : EngineOp) :
    Prop :=
  StepsMeet Effect.apply (Effect.Admits good) e.workflows (e.effects op)

instance {good : CtxUpdate → WorkflowContext → Prop} [∀ u ctx, Decidable (good u ctx)]
    (e : WorkflowEngine) (op : EngineOp) : Decidable (e.Admits good op) :=
  inferInstanceAs (Decidable (StepsMeet _ _ _ _))

variable {P : WorkflowContext → Prop} {good : CtxUpdate → WorkflowContext → Prop}

theorem all_step_of_admits (h : StepProperty P good)
    (he : e.workflows.All P) (hgood : e.Admits good op) : (e.step op).workflows.All P := by
  have hfresh : StepsMeet Effect.apply (fun _ effect => effect.AddsFresh) e.workflows
      (e.effects op) := stepsMeet_of_forall (fun _ => addsFresh_of_mem_effects)
  refine all_step he ((hfresh.and hgood).mono (fun p effect hboth => ?_))
  obtain ⟨hadds, hadmits⟩ := hboth
  cases effect with
  | insert key ctx | insertIfAbsent key ctx =>
    obtain ⟨w, r, t, ns, tq, total, input, now, rfl⟩ := hadds
    exact h.fresh w r t ns tq total input now
  | update key u => exact fun ctx hctx hP => h.apply hP (hadmits ctx hctx)
  | remove key => trivial

theorem admits_of_step (h : StepProperty P good) (he : e.workflows.All P) (hop : ¬ op.IsRecovery)
    (hafter : ∀ key, ∀ ctx ∈ (e.step op).workflows.lookup key, P ctx) : e.Admits good op := by
  -- the context that a rewrite leaves is found under its key
  have hmodify : ∀ {key : UInt64} {f : WorkflowContext → WorkflowContext},
      (e.step op).workflows = e.workflows.modify key f →
      ∀ ctx ∈ e.workflows.lookup key, P (f ctx) := by
    intro key f hstep ctx hctx
    refine hafter key (f ctx) ?_
    rw [hstep, WorkflowContextPool.lookup_modify, if_pos rfl, Option.mem_def.mp hctx]
    rfl
  cases op with
  | completeStep k s r | completeStepSync k s r | completeStepDurable k s r =>
    refine ⟨fun ctx hctx => (h.completeStep_iff s r (he.lookup hctx)).mp ?_, trivial⟩
    exact hmodify (step_workflows e _) ctx hctx
  | resetWorkflow k r =>
    refine ⟨fun ctx hctx => (h.reset_iff r (he.lookup hctx)).mp ?_, trivial⟩
    exact hmodify (step_workflows e _) ctx hctx
  | _ =>
    -- no other operation can break the property
    refine stepsMeet_of_mem (fun effect heffect p => ?_)
    cases effect with
    | update key u =>
      refine fun ctx _ => h.quiet u ctx (not_touchesSteps_of_mem_effects ?_ ?_ hop heffect)
      · exact fun _ _ _ => ⟨nofun, nofun, nofun⟩
      · exact fun _ _ => nofun
    | _ => trivial

theorem forall_prefixes_iff_admits (h : StepProperty P good) (wal : Option WalManager)
    (config : DurabilityConfig) (now : Nat) (ops : List EngineOp)
    (hrec : StepsMeet step (fun e op => op.IsRecovery → e.Admits good op)
      (new wal config now) ops) :
    (∀ ps, ps <+: ops → ∀ key, ∀ ctx ∈ ((new wal config now).run ps).workflows.lookup key, P ctx)
      ↔ StepsMeet step (Admits good) (new wal config now) ops := by
  have hnew : (new wal config now).workflows.All P := WorkflowContextPool.all_new _
  refine forall_prefixes_iff_stepsMeet (I := fun e => e.workflows.All P)
    (J := fun e => ∀ key, ∀ ctx ∈ e.workflows.lookup key, P ctx)
    (fun _ he _ _ hctx => he.lookup hctx) (fun _ _ he _ => all_step_of_admits h he)
    (fun e op he hadm hafter => ?_) hnew hrec
  by_cases hop : op.IsRecovery
  · exact hadm hop
  · exact admits_of_step h he hop hafter

end WorkflowEngine

end Velocity
