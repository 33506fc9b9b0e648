import Velocity.Engine.StepRecovery

namespace Velocity

open Lib WorkflowContextPool WorkflowEngine

/-!
# Recovery of inputs and results

Inputs and results are in the context and not in the log.
-/

def payloads (ctx : WorkflowContext) : Option Bytes × Option Bytes :=
  (ctx.inputData, ctx.resultData)

abbrev WorkflowContext.Bare (ctx : WorkflowContext) : Prop := payloads ctx = (none, none)

namespace WorkflowEngine

/-- The operation puts no payload into a workflow. -/
def KeepsBare (e : WorkflowEngine) : EngineOp → Prop
  | .startWorkflow w _ ns _ _ input => e.workflows.HasRoom (workflowKey ns w) → input = none
  | .completeWorkflow key result => (e.workflows.lookup key).isSome = true → result = none
  | _ => True

instance (e : WorkflowEngine) (op : EngineOp) : Decidable (e.KeepsBare op) := by
  induction op using EngineOp.casesOn with
  | startWorkflow | completeWorkflow => exact inferInstanceAs (Decidable (_ → _ = none))
  | _ => exact instDecidableTrue

end WorkflowEngine

/-! ### Payloads under updates -/

theorem payloads_signalIfRunning (c : WorkflowContext) (n : UInt64) (p : Bytes) :
    payloads (c.signalIfRunning n p) = payloads c := by
  unfold WorkflowContext.signalIfRunning
  split <;> rfl

theorem WorkflowContext.Bare.complete {c : WorkflowContext} (h : c.Bare) (now : Nat) :
    (c.complete now none).Bare :=
  Prod.ext (Prod.ext_iff.mp h).1 rfl

section Recovery

variable [Sha256]

theorem closesAlike_bare : WorkflowEngine.ClosesAlike (fun _ d => d.Bare) := by
  intro now now' u t hclose k c d h
  cases hclose with
  | complete => exact h.complete now'
  | _ => exact h

/-- **A replay brings no payload**, whatever the live operations brought. -/
theorem stepAlike_bare : StepAlike (fun _ d => d.Bare) where
  fresh _ _ _ _ _ := rfl
  completeStep _ _ h := h
  signal _ _ h := h
  close := closesAlike_bare

namespace WorkflowEngine

/-- Recovery finds the inputs and results of the live engine. -/
def PayloadsDurable (e : WorkflowEngine) (now : Nat) : Prop :=
  ∀ k, ((e.recovered now).workflows.lookup k).map payloads = (e.workflows.lookup k).map payloads

theorem payloadsDurable_iff_bare {e : WorkflowEngine} {now : Nat}
    (hrel : ∀ k, Option.Rel (fun _ d : WorkflowContext => d.Bare) (e.workflows.lookup k)
      ((e.recovered now).workflows.lookup k)) :
    e.PayloadsDurable now ↔ ∀ k, ∀ ctx ∈ e.workflows.lookup k, ctx.Bare := by
  refine forall_congr' (fun k => ?_)
  have hk := hrel k
  generalize e.workflows.lookup k = live, (e.recovered now).workflows.lookup k = found at hk ⊢
  cases hk with
  | none => simp
  | some hbare => simp [hbare, eq_comm]

theorem all_bare_step {e : WorkflowEngine} {op : EngineOp} (hop : op.IsStepOp)
    (he : e.workflows.All WorkflowContext.Bare) (hkeeps : e.KeepsBare op) :
    (e.step op).workflows.All WorkflowContext.Bare := by
  cases op with
  | advanceClock ms => exact he
  | startWorkflow w t ns tq total input =>
    by_cases hroom : e.workflows.HasRoom (workflowKey ns w)
    · have hinput := hkeeps hroom
      subst hinput
      exact he.insert _ rfl
    · -- a start that finds no room stores nothing
      have hsame := (insert_of_not_hasRoom hroom
        (startContext w e.nextRunId t ns tq total input e.now)).1
      show (e.workflows.insert _ _).2.All _
      rw [hsame]
      exact he
  | completeStep k s r | completeStepSync k s r | completeStepDurable k s r =>
    exact all_step he ⟨fun _ _ hbare => hbare, trivial⟩
  | signalWorkflow k n p =>
    refine all_step he ⟨fun ctx _ hbare => ?_, trivial⟩
    exact (payloads_signalIfRunning ctx n p).trans hbare
  | completeWorkflow k r =>
    refine all_step he ⟨fun ctx hctx hbare => ?_, trivial⟩
    rw [hkeeps (Option.isSome_of_mem hctx)]
    exact hbare.complete e.now
  | failWorkflow k | cancelWorkflow k | terminateWorkflow k =>
    exact all_step he ⟨fun _ _ hbare => hbare, trivial⟩
  | applyParentClosePolicy k policy =>
    refine all_step he (stepsMeet_of_mem (fun effect heffect p => ?_))
    obtain ⟨move, hmove, rfl⟩ := List.mem_map.mp heffect
    obtain ⟨child, _, hchild⟩ := List.mem_filterMap.mp hmove
    cases policy with
    | abandon => cases hchild
    | terminate | cancel =>
      rw [← Option.some.inj hchild]
      exact fun _ _ hbare => hbare
  | checkWorkflowTimeouts =>
    refine all_step he (stepsMeet_of_mem (fun effect heffect p => ?_))
    obtain ⟨move, hmove, rfl⟩ := List.mem_map.mp heffect
    obtain ⟨key, _, rfl⟩ := List.mem_map.mp hmove
    exact fun _ _ hbare => hbare
  | _ => exact hop.elim

theorem keepsBare_of_step {e : WorkflowEngine} {op : EngineOp}
    (hafter : ∀ k, ∀ ctx ∈ (e.step op).workflows.lookup k, ctx.Bare) : e.KeepsBare op := by
  cases op with
  | startWorkflow w t ns tq total input =>
    intro hroom
    have hbare := hafter (workflowKey ns w) _ (lookup_insert_self hroom _)
    exact (Prod.ext_iff.mp hbare).1
  | completeWorkflow k r =>
    intro hsome
    obtain ⟨ctx, hctx⟩ := Option.isSome_iff_exists.mp hsome
    have hfound : (e.step (.completeWorkflow k r)).workflows.lookup k
        = some (ctx.complete e.now r) := by
      rw [step_workflows]
      show (e.workflows.modify k (·.complete e.now r)).lookup k = _
      rw [lookup_modify, if_pos rfl, hctx]
      rfl
    exact (Prod.ext_iff.mp (hafter k _ hfound)).2
  | _ => trivial

end WorkflowEngine

/-! ### Runs -/

/-- **Payloads are recovered** iff the operations bring none. -/
theorem payloadsDurable_iff (maxFileSize retainCount : Nat) (config : DurabilityConfig)
    (start now : Nat) (ops : List EngineOp) (hops : ∀ op ∈ ops, op.IsStepOp)
    (honce : (ops.filterMap EngineOp.startedKey).Nodup) (hpayload : ∀ op ∈ ops, op.PayloadFits)
    (hretained : ∀ ps, ps <+: ops →
      ((withWal maxFileSize retainCount config start).run ps).StartsRetained) :
    (∀ ps, ps <+: ops →
      ((withWal maxFileSize retainCount config start).run ps).PayloadsDurable now)
      ↔ StepsMeet WorkflowEngine.step WorkflowEngine.KeepsBare
          (withWal maxFileSize retainCount config start) ops := by
  have hbare : ∀ ps, ps <+: ops →
      (((withWal maxFileSize retainCount config start).run ps).PayloadsDurable now
        ↔ ∀ k, ∀ ctx ∈ ((withWal maxFileSize retainCount config start).run
            ps).workflows.lookup k, ctx.Bare) := by
    intro ps hps
    refine payloadsDurable_iff_bare (fun k => ?_)
    exact stepAlike_bare.recovered maxFileSize retainCount config start now
      (fun op hop => hops op (hps.subset hop)) (honce.sublist (hps.filterMap _).sublist)
      (fun op hop => hpayload op (hps.subset hop)) (hretained ps hps) k
  rw [forall₂_congr hbare]
  -- none until an operation brings one
  have hadm : StepsMeet WorkflowEngine.step (fun _ op => op.IsStepOp)
      (withWal maxFileSize retainCount config start) ops := stepsMeet_of_forall hops
  exact forall_prefixes_iff_stepsMeet
    (I := fun e : WorkflowEngine => e.workflows.All WorkflowContext.Bare)
    (J := fun e : WorkflowEngine => ∀ k, ∀ ctx ∈ e.workflows.lookup k, ctx.Bare)
    (fun _ he _ _ hctx => he.lookup hctx)
    (fun _ _ he hop => all_bare_step hop he)
    (fun _ _ _ _ hafter => keepsBare_of_step hafter)
    (all_new _) hadm

end Recovery

theorem payloadsDurable_without_payloads :
    let ops : List EngineOp := [.startWorkflow 1 1 0 1 2 none, .completeStep 1 0 [7],
      .completeWorkflow 1 none]
    ∀ ps, ps <+: ops →
      ((withWal 1000 3 .strict 0).run ps).PayloadsDurable 0 := by
  intro ops
  have hretained : ∀ ps ∈ ops.inits,
      ((withWal 1000 3 .strict 0).run ps).StartsRetained := by decide +kernel
  refine (payloadsDurable_iff 1000 3 .strict 0 0 ops ?_ (by decide) ?_
    (fun ps hps => hretained ps ((List.mem_inits ps ops).mpr hps))).mpr (by decide +kernel)
  · simp [ops, EngineOp.IsStepOp, EngineOp.IsClosingOp]
  · simp [ops, EngineOp.PayloadFits]

theorem payloads_lost_by_recovery :
    let started := (withWal 1000 3 .strict 0).run
      [.startWorkflow 1 1 0 1 2 (some [1])]
    let completed := started.run [.completeWorkflow 1 (some [42])]
    (started.workflows.lookup 1).map payloads = some (some [1], none)
      ∧ ((started.recovered 0).workflows.lookup 1).map payloads = some (none, none)
      ∧ (completed.workflows.lookup 1).map payloads = some (some [1], some [42])
      ∧ ((completed.recovered 0).workflows.lookup 1).map payloads = some (none, none) := by
  decide +kernel

end Velocity
