import Velocity.Engine.Lineage

namespace Velocity

open Lib WorkflowEngine

/-!
# Namespace isolation

Keys are `(namespace_id << 32) | workflow_id`, which different pairs can share.

* `workflowKey_ne_iff`: the pairs that the key keeps apart.
* `furtherKeys`: what an operation on one workflow writes beside it.
* `isolated_iff_separated`: an operation on one pair leaves the other's context alone iff the
  key keeps the two apart.
-/

/-! ### The key -/

/-- The halves of the ids that make up the keys differ. -/
def Separated (namespaceId workflowId namespaceId' workflowId' : UInt64) : Prop :=
  workflowId.toNat % 2 ^ 32 ≠ workflowId'.toNat % 2 ^ 32
    ∨ namespaceId.toNat % 2 ^ 32 ||| workflowId.toNat / 2 ^ 32
        ≠ namespaceId'.toNat % 2 ^ 32 ||| workflowId'.toNat / 2 ^ 32

instance (ns w ns' w' : UInt64) : Decidable (Separated ns w ns' w') :=
  inferInstanceAs (Decidable (_ ∨ _))

namespace WorkflowEngine

theorem toNat_shiftLeft_32 (ns : UInt64) : (ns <<< 32).toNat = ns.toNat % 2 ^ 32 * 2 ^ 32 := by
  rw [UInt64.toNat_shiftLeft, Nat.shiftLeft_eq]
  show ns.toNat * 2 ^ 32 % 2 ^ 64 = _
  rw [show 2 ^ 64 = 2 ^ 32 * 2 ^ 32 from rfl, Nat.mul_mod_mul_right]

theorem toNat_workflowKey_mod (ns w : UInt64) :
    (workflowKey ns w).toNat % 2 ^ 32 = w.toNat % 2 ^ 32 := by
  rw [workflowKey, UInt64.toNat_or, toNat_shiftLeft_32, Nat.or_mod_two_pow, Nat.mul_mod_left,
    Nat.zero_or]

theorem toNat_workflowKey_div (ns w : UInt64) :
    (workflowKey ns w).toNat / 2 ^ 32 = ns.toNat % 2 ^ 32 ||| w.toNat / 2 ^ 32 := by
  rw [workflowKey, UInt64.toNat_or, toNat_shiftLeft_32, Nat.or_div_two_pow,
    Nat.mul_div_cancel _ (Nat.two_pow_pos 32)]

/-- **The key separates two pairs** iff the halves that it is made of do. -/
theorem workflowKey_ne_iff (ns w ns' w' : UInt64) :
    workflowKey ns w ≠ workflowKey ns' w' ↔ Separated ns w ns' w' := by
  rw [Separated, ← toNat_workflowKey_mod ns w, ← toNat_workflowKey_mod ns' w',
    ← toNat_workflowKey_div ns w, ← toNat_workflowKey_div ns' w', ne_eq, ← UInt64.toNat_inj]
  omega

end WorkflowEngine

/-! ### One workflow -/

/-- The operation is addressed by the pair, or by the key that the pair has. -/
def EngineOp.AddressedTo (namespaceId workflowId : UInt64) : EngineOp → Prop
  | .startWorkflow workflowId' _ namespaceId' _ _ _
  | .signalWithStart workflowId' _ namespaceId' _ _ _ _ =>
    namespaceId' = namespaceId ∧ workflowId' = workflowId
  | .startChildWorkflow key _ _ _ _ _ | .completeStep key _ _ | .completeStepSync key _ _
  | .completeStepDurable key _ _ | .signalWorkflow key _ _ | .takeSignal key _
  | .completeWorkflow key _ | .failWorkflow key | .cancelWorkflow key | .terminateWorkflow key
  | .applyParentClosePolicy key _ | .setWorkflowExecutionTimeout key _ | .resetWorkflow key _
  | .continueAsNew key _ | .purgeWorkflow key | .getSlab key =>
    key = workflowKey namespaceId workflowId
  | _ => False

/-- The keys that an operation is meant to write beside the one it is addressed to. -/
def WorkflowEngine.furtherKeys (e : WorkflowEngine) : EngineOp → List UInt64
  | .startChildWorkflow parentKey childWorkflowId _ _ _ _ =>
    [workflowKey (parentKey >>> 32) childWorkflowId]
  | .continueAsNew key _ => (e.workflows.lookup key).toList.map e.successorKey
  | .applyParentClosePolicy parentKey _ => e.childKeys parentKey
  | _ => []

section Isolation

variable [Sha256]

namespace WorkflowEngine

theorem key_of_mem_effects {ns w : UInt64} {op : EngineOp} (hop : op.AddressedTo ns w)
    {e : WorkflowEngine} {effect : Effect} (h : effect ∈ e.effects op) :
    effect.key = workflowKey ns w ∨ effect.key ∈ e.furtherKeys op := by
  obtain ⟨move, hmove, rfl⟩ := List.mem_map.mp h
  cases op with
  | startWorkflow w' t ns' tq total input =>
    rw [List.mem_singleton.mp hmove, ← hop.1, ← hop.2]
    exact Or.inl rfl
  | signalWithStart w' t ns' tq total n d =>
    rw [← hop.1, ← hop.2]
    simp only [moves] at hmove
    split at hmove
    · rw [List.mem_singleton.mp hmove]
      exact Or.inl rfl
    · simp only [List.mem_cons, List.not_mem_nil, or_false] at hmove
      rcases hmove with rfl | rfl <;> exact Or.inl rfl
  | startChildWorkflow parent w' t tq total input =>
    simp only [moves, List.mem_cons, List.not_mem_nil, or_false] at hmove
    rcases hmove with rfl | rfl | rfl
    · exact Or.inr (List.mem_singleton_self _)
    · exact Or.inl hop
    · exact Or.inr (List.mem_singleton_self _)
  | continueAsNew k input =>
    cases hctx : e.workflows.lookup k with
    | none => simp [effects, moves, hctx] at h
    | some ctx =>
      rcases key_of_mem_effects_continueAsNew hctx h with hkey | hkey
      · exact Or.inl (hkey.trans hop)
      · exact Or.inr (by simp [furtherKeys, hctx, hkey])
  | applyParentClosePolicy k policy =>
    obtain ⟨child, hchild, hpolicy⟩ := List.mem_filterMap.mp hmove
    cases policy <;> cases hpolicy <;> exact Or.inr hchild
  | completeStep k | completeStepSync k | completeStepDurable k | signalWorkflow k
  | takeSignal k | completeWorkflow k | failWorkflow k | cancelWorkflow k | terminateWorkflow k
  | setWorkflowExecutionTimeout k | resetWorkflow k | purgeWorkflow k =>
    rw [List.mem_singleton.mp hmove]
    exact Or.inl hop
  | getSlab k => cases hmove
  | _ => exact hop.elim

theorem lookup_startWorkflow {e : WorkflowEngine} (he : e.workflows.WellFormed)
    (w t ns tq : UInt64) (total : UInt32) (input : Option Bytes)
    (hroom : (e.workflows.lookup (workflowKey ns w)).isSome ∨ e.workflows.freeList ≠ []) :
    (e.startWorkflow w t ns tq total input).2.workflows.lookup (workflowKey ns w)
      = some (startContext w e.nextRunId t ns tq total input e.now) := by
  show (e.workflows.insert (workflowKey ns w) _).2.lookup _ = _
  rw [he.lookup_insert, if_pos ⟨rfl, hroom⟩]

theorem lookup_start_start {ns w ns' w' : UInt64} (hkey : workflowKey ns w = workflowKey ns' w') :
    let e := (new none .strict 0).run [.startWorkflow w' 0 ns' 0 0 none]
    (e.step (.startWorkflow w 0 ns 0 0 none)).workflows.lookup (workflowKey ns' w')
      ≠ e.workflows.lookup (workflowKey ns' w') := by
  intro e
  have hbefore : e.workflows.lookup (workflowKey ns' w')
      = some (startContext w' 1 0 ns' 0 0 none 0) :=
    lookup_startWorkflow WorkflowContextPool.wellFormed_new w' 0 ns' 0 0 none
      (Or.inr WorkflowContextPool.freeList_new_ne_nil)
  have hwf : e.workflows.WellFormed := WorkflowContextPool.wellFormed_new.insert _ _
  have hafter : (e.step (.startWorkflow w 0 ns 0 0 none)).workflows.lookup (workflowKey ns w)
      = some (startContext w 2 0 ns 0 0 none 0) :=
    lookup_startWorkflow hwf w 0 ns 0 0 none (Or.inl (by rw [hkey, hbefore]; rfl))
  rw [← hkey, hafter, hkey, hbefore]
  intro heq
  -- the two runs have different run ids
  have hrun : (2 : UInt64) = 1 := congrArg WorkflowContext.runId (Option.some.inj heq)
  exact absurd hrun (by decide)

/-- **Isolation** of `(ns, w)` and `(ns', w')` holds iff their keys differ. -/
theorem isolated_iff_separated (ns w ns' w' : UInt64) :
    (∀ e : WorkflowEngine, e.Reached → ∀ op : EngineOp, op.AddressedTo ns w → e.PurgesSafely op →
        workflowKey ns' w' ∉ e.furtherKeys op →
        (e.step op).workflows.lookup (workflowKey ns' w')
          = e.workflows.lookup (workflowKey ns' w'))
      ↔ Separated ns w ns' w' := by
  rw [← workflowKey_ne_iff]
  constructor
  · intro hisolated hkey
    have hreached : ((new none .strict 0).run [.startWorkflow w' 0 ns' 0 0 none]).Reached :=
      ⟨none, .strict, 0, [.startWorkflow w' 0 ns' 0 0 none], ⟨trivial, trivial⟩, rfl⟩
    exact lookup_start_start hkey
      (hisolated _ hreached (.startWorkflow w 0 ns 0 0 none) ⟨rfl, rfl⟩ trivial List.not_mem_nil)
  · intro hkey e he op hop hpurge hfurther
    refine lookup_step_of_ne he.wellFormed hpurge fun effect heffect heq => ?_
    rcases key_of_mem_effects hop heffect with h | h
    · exact hkey (h.symm.trans heq.symm)
    · exact hfurther (heq ▸ h)

end WorkflowEngine

end Isolation

theorem not_isolated_across_namespaces :
    workflowKey 0 4294967296 = workflowKey 1 0
    ∧ (let e := sampleRun [.startWorkflow 4294967296 1 0 1 3 none];
      ((e.workflows.lookup (workflowKey 0 4294967296)).map
          (fun ctx => (ctx.namespaceId, ctx.workflowId, ctx.slab.totalSteps)))
        = some (0, 4294967296, 3)
      ∧ (((e.step (.startWorkflow 0 1 1 1 5 none)).workflows.lookup
          (workflowKey 0 4294967296)).map
          (fun ctx => (ctx.namespaceId, ctx.workflowId, ctx.slab.totalSteps)))
        = some (1, 0, 5)) := by
  decide +kernel

end Velocity
