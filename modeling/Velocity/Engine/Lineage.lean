import Velocity.Engine.Frame
import Velocity.Engine.ResetRecovery
import Velocity.Store.PoolRefinement

namespace Velocity

open Lib List WorkflowContextPool

/-!
# Continuing as new

A successor is entered under the next run id, and a start under a workflow id that the caller
chose. Both are numbers of one key space, and nothing checks that the key is free.

* `startedKeys`: the keys that a run has started and not purged since.
* `Tallied`: these are the keys that the pool holds, which every step keeps.
* `continuesApart_iff`: when a continuation touches its own lineage only.
-/

/-! ### Started keys -/

/-- The key under which an effect enters a workflow. -/
def Effect.startedKey : Effect → Option UInt64
  | .insert key _ | .insertIfAbsent key _ => some key
  | .update _ _ | .remove _ => none

namespace WorkflowEngine

/-- The key that `continue_as_new` gives: the next run id in the namespace of `ctx`. A workflow
    whose ids are all zero is taken for an absent one. -/
def successorKey (e : WorkflowEngine) (ctx : WorkflowContext) : UInt64 :=
  if ctx.IsBlank then 0 else workflowKey ctx.namespaceId e.nextRunId

/-- The keys after one more start; a full pool takes no further key. -/
def takeKey (keys : Finset UInt64) (key : UInt64) : Finset UInt64 :=
  if keys.card < workflowPoolCapacity then insert key keys else keys

variable [Sha256]

/-- The keys after an operation: those it starts are admitted, the one it purges is dropped. -/
def keysAfter (e : WorkflowEngine) (keys : Finset UInt64) : EngineOp → Finset UInt64
  | .purgeWorkflow key => keys.erase key
  | op => ((e.effects op).filterMap Effect.startedKey).foldl takeKey keys

/-- The keys after a run of `e` that begins with those in `before`. -/
def startedKeys : WorkflowEngine → Finset UInt64 → List EngineOp → Finset UInt64
  | _, before, [] => before
  | e, before, op :: ops => (e.step op).startedKeys (e.keysAfter before op) ops

/-- The pool is a map with these keys. -/
def Tallied (p : WorkflowContextPool WorkflowContext) (keys : Finset UInt64) : Prop :=
  ∃ m : ContextMap WorkflowContext, Simulates m p ∧ m.keys = keys

namespace Tallied

omit [Sha256]

variable {p : WorkflowContextPool WorkflowContext} {keys : Finset UInt64} (h : Tallied p keys)

include h

theorem wellFormed : p.WellFormed := by
  obtain ⟨m, hm, -⟩ := h
  exact hm.wellFormed

theorem lookup_eq_none {k : UInt64} : p.lookup k = none ↔ k ∉ keys := by
  obtain ⟨m, hm, rfl⟩ := h
  rw [hm.lookup, Finmap.lookup_eq_none, Finmap.mem_keys]

theorem insert (key : UInt64) (ctx : WorkflowContext) :
    Tallied (p.insert key ctx).2 (takeKey keys key) := by
  obtain ⟨m, hm, rfl⟩ := h
  refine ⟨_, hm.insert key ctx, ?_⟩
  rw [ContextMap.step, takeKey]
  by_cases hroom : m.keys.card < workflowPoolCapacity
  · rw [if_pos (Or.inr hroom), if_pos hroom, Simulates.keys_insert]
  · rw [if_neg hroom]
    split
    · next hmem =>
      rw [Simulates.keys_insert, Finset.insert_eq_of_mem]
      exact Finmap.mem_keys.mpr (hmem.resolve_right hroom)
    · rfl

theorem insertIfAbsent (key : UInt64) (ctx : WorkflowContext) :
    Tallied (p.insertIfAbsent key ctx).2 (takeKey keys key) := by
  cases hfind : p.findKeySlot key with
  | none =>
    rw [insertIfAbsent_of_none hfind]
    exact h.insert key ctx
  | some idx =>
    have hmem : key ∈ keys := by
      by_contra hnot
      rw [h.wellFormed.lookup_eq_none.mp (h.lookup_eq_none.mpr hnot)] at hfind
      cases hfind
    rw [insertIfAbsent_of_some hfind, takeKey, Finset.insert_eq_of_mem hmem, ite_self]
    exact h

theorem modify (key : UInt64) (f : WorkflowContext → WorkflowContext) :
    Tallied (p.modify key f) keys := by
  obtain ⟨m, hm, rfl⟩ := h
  cases hctx : p.lookup key with
  | none =>
    have hsame : p.modify key f = p := modify_of_eq fun ctx hsome => by
      rw [hctx] at hsome
      cases hsome
    exact ⟨m, by rwa [hsame], rfl⟩
  | some ctx =>
    have hmem : key ∈ m.keys := by
      rw [Finmap.mem_keys, ← Finmap.lookup_isSome, ← hm.lookup, hctx]
      rfl
    have hkeys : (m.insert key (f ctx)).keys = m.keys :=
      Simulates.keys_insert.trans (Finset.insert_eq_of_mem hmem)
    refine ⟨m.insert key (f ctx), ⟨hm.wellFormed.withMut key _ _, fun k => ?_, ?_⟩, hkeys⟩
    · rw [lookup_modify]
      by_cases hk : k = key
      · rw [if_pos hk, hk, hctx, Finmap.lookup_insert, Option.map_some]
      · rw [if_neg hk, Finmap.lookup_insert_of_ne m hk, hm.lookup]
    · rw [hkeys, freeList_modify]
      exact hm.room

theorem remove {key : UInt64} (hpurge : p.lookup key = none
      ∨ ∀ k idx, p.slotHolds k idx = true → bucket k = bucket key → k = key) :
    Tallied (p.remove key).2 (keys.erase key) := by
  obtain ⟨m, hm, rfl⟩ := h
  refine ⟨_, hm.remove fun hmem k hk hb => ?_, Finmap.keys_erase key m⟩
  have hheld : p.lookup key ≠ none := by
    rwa [hm.lookup, Ne, Finmap.lookup_eq_none, not_not]
  obtain ⟨idx, hfind⟩ := Option.ne_none_iff_exists'.mp ((hm.mem_iff k).mp (Finmap.mem_keys.mp hk))
  exact hpurge.resolve_left hheld k idx (findKeySlot_some hfind) hb

end Tallied

/-! ### Runs -/

theorem Tallied.foldl_apply {effects : List Effect} (hwrites : ∀ effect ∈ effects, effect.Writes)
    {p : WorkflowContextPool WorkflowContext} {keys : Finset UInt64} (h : Tallied p keys) :
    Tallied (effects.foldl Effect.apply p)
      ((effects.filterMap Effect.startedKey).foldl takeKey keys) := by
  induction effects generalizing p keys with
  | nil => exact h
  | cons effect effects ih =>
    have hrest := fun e he => hwrites e (mem_cons_of_mem effect he)
    cases effect with
    | insert key ctx => exact ih hrest (h.insert key ctx)
    | insertIfAbsent key ctx => exact ih hrest (h.insertIfAbsent key ctx)
    | update key u => exact ih hrest (h.modify key u.apply)
    | remove key => exact (hwrites _ mem_cons_self).elim

theorem Tallied.step {e : WorkflowEngine} {keys : Finset UInt64} (h : Tallied e.workflows keys)
    {op : EngineOp} (hop : e.PurgesSafely op) :
    Tallied (e.step op).workflows (e.keysAfter keys op) := by
  by_cases hpurge : ∃ key, op = .purgeWorkflow key
  · obtain ⟨key, rfl⟩ := hpurge
    exact h.remove hop
  · have hkeys : e.keysAfter keys op
        = ((e.effects op).filterMap Effect.startedKey).foldl takeKey keys := by
      cases op <;> first | rfl | exact absurd ⟨_, rfl⟩ hpurge
    rw [step_workflows, hkeys]
    exact h.foldl_apply fun effect heffect =>
      writes_of_mem_effects (fun key heq => hpurge ⟨key, heq⟩) heffect

/-- **The started keys of a run** are those that its pool holds. -/
theorem Tallied.run {ops : List EngineOp} : ∀ {e : WorkflowEngine} {keys : Finset UInt64},
    Tallied e.workflows keys → StepsMeet WorkflowEngine.step PurgesSafely e ops →
    Tallied (e.run ops).workflows (e.startedKeys keys ops) := by
  induction ops with
  | nil => exact fun h _ => h
  | cons op ops ih => exact fun h hops => ih (h.step hops.1) hops.2

/-! ### Continuations -/

/-- The returned key was unused, and other workflows are as they were. -/
def ContinuesApart (e : WorkflowEngine) (key : UInt64) (newInput : Option Bytes) : Prop :=
  e.workflows.lookup (e.continueAsNew key newInput).1 = none
  ∧ ∀ k, k ≠ key → ∀ ctx ∈ e.workflows.lookup k,
      (e.continueAsNew key newInput).2.workflows.lookup k = some ctx

theorem continueAsNew_fst {e : WorkflowEngine} {k : UInt64} {ctx : WorkflowContext}
    (hctx : e.workflows.lookup k = some ctx) (input : Option Bytes) :
    (e.continueAsNew k input).1 = e.successorKey ctx := by
  simp only [continueAsNew, WorkflowContextPool.withCtx, hctx, id_eq, successorKey]
  by_cases hblank : ctx.IsBlank
  · rw [if_pos hblank]
    exact congrArg Prod.fst (if_pos hblank)
  · rw [if_neg hblank]
    exact congrArg Prod.fst (if_neg hblank)

theorem key_of_mem_effects_continueAsNew {e : WorkflowEngine} {k : UInt64} {ctx : WorkflowContext}
    (hctx : e.workflows.lookup k = some ctx) {input : Option Bytes} {effect : Effect}
    (h : effect ∈ e.effects (.continueAsNew k input)) :
    effect.key = k ∨ effect.key = e.successorKey ctx := by
  simp only [effects, moves, hctx] at h
  split at h
  · cases h
  · next hids =>
    simp only [map_cons, map_nil, mem_cons, not_mem_nil, or_false] at h
    rcases h with rfl | rfl
    · exact Or.inl rfl
    · exact Or.inr (if_neg hids).symm

/-- **Continuations stay apart** iff no earlier start of the run, not purged since, took the key
    that the run id counter gives the successor. -/
theorem continuesApart_iff {wal : Option WalManager} {config : DurabilityConfig} {now : Nat}
    {ops : List EngineOp} (hops : StepsMeet step PurgesSafely (new wal config now) ops)
    {k : UInt64} {ctx : WorkflowContext}
    (hctx : ((new wal config now).run ops).workflows.lookup k = some ctx) (input : Option Bytes) :
    ((new wal config now).run ops).ContinuesApart k input
      ↔ ((new wal config now).run ops).successorKey ctx
          ∉ (new wal config now).startedKeys ∅ ops := by
  have htally : Tallied ((new wal config now).run ops).workflows
      ((new wal config now).startedKeys ∅ ops) :=
    Tallied.run ⟨∅, simulates_new, Finmap.keys_empty⟩ hops
  generalize (new wal config now).run ops = e at *
  rw [ContinuesApart, continueAsNew_fst hctx, htally.lookup_eq_none]
  refine ⟨And.left, fun hfree => ⟨hfree, fun k' hk' held hheld => ?_⟩⟩
  -- a workflow that is there cannot be the successor
  have hne : k' ≠ e.successorKey ctx := by
    rintro rfl
    rw [htally.lookup_eq_none.mpr hfree] at hheld
    cases hheld
  have hsame : (e.step (.continueAsNew k input)).workflows.lookup k' = e.workflows.lookup k' := by
    have hpurge : e.PurgesSafely (.continueAsNew k input) := trivial
    refine lookup_step_of_ne htally.wellFormed hpurge fun effect heffect => ?_
    rcases key_of_mem_effects_continueAsNew hctx heffect with h | h
    · exact h ▸ hk'
    · exact h ▸ hne
  exact hsame.trans hheld

end WorkflowEngine

theorem continuesApart_of_two :
    ((WorkflowEngine.new none .strict 0).run
      [.startWorkflow 7 1 0 1 1 none, .startWorkflow 9 5 0 1 4 none]).ContinuesApart 7 none := by
  have hops : StepsMeet WorkflowEngine.step WorkflowEngine.PurgesSafely
      (WorkflowEngine.new none .strict 0)
      [.startWorkflow 7 1 0 1 1 none, .startWorkflow 9 5 0 1 4 none] := ⟨trivial, trivial, trivial⟩
  have hheld : ((WorkflowEngine.new none .strict 0).run
      [.startWorkflow 7 1 0 1 1 none, .startWorkflow 9 5 0 1 4 none]).workflows.lookup 7
        = some (WorkflowEngine.startContext 7 1 1 0 1 1 none 0) := by decide +kernel
  -- the successor gets run id 3
  exact (WorkflowEngine.continuesApart_iff hops hheld none).mpr (by decide +kernel)

theorem continueAsNew_overwrites :
    (let e := sampleRun [.startWorkflow 1 1 0 1 1 none, .startWorkflow 3 5 0 1 4 none];
      (e.continueAsNew 1 none).1 = 3
      ∧ (e.workflows.lookup 3).map (fun ctx => (ctx.workflowTypeId, ctx.slab.totalSteps))
          = some (5, 4)
      ∧ ((e.continueAsNew 1 none).2.workflows.lookup 3).map
          (fun ctx => (ctx.workflowTypeId, ctx.slab.totalSteps)) = some (1, 1))
    ∧ (let e := sampleRun [.startWorkflow 2 1 0 1 1 none];
      (e.continueAsNew 2 none).1 = 2 ∧ (e.workflows.lookup 2).isSome) := by
  decide +kernel

end Velocity
