import Velocity.Engine.RunConditions

namespace Velocity

open Lib

/-!
# Frames

A step whose effects name one key leaves the other contexts alone.
-/

def Effect.key : Effect → UInt64
  | .insert key _ | .insertIfAbsent key _ | .update key _ | .remove key => key

namespace WorkflowEngine

def PurgesAlone (e : WorkflowEngine) (key : UInt64) : Prop :=
  e.workflows.lookup key = none ∨ ∀ k idx, e.workflows.slotHolds k idx = true →
    bucket k = bucket key → k = key

/-- A purge hides no workflow but its own. -/
def PurgesSafely (e : WorkflowEngine) : EngineOp → Prop
  | .purgeWorkflow key => e.PurgesAlone key
  | _ => True

end WorkflowEngine

/-! ### Removing a key -/

namespace WorkflowContextPool.WellFormed

variable {p : WorkflowContextPool WorkflowContext} {key : UInt64}

theorem remove_of_purgesAlone (hp : p.WellFormed)
    (h : p.lookup key = none ∨ ∀ k idx, p.slotHolds k idx = true → bucket k = bucket key →
      k = key) : (p.remove key).2.WellFormed := by
  rcases h with hnone | halone
  · rw [remove_of_none (hp.lookup_eq_none.mp hnone)]
    exact hp
  · exact hp.remove halone

theorem lookup_remove_of_purgesAlone (hp : p.WellFormed)
    (h : p.lookup key = none ∨ ∀ k idx, p.slotHolds k idx = true → bucket k = bucket key →
      k = key) {k : UInt64} (hk : k ≠ key) : (p.remove key).2.lookup k = p.lookup k := by
  rcases h with hnone | halone
  · rw [remove_of_none (hp.lookup_eq_none.mp hnone)]
  · rw [hp.lookup_remove halone, if_neg hk]

end WorkflowContextPool.WellFormed

variable [Sha256]

/-! ### One effect -/

def Effect.Writes : Effect → Prop
  | .remove _ => False
  | _ => True

theorem Effect.Writes.wellFormed {effect : Effect} (h : effect.Writes)
    {p : WorkflowContextPool WorkflowContext} (hp : p.WellFormed) :
    (effect.apply p).WellFormed := by
  cases effect with
  | insert key ctx => exact hp.insert key ctx
  | insertIfAbsent key ctx => exact hp.insertIfAbsent key ctx
  | update key u => exact hp.withMut key _ _
  | remove key => exact h.elim

theorem Effect.Writes.lookup_of_ne {effect : Effect} (h : effect.Writes)
    {p : WorkflowContextPool WorkflowContext} (hp : p.WellFormed) {k : UInt64}
    (hk : k ≠ effect.key) : (effect.apply p).lookup k = p.lookup k := by
  cases effect with
  | insert key ctx =>
    show (p.insert key ctx).2.lookup k = _
    rw [hp.lookup_insert, if_neg (fun hand => hk hand.1)]
  | insertIfAbsent key ctx =>
    show (p.insertIfAbsent key ctx).2.lookup k = _
    rw [hp.lookup_insertIfAbsent, if_neg (fun hand => hk hand.1)]
  | update key u =>
    have hne : k ≠ key := hk
    show (p.modify key u.apply).lookup k = _
    rw [WorkflowContextPool.lookup_modify, if_neg hne]
  | remove key => exact h.elim

/-! ### One step -/

namespace WorkflowEngine

variable {e : WorkflowEngine} {op : EngineOp}

theorem writes_of_mem_effects
    (hop : ∀ key, op ≠ .purgeWorkflow key) {effect : Effect} (h : effect ∈ e.effects op) :
    effect.Writes := by
  obtain ⟨move, hmove, rfl⟩ := List.mem_map.mp h
  cases isMove_of_mem_moves hmove with
  | remove key hpurge => exact absurd hpurge (hop key)
  | replay record hreplay =>
    rcases eq_of_replayEffect hreplay with ⟨fields, rfl⟩ | rfl
    · trivial
    · trivial
  | _ => trivial

/-- **A step keeps the pool well formed**, but for a purge that hides a key. -/
theorem wellFormed_step (he : e.workflows.WellFormed)
    (hop : e.PurgesSafely op) : (e.step op).workflows.WellFormed := by
  rw [step_workflows]
  by_cases hpurge : ∃ key, op = .purgeWorkflow key
  · obtain ⟨key, rfl⟩ := hpurge
    exact he.remove_of_purgesAlone hop
  · have hwrites : ∀ effect ∈ e.effects op, effect.Writes := fun effect heffect =>
      writes_of_mem_effects (fun key heq => hpurge ⟨key, heq⟩) heffect
    exact foldl_invariant (fun p effect hp hw => hw.wellFormed hp) (e.effects op) _ he
      (stepsMeet_of_forall hwrites)

/-- **A step leaves a key alone** that none of its effects names. -/
theorem lookup_step_of_ne (he : e.workflows.WellFormed) (hop : e.PurgesSafely op) {k : UInt64}
    (hk : ∀ effect ∈ e.effects op, k ≠ effect.key) :
    (e.step op).workflows.lookup k = e.workflows.lookup k := by
  rw [step_workflows]
  by_cases hpurge : ∃ key, op = .purgeWorkflow key
  · obtain ⟨key, rfl⟩ := hpurge
    exact he.lookup_remove_of_purgesAlone hop (hk _ (List.mem_singleton_self _))
  · have hwrites : ∀ effect ∈ e.effects op, effect.Writes ∧ k ≠ effect.key :=
      fun effect heffect => ⟨writes_of_mem_effects (fun key heq => hpurge ⟨key, heq⟩) heffect,
        hk effect heffect⟩
    have hstep : ∀ (p : WorkflowContextPool WorkflowContext) (effect : Effect),
        p.WellFormed ∧ p.lookup k = e.workflows.lookup k → effect.Writes ∧ k ≠ effect.key →
        (effect.apply p).WellFormed ∧ (effect.apply p).lookup k = e.workflows.lookup k := by
      rintro p effect ⟨hp, hsame⟩ ⟨hw, hne⟩
      exact ⟨hw.wellFormed hp, (hw.lookup_of_ne hp hne).trans hsame⟩
    exact (foldl_invariant hstep (e.effects op) _ ⟨he, rfl⟩ (stepsMeet_of_forall hwrites)).2

/-! ### Reached states -/

/-- Reached with purges that hide no other workflow. -/
def Reached (e : WorkflowEngine) : Prop :=
  ∃ wal config now ops, StepsMeet step PurgesSafely (new wal config now) ops
    ∧ e = (new wal config now).run ops

theorem Reached.wellFormed (h : e.Reached) : e.workflows.WellFormed := by
  obtain ⟨wal, config, now, ops, hops, rfl⟩ := h
  exact foldl_invariant (I := fun e => e.workflows.WellFormed)
    (fun _ _ he hop => wellFormed_step he hop) ops _ WorkflowContextPool.wellFormed_new hops

end WorkflowEngine

end Velocity
