import Velocity.Engine.Replay

namespace Velocity

open Lib List

/-!
# Conditions on runs

`PayloadFits`, `StartsRetained` and `StartsAbsent`, asked of a run by the recovery results.
-/

namespace EngineOp

/-- The payload fits the `u32` length field of its record. -/
def PayloadFits : EngineOp → Prop
  | .completeStep _ _ result | .completeStepSync _ _ result | .completeStepDurable _ _ result =>
    result.length + 4 < 2 ^ 32
  | .signalWorkflow _ _ payload | .signalWithStart _ _ _ _ _ _ payload =>
    payload.length + 8 < 2 ^ 32
  | _ => True

def startedKey : EngineOp → Option UInt64
  | .startWorkflow workflowId _ namespaceId _ _ _ =>
    some (WorkflowEngine.workflowKey namespaceId workflowId)
  | _ => none

def IsClosingOp : EngineOp → Prop
  | .completeWorkflow .. | .failWorkflow .. | .cancelWorkflow .. | .terminateWorkflow ..
  | .applyParentClosePolicy .. | .checkWorkflowTimeouts => True
  | _ => False

/-- Keys are added by `start_workflow` only, and not removed. -/
def StartsOnly : EngineOp → Prop
  -- a purge may also hide other keys of its bucket
  | .startChildWorkflow .. | .signalWithStart .. | .continueAsNew .. | .purgeWorkflow ..
  | .recoverFromWal => False
  | _ => True

/-- The two operations that rebuild contexts. -/
def IsRecovery : EngineOp → Prop
  | .recoverFromWal | .recoverStepsFromPg _ => True
  | _ => False

instance (op : EngineOp) : Decidable op.IsRecovery := by
  cases op <;> dsimp only [IsRecovery] <;> infer_instance

end EngineOp

/-- The rewrites that leave the step state alone. -/
def CtxUpdate.IsSide : CtxUpdate → Prop
  | .takeSignal _ | .continuedAsNew _ | .setExecutionTimeout _ | .addChild _ | .setParent _ =>
    True
  | _ => False

def sampleRun (ops : List EngineOp) : WorkflowEngine :=
  (WorkflowEngine.withWal 1024 3 .strict 0).run ops

namespace WorkflowEngine

inductive IsClose (now : Nat) : CtxUpdate → WalEventType → Prop
  | complete (result : Option Bytes) : IsClose now (.complete now result) .workflowCompleted
  | fail : IsClose now (.fail now) .workflowFailed
  | cancel : IsClose now (.cancel now) .workflowCanceled
  | terminate : IsClose now (.terminate now) .workflowTerminated

theorem IsClose.ne_started {now : Nat} {u : CtxUpdate} {t : WalEventType} (h : IsClose now u t) :
    t ≠ .workflowStarted := by
  cases h <;> exact WalEventType.noConfusion

/-! ### Rotation -/

def retained (e : WorkflowEngine) : List WalRecord :=
  (e.wal.map (fun w => w.log.visible w.retainCount)).getD []

/-- Rotation has dropped no start record of a workflow still held. -/
def StartsRetained (e : WorkflowEngine) : Prop :=
  ∀ w ∈ e.wal, ∀ r ∈ w.log.dropped w.retainCount, r.eventType = .workflowStarted →
    e.workflows.lookup r.workflowKey = none

instance (e : WorkflowEngine) : Decidable e.StartsRetained :=
  inferInstanceAs (Decidable (∀ w ∈ e.wal, ∀ r ∈ w.log.dropped w.retainCount, _ → _ = none))

/-! ### Payloads -/

theorem fits_startRecord (w t ns tq : UInt64) (total : UInt32) :
    (startRecord w t ns tq total).Fits := by
  simp [WalRecord.Fits, startRecord, startData]

variable {k : UInt64}

theorem fits_stepRecord {s : UInt32} {r : Bytes} (h : r.length + 4 < 2 ^ 32) :
    (stepRecord k s r).Fits := by
  show (u32ToLeBytes s ++ r).length < 2 ^ 32
  rw [length_append, length_u32ToLeBytes]
  omega

theorem fits_signalRecord {n : UInt64} {d : Bytes} (h : d.length + 8 < 2 ^ 32) :
    (signalRecord k n d).Fits := by
  show (u64ToLeBytes n ++ d).length < 2 ^ 32
  rw [length_append, length_u64ToLeBytes]
  omega

theorem fits_of_data_nil {r : WalRecord} (h : r.data = []) : r.Fits := by
  rw [WalRecord.Fits, h]
  exact Nat.two_pow_pos 32

variable [Sha256]

/-! ### What a step can do -/

theorem slab_stepResults_of_isSide {u : CtxUpdate} (hu : u.IsSide) (ctx : WorkflowContext) :
    (u.apply ctx).slab = ctx.slab ∧ (u.apply ctx).stepResults = ctx.stepResults := by
  cases u <;> first | exact ⟨rfl, rfl⟩ | exact hu.elim

variable {e : WorkflowEngine} {op : EngineOp}

/-- **Closing operations close**, with a record. -/
theorem exists_isClose_of_mem_moves (hop : op.IsClosingOp) {move : Move} (h : move ∈ e.moves op) :
    ∃ k u t, IsClose e.now u t ∧ move = .logged (.update k u) ⟨t, k, []⟩ := by
  cases op with
  | completeWorkflow k r => exact ⟨k, _, _, .complete r, mem_singleton.mp h⟩
  | failWorkflow k => exact ⟨k, _, _, .fail, mem_singleton.mp h⟩
  | cancelWorkflow k => exact ⟨k, _, _, .cancel, mem_singleton.mp h⟩
  | terminateWorkflow k => exact ⟨k, _, _, .terminate, mem_singleton.mp h⟩
  | applyParentClosePolicy k policy =>
    obtain ⟨child, _, hchild⟩ := mem_filterMap.mp h
    cases policy with
    | terminate => exact ⟨child, _, _, .terminate, (Option.some.inj hchild).symm⟩
    | cancel => exact ⟨child, _, _, .cancel, (Option.some.inj hchild).symm⟩
    | abandon => cases hchild
  | checkWorkflowTimeouts =>
    obtain ⟨key, _, hkey⟩ := mem_map.mp h
    exact ⟨key, _, _, .terminate, hkey.symm⟩
  | _ => exact hop.elim

inductive IsMove (e : WorkflowEngine) (op : EngineOp) : Move → Prop
  | start (workflowId workflowTypeId namespaceId taskQueueHash : UInt64) (totalSteps : UInt32)
      (input : Option Bytes) :
      IsMove e op (e.startMove workflowId workflowTypeId namespaceId taskQueueHash totalSteps input)
  | step (key : UInt64) (step : UInt32) (result : Bytes)
      (h : op = .completeStep key step result ∨ op = .completeStepSync key step result
        ∨ op = .completeStepDurable key step result) :
      IsMove e op (.logged (.update key (.completeStep step result)) (stepRecord key step result))
  | signal (key signalNameId : UInt64) (payload : Bytes)
      (h : op = .signalWorkflow key signalNameId payload
        ∨ ∃ w t ns tq total, op = .signalWithStart w t ns tq total signalNameId payload) :
      IsMove e op (signalMove key signalNameId payload)
  | close (key : UInt64) {u : CtxUpdate} {t : WalEventType} (h : IsClose e.now u t) :
      IsMove e op (.logged (.update key u) ⟨t, key, []⟩)
  | reset (key resetToEventId : UInt64) (h : op = .resetWorkflow key resetToEventId) :
      IsMove e op (.silent (.update key (.reset resetToEventId)))
  | rewrite (key : UInt64) {u : CtxUpdate} (h : u.IsSide) :
      IsMove e op (.silent (.update key u))
  | merge (key : UInt64) (steps : List (UInt32 × Option Bytes)) (hop : op.IsRecovery) :
      IsMove e op (.silent (.update key (.mergeSteps steps)))
  | replay (record : WalRecord) {effect : Effect} (h : replayEffect e.now record = some effect)
      (hop : op.IsRecovery) : IsMove e op (.silent effect)
  | successor (key workflowId workflowTypeId namespaceId taskQueueHash : UInt64)
      (totalSteps : UInt32) (input : Option Bytes) :
      IsMove e op (.silent (.insert key (startContext workflowId workflowId workflowTypeId
        namespaceId taskQueueHash totalSteps input e.now)))
  | remove (key : UInt64) (h : op = .purgeWorkflow key) : IsMove e op (.silent (.remove key))

theorem isMove_of_mem_moves {move : Move} (h : move ∈ e.moves op) : e.IsMove op move := by
  cases op with
  | advanceClock ms | getSlab k => cases h
  | startWorkflow w t ns tq total input =>
    rw [mem_singleton.mp h]
    exact .start ..
  | startChildWorkflow parent w t tq total input =>
    simp only [moves, mem_cons, not_mem_nil, or_false] at h
    rcases h with rfl | rfl | rfl
    · exact .start ..
    · exact .rewrite _ trivial
    · exact .rewrite _ trivial
  | completeStep k s r | completeStepSync k s r | completeStepDurable k s r =>
    rw [mem_singleton.mp h]
    exact .step k s r (by simp)
  | signalWorkflow k n d =>
    rw [mem_singleton.mp h]
    exact .signal k n d (Or.inl rfl)
  | takeSignal k n | setWorkflowExecutionTimeout k t =>
    rw [mem_singleton.mp h]
    exact .rewrite _ trivial
  | signalWithStart w t ns tq total n d =>
    have hop : ∃ w' t' ns' tq' total', EngineOp.signalWithStart w t ns tq total n d
        = .signalWithStart w' t' ns' tq' total' n d := ⟨w, t, ns, tq, total, rfl⟩
    simp only [moves] at h
    split at h
    · rw [mem_singleton.mp h]
      exact .signal _ n d (Or.inr hop)
    · simp only [mem_cons, not_mem_nil, or_false] at h
      rcases h with rfl | rfl
      · exact .start ..
      · exact .signal _ n d (Or.inr hop)
  | completeWorkflow | failWorkflow | cancelWorkflow | terminateWorkflow
  | applyParentClosePolicy | checkWorkflowTimeouts =>
    obtain ⟨k, u, t, hclose, rfl⟩ := exists_isClose_of_mem_moves (by exact trivial) h
    exact .close k hclose
  | resetWorkflow k r =>
    rw [mem_singleton.mp h]
    exact .reset k r rfl
  | continueAsNew k input =>
    simp only [moves] at h
    split at h
    · cases h
    · split at h
      · cases h
      · simp only [mem_cons, not_mem_nil, or_false] at h
        rcases h with rfl | rfl
        · exact .rewrite k trivial
        · exact .successor ..
  | purgeWorkflow k =>
    rw [mem_singleton.mp h]
    exact .remove k rfl
  | recoverFromWal =>
    simp only [moves] at h
    split at h
    · obtain ⟨effect, heffect, rfl⟩ := mem_map.mp h
      obtain ⟨record, -, hrecord⟩ := mem_filterMap.mp heffect
      exact .replay record hrecord trivial
    · cases h
  | recoverStepsFromPg adapter =>
    cases adapter with
    | none => cases h
    | some journal =>
      obtain ⟨effect, heffect, rfl⟩ := mem_map.mp h
      obtain ⟨key, -, hkey⟩ := mem_filterMap.mp heffect
      unfold mergeEffect at hkey
      split at hkey
      · cases hkey
        exact .merge _ _ trivial
      · cases hkey

theorem fits_of_mem_logged (hop : op.PayloadFits) : ∀ r ∈ e.logged op, r.Fits := by
  intro r hr
  obtain ⟨move, hmove, hrec⟩ := mem_filterMap.mp hr
  cases isMove_of_mem_moves hmove with
  | start w t ns tq total input =>
    cases hrec
    exact fits_startRecord w t ns tq total
  | step k s d h =>
    cases hrec
    rcases h with rfl | rfl | rfl <;> exact fits_stepRecord hop
  | signal k n d h =>
    cases hrec
    rcases h with rfl | ⟨w, t, ns, tq, total, rfl⟩ <;> exact fits_signalRecord hop
  | close k h =>
    cases hrec
    exact fits_of_data_nil rfl
  | _ => cases hrec

/-! ### Starting each key once -/

def StartsAbsent (e : WorkflowEngine) (op : EngineOp) : Prop :=
  ∀ k, op.startedKey = some k → e.workflows.lookup k = none

def AddsStarted (e : WorkflowEngine) (op : EngineOp) : Prop :=
  ∀ effect ∈ e.effects op, (∃ k u, effect = .update k u)
    ∨ ∃ k ctx, effect = .insert k ctx ∧ op.startedKey = some k

theorem addsStarted_of_startsOnly (hop : op.StartsOnly) : e.AddsStarted op := by
  intro effect heffect
  obtain ⟨move, hmove, rfl⟩ := mem_map.mp heffect
  cases op with
  | startWorkflow w t ns tq total input =>
    rw [mem_singleton.mp hmove]
    exact Or.inr ⟨_, _, rfl, rfl⟩
  | completeStep k s r | completeStepSync k s r | completeStepDurable k s r
  | signalWorkflow k n p | takeSignal k n | completeWorkflow k r | failWorkflow k
  | cancelWorkflow k | terminateWorkflow k | setWorkflowExecutionTimeout k t
  | resetWorkflow k r =>
    rw [mem_singleton.mp hmove]
    exact Or.inl ⟨_, _, rfl⟩
  | applyParentClosePolicy k policy =>
    obtain ⟨child, _, hchild⟩ := mem_filterMap.mp hmove
    cases policy <;> cases hchild <;> exact Or.inl ⟨_, _, rfl⟩
  | checkWorkflowTimeouts =>
    obtain ⟨key, _, rfl⟩ := mem_map.mp hmove
    exact Or.inl ⟨_, _, rfl⟩
  | recoverStepsFromPg adapter =>
    cases adapter with
    | none => cases hmove
    | some journal =>
      obtain ⟨merge, hmerge, rfl⟩ := mem_map.mp hmove
      obtain ⟨key, _, hkey⟩ := mem_filterMap.mp hmerge
      unfold mergeEffect at hkey
      split at hkey
      · cases hkey
        exact Or.inl ⟨_, _, rfl⟩
      · cases hkey
  | advanceClock ms | getSlab k => cases hmove
  | startChildWorkflow | signalWithStart | continueAsNew | purgeWorkflow | recoverFromWal =>
    exact hop.elim

theorem step_induction_of_addsStarted (h : e.AddsStarted op)
    {Q : WorkflowContextPool WorkflowContext → Prop}
    (hupdate : ∀ p k (u : CtxUpdate), Q p → Q (p.modify k u.apply))
    (hinsert : ∀ p k ctx, op.startedKey = some k → Q p → Q (p.insert k ctx).2)
    (he : Q e.workflows) : Q (e.step op).workflows := by
  rw [step_workflows]
  refine List.foldlRecOn (motive := Q) _ _ he (fun p hp effect heffect => ?_)
  rcases h effect heffect with ⟨k, u, rfl⟩ | ⟨k, ctx, rfl, hstarted⟩
  · exact hupdate p k u hp
  · exact hinsert p k ctx hstarted hp

theorem lookup_step_of_addsStarted (hk : op.startedKey ≠ some k) (h : e.AddsStarted op)
    (he : e.workflows.WellFormed) (hnone : e.workflows.lookup k = none) :
    (e.step op).workflows.WellFormed ∧ (e.step op).workflows.lookup k = none := by
  refine step_induction_of_addsStarted (Q := fun p => p.WellFormed ∧ p.lookup k = none) h ?_ ?_
    ⟨he, hnone⟩
  · rintro p k' u ⟨hp, hnone⟩
    refine ⟨hp.withMut k' _ _, ?_⟩
    rw [WorkflowContextPool.lookup_modify, hnone]
    split <;> rfl
  · rintro p k' ctx hstarted ⟨hp, hnone⟩
    have hne : k ≠ k' := fun heq => hk (heq ▸ hstarted)
    refine ⟨hp.insert k' ctx, ?_⟩
    rw [hp.lookup_insert, if_neg (fun hand => hne hand.1)]
    exact hnone

theorem isSome_lookup_step_of_addsStarted (h : e.AddsStarted op) (he : e.workflows.WellFormed)
    (hk : (e.workflows.lookup k).isSome) : ((e.step op).workflows.lookup k).isSome := by
  refine (step_induction_of_addsStarted
    (Q := fun p => p.WellFormed ∧ (p.lookup k).isSome = true) h ?_ ?_ ⟨he, hk⟩).2
  · rintro p k' u ⟨hp, hk⟩
    refine ⟨hp.withMut k' _ _, ?_⟩
    rw [WorkflowContextPool.lookup_modify]
    split
    · rw [Option.isSome_map]
      exact hk
    · exact hk
  · rintro p k' ctx _ ⟨hp, hk⟩
    refine ⟨hp.insert k' ctx, ?_⟩
    rw [hp.lookup_insert]
    split
    · rfl
    · exact hk

theorem stepsMeet_startsAbsent {good : WorkflowEngine → EngineOp → Prop}
    (hadds : ∀ e op, good e op → e.AddsStarted op) :
    ∀ (ops : List EngineOp) (e : WorkflowEngine), e.workflows.WellFormed →
      StepsMeet step good e ops → (ops.filterMap EngineOp.startedKey).Nodup →
      (∀ k ∈ ops.filterMap EngineOp.startedKey, e.workflows.lookup k = none) →
      StepsMeet step (fun e op => good e op ∧ e.StartsAbsent op) e ops
  | [], _, _, _, _, _ => trivial
  | op :: ops, e, hwf, hgood, honce, habsent => by
    have hop := hadds e op hgood.1
    have hsplit : (op :: ops).filterMap EngineOp.startedKey
        = op.startedKey.toList ++ ops.filterMap EngineOp.startedKey := by
      rw [filterMap_cons]
      cases op.startedKey <;> rfl
    rw [hsplit] at honce habsent
    -- the keys still to be started are absent, and stay so
    refine ⟨⟨hgood.1, fun k hk => ?_⟩, ?_⟩
    · refine habsent k (mem_append_left _ ?_)
      rw [hk]
      exact mem_singleton_self k
    · refine stepsMeet_startsAbsent hadds ops (e.step op) ?_ hgood.2 honce.of_append_right ?_
      · exact step_induction_of_addsStarted hop (fun _ k _ hp => hp.withMut k _ _)
          (fun _ k ctx _ hp => hp.insert k ctx) hwf
      · intro k hk
        -- a later start would be the second
        have hne : op.startedKey ≠ some k := by
          intro hstarted
          rw [hstarted] at honce
          exact (nodup_cons.mp honce).1 hk
        exact (lookup_step_of_addsStarted hne hop hwf
          (habsent k (mem_append_right _ hk))).2

/-! ### Recovery of a run -/

variable {R : WorkflowContext → WorkflowContext → Prop}

theorem rel_recovered {good : WorkflowEngine → EngineOp → Prop} {now : Nat}
    (hadds : ∀ e op, good e op → e.AddsStarted op)
    (hmirror : ∀ e op, good e op → e.StartsAbsent op → MovesMirror R now e.workflows (e.moves op))
    {maxFileSize retainCount : Nat} {config : DurabilityConfig} {start : Nat}
    {ops : List EngineOp} (honce : (ops.filterMap EngineOp.startedKey).Nodup)
    (hpayload : ∀ op ∈ ops, op.PayloadFits)
    (hgood : StepsMeet step good (withWal maxFileSize retainCount config start) ops)
    (hretained : ((withWal maxFileSize retainCount config start).run ops).StartsRetained)
    (k : UInt64) :
    Option.Rel R (((withWal maxFileSize retainCount config start).run ops).workflows.lookup k)
      ((((withWal maxFileSize retainCount config start).run ops).recovered
        now).workflows.lookup k) := by
  have habsent := stepsMeet_startsAbsent hadds ops _ WorkflowContextPool.wellFormed_new hgood honce
    (fun _ _ => rfl)
  have hfits : StepsMeet step (fun _ op => op.PayloadFits)
      (withWal maxFileSize retainCount config start) ops := stepsMeet_of_forall hpayload
  obtain ⟨w, hstep⟩ := InStep.run
    (fun e op hop => ⟨fits_of_mem_logged hop.2, hmirror e op hop.1.1 hop.1.2⟩)
    (InStep.withWal maxFileSize retainCount config start now) (habsent.and hfits)
  exact hstep.recovered (hretained w hstep.wal) k

/-! ### Closing -/

def ClosesAlike (R : WorkflowContext → WorkflowContext → Prop) : Prop :=
  ∀ {now now' u t}, IsClose now u t → ∀ k c d, R c d →
    R (u.apply c) (replayContextUpdate now' ⟨t, k, []⟩ d)

theorem ClosesAlike.movesMirror (hR : ClosesAlike R) (now : Nat) (e : WorkflowEngine)
    (hop : op.IsClosingOp) : MovesMirror R now e.workflows (e.moves op) := by
  refine movesMirror_of_forall (fun move hmove p => ?_) _
  obtain ⟨k, u, t, hclose, rfl⟩ := exists_isClose_of_mem_moves hop hmove
  exact mirrors_logged (r := ⟨t, k, []⟩) hclose.ne_started
    (fun c d _ hcd => hR hclose k c d hcd)

end WorkflowEngine

end Velocity
