import Velocity.Engine.Step
import Velocity.Store.PoolLockStep

namespace Velocity

open Lib List WorkflowEngine
open WorkflowContextPool (LockStep)

/-!
# Replaying a log against a live run

`InStep`: replaying all records gives a pool in lock step with the live one.
-/

/-! ### Payloads are read back -/

theorem StartFields.ofData_startData (w t ns tq : UInt64) (total : UInt32) :
    StartFields.ofData (startData w t ns tq total) = some ⟨w, t, ns, tq, total⟩ := by
  have hlen : (startData w t ns tq total).length = 36 := by
    simp [startData]
  rw [StartFields.ofData, if_neg (by omega)]
  simp [startData, drop_append, take_of_length_le,
    drop_of_length_le]

variable [Sha256]

variable (now : Nat)

theorem replayEffect_startRecord (w t ns tq : UInt64) (total : UInt32) :
    replayEffect now (startRecord w t ns tq total)
      = some (.insertIfAbsent (workflowKey ns w)
          (replayContext (workflowKey ns w) ⟨w, t, ns, tq, total⟩ now)) := by
  simp only [replayEffect, startRecord, StartFields.ofData_startData,
    Option.map_some]

theorem replayContextUpdate_stepRecord (k : UInt64) (s : UInt32) (r : Bytes)
    (ctx : WorkflowContext) :
    replayContextUpdate now (stepRecord k s r) ctx = ctx.completeStep s r := by
  have hlen : (stepData s r).length ≥ 4 := by simp [stepData]
  show (if (stepData s r).length ≥ 4 then _ else ctx) = _
  rw [if_pos hlen]
  show ctx.completeStep (u32FromLeBytes ((stepData s r).take 4))
    ((stepData s r).drop 4) = _
  rw [stepData, take_left' (length_u32ToLeBytes s),
    drop_left' (length_u32ToLeBytes s), u32FromLeBytes_toLeBytes]

theorem replayContextUpdate_signalRecord (k n : UInt64) (d : Bytes) (ctx : WorkflowContext) :
    replayContextUpdate now (signalRecord k n d) ctx = ctx.signal n d := by
  have hlen : (signalData n d).length ≥ 8 := by simp [signalData]
  show (if (signalData n d).length ≥ 8 then _ else ctx) = _
  rw [if_pos hlen]
  show ctx.signal (u64FromLeBytes ((signalData n d).take 8))
    ((signalData n d).drop 8) = _
  rw [signalData, take_left' (length_u64ToLeBytes n),
    drop_left' (length_u64ToLeBytes n), u64FromLeBytes_toLeBytes]

/-! ### Replaying -/

def replayOn (now : Nat) (workflows : WorkflowContextPool WorkflowContext)
    (records : List WalRecord) : WorkflowContextPool WorkflowContext :=
  (records.filterMap (replayEffect now)).foldl Effect.apply workflows

theorem replayOn_append (p : WorkflowContextPool WorkflowContext) (rs rs' : List WalRecord) :
    replayOn now p (rs ++ rs') = replayOn now (replayOn now p rs) rs' := by
  rw [replayOn, replayOn, replayOn, filterMap_append, foldl_append]

variable {now}

theorem replayOn_singleton {r : WalRecord} {effect : Effect}
    (h : replayEffect now r = some effect) (p : WorkflowContextPool WorkflowContext) :
    replayOn now p [r] = Effect.apply p effect := by
  rw [replayOn, filterMap_cons, h]
  rfl

theorem replayEffect_cases (now : Nat) (r : WalRecord) :
    (r.eventType = .workflowStarted ∧ ((∃ ctx, replayEffect now r
        = some (.insertIfAbsent r.workflowKey ctx)) ∨ replayEffect now r = none))
    ∨ (r.eventType ≠ .workflowStarted
        ∧ replayEffect now r = some (.update r.workflowKey (.replay now r))) := by
  obtain ⟨eventType, key, data⟩ := r
  cases eventType with
  | workflowStarted =>
    refine Or.inl ⟨rfl, ?_⟩
    simp only [replayEffect]
    cases StartFields.ofData data with
    | none => exact Or.inr rfl
    | some fields => exact Or.inl ⟨_, rfl⟩
  | _ => exact Or.inr ⟨by simp, rfl⟩

variable {p : WorkflowContextPool WorkflowContext}

theorem replayOn_induction {P : WorkflowContextPool WorkflowContext → Prop} (hp : P p)
    (hinsert : ∀ p key ctx, P p → P (p.insertIfAbsent key ctx).2)
    (hupdate : ∀ p key f, P p → P (p.modify key f)) (records : List WalRecord) :
    P (replayOn now p records) := by
  induction records generalizing p with
  | nil => exact hp
  | cons r rs ih =>
    rw [← singleton_append, replayOn_append]
    refine ih ?_
    rcases replayEffect_cases now r with ⟨_, ⟨ctx, h⟩ | h⟩ | ⟨_, h⟩
    · rw [replayOn_singleton h]
      exact hinsert p r.workflowKey ctx hp
    · rw [replayOn, filterMap_cons, h]
      exact hp
    · rw [replayOn_singleton h]
      exact hupdate p r.workflowKey _ hp

theorem wellFormed_replayOn (now : Nat)
    (hp : p.WellFormed) (records : List WalRecord) : (replayOn now p records).WellFormed :=
  replayOn_induction hp (fun _ key ctx h => h.insertIfAbsent key ctx)
    (fun _ key _ h => h.withMut key _ _) records

variable {k : UInt64}

theorem isSome_lookup_replayOn (now : Nat)
    (hp : p.WellFormed) (hk : (p.lookup k).isSome) (records : List WalRecord) :
    ((replayOn now p records).lookup k).isSome := by
  refine (replayOn_induction (P := fun p => p.WellFormed ∧ (p.lookup k).isSome) ⟨hp, hk⟩
    (fun p key ctx h => ⟨h.1.insertIfAbsent key ctx, ?_⟩)
    (fun p key f h => ⟨h.1.withMut key _ _, ?_⟩) records).2
  · rw [h.1.lookup_insertIfAbsent]
    split
    · rfl
    · exact h.2
  · rw [WorkflowContextPool.modify, WorkflowContextPool.lookup_withMut]
    split
    · rw [Option.isSome_map]
      exact h.2
    · exact h.2

theorem replayOn_new_of_no_start (now : Nat) :
    ∀ {records : List WalRecord},
      (∀ r ∈ records, r.eventType = .workflowStarted → replayEffect now r = none) →
      replayOn now WorkflowContextPool.new records = WorkflowContextPool.new
  | [], _ => rfl
  | r :: rs, h => by
    have hrest : ∀ r ∈ rs, r.eventType = .workflowStarted → replayEffect now r = none :=
      fun r' hr' => h r' (mem_cons_of_mem r hr')
    have hhead : replayOn now WorkflowContextPool.new [r] = WorkflowContextPool.new := by
      rcases replayEffect_cases now r with ⟨hstart, _⟩ | ⟨_, heffect⟩
      · rw [replayOn, filterMap_cons, h r mem_cons_self hstart]
        rfl
      -- a rewrite finds no context in the empty pool
      · rw [replayOn_singleton heffect]
        rfl
    rw [← singleton_append, replayOn_append, hhead]
    exact replayOn_new_of_no_start now hrest

theorem exists_held_of_start (now : Nat) {records : List WalRecord}
    (hstart : ∃ r ∈ records, r.eventType = .workflowStarted ∧ replayEffect now r ≠ none) :
    ∃ r ∈ records, r.eventType = .workflowStarted
      ∧ ((replayOn now WorkflowContextPool.new records).lookup r.workflowKey).isSome := by
  induction records with
  | nil =>
    obtain ⟨r, hr, _⟩ := hstart
    cases hr
  | cons r rs ih =>
    rw [← singleton_append, replayOn_append]
    by_cases hr : r.eventType = .workflowStarted ∧ replayEffect now r ≠ none
    · refine ⟨r, mem_cons_self, hr.1, ?_⟩
      rcases replayEffect_cases now r with ⟨_, ⟨ctx, heffect⟩ | hnone⟩ | ⟨hother, _⟩
      · rw [replayOn_singleton heffect]
        have hwf := WorkflowContextPool.wellFormed_new (α := WorkflowContext)
        refine isSome_lookup_replayOn now (hwf.insertIfAbsent r.workflowKey ctx) ?_ rs
        rw [hwf.lookup_insertIfAbsent, if_pos ⟨rfl, rfl, WorkflowContextPool.freeList_new_ne_nil⟩]
        rfl
      · exact absurd hnone hr.2
      · exact absurd hr.1 hother
    · -- `r` is not such a start, so the pool is still empty after it
      have hsame : replayOn now WorkflowContextPool.new [r] = WorkflowContextPool.new := by
        refine replayOn_new_of_no_start now (fun r' hr' hs => ?_)
        rw [mem_singleton.mp hr'] at hs ⊢
        by_contra hread
        exact hr ⟨hs, hread⟩
      have hrest : ∃ r ∈ rs, r.eventType = .workflowStarted ∧ replayEffect now r ≠ none := by
        obtain ⟨r', hr', hs⟩ := hstart
        rcases mem_cons.mp hr' with rfl | hmem
        · exact absurd hs hr
        · exact ⟨r', hmem, hs⟩
      obtain ⟨r', hr', hs, hheld⟩ := ih hrest
      rw [hsame]
      exact ⟨r', mem_cons_of_mem r hr', hs, hheld⟩

/-! ### Moves in lock step -/

variable {R : WorkflowContext → WorkflowContext → Prop}

/-- The move keeps `p` in lock step with replayed pools. -/
def Mirrors (R : WorkflowContext → WorkflowContext → Prop) (now : Nat)
    (p : WorkflowContextPool WorkflowContext) (move : Move) : Prop :=
  ∀ q : WorkflowContextPool WorkflowContext, q.WellFormed → LockStep R p q →
    LockStep R (Effect.apply p move.effect) (replayOn now q move.record.toList)

def MovesMirror (R : WorkflowContext → WorkflowContext → Prop) (now : Nat) :
    WorkflowContextPool WorkflowContext → List Move → Prop
  | _, [] => True
  | p, move :: moves =>
    Mirrors R now p move ∧ MovesMirror R now (Effect.apply p move.effect) moves

theorem movesMirror_of_forall {moves : List Move}
    (h : ∀ move ∈ moves, ∀ p, Mirrors R now p move) (p : WorkflowContextPool WorkflowContext) :
    MovesMirror R now p moves := by
  induction moves generalizing p with
  | nil => trivial
  | cons move moves ih =>
    refine ⟨h move mem_cons_self p, ih (fun m hm => h m (mem_cons_of_mem move hm)) _⟩

theorem mirrors_startMove {e : WorkflowEngine} {w t ns tq : UInt64} {total : UInt32}
    {input : Option Bytes}
    (hfresh : ∀ key runId input now', R (startContext w runId t ns tq total input
      now') (replayContext key ⟨w, t, ns, tq, total⟩ now))
    (habsent : e.workflows.lookup (workflowKey ns w) = none) :
    Mirrors R now e.workflows (e.startMove w t ns tq total input) := by
  intro q hq h
  show LockStep R (e.workflows.insert _ _).2
    (replayOn now q [startRecord w t ns tq total])
  rw [replayOn_singleton (replayEffect_startRecord now w t ns tq total)]
  -- they agree because the key is absent
  refine h.insert_insertIfAbsent hq _ (hfresh _ _ _ _) ?_
  intro d hd
  have hrel := h.lookup (workflowKey ns w)
  rw [habsent, hd] at hrel
  cases hrel

theorem mirrors_logged {u : CtxUpdate} {r : WalRecord} (hr : r.eventType ≠ .workflowStarted)
    (hu : ∀ c d, p.lookup r.workflowKey = some c → R c d →
      R (u.apply c) (replayContextUpdate now r d)) :
    Mirrors R now p (.logged (.update r.workflowKey u) r) := by
  intro q _ h
  show LockStep R (p.modify r.workflowKey u.apply) (replayOn now q [r])
  rcases replayEffect_cases now r with ⟨hstart, _⟩ | ⟨_, heffect⟩
  · exact absurd hstart hr
  · rw [replayOn_singleton heffect]
    exact h.modify r.workflowKey (fun c d hc _ hcd => hu c d hc hcd)

theorem mirrors_completeStep {s : UInt32} {r : Bytes}
    (hstep : ∀ c d, R c d → R (c.completeStep s r) (d.completeStep s r)) :
    Mirrors R now p (.logged (.update k (.completeStep s r)) (stepRecord k s r)) := by
  refine mirrors_logged (r := stepRecord k s r) (by simp [stepRecord])
    (fun c d _ hcd => ?_)
  rw [replayContextUpdate_stepRecord]
  exact hstep c d hcd

theorem mirrors_signalMove {n : UInt64}
    {payload : Bytes} (hsignal : ∀ c d, p.lookup k = some c → R c d →
      R (c.signalIfRunning n payload) (d.signal n payload)) :
    Mirrors R now p (signalMove k n payload) := by
  refine mirrors_logged (r := signalRecord k n payload)
    (by simp [signalRecord]) (fun c d hc hcd => ?_)
  rw [replayContextUpdate_signalRecord]
  exact hsignal c d hc hcd

theorem mirrors_silent {u : CtxUpdate} (hu : ∀ c d, p.lookup k = some c → R c d → R (u.apply c) d) :
    Mirrors R now p (.silent (.update k u)) := by
  intro q _ h
  exact h.modify_left k (fun c d hc _ hcd => hu c d hc hcd)

theorem MovesMirror.lockStep {q : WorkflowContextPool WorkflowContext}
    {moves : List Move} (hm : MovesMirror R now p moves) (hq : q.WellFormed) (h : LockStep R p q) :
    LockStep R ((moves.map (·.effect)).foldl Effect.apply p)
      (replayOn now q (moves.filterMap (·.record))) := by
  induction moves generalizing p q with
  | nil => exact h
  | cons move moves ih =>
    have hhead := hm.1 q hq h
    have htail := ih hm.2 (wellFormed_replayOn now hq _) hhead
    rw [← replayOn_append] at htail
    rw [map_cons, foldl_cons, filterMap_cons]
    cases hr : move.record with
    | none | some r =>
      rw [hr] at htail
      exact htail

/-! ### In step with the log -/

theorem recovered_workflows {e : WorkflowEngine} {w : WalManager} (hw : e.wal = some w)
    (hholds : w.Holds) (hfits : ∀ r ∈ w.log.visible w.retainCount, r.Fits) (now : Nat) :
    (e.recovered now).workflows
      = replayOn now WorkflowContextPool.new (w.log.visible w.retainCount) := by
  -- the new process opens the files without changing them
  have hreplay : w.reopen.replayAll = .ok (w.log.visible w.retainCount) :=
    hholds.reopen.replayAll hfits
  have hwal : (e.restart now).wal = some w.reopen := by
    show e.wal.map WalManager.reopen = _
    rw [hw]
    rfl
  simp only [WorkflowEngine.recovered, recoverFromWal, hwal, hreplay]
  exact workflows_replayRecords now _ _

structure InStep (R : WorkflowContext → WorkflowContext → Prop) (now : Nat)
    (e : WorkflowEngine) (w : WalManager) : Prop where
  wal : e.wal = some w
  holds : w.Holds
  fits : ∀ r ∈ w.log.all, r.Fits
  lockStep : LockStep R e.workflows (replayOn now WorkflowContextPool.new w.log.all)

namespace InStep

theorem withWal (maxFileSize retainCount : Nat) (config : DurabilityConfig) (start now : Nat) :
    InStep R now (WorkflowEngine.withWal maxFileSize retainCount config start)
      (WalManager.withRetention (fun _ => none) maxFileSize retainCount) where
  wal := rfl
  holds := WalManager.holds_withRetention maxFileSize retainCount
  fits _ hr := by cases hr
  lockStep := LockStep.new

variable {now : Nat} {e : WorkflowEngine} {w : WalManager}

theorem step (h : InStep R now e w) {op : EngineOp} (hfits : ∀ r ∈ e.logged op, r.Fits)
    (hmoves : MovesMirror R now e.workflows (e.moves op)) : ∃ w', InStep R now (e.step op) w' := by
  obtain ⟨w', hw', hgrows⟩ := e.step_logGrows op w h.wal
  -- `all` keeps every record
  refine ⟨w', hw', hgrows.holds h.holds, ?_, ?_⟩
  · intro r hr
    rw [hgrows.all] at hr
    exact (mem_append.mp hr).elim (h.fits r) (hfits r)
  · rw [step_workflows, hgrows.all, replayOn_append]
    exact hmoves.lockStep
      (wellFormed_replayOn now WorkflowContextPool.wellFormed_new _) h.lockStep

theorem run {good : WorkflowEngine → EngineOp → Prop}
    (hgood : ∀ e op, good e op → (∀ r ∈ e.logged op, r.Fits)
      ∧ MovesMirror R now e.workflows (e.moves op)) (h : InStep R now e w) {ops : List EngineOp}
    (hops : StepsMeet WorkflowEngine.step good e ops) : ∃ w', InStep R now (e.run ops) w' := by
  refine foldl_invariant (I := fun e => ∃ w, InStep R now e w) ?_ ops e ⟨w, h⟩ hops
  rintro e op ⟨w, h⟩ hop
  obtain ⟨hfits, hmoves⟩ := hgood e op hop
  exact h.step hfits hmoves

theorem replayOn_dropped (h : InStep R now e w)
    (hkept : ∀ r ∈ w.log.dropped w.retainCount, r.eventType = .workflowStarted →
      e.workflows.lookup r.workflowKey = none) :
    replayOn now WorkflowContextPool.new (w.log.dropped w.retainCount)
      = WorkflowContextPool.new := by
  refine replayOn_new_of_no_start now (fun r hr hstart => ?_)
  by_contra hread
  obtain ⟨r', hr', hs, hheld⟩ := exists_held_of_start now ⟨r, hr, hstart, hread⟩
  -- what it held it still holds at the end
  have hend := isSome_lookup_replayOn now
    (wellFormed_replayOn now WorkflowContextPool.wellFormed_new _) hheld
    (w.log.visible w.retainCount)
  rw [← replayOn_append, SegmentedLog.dropped_append_visible] at hend
  have hrel := h.lockStep.lookup r'.workflowKey
  rw [hkept r' hr' hs] at hrel
  cases hrel' : (replayOn now WorkflowContextPool.new w.log.all).lookup r'.workflowKey with
  | none =>
    rw [hrel'] at hend
    cases hend
  | some d =>
    rw [hrel'] at hrel
    cases hrel

theorem recovered (h : InStep R now e w)
    (hkept : ∀ r ∈ w.log.dropped w.retainCount, r.eventType = .workflowStarted →
      e.workflows.lookup r.workflowKey = none) (k : UInt64) :
    Option.Rel R (e.workflows.lookup k) ((e.recovered now).workflows.lookup k) := by
  have hall := SegmentedLog.dropped_append_visible w.retainCount w.log
  have hfits : ∀ r ∈ w.log.visible w.retainCount, r.Fits := fun r hr =>
    h.fits r (hall ▸ mem_append_right _ hr)
  rw [recovered_workflows h.wal h.holds hfits, ← h.replayOn_dropped hkept, ← replayOn_append,
    hall]
  exact h.lockStep.lookup k

end InStep

end Velocity
