import Velocity.Engine.RotationRecovery

namespace Velocity

open Lib List WorkflowEngine WorkflowContextPool

/-!
# Run ids across crashes

A recovery sets `next_run_id` above the largest key, and keys are not made of run ids.

* `Life`: an engine with its crashes, and the run ids issued.
* `Counting`: the counter is past them; `nodup_issued` follows.
-/

/-! ### The largest key -/

theorem toNat_max (a b : UInt64) : (max a b).toNat = max a.toNat b.toNat := by
  show (if a ≤ b then b else a).toNat = _
  split
  · next h => exact (Nat.max_eq_right (UInt64.le_iff_toNat_le.mp h)).symm
  · next h => exact (Nat.max_eq_left (by rw [UInt64.le_iff_toNat_le] at h; omega)).symm

theorem le_foldl_max {k : UInt64} : ∀ {ks : List UInt64} {a : UInt64}, k = a ∨ k ∈ ks →
    k.toNat ≤ (ks.foldl max a).toNat
  | [], a, h => by
    rcases h with rfl | h
    · exact Nat.le_refl _
    · cases h
  | k' :: ks, a, h => by
    -- the accumulator never sinks below what it has seen
    have hacc : (max a k').toNat ≤ (ks.foldl max (max a k')).toNat := le_foldl_max (Or.inl rfl)
    rw [toNat_max] at hacc
    rw [foldl_cons]
    rcases h with rfl | h
    · omega
    · rcases mem_cons.mp h with rfl | h
      · omega
      · exact le_foldl_max (Or.inr h)

theorem foldl_max_mem : ∀ (ks : List UInt64) (a : UInt64),
    ks.foldl max a = a ∨ ks.foldl max a ∈ ks
  | [], _ => Or.inl rfl
  | k :: ks, a => by
    have hmax : max a k = a ∨ max a k = k := by
      show (if a ≤ k then k else a) = a ∨ (if a ≤ k then k else a) = k
      split
      · exact Or.inr rfl
      · exact Or.inl rfl
    rw [foldl_cons]
    rcases foldl_max_mem ks (max a k) with h | h
    · rw [h]
      rcases hmax with hmax | hmax
      · exact Or.inl hmax
      · rw [hmax]
        exact Or.inr mem_cons_self
    · exact Or.inr (mem_cons_of_mem k h)

section RunIds

variable [Sha256]

/-! ### Lives of an engine -/

inductive LifeOp where
  | startWorkflow (workflowId workflowTypeId namespaceId taskQueueHash : UInt64)
      (totalSteps : UInt32) (input : Option Bytes)
  | continueAsNew (key : UInt64) (newInput : Option Bytes)
  | crash (now : Nat)

structure Life where
  engine : WorkflowEngine
  issued : List UInt64

namespace Life

def new (maxFileSize retainCount : Nat) (config : DurabilityConfig) (now : Nat) : Life :=
  ⟨WorkflowEngine.withWal maxFileSize retainCount config now, []⟩

def issues (s : Life) : LifeOp → List UInt64
  | .startWorkflow .. => [s.engine.nextRunId]
  | .continueAsNew key _ =>
    if ∀ old ∈ s.engine.workflows.lookup key, old.IsBlank then [] else [s.engine.nextRunId]
  | .crash _ => []

def step (s : Life) (op : LifeOp) : Life where
  engine :=
    match op with
    | .startWorkflow workflowId workflowTypeId namespaceId taskQueueHash totalSteps input =>
      (s.engine.startWorkflow workflowId workflowTypeId namespaceId taskQueueHash totalSteps
        input).2
    | .continueAsNew key newInput => (s.engine.continueAsNew key newInput).2
    | .crash now => s.engine.recovered now
  issued := s.issued ++ s.issues op

abbrev maxRunId : UInt64 := 0xFFFFFFFFFFFFFFFF

/-- No id is issued, or a recovered key is as large and none the largest. -/
def CountsPast (e : WorkflowEngine) (issued : List UInt64) : Prop :=
  issued = [] ∨ (∃ k, e.KeepsStartOf k ∧ ∀ id ∈ issued, id ≤ k) ∧ ¬ HasStart maxRunId e.retained

/-- Crashes meet `CountsPast`, and the largest id is not issued. -/
def KeepsCounting (s : Life) : LifeOp → Prop
  | .crash _ => CountsPast s.engine s.issued
  | op => ∀ id ∈ s.issues op, id ≠ maxRunId

/-! ### After a recovery -/

def Logs (e : WorkflowEngine) : Prop :=
  ∃ w, e.wal = some w ∧ w.Holds ∧ ∀ r ∈ w.log.all, r.Fits

variable {e : WorkflowEngine}

theorem nextRunId_recovered (h : Logs e) (now : Nat) :
    (e.recovered now).nextRunId
      = if (replayOn now WorkflowContextPool.new e.retained).keys.foldl max 0 > 0 then
          (replayOn now WorkflowContextPool.new e.retained).keys.foldl max 0 + 1
        else 1 := by
  obtain ⟨w, hw, hholds, hfits⟩ := h
  have hvisible : ∀ r ∈ w.log.visible w.retainCount, r.Fits := fun r hr =>
    hfits r (SegmentedLog.dropped_append_visible w.retainCount w.log
      ▸ mem_append_right _ hr)
  have hreplay : w.reopen.replayAll = .ok (w.log.visible w.retainCount) :=
    hholds.reopen.replayAll hvisible
  have hwal : (e.restart now).wal = some w.reopen := by
    show e.wal.map WalManager.reopen = _
    rw [hw]
    rfl
  have hretained : e.retained = w.log.visible w.retainCount := by
    rw [retained, hw]
    rfl
  have hpool := workflows_replayRecords now WorkflowContextPool.new
    (w.log.visible w.retainCount)
  simp only [WorkflowEngine.recovered, recoverFromWal, hwal, hreplay, hretained,
    replayOn, ← hpool]
  rfl

theorem logs_recovered (h : Logs e) (now : Nat) : Logs (e.recovered now) := by
  obtain ⟨w, hw, hholds, hfits⟩ := h
  refine ⟨w.reopen, ?_, hholds.reopen, hfits⟩
  have hwal : (e.restart now).wal = some w.reopen := by
    show e.wal.map WalManager.reopen = _
    rw [hw]
    rfl
  simp only [WorkflowEngine.recovered, recoverFromWal, hwal]
  split <;> first | exact hwal | rfl

omit [Sha256] in
theorem toNat_add_one_of_ne {n : UInt64} (h : n ≠ maxRunId) : (n + 1).toNat = n.toNat + 1 := by
  have hbound := n.toNat_lt
  have hne : n.toNat ≠ 2 ^ 64 - 1 := fun heq => h (UInt64.toNat_inj.mp heq)
  exact toNat_add_one_of_lt (by omega)

theorem lt_nextRunId_recovered (h : Logs e) {k : UInt64}
    (hk : e.KeepsStartOf k) (hmax : ¬ HasStart maxRunId e.retained) {id : UInt64}
    (hid : id ≤ k) (now : Nat) : id < (e.recovered now).nextRunId := by
  obtain ⟨pre, r, post, hsplit, hr, hcount⟩ := hk
  have hwf := wellFormed_replayOn now WorkflowContextPool.wellFormed_new e.retained
  have hheld : ((replayOn now WorkflowContextPool.new e.retained).lookup k).isSome := by
    rw [hsplit, lookup_replayOn_new_of_countP_lt hr hcount, isSome_replayKeyOn_none]
    exact ⟨r, mem_append_right _ mem_cons_self, hr⟩
  have hle := le_foldl_max (a := 0) (Or.inr (mem_keys hheld))
  have hmem := foldl_max_mem (replayOn now WorkflowContextPool.new e.retained).keys 0
  rw [nextRunId_recovered h]
  generalize (replayOn now WorkflowContextPool.new e.retained).keys.foldl max 0 = m at hle hmem ⊢
  rw [UInt64.le_iff_toNat_le] at hid
  split
  · -- the largest key is that of a start, so adding one does not wrap around
    next hpos =>
    have hne : m ≠ maxRunId := by
      intro heq
      have hkeys := hmem.resolve_left (fun hzero => absurd (hzero ▸ hpos) (by decide))
      have hsome := hwf.isSome_lookup_of_mem_keys hkeys
      have hnone := lookup_replayOn_new_of_no_start now (heq ▸ hmax)
      rw [hnone] at hsome
      cases hsome
    rw [UInt64.lt_iff_toNat_lt, toNat_add_one_of_ne hne]
    omega
  · next hzero =>
    have hnat : m.toNat ≤ 0 := Nat.le_of_not_lt (fun h0 => hzero (UInt64.lt_iff_toNat_lt.mpr h0))
    rw [UInt64.lt_iff_toNat_lt]
    show id.toNat < 1
    omega

/-! ### The invariant -/

structure Counting (s : Life) : Prop where
  logs : Logs s.engine
  below : ∀ id ∈ s.issued, id < s.engine.nextRunId
  nodup : s.issued.Nodup

omit [Sha256] in
theorem counting_new (maxFileSize retainCount : Nat) (config : DurabilityConfig) (now : Nat) :
    (new maxFileSize retainCount config now).Counting where
  logs := ⟨_, rfl, WalManager.holds_withRetention maxFileSize retainCount, nofun⟩
  below := nofun
  nodup := nodup_nil

omit [Sha256] in
theorem Counting.issue {s : Life} (h : s.Counting) (hlogs : Logs e)
    (hnext : e.nextRunId = s.engine.nextRunId + 1) (hmax : s.engine.nextRunId ≠ maxRunId) :
    Counting ⟨e, s.issued ++ [s.engine.nextRunId]⟩ := by
  have hsucc := toNat_add_one_of_ne hmax
  refine ⟨hlogs, fun id hid => ?_, ?_⟩
  · show id < e.nextRunId
    rw [hnext, UInt64.lt_iff_toNat_lt, hsucc]
    rcases mem_append.mp hid with hold | hnew
    · have hlt := UInt64.lt_iff_toNat_lt.mp (h.below id hold)
      omega
    · rw [mem_singleton.mp hnew]
      omega
  · -- the counter's value is past all that were issued, so it is none of them
    refine nodup_append.mpr ⟨h.nodup, nodup_singleton _, fun id hid id' hid' heq => ?_⟩
    have hlt := UInt64.lt_iff_toNat_lt.mp (h.below id hid)
    rw [heq, mem_singleton.mp hid'] at hlt
    omega

theorem logs_startWorkflow (h : Logs e) (w t ns tq : UInt64)
    (total : UInt32) (input : Option Bytes) : Logs (e.startWorkflow w t ns tq total input).2 := by
  obtain ⟨m, hm, hholds, hfits⟩ := h
  obtain ⟨m', hm', hgrows⟩ :=
    logGrows_startWorkflow e w t ns tq total input m hm
  refine ⟨m', hm', hgrows.holds hholds, fun r hr => ?_⟩
  rw [hgrows.all] at hr
  rcases mem_append.mp hr with hold | hnew
  · exact hfits r hold
  · rw [mem_singleton.mp hnew]
    exact fits_startRecord w t ns tq total

theorem continueAsNew_of_blank {key : UInt64}
    (h : ∀ old ∈ e.workflows.lookup key, old.IsBlank) (input : Option Bytes) :
    e.continueAsNew key input = (0, e) := by
  simp only [WorkflowEngine.continueAsNew, withCtx, id_eq]
  split
  · rfl
  · next old hold => exact if_pos (h old hold)

theorem continueAsNew_of_not_blank {key : UInt64}
    (h : ¬ ∀ old ∈ e.workflows.lookup key, old.IsBlank) (input : Option Bytes) :
    (e.continueAsNew key input).2.nextRunId = e.nextRunId + 1
      ∧ (e.continueAsNew key input).2.wal = e.wal := by
  push Not at h
  obtain ⟨old, hold, hblank⟩ := h
  have hids : ¬ (old.workflowId = 0 ∧ old.workflowTypeId = 0 ∧ old.namespaceId = 0) := hblank
  simp only [WorkflowEngine.continueAsNew, withCtx, id_eq,
    Option.mem_def.mp hold, if_neg hids]
  exact ⟨rfl, rfl⟩

theorem Counting.step {s : Life} (h : s.Counting) {op : LifeOp} (hop : s.KeepsCounting op) :
    (s.step op).Counting := by
  cases op with
  | startWorkflow w t ns tq total input =>
    exact h.issue (logs_startWorkflow h.logs w t ns tq total input) rfl
      (hop _ (mem_singleton_self _))
  | continueAsNew key input =>
    by_cases hblank : ∀ old ∈ s.engine.workflows.lookup key, old.IsBlank
    · have hissues : s.issues (.continueAsNew key input) = [] := if_pos hblank
      rw [Life.step, hissues, append_nil, continueAsNew_of_blank hblank]
      exact h
    · have hissues : s.issues (.continueAsNew key input) = [s.engine.nextRunId] := if_neg hblank
      obtain ⟨hnext, hwal⟩ := continueAsNew_of_not_blank hblank input
      have hlogs : Logs (s.engine.continueAsNew key input).2 := by
        obtain ⟨w, hw, hholds⟩ := h.logs
        exact ⟨w, hwal.trans hw, hholds⟩
      rw [Life.step, hissues]
      exact h.issue hlogs hnext (hop _ (hissues ▸ mem_singleton_self _))
  | crash now =>
    refine ⟨logs_recovered h.logs now, fun id hid => ?_, ?_⟩
    · have hold : id ∈ s.issued := by simpa [Life.step, issues] using hid
      rcases hop with hnone | ⟨⟨k, hk, hle⟩, hmax⟩
      · rw [hnone] at hold
        cases hold
      · exact lt_nextRunId_recovered h.logs hk hmax (hle id hold) now
    · simpa [Life.step, issues] using h.nodup

end Life

/-- **Run ids are not reused** if each crash finds the counter's next value past them. -/
theorem nodup_issued (maxFileSize retainCount : Nat) (config : DurabilityConfig) (now : Nat)
    (ops : List LifeOp) (hops : StepsMeet Life.step Life.KeepsCounting
      (Life.new maxFileSize retainCount config now) ops) :
    (ops.foldl Life.step (Life.new maxFileSize retainCount config now)).issued.Nodup :=
  (foldl_invariant (fun _ _ h hop => h.step hop) ops _
    (Life.counting_new maxFileSize retainCount config now) hops).nodup

end RunIds

theorem nodup_issued_crash :
    ([.startWorkflow 5 1 0 1 1 none, .crash 0, .startWorkflow 6 1 0 1 1 none].foldl Life.step
      (Life.new 1024 3 .strict 0)).issued.Nodup := by
  refine nodup_issued 1024 3 .strict 0 _ ⟨?_, Or.inr ⟨⟨5, ?_, ?_⟩, ?_⟩, ?_, trivial⟩
  · exact forall_mem_singleton.mpr (by decide)
  · exact ⟨[], startRecord 5 1 0 1 1, [], by decide +kernel, by decide +kernel,
      workflowPoolCapacity_pos⟩
  · exact forall_mem_singleton.mpr (by decide)
  · decide +kernel
  · exact forall_mem_singleton.mpr (by decide +kernel)

theorem issued_twice_after_crash :
    ([.startWorkflow 1 1 0 1 1 none, .startWorkflow 1 1 0 1 1 none,
      .startWorkflow 1 1 0 1 1 none, .crash 0, .startWorkflow 1 1 0 1 1 none].foldl Life.step
      (Life.new 1024 3 .strict 0)).issued = [1, 2, 3, 2] := by
  decide +kernel

end Velocity
