import Velocity.Engine.KeyReplay

namespace Velocity

open Lib WorkflowContextPool

/-!
# Two sources of step results

The merge decides by completion flags, and only the first 256 steps have one.

* `getStepResult_of_replayOn`: what the log says of a step.
* `walPrecedes_iff`: when it has precedence over the journal.
-/

/-! ### The sources -/

def WalRecord.IsStepOf (r : WalRecord) (k : UInt64) (s : UInt32) : Prop :=
  r.workflowKey = k ∧ r.eventType = .stepCompleted ∧ 4 ≤ r.data.length ∧ r.stepIndex = s

instance (r : WalRecord) (k : UInt64) (s : UInt32) : Decidable (r.IsStepOf k s) :=
  inferInstanceAs (Decidable (_ ∧ _ ∧ _ ∧ _))

def logResults (k : UInt64) (s : UInt32) (records : List WalRecord) : List Bytes :=
  (records.filter (·.IsStepOf k s)).map (·.data.drop 4)

def sinceStart (k : UInt64) (records : List WalRecord) : List WalRecord :=
  records.dropWhile (fun r => ¬ r.IsStartOf k)

def walResult (k : UInt64) (records : List WalRecord) (s : UInt32) : Option Bytes :=
  (logResults k s (sinceStart k records)).getLast?

def journalResults (steps : List (UInt32 × Option Bytes)) (s : UInt32) : List Bytes :=
  (steps.filter (·.1 = s)).map (·.2.getD [])

/-- The log's result where there is one, else the journal's. -/
def WalPrecedes (wal : UInt32 → Option Bytes) (journal : UInt32 → List Bytes)
    (merged : UInt32 → Option Bytes) : Prop :=
  ∀ s, match wal s, merged s with
    | some result, found => found = some result
    | none, some found => found ∈ journal s
    | none, none => journal s = []

/-! ### Results in turn -/

theorem getLast?_cons_or {α : Type} (a : α) (l : List α) (x : Option α) :
    (a :: l).getLast?.or x = l.getLast?.or (some a) := by
  rw [List.getLast?_cons]
  cases l.getLast? <;> rfl

theorem logResults_cons (k : UInt64) (s : UInt32) (r : WalRecord) (records : List WalRecord) :
    logResults k s (r :: records)
      = if r.IsStepOf k s then r.data.drop 4 :: logResults k s records
        else logResults k s records := by
  by_cases hr : r.IsStepOf k s <;> simp [logResults, hr]

theorem journalResults_cons (s : UInt32) (step : UInt32 × Option Bytes)
    (steps : List (UInt32 × Option Bytes)) :
    journalResults (step :: steps) s
      = if step.1 = s then step.2.getD [] :: journalResults steps s
        else journalResults steps s := by
  by_cases hs : step.1 = s <;> simp [journalResults, hs]

section Merge

variable [Sha256]

namespace WorkflowContext

variable {s : UInt32}

variable (ctx : WorkflowContext) (steps : List (UInt32 × Option Bytes))

omit [Sha256] in
theorem isStepCompleted_of_ge (hs : 256 ≤ s.toNat) : ctx.isStepCompleted s = false :=
  Bitmask256.isStepSet_of_ge _ hs

theorem mergeStep_of_ne {step : UInt32 × Option Bytes}
    (hs : step.1 ≠ s) : (ctx.mergeStep step).getStepResult s = ctx.getStepResult s
      ∧ (ctx.mergeStep step).isStepCompleted s = ctx.isStepCompleted s := by
  unfold mergeStep
  split
  · simp [getStepResult_completeStep, isStepCompleted_completeStep, Ne.symm hs]
  · exact ⟨rfl, rfl⟩

theorem mergeStep_of_not_completed {ctx : WorkflowContext} {step : UInt32 × Option Bytes}
    (h : ctx.isStepCompleted step.1 = false) :
    ctx.mergeStep step = ctx.completeStep step.1 (step.2.getD []) := by
  rw [mergeStep, h]
  rfl

theorem getStepResult_mergeSteps_of_lt (hs : s.toNat < 256) :
    (ctx.mergeSteps steps).2.getStepResult s
      = if ctx.isStepCompleted s then ctx.getStepResult s
        else (journalResults steps s).head?.or (ctx.getStepResult s) := by
  rw [mergeSteps_snd]
  induction steps generalizing ctx with
  | nil => simp [journalResults]
  | cons step steps ih =>
    rw [List.foldl_cons, ih, journalResults_cons]
    by_cases hstep : step.1 = s
    · subst hstep
      cases hflag : ctx.isStepCompleted step.1 with
      | true => simp [mergeStep, hflag]
      | false =>
        rw [mergeStep_of_not_completed hflag]
        simp [getStepResult_completeStep, isStepCompleted_completeStep, hs]
    · obtain ⟨hresult, hflag⟩ := ctx.mergeStep_of_ne hstep
      rw [hresult, hflag, if_neg hstep]

theorem getStepResult_mergeSteps_of_ge (hs : 256 ≤ s.toNat) :
    (ctx.mergeSteps steps).2.getStepResult s
      = (journalResults steps s).getLast?.or (ctx.getStepResult s) := by
  rw [mergeSteps_snd]
  induction steps generalizing ctx with
  | nil => rfl
  | cons step steps ih =>
    rw [List.foldl_cons, ih, journalResults_cons]
    by_cases hstep : step.1 = s
    · subst hstep
      rw [mergeStep_of_not_completed (ctx.isStepCompleted_of_ge hs), getStepResult_completeStep,
        if_pos rfl, if_pos rfl, getLast?_cons_or]
    · rw [(ctx.mergeStep_of_ne hstep).1, if_neg hstep]

def FlagsResults : Prop :=
  ∀ s, s.toNat < 256 → ctx.isStepCompleted s = (ctx.getStepResult s).isSome

theorem FlagsResults.completeStep {ctx : WorkflowContext} (h : ctx.FlagsResults) (step : UInt32)
    (result : Bytes) : (ctx.completeStep step result).FlagsResults := by
  intro s hs
  rw [isStepCompleted_completeStep, getStepResult_completeStep]
  by_cases hstep : s = step
  · subst hstep
    simp [hs]
  · simp [hstep, h s hs]

end WorkflowContext

/-! ### What the log leaves -/

variable {k : UInt64}

theorem getStepResult_replayContextUpdate (now : Nat) {r : WalRecord}
    (hk : r.workflowKey = k) (ctx : WorkflowContext) (s : UInt32) :
    (replayContextUpdate now r ctx).getStepResult s
      = if r.IsStepOf k s then some (r.data.drop 4) else ctx.getStepResult s := by
  unfold replayContextUpdate
  cases htype : r.eventType with
  | stepCompleted =>
    by_cases hlen : 4 ≤ r.data.length
    · have hstep : r.IsStepOf k s ↔ s = r.stepIndex := by
        simp [WalRecord.IsStepOf, hk, htype, hlen, eq_comm]
      simp only [hstep, ge_iff_le, if_pos hlen]
      exact WorkflowContext.getStepResult_completeStep ctx r.stepIndex _ s
    · simp [WalRecord.IsStepOf, hlen]
  | signalReceived =>
    simp only [WalRecord.IsStepOf, htype, reduceCtorEq, false_and, and_false, if_false]
    split <;> rfl
  | workflowCompleted | workflowFailed | workflowCanceled | workflowTerminated =>
    simp only [WalRecord.IsStepOf, htype, reduceCtorEq, false_and, and_false, if_false]
    rfl
  | _ => simp [WalRecord.IsStepOf, htype]

variable {ctx : WorkflowContext}

theorem flagsResults_replayContextUpdate (now : Nat) (r : WalRecord)
    (h : ctx.FlagsResults) : (replayContextUpdate now r ctx).FlagsResults := by
  unfold replayContextUpdate
  cases r.eventType with
  | stepCompleted =>
    simp only
    split
    · exact h.completeStep _ _
    · exact h
  | signalReceived =>
    simp only
    split <;> exact h
  | _ => exact h

theorem getStepResult_replayKeyOn {now : Nat} (records : List WalRecord)
    (hflags : ctx.FlagsResults) :
    ∃ ctx', replayKeyOn now k (some ctx) records = some ctx' ∧ ctx'.FlagsResults
      ∧ ∀ s, ctx'.getStepResult s
        = (logResults k s records).getLast?.or (ctx.getStepResult s) := by
  induction records generalizing ctx with
  | nil => exact ⟨ctx, rfl, hflags, fun _ => rfl⟩
  | cons r records ih =>
    show ∃ ctx', replayKeyOn now k (replayKey now k (some ctx) r) records = some ctx' ∧ _
    by_cases hupdate : r.workflowKey = k ∧ r.eventType ≠ .workflowStarted
    · rw [replayKey_update hupdate.1 hupdate.2]
      obtain ⟨ctx', hctx', hflags', hresults⟩ :=
        ih (flagsResults_replayContextUpdate now r hflags)
      refine ⟨ctx', hctx', hflags', fun s => ?_⟩
      rw [hresults, getStepResult_replayContextUpdate now hupdate.1, logResults_cons]
      split
      · rw [getLast?_cons_or]
      · rfl
    · -- another workflow, or a start of this one that finds it held
      have hsame : replayKey now k (some ctx) r = some ctx := by
        by_cases hk : r.workflowKey = k
        · exact replayKey_start_some (not_not.mp (fun hr => hupdate ⟨hk, hr⟩)) ctx
        · exact replayKey_of_ne hk _
      have hno : ∀ s, ¬ r.IsStepOf k s := fun s hstep =>
        hupdate ⟨hstep.1, by rw [hstep.2.1]; exact WalEventType.noConfusion⟩
      obtain ⟨ctx', hctx', hflags', hresults⟩ := ih hflags
      refine ⟨ctx', by rw [hsame, hctx'], hflags', fun s => ?_⟩
      rw [hresults, logResults_cons, if_neg (hno s)]

omit [Sha256] in
theorem sinceStart_eq {pre post : List WalRecord} {r : WalRecord}
    (hr : r.IsStartOf k) (hfirst : ¬ HasStart k pre) :
    sinceStart k (pre ++ r :: post) = r :: post := by
  have hpre : ∀ r' ∈ pre, decide (¬ r'.IsStartOf k) = true := fun r' hr' =>
    decide_eq_true (fun hs => hfirst ⟨r', hr', hs⟩)
  rw [sinceStart, List.dropWhile_append_of_pos hpre, List.dropWhile_cons_of_neg (by simpa using hr)]

/-- **The log leaves each step with its last result.** -/
theorem getStepResult_of_replayOn {now : Nat} {records : List WalRecord}
    (h : (replayOn now WorkflowContextPool.new records).lookup k = some ctx) :
    ctx.FlagsResults ∧ ∀ s, ctx.getStepResult s = walResult k records s := by
  -- the fold takes the key up at its first start
  have hfold : replayKeyOn now k none records = some ctx := by
    rcases lookup_replayOn_or_none now k records WorkflowContextPool.wellFormed_new with hf | hn
    · exact hf.symm.trans h
    · rw [hn] at h
      cases h
  have hstart : HasStart k records := isSome_replayKeyOn_none.mp (Option.isSome_of_mem hfold)
  obtain ⟨pre, r, post, rfl, hr, hfirst⟩ := hstart.exists_first
  obtain ⟨fields, hfields⟩ := Option.isSome_iff_exists.mp hr.2.2
  have hfresh : (replayContext k fields now).FlagsResults := by
    intro s _
    simp [replayContext]
  obtain ⟨ctx', hctx', hflags, hresults⟩ := getStepResult_replayKeyOn (k := k) post hfresh
  rw [replayKeyOn_append, replayKeyOn_none_of_no_start now hfirst] at hfold
  have hlast : replayKeyOn now k none (r :: post)
      = replayKeyOn now k (some (replayContext k fields now)) post := by
    rw [← replayKey_start_none hr.1 hr.2.1 hfields]
    rfl
  rw [hlast, hctx'] at hfold
  obtain rfl := Option.some.inj hfold
  refine ⟨hflags, fun s => ?_⟩
  have hno : ¬ r.IsStepOf k s := fun hstep =>
    WalEventType.noConfusion (hstep.2.1.symm.trans hr.2.1)
  rw [hresults, walResult, sinceStart_eq hr hfirst, logResults_cons, if_neg hno]
  simp [replayContext]

/-! ### The two recoveries -/

def WalManager.readable (wal : WalManager) : List WalRecord := wal.replayAll.toOption.getD []

namespace WorkflowEngine

def journalSteps (journal : StepJournal) (key : UInt64) : List (UInt32 × Option Bytes) :=
  (journal key).toOption.getD []

def recoverBoth (wal : WalManager) (config : DurabilityConfig) (now : Nat)
    (journal : StepJournal) : WorkflowEngine :=
  (new (some wal) config now).run [.recoverFromWal, .recoverStepsFromPg (some journal)]

theorem workflows_new_recoverFromWal (wal : WalManager) (config : DurabilityConfig) (now : Nat) :
    ((new (some wal) config now).step .recoverFromWal).workflows
      = replayOn now WorkflowContextPool.new wal.readable := by
  unfold WalManager.readable
  simp only [step, recoverFromWal, new]
  cases wal.replayAll with
  | error err => rfl
  | ok records => exact workflows_replayRecords now _ records

theorem mergeEffect_apply (journal : StepJournal) (p : WorkflowContextPool WorkflowContext)
    (key : UInt64) :
    (mergeEffect journal key).elim p (Effect.apply p)
      = p.modify key (fun ctx => (ctx.mergeSteps (journalSteps journal key)).2) := by
  have hnone : p.modify key (fun ctx => (ctx.mergeSteps []).2) = p :=
    modify_of_eq (fun _ _ => rfl)
  unfold mergeEffect journalSteps
  cases journal key with
  | error err => exact hnone.symm
  | ok steps =>
    cases steps with
    | nil => exact hnone.symm
    | cons step steps => rfl

theorem lookup_recoverStepsFromPg {e : WorkflowEngine} (hp : e.workflows.WellFormed)
    (journal : StepJournal) (k : UInt64) :
    (e.step (.recoverStepsFromPg (some journal))).workflows.lookup k
      = (e.workflows.lookup k).map (fun ctx => (ctx.mergeSteps (journalSteps journal k)).2) := by
  have hturns : (e.workflows.keys.filterMap (mergeEffect journal)).foldl Effect.apply e.workflows
      = e.workflows.keys.foldl (fun p key =>
          p.modify key (fun ctx => (ctx.mergeSteps (journalSteps journal key)).2)) e.workflows := by
    rw [List.foldl_filterMap]
    refine congrArg (e.workflows.keys.foldl · e.workflows) (funext₂ (fun p key => ?_))
    rw [← mergeEffect_apply]
    cases mergeEffect journal key <;> rfl
  rw [step_workflows, effects, moves, map_effect_silent, hturns,
    lookup_foldl_modify _ hp.nodup_keys]
  split
  · rfl
  · next habsent =>
    -- only keys that are not held are left out
    have hnone : e.workflows.lookup k = none := by
      rw [← Option.not_isSome_iff_eq_none]
      exact fun hsome => habsent (mem_keys hsome)
    rw [hnone]
    rfl

/-- From step 256 on, log and journal have one result. -/
def SourcesAgree (wal : UInt32 → Option Bytes) (journal : UInt32 → List Bytes) : Prop :=
  ∀ s, 256 ≤ s.toNat → ∀ logged ∈ wal s, ∀ journaled ∈ (journal s).getLast?, journaled = logged

theorem walPrecedes_mergeSteps_iff {ctx : WorkflowContext} (hflags : ctx.FlagsResults)
    (steps : List (UInt32 × Option Bytes)) :
    WalPrecedes ctx.getStepResult (journalResults steps) (ctx.mergeSteps steps).2.getStepResult
      ↔ SourcesAgree ctx.getStepResult (journalResults steps) := by
  refine forall_congr' (fun s => ?_)
  by_cases hs : s.toNat < 256
  · -- below 256 the precedence holds whatever the sources say
    refine iff_of_true ?_ (fun hge => absurd hs (Nat.not_lt.mpr hge))
    rw [ctx.getStepResult_mergeSteps_of_lt steps hs, hflags s hs]
    cases ctx.getStepResult s with
    | some result => rfl
    | none =>
      cases hjournal : journalResults steps s with
      | nil => rfl
      | cons result results => exact List.mem_cons_self
  · have hge : 256 ≤ s.toNat := Nat.le_of_not_lt hs
    rw [ctx.getStepResult_mergeSteps_of_ge steps hge]
    cases ctx.getStepResult s with
    | some result =>
      cases hjournal : (journalResults steps s).getLast? with
      | none | some last => simp [hge]
    | none =>
      cases hjournal : (journalResults steps s).getLast? with
      | none => simpa using hjournal
      | some last => simpa using List.mem_of_getLast? hjournal

/-- **Log before journal** iff the two agree on every step from 256 on that both have. -/
theorem walPrecedes_iff (wal : WalManager) (config : DurabilityConfig) (now : Nat)
    (journal : StepJournal) (k : UInt64) :
    (∀ ctx ∈ (recoverBoth wal config now journal).workflows.lookup k,
      WalPrecedes (walResult k wal.readable) (journalResults (journalSteps journal k))
        ctx.getStepResult)
      ↔ ((((new (some wal) config now).step .recoverFromWal).workflows.lookup k).isSome = true →
          SourcesAgree (walResult k wal.readable) (journalResults (journalSteps journal k))) := by
  have hpool := workflows_new_recoverFromWal wal config now
  have hwf : ((new (some wal) config now).step .recoverFromWal).workflows.WellFormed := by
    rw [hpool]
    exact wellFormed_replayOn now WorkflowContextPool.wellFormed_new _
  have hboth := lookup_recoverStepsFromPg hwf journal k
  show (∀ ctx ∈ (((new (some wal) config now).step .recoverFromWal).step
    (.recoverStepsFromPg (some journal))).workflows.lookup k, _) ↔ _
  rw [hboth]
  cases hlookup : ((new (some wal) config now).step .recoverFromWal).workflows.lookup k with
  | none => simp
  | some ctx =>
    rw [hpool] at hlookup
    obtain ⟨hflags, hresults⟩ := getStepResult_of_replayOn hlookup
    have hmerge := walPrecedes_mergeSteps_iff hflags (journalSteps journal k)
    rw [funext hresults] at hmerge
    simpa using hmerge

end WorkflowEngine

end Merge

theorem journal_overrides_log :
    let e := (WorkflowEngine.withWal 1000 3 .strict 0).run
      [.startWorkflow 1 1 0 1 300 none, .completeStep 1 256 [1]]
    let journal : WorkflowEngine.StepJournal := fun _ => .ok [(256, some [2])]
    ∃ wal, e.wal = some wal ∧ walResult 1 wal.readable 256 = some [1]
      ∧ ∃ ctx, (WorkflowEngine.recoverBoth wal .strict 0 journal).workflows.lookup 1 = some ctx
        ∧ ctx.getStepResult 256 = some [2]
        ∧ ¬ WalPrecedes (walResult 1 wal.readable)
            (journalResults (WorkflowEngine.journalSteps journal 1)) ctx.getStepResult := by
  intro e journal
  have hresults : e.wal.map (fun wal => (walResult 1 wal.readable 256,
      ((WorkflowEngine.recoverBoth wal .strict 0 journal).workflows.lookup 1).map
        (·.getStepResult 256))) = some (some [1], some (some [2])) := by decide +kernel
  obtain ⟨wal, hwal, hpair⟩ := Option.map_eq_some_iff.mp hresults
  obtain ⟨hlogged, hmerged⟩ := Prod.mk.inj hpair
  obtain ⟨ctx, hctx, hresult⟩ := Option.map_eq_some_iff.mp hmerged
  refine ⟨wal, hwal, hlogged, ctx, hctx, hresult, fun hprecedes => ?_⟩
  have hstep := hprecedes 256
  rw [hlogged, hresult] at hstep
  exact absurd hstep (by decide)

end Velocity
