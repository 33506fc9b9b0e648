import Velocity.Engine.Frame
import Velocity.Services.Cron

namespace Velocity

open Lib List WorkflowEngine WorkflowContextPool

/-!
# Workflows started by cron schedules

`process_cron_fires` starts a workflow with the workflow type as its id.

* `processCronFires`: the due fires, and a start for each.
* `fires_safely_iff`: when they leave running workflows alone.
-/

/-! ### Several insertions -/

namespace WorkflowContextPool

variable {α : Type} {p : WorkflowContextPool α}

def insertAll (p : WorkflowContextPool α) (ws : List (UInt64 × α)) : WorkflowContextPool α :=
  ws.foldl (fun p w => (p.insert w.1 w.2).2) p

def missing (p : WorkflowContextPool α) (ks : List UInt64) : Nat :=
  ks.countP (fun k => (p.lookup k).isNone)

def RoomForAll (p : WorkflowContextPool α) (ks : List UInt64) : Prop :=
  p.missing ks ≤ p.available

theorem WellFormed.insertAll (hp : p.WellFormed) (ws : List (UInt64 × α)) :
    (p.insertAll ws).WellFormed := by
  induction ws generalizing p with
  | nil => exact hp
  | cons w ws ih => exact ih (hp.insert w.1 w.2)

variable {key : UInt64}

theorem WellFormed.lookup_insert_of_ne (hp : p.WellFormed) {k : UInt64} (hk : k ≠ key)
    (ctx : α) : (p.insert key ctx).2.lookup k = p.lookup k := by
  rw [hp.lookup_insert, if_neg (fun h => hk h.1)]

variable {ws : List (UInt64 × α)}

theorem lookup_insertAll_of_not_mem (hp : p.WellFormed) {k : UInt64}
    (hk : k ∉ ws.map Prod.fst) : (p.insertAll ws).lookup k = p.lookup k := by
  induction ws generalizing p with
  | nil => rfl
  | cons w ws ih =>
    rw [map_cons, mem_cons, not_or] at hk
    exact (ih (hp.insert w.1 w.2) hk.2).trans (hp.lookup_insert_of_ne hk.1 w.2)

theorem available_insert (hp : p.WellFormed) (h : p.HasRoom key) (ctx : α) :
    (p.insert key ctx).2.available + p.missing [key] = p.available := by
  cases hfind : p.findKeySlot key with
  | some idx =>
    obtain ⟨held, hsome⟩ := hp.exists_lookup hfind
    -- replaced in place
    rw [insert_of_some hfind]
    simp [missing, hsome, available, setContext]
  | none =>
    have hnone : p.lookup key = none := hp.lookup_eq_none.mpr hfind
    have hfree : p.freeList ≠ [] := h.resolve_left (by rw [hfind]; exact Bool.false_ne_true)
    obtain ⟨idx, rest, hcons⟩ := exists_cons_of_ne_nil hfree
    rw [insert_of_free hfind hcons]
    simp [missing, hnone, available, occupy, hcons]

theorem roomForAll_cons (hp : p.WellFormed) (h : p.HasRoom key) (ctx : α)
    {ks : List UInt64} (hk : key ∉ ks) :
    p.RoomForAll (key :: ks) ↔ (p.insert key ctx).2.RoomForAll ks := by
  have hothers : (p.insert key ctx).2.missing ks = p.missing ks := by
    refine countP_congr (fun k hmem => ?_)
    rw [hp.lookup_insert_of_ne (ne_of_mem_of_not_mem hmem hk)]
  have hsplit : p.missing (key :: ks) = p.missing [key] + p.missing ks := by
    rw [missing, missing, missing, ← countP_append, singleton_append]
  have hslots := available_insert hp h ctx
  unfold RoomForAll
  rw [hothers, hsplit]
  omega

theorem hasRoom_of_roomForAll (hp : p.WellFormed) {ks : List UInt64}
    (h : p.RoomForAll (key :: ks)) : p.HasRoom key := by
  by_contra hfull
  have hfree : p.freeList = [] := by
    by_contra hne
    exact hfull (.inr hne)
  have hnone : p.lookup key = none := by
    refine hp.lookup_eq_none.mpr (Option.not_isSome_iff_eq_none.mp ?_)
    exact fun hsome => hfull (.inl hsome)
  have hslots : p.missing (key :: ks) ≤ 0 := by
    rw [RoomForAll, available, hfree] at h
    exact h
  rw [missing, countP_cons_of_pos (by rw [hnone]; rfl)] at hslots
  omega

theorem lookup_insertAll (hp : p.WellFormed)
    (hnodup : (ws.map Prod.fst).Nodup) (hroom : p.RoomForAll (ws.map Prod.fst))
    {w : UInt64 × α} (hw : w ∈ ws) : (p.insertAll ws).lookup w.1 = some w.2 := by
  induction ws generalizing p with
  | nil => cases hw
  | cons first ws ih =>
    obtain ⟨hfirst, hnodup⟩ := nodup_cons.mp hnodup
    have hhas : p.HasRoom first.1 := hasRoom_of_roomForAll hp hroom
    have hp' := hp.insert first.1 first.2
    rcases mem_cons.mp hw with rfl | hw
    · exact (lookup_insertAll_of_not_mem hp' hfirst).trans (lookup_insert_self hhas w.2)
    · exact ih hp' hnodup ((roomForAll_cons hp hhas first.2 hfirst).mp hroom) hw

theorem exists_lookup_eq_none (hp : p.WellFormed)
    (hnodup : (ws.map Prod.fst).Nodup) (hroom : ¬ p.RoomForAll (ws.map Prod.fst)) :
    ∃ k ∈ ws.map Prod.fst, (p.insertAll ws).lookup k = none := by
  induction ws generalizing p with
  | nil => exact absurd (Nat.zero_le _) hroom
  | cons first ws ih =>
    obtain ⟨hfirst, hnodup⟩ := nodup_cons.mp hnodup
    have hp' := hp.insert first.1 first.2
    by_cases hhas : p.HasRoom first.1
    · obtain ⟨k, hk, hnone⟩ := ih hp' hnodup
        (fun h => hroom ((roomForAll_cons hp hhas first.2 hfirst).mpr h))
      exact ⟨k, mem_cons_of_mem _ hk, hnone⟩
    · -- the key is refused, and no later insertion is under it
      obtain ⟨hsame, hnone⟩ := insert_of_not_hasRoom hhas first.2
      refine ⟨first.1, mem_cons_self, ?_⟩
      refine (lookup_insertAll_of_not_mem hp' hfirst).trans ?_
      rw [hsame, hnone]

end WorkflowContextPool

/-! ### Engine and scheduler -/

structure CronEngine where
  engine : WorkflowEngine
  cronScheduler : CronScheduler

namespace CronFireEvent

def key (fire : CronFireEvent) : UInt64 :=
  WorkflowEngine.workflowKey fire.namespaceId fire.workflowTypeId

def context (fire : CronFireEvent) (runId : UInt64) (now : Nat) : WorkflowContext :=
  WorkflowEngine.startContext fire.workflowTypeId runId fire.workflowTypeId fire.namespaceId
    fire.taskQueueHash fire.totalSteps none now

end CronFireEvent

namespace WorkflowEngine

def startFires (e : WorkflowEngine) : List CronFireEvent → List UInt64 × WorkflowEngine
  | [] => ([], e)
  | fire :: fires =>
    -- "Use type_id as workflow_id for cron"
    let (key, e) := e.startWorkflow fire.workflowTypeId fire.workflowTypeId fire.namespaceId
      fire.taskQueueHash fire.totalSteps none
    let (startedKeys, e) := e.startFires fires
    (key :: startedKeys, e)

def cronWrites (now : Nat) : UInt64 → List CronFireEvent → List (UInt64 × WorkflowContext)
  | _, [] => []
  | runId, fire :: fires => (fire.key, fire.context runId now) :: cronWrites now (runId + 1) fires

theorem map_fst_cronWrites (now : Nat) (runId : UInt64) (fires : List CronFireEvent) :
    (cronWrites now runId fires).map Prod.fst = fires.map (·.key) := by
  induction fires generalizing runId with
  | nil => rfl
  | cons fire fires ih => rw [cronWrites, map_cons, map_cons, ih]

theorem status_of_mem_cronWrites {now : Nat} {runId : UInt64} {fires : List CronFireEvent}
    {w : UInt64 × WorkflowContext} (hw : w ∈ cronWrites now runId fires) :
    w.2.status = .running := by
  induction fires generalizing runId with
  | nil => cases hw
  | cons fire fires ih =>
    rcases mem_cons.mp hw with rfl | hw
    · rfl
    · exact ih hw

theorem fst_startFires (e : WorkflowEngine) (fires : List CronFireEvent) :
    (e.startFires fires).1 = fires.map (·.key) := by
  induction fires generalizing e with
  | nil => rfl
  | cons fire fires ih =>
    show _ :: (startFires _ fires).1 = _
    rw [ih]
    rfl

theorem workflows_startFires (e : WorkflowEngine) (fires : List CronFireEvent) :
    (e.startFires fires).2.workflows
      = e.workflows.insertAll (cronWrites e.now e.nextRunId fires) := by
  induction fires generalizing e with
  | nil => rfl
  | cons fire fires ih =>
    -- the first start takes the head of the list
    show (startFires _ fires).2.workflows = _
    rw [ih]
    rfl

end WorkflowEngine

namespace CronEngine

variable (s : CronEngine) (minute : UInt64)

def processCronFires (currentTimeMinutes : UInt64) : List UInt64 × CronEngine :=
  let (fires, cronScheduler) := s.cronScheduler.advanceTo currentTimeMinutes
  let (startedKeys, engine) := s.engine.startFires fires
  (startedKeys, ⟨engine, cronScheduler⟩)

def fires (currentTimeMinutes : UInt64) : List CronFireEvent :=
  (s.cronScheduler.advanceTo currentTimeMinutes).1

def writes (currentTimeMinutes : UInt64) : List (UInt64 × WorkflowContext) :=
  WorkflowEngine.cronWrites s.engine.now s.engine.nextRunId (s.fires currentTimeMinutes)

/-- Running workflows stay, and each event has a running one of its own. -/
def FiresSafely (currentTimeMinutes : UInt64) : Prop :=
  let answer := s.processCronFires currentTimeMinutes
  (∀ k ctx, s.engine.workflows.lookup k = some ctx → ctx.status = .running →
    answer.2.engine.workflows.lookup k = some ctx)
  ∧ answer.1.Nodup
  ∧ ∀ key ∈ answer.1, answer.2.engine.getStatus key = .running

/-- The due keys are different, idle and have room. -/
def SafeToFire (currentTimeMinutes : UInt64) : Prop :=
  ((s.fires currentTimeMinutes).map (·.key)).Nodup
  ∧ (∀ w ∈ s.writes currentTimeMinutes, ∀ ctx, s.engine.workflows.lookup w.1 = some ctx →
    ctx.status = .running → ctx = w.2)
  ∧ s.engine.workflows.RoomForAll ((s.fires currentTimeMinutes).map (·.key))

/-! ### One call -/

theorem map_fst_writes : (s.writes minute).map Prod.fst = (s.fires minute).map (·.key) :=
  WorkflowEngine.map_fst_cronWrites _ _ _

theorem fst_processCronFires : (s.processCronFires minute).1 = (s.fires minute).map (·.key) :=
  WorkflowEngine.fst_startFires _ _

theorem workflows_processCronFires : (s.processCronFires minute).2.engine.workflows
      = s.engine.workflows.insertAll (s.writes minute) :=
  WorkflowEngine.workflows_startFires _ _

variable {s}

theorem wellFormed_processCronFires (hs : s.engine.workflows.WellFormed)
    (minute : UInt64) : (s.processCronFires minute).2.engine.workflows.WellFormed := by
  rw [workflows_processCronFires]
  exact hs.insertAll _

theorem SafeToFire.lookup_writes {minute : UInt64} (h : s.SafeToFire minute)
    (hs : s.engine.workflows.WellFormed) {w : UInt64 × WorkflowContext} (hw : w ∈ s.writes minute) :
    (s.processCronFires minute).2.engine.workflows.lookup w.1 = some w.2 := by
  rw [workflows_processCronFires]
  exact lookup_insertAll hs (by rw [map_fst_writes]; exact h.1)
    (by rw [map_fst_writes]; exact h.2.2) hw

theorem firesSafely_iff (hs : s.engine.workflows.WellFormed) (minute : UInt64) :
    s.FiresSafely minute ↔ s.SafeToFire minute := by
  constructor
  · rintro ⟨hframe, hnodup, hrunning⟩
    rw [fst_processCronFires] at hnodup hrunning
    -- an event without a slot has no workflow in the end
    have hroom : s.engine.workflows.RoomForAll ((s.fires minute).map (·.key)) := by
      by_contra hfull
      rw [← map_fst_writes] at hnodup hrunning hfull
      obtain ⟨k, hk, hnone⟩ := exists_lookup_eq_none hs hnodup hfull
      rw [← workflows_processCronFires] at hnone
      have hvoid := hrunning k hk
      rw [getStatus_of_none hnone] at hvoid
      cases hvoid
    refine ⟨hnodup, fun w hw ctx hctx hstatus => ?_, hroom⟩
    -- unchanged, and overwritten
    have hkept := hframe w.1 ctx hctx hstatus
    rw [workflows_processCronFires] at hkept
    rw [← map_fst_writes] at hnodup hroom
    rw [lookup_insertAll hs hnodup hroom hw] at hkept
    exact (Option.some.inj hkept).symm
  · intro h
    refine ⟨fun k ctx hctx hstatus => ?_, ?_, fun key hkey => ?_⟩
    · by_cases hk : k ∈ (s.writes minute).map Prod.fst
      · obtain ⟨w, hw, rfl⟩ := mem_map.mp hk
        rw [h.lookup_writes hs hw, h.2.1 w hw ctx hctx hstatus]
      · rw [workflows_processCronFires]
        exact (lookup_insertAll_of_not_mem hs hk).trans hctx
    · rw [fst_processCronFires]
      exact h.1
    · rw [fst_processCronFires, ← map_fst_writes] at hkey
      obtain ⟨w, hw, rfl⟩ := mem_map.mp hkey
      rw [getStatus_of_some (h.lookup_writes hs hw)]
      exact WorkflowEngine.status_of_mem_cronWrites hw

/-! ### Whole runs -/

/-- A call of the scheduler, of another caller, or `process_cron_fires`. -/
inductive Call where
  | schedule (call : CronScheduler.Call)
  | engine (op : EngineOp)
  | processCronFires (currentTimeMinutes : UInt64)

section Runs

variable [Sha256]

def step (s : CronEngine) : Call → CronEngine
  | .schedule call => { s with cronScheduler := s.cronScheduler.step call }
  | .engine op => { s with engine := s.engine.step op }
  | .processCronFires currentTimeMinutes => (s.processCronFires currentTimeMinutes).2

/-- A fire starts its workflows and replaces no running one. -/
def CallFiresSafely (s : CronEngine) : Call → Prop
  | .processCronFires currentTimeMinutes => s.FiresSafely currentTimeMinutes
  | _ => True

/-- The condition of `SafeToFire`, at the calls that fire. -/
def CallSafeToFire (s : CronEngine) : Call → Prop
  | .processCronFires currentTimeMinutes => s.SafeToFire currentTimeMinutes
  | _ => True

/-- The condition of `PurgesSafely`, at the engine's own calls. -/
def CallPurgesSafely (s : CronEngine) : Call → Prop
  | .engine op => s.engine.PurgesSafely op
  | _ => True

theorem wellFormed_pool_call {s : CronEngine} (hs : s.engine.workflows.WellFormed) {call : Call}
    (hcall : s.CallPurgesSafely call) : (s.step call).engine.workflows.WellFormed := by
  cases call with
  | schedule call => exact hs
  | engine op => exact wellFormed_step hs hcall
  | processCronFires minute => exact wellFormed_processCronFires hs minute

/-- **Cron fires** leave running workflows alone iff each finds the state safe to fire. -/
theorem fires_safely_iff {s : CronEngine} (hs : s.engine.workflows.WellFormed)
    {calls : List Call} (hcalls : StepsMeet step CallPurgesSafely s calls) :
    StepsMeet step CallFiresSafely s calls ↔ StepsMeet step CallSafeToFire s calls := by
  refine stepsMeet_iff_stepsMeet (I := fun s => s.engine.workflows.WellFormed)
    (fun s call hs hcall _ => wellFormed_pool_call hs hcall) (fun s call hs _ => ?_) hs hcalls
  cases call with
  | schedule call | engine op => exact Iff.rfl
  | processCronFires minute => exact firesSafely_iff hs minute

end Runs

/-! ### Firing twice -/

def everyMinute : CronExpression where
  minutes := (List.range 60).map UInt8.ofNat
  hours := (List.range 24).map UInt8.ofNat
  daysOfMonth := (List.range' 1 31).map UInt8.ofNat
  months := (List.range' 1 12).map UInt8.ofNat
  daysOfWeek := (List.range 7).map UInt8.ofNat

def oneSchedule : CronEngine where
  engine := WorkflowEngine.new none .strict 0
  cronScheduler := (CronScheduler.new.registerExpr everyMinute 7 0 3 1 0).2

def firedOnce : CronEngine := (oneSchedule.processCronFires 1).2

theorem fires_oneSchedule : oneSchedule.fires 1 = [⟨1, 7, 0, 3, 1, 1⟩] := by decide +kernel

theorem fires_firedOnce : firedOnce.fires 2 = [⟨1, 7, 0, 3, 1, 2⟩] := by
  show ((oneSchedule.cronScheduler.advanceTo 1).2.advanceTo 2).1 = _
  decide +kernel

theorem safeToFire_oneSchedule : oneSchedule.SafeToFire 1 := by
  refine ⟨?_, fun w _ ctx hctx => ?_, ?_⟩
  · rw [fires_oneSchedule]
    exact nodup_singleton _
  · cases hctx
  · rw [fires_oneSchedule]
    calc oneSchedule.engine.workflows.missing [7]
        ≤ 1 := countP_le_length
      _ ≤ workflowPoolCapacity := workflowPoolCapacity_pos
      _ = oneSchedule.engine.workflows.available := List.length_finRange.symm

theorem lookup_firedOnce :
    firedOnce.engine.workflows.lookup 7 = some (CronFireEvent.context ⟨1, 7, 0, 3, 1, 1⟩ 1 0) := by
  refine safeToFire_oneSchedule.lookup_writes wellFormed_new
    (w := (7, CronFireEvent.context ⟨1, 7, 0, 3, 1, 1⟩ 1 0)) ?_
  rw [writes, fires_oneSchedule]
  exact mem_singleton_self _

/-- The workflow of the first fire, completed before the second. -/
def closedOnce : CronEngine := firedOnce.step (.engine (.completeWorkflow 7 none))

theorem lookup_closedOnce : closedOnce.engine.workflows.lookup 7
    = some ((CronFireEvent.context ⟨1, 7, 0, 3, 1, 1⟩ 1 0).complete 0 none) := by
  have hmodify : closedOnce.engine.workflows
      = firedOnce.engine.workflows.modify 7 (·.complete firedOnce.engine.now none) := rfl
  rw [hmodify, lookup_modify, if_pos rfl, lookup_firedOnce]
  rfl

theorem safeToFire_closedOnce : closedOnce.SafeToFire 2 := by
  have hfires : closedOnce.fires 2 = [⟨1, 7, 0, 3, 1, 2⟩] := fires_firedOnce
  refine ⟨?_, fun w hw ctx hctx hrunning => ?_, ?_⟩
  · rw [hfires]
    exact nodup_singleton _
  · have hkey : w.1 ∈ [7] := by
      have hmem := mem_map_of_mem (f := Prod.fst) hw
      rwa [map_fst_writes, hfires] at hmem
    rw [mem_singleton.mp hkey, lookup_closedOnce] at hctx
    cases hctx
    cases hrunning
  · have hnone : closedOnce.engine.workflows.missing [7] = 0 := by
      simp [missing, lookup_closedOnce]
    rw [hfires]
    exact hnone.trans_le (Nat.zero_le _)

theorem fires_safely_completed : StepsMeet step CallFiresSafely oneSchedule
    [.processCronFires 1, .engine (.completeWorkflow 7 none), .processCronFires 2] := by
  have hpurges : StepsMeet step CallPurgesSafely oneSchedule
      [.processCronFires 1, .engine (.completeWorkflow 7 none), .processCronFires 2] :=
    ⟨trivial, trivial, trivial, trivial⟩
  exact (fires_safely_iff wellFormed_new hpurges).mpr
    ⟨safeToFire_oneSchedule, trivial, safeToFire_closedOnce, trivial⟩

theorem writes_firedOnce :
    firedOnce.writes 2 = [(7, CronFireEvent.context ⟨1, 7, 0, 3, 1, 2⟩ 2 0)] := by
  have hengine : firedOnce.engine
      = (oneSchedule.engine.startFires [⟨1, 7, 0, 3, 1, 1⟩]).2 := by
    rw [← fires_oneSchedule]
    rfl
  rw [writes, fires_firedOnce, hengine]
  rfl

theorem second_fire_replaces_run :
    firedOnce.engine.getStatus 7 = .running
    ∧ (firedOnce.engine.workflows.lookup 7).map (·.runId) = some 1
    ∧ (firedOnce.processCronFires 2).1 = [7]
    ∧ ((firedOnce.processCronFires 2).2.engine.workflows.lookup 7).map (·.runId) = some 2 := by
  have hafter : (firedOnce.processCronFires 2).2.engine.workflows.lookup 7
      = some (CronFireEvent.context ⟨1, 7, 0, 3, 1, 2⟩ 2 0) := by
    rw [workflows_processCronFires, writes_firedOnce]
    refine lookup_insert_self (.inl ?_) _
    by_contra hnone
    have hfound := lookup_firedOnce
    rw [WorkflowContextPool.lookup, Option.not_isSome_iff_eq_none.mp hnone] at hfound
    cases hfound
  refine ⟨getStatus_of_some lookup_firedOnce, ?_, ?_, ?_⟩
  · rw [lookup_firedOnce]
    rfl
  · rw [fst_processCronFires, fires_firedOnce]
    rfl
  · rw [hafter]
    rfl

end CronEngine

end Velocity
