import Velocity.Engine.State
import Velocity.Lib.Keyed
import Velocity.Services.Timers

namespace Velocity

open Lib List WorkflowContextPool

/-!
# Activities and their retries

The name of an activity is kept nowhere after its first dispatch. Times are nanoseconds.
-/

/-! ### Policies and timeouts -/

/-- `backoffMs` is the floating-point product, cast to `u64`. -/
structure ActivityRetryPolicy where
  maxAttempts : UInt32
  backoffMs : UInt32 → UInt64
  maxInterval : Option Nat

def fromMillis (ms : UInt64) : Nat := ms.toNat * 1000000

def ActivityRetryPolicy.calculateDelay (policy : ActivityRetryPolicy) (attempt : UInt32) : Nat :=
  let delay := fromMillis (policy.backoffMs attempt)
  match policy.maxInterval with
  | some max => min delay max
  | none => delay

structure ActivityTimeouts where
  scheduleToStart : Option Nat
  startToClose : Option Nat
  scheduleToClose : Option Nat
  heartbeatTimeout : Option Nat
  scheduledAt : Nat
  startedAt : Option Nat
  retryPolicy : Option ActivityRetryPolicy
  attempt : UInt32

def ActivityTimeouts.new (scheduleToStart startToClose scheduleToClose heartbeatTimeout : Option Nat)
    (now : Nat) : ActivityTimeouts where
  scheduleToStart := scheduleToStart
  startToClose := startToClose
  scheduleToClose := scheduleToClose
  heartbeatTimeout := heartbeatTimeout
  scheduledAt := now
  startedAt := none
  retryPolicy := none
  attempt := 1

def ActivityTimeouts.withRetryPolicy (timeouts : ActivityTimeouts) (policy : ActivityRetryPolicy) :
    ActivityTimeouts :=
  { timeouts with retryPolicy := some policy }

/-! ### Contexts -/

structure ActivityContext where
  taskQueueHash : UInt64
  activityTimeouts : SlotMap ActivityTimeouts
  activityInputs : SlotMap Bytes

structure Retry where
  taskQueueHash : UInt64
  attempt : UInt32
  delay : Nat
  deriving DecidableEq, Repr

def Retry.isShort (retry : Retry) : Bool := retry.delay / 1000000 < 10

namespace ActivityContext

def new (taskQueueHash : UInt64) : ActivityContext :=
  ⟨taskQueueHash, SlotMap.withCapacity 16, SlotMap.withCapacity 16⟩

variable (ctx : ActivityContext)

def storeActivity (step : UInt32) (args : Bytes) (timeouts : ActivityTimeouts) : ActivityContext :=
  { ctx with
    activityTimeouts := ctx.activityTimeouts.insert step.toUInt64 timeouts
    activityInputs :=
      if args.isEmpty then ctx.activityInputs else ctx.activityInputs.insert step.toUInt64 args }

def setRetryPolicy (step : UInt32) (policy : ActivityRetryPolicy) : ActivityContext :=
  match ctx.activityTimeouts.get step.toUInt64 with
  | none => ctx
  | some timeouts =>
    { ctx with
      activityTimeouts :=
        ctx.activityTimeouts.insert step.toUInt64 (timeouts.withRetryPolicy policy) }

def attempt (ctx : ActivityContext) (step : UInt32) : Option UInt32 :=
  (ctx.activityTimeouts.get step.toUInt64).map (·.attempt)

def nextRetry (step : UInt32) : Option Retry × ActivityContext :=
  match ctx.activityTimeouts.get step.toUInt64 with
  | none => (none, ctx)
  | some timeouts =>
    match timeouts.retryPolicy with
    | none => (none, ctx)
    | some policy =>
      if timeouts.attempt < policy.maxAttempts then
        let attempt := timeouts.attempt + 1
        (some ⟨ctx.taskQueueHash, attempt, policy.calculateDelay attempt⟩,
          -- `get_mut` writes to the slot in which it found the key
          { ctx with
            activityTimeouts :=
              ctx.activityTimeouts.insert step.toUInt64 { timeouts with attempt := attempt } })
      else (none, ctx)

end ActivityContext

/-! ### The engine -/

/-- `retried`, a history variable: the tasks enqueued by retries. -/
structure ActivityEngine where
  workflows : WorkflowContextPool ActivityContext
  taskQueue : TaskQueue
  pendingRetries : AList fun _ : UInt64 => List (UInt32 × UInt64)
  timerEngine : TimerEngine
  now : Nat
  retried : List TaskItem

namespace ActivityEngine

def new : ActivityEngine := ⟨WorkflowContextPool.new, TaskQueue.new, ∅, TimerEngine.new, 0, []⟩

/-- What a start does to activities: a context under the key is replaced by a blank one. -/
def startWorkflow (e : ActivityEngine) (key taskQueueHash : UInt64) : ActivityEngine :=
  { e with
    taskQueue := e.taskQueue.enqueue taskQueueHash
      (WorkflowEngine.newTask .workflowTask key taskQueueHash 0 0)
    workflows := (e.workflows.insert key (ActivityContext.new taskQueueHash)).2 }

def activityTask (key taskQueueHash : UInt64) (step : UInt32) (activityNameId : UInt64)
    (attempt : UInt32) : TaskItem :=
  { WorkflowEngine.newTask .activityTask key taskQueueHash step activityNameId with
    attempt := attempt }

def timeoutOf (ms : UInt64) : Option Nat := if ms > 0 then some (fromMillis ms) else none

def scheduleActivityWithTimeouts (e : ActivityEngine) (key : UInt64) (step : UInt32)
    (activityNameId : UInt64) (args : Bytes)
    (scheduleToStartMs startToCloseMs scheduleToCloseMs heartbeatMs : UInt64) : ActivityEngine :=
  let timeouts := ActivityTimeouts.new (timeoutOf scheduleToStartMs) (timeoutOf startToCloseMs)
    (timeoutOf scheduleToCloseMs) (timeoutOf heartbeatMs) e.now
  let (taskQueueHash, workflows) := e.workflows.withMut key none
    (fun ctx => (some ctx.taskQueueHash, ctx.storeActivity step args timeouts))
  match taskQueueHash with
  | none => { e with workflows := workflows }
  | some hash =>
    { e with
      workflows := workflows
      taskQueue := e.taskQueue.enqueue hash (activityTask key hash step activityNameId 1) }

/-- The engine has no such function; `ActivityTimeouts` has the builder. -/
def setRetryPolicy (e : ActivityEngine) (key : UInt64) (step : UInt32)
    (policy : ActivityRetryPolicy) : ActivityEngine :=
  { e with workflows := e.workflows.modify key (·.setRetryPolicy step policy) }

def scheduleWithPolicy (e : ActivityEngine) (key : UInt64) (step : UInt32)
    (activityNameId : UInt64) (args : Bytes)
    (scheduleToStartMs startToCloseMs scheduleToCloseMs heartbeatMs : UInt64)
    (policy : ActivityRetryPolicy) : ActivityEngine :=
  (e.scheduleActivityWithTimeouts key step activityNameId args scheduleToStartMs startToCloseMs
    scheduleToCloseMs heartbeatMs).setRetryPolicy key step policy

def enqueueRetry (e : ActivityEngine) (task : TaskItem) : ActivityEngine :=
  { e with
    taskQueue := e.taskQueue.enqueue task.taskQueueHash task
    retried := e.retried ++ [task] }

def postpone (e : ActivityEngine) (key : UInt64) (step : UInt32) (retry : Retry) :
    ActivityEngine :=
  let pending := (e.pendingRetries.lookup key).getD []
  { e with
    pendingRetries := e.pendingRetries.insert key (pending ++ [(step, retry.taskQueueHash)])
    timerEngine := (e.timerEngine.schedule key retry.delay e.now).2 }

def failActivityWithRetry (e : ActivityEngine) (key : UInt64) (step : UInt32) :
    Bool × ActivityEngine :=
  let (retry, workflows) := e.workflows.withMut key none (·.nextRetry step)
  let e := { e with workflows := workflows }
  match retry with
  | none => (false, e)
  | some retry =>
    if retry.isShort then
      -- no name to give: the context does not hold one
      (true, e.enqueueRetry (activityTask key retry.taskQueueHash step 0 retry.attempt))
    else (true, e.postpone key step retry)

def pendingTask (e : ActivityEngine) (key : UInt64) (entry : UInt32 × UInt64) : TaskItem :=
  let attempt := e.workflows.withCtx key (fun c => (c.bind (·.attempt entry.1)).getD 1)
  activityTask key entry.2 entry.1 0 attempt

def processFiredTimer (e : ActivityEngine) (key : UInt64) : ActivityEngine :=
  let entries := (e.pendingRetries.lookup key).getD []
  let e := { e with pendingRetries := e.pendingRetries.erase key }
  entries.foldl (fun e entry => e.enqueueRetry (e.pendingTask key entry)) e

/-! ### Runs -/

inductive ActivityCall where
  | start (key taskQueueHash : UInt64)
  | schedule (key : UInt64) (step : UInt32) (activityNameId : UInt64) (args : Bytes)
      (scheduleToStartMs startToCloseMs scheduleToCloseMs heartbeatMs : UInt64)
  | fail (key : UInt64) (step : UInt32)
  | fired (key : UInt64)
  | tick (now : Nat)
  deriving DecidableEq, Repr

def step (e : ActivityEngine) : ActivityCall → ActivityEngine
  | .start key taskQueueHash => e.startWorkflow key taskQueueHash
  | .schedule key step activityNameId args toStart startToClose toClose heartbeat =>
    e.scheduleActivityWithTimeouts key step activityNameId args toStart startToClose toClose
      heartbeat
  | .fail key step => (e.failActivityWithRetry key step).2
  | .fired key => e.processFiredTimer key
  | .tick now => { e with now := now }

def run (e : ActivityEngine) (calls : List ActivityCall) : ActivityEngine := calls.foldl step e

def nextRetry (e : ActivityEngine) (key : UInt64) (step : UInt32) : Option Retry :=
  (e.workflows.lookup key).bind (fun ctx => (ctx.nextRetry step).1)

def retries (e : ActivityEngine) : ActivityCall → List TaskItem
  | .fail key step =>
    ((e.nextRetry key step).filter Retry.isShort).toList.map
      (fun retry => activityTask key retry.taskQueueHash step 0 retry.attempt)
  | .fired key => ((e.pendingRetries.lookup key).getD []).map (e.pendingTask key)
  | _ => []

def retriedBy : ActivityEngine → List ActivityCall → List TaskItem
  | _, [] => []
  | e, call :: calls => e.retries call ++ retriedBy (e.step call) calls

variable (e : ActivityEngine)

variable (key : UInt64) (call : ActivityCall)

theorem withMut_nextRetry (step : UInt32) :
    (e.workflows.withMut key none (·.nextRetry step)).1 = e.nextRetry key step := by
  rw [withMut_fst, nextRetry]
  cases e.workflows.lookup key with
  | none | some ctx => rfl

theorem retried_failActivityWithRetry (step : UInt32) :
    (e.failActivityWithRetry key step).2.retried = e.retried ++ e.retries (.fail key step) := by
  simp only [failActivityWithRetry, retries, withMut_nextRetry]
  cases e.nextRetry key step with
  | none => simp
  | some retry =>
    cases hshort : retry.isShort with
    | false => simp [hshort, postpone]
    | true => simp [hshort, enqueueRetry, Option.filter_some]

theorem retried_foldl_enqueueRetry (entries : List (UInt32 × UInt64)) : ∀ e : ActivityEngine,
      (entries.foldl (fun e entry => e.enqueueRetry (e.pendingTask key entry)) e).retried
        = e.retried ++ entries.map (e.pendingTask key) := by
  induction entries with
  | nil => simp
  | cons entry entries ih =>
    intro e
    have htask : (e.enqueueRetry (e.pendingTask key entry)).pendingTask key = e.pendingTask key :=
      rfl
    rw [foldl_cons, ih, htask, enqueueRetry, map_cons, append_assoc,
      singleton_append]

theorem retried_processFiredTimer :
    (e.processFiredTimer key).retried = e.retried ++ e.retries (.fired key) := by
  rw [processFiredTimer, retried_foldl_enqueueRetry]
  rfl

theorem retried_scheduleActivityWithTimeouts (step : UInt32)
    (activityNameId : UInt64) (args : Bytes) (toStart startToClose toClose heartbeat : UInt64) :
    (e.scheduleActivityWithTimeouts key step activityNameId args toStart startToClose toClose
      heartbeat).retried = e.retried := by
  rw [scheduleActivityWithTimeouts]
  dsimp only
  split <;> rfl

theorem retried_step : (e.step call).retried = e.retried ++ e.retries call := by
  cases call with
  | start key taskQueueHash | tick now => exact (append_nil _).symm
  | schedule key step activityNameId args toStart startToClose toClose heartbeat =>
    show (e.scheduleActivityWithTimeouts key step activityNameId args toStart startToClose toClose
      heartbeat).retried = e.retried ++ []
    rw [retried_scheduleActivityWithTimeouts, append_nil]
  | fail key step => exact e.retried_failActivityWithRetry key step
  | fired key => exact e.retried_processFiredTimer key

variable (calls : List ActivityCall)

theorem retried_run (e : ActivityEngine) :
    (e.run calls).retried = e.retried ++ e.retriedBy calls := by
  induction calls generalizing e with
  | nil => exact (append_nil _).symm
  | cons call calls ih =>
    show ((e.step call).run calls).retried = _
    rw [ih, retried_step, retriedBy, append_assoc]

/-! ### Names -/

theorem activityNameId_retries : ∀ task ∈ e.retries call, task.activityNameId = 0 := by
  intro task htask
  cases call with
  | start key taskQueueHash
  | schedule key step activityNameId args toStart startToClose toClose heartbeat => cases htask
  | fail key step =>
    obtain ⟨retry, _, rfl⟩ := mem_map.mp htask
    rfl
  | fired key =>
    obtain ⟨entry, _, rfl⟩ := mem_map.mp htask
    rfl
  | tick now => cases htask

theorem activityNameId_retriedBy (e : ActivityEngine) :
    ∀ task ∈ e.retriedBy calls, task.activityNameId = 0 := by
  induction calls generalizing e with
  | nil => intro task htask; cases htask
  | cons call calls ih =>
    intro task htask
    rcases mem_append.mp htask with htask | htask
    · exact e.activityNameId_retries call task htask
    · exact ih (e.step call) task htask

def IsTaskOf (key : UInt64) (step : UInt32) (task : TaskItem) : Prop :=
  task.workflowKey = key ∧ task.stepIndex = step

/-- The call enqueues `(key, step)` again. -/
def RetryDue (key : UInt64) (step : UInt32) (e : ActivityEngine) : ActivityCall → Prop
  | .fail k s => k = key ∧ s = step ∧ ∃ retry, e.nextRetry key step = some retry ∧ retry.isShort
  | .fired k => k = key ∧ ∃ entry ∈ (e.pendingRetries.lookup key).getD [], entry.1 = step
  | _ => False

theorem exists_retries_iff (step : UInt32) (call : ActivityCall) :
    (∃ task ∈ e.retries call, IsTaskOf key step task) ↔ RetryDue key step e call := by
  cases call with
  | fail k s =>
    constructor
    · rintro ⟨task, htask, rfl, rfl⟩
      obtain ⟨retry, hretry, rfl⟩ := mem_map.mp htask
      exact ⟨rfl, rfl, retry, Option.filter_eq_some_iff.mp (Option.mem_toList.mp hretry)⟩
    · rintro ⟨rfl, rfl, retry, hretry⟩
      have hmem : retry ∈ ((e.nextRetry k s).filter Retry.isShort).toList :=
        Option.mem_toList.mpr (Option.filter_eq_some_iff.mpr hretry)
      exact ⟨_, mem_map_of_mem hmem, rfl, rfl⟩
  | fired k =>
    constructor
    · rintro ⟨task, htask, rfl, rfl⟩
      obtain ⟨entry, hentry, rfl⟩ := mem_map.mp htask
      exact ⟨rfl, entry, hentry, rfl⟩
    · rintro ⟨rfl, entry, hentry, rfl⟩
      exact ⟨_, mem_map_of_mem hentry, rfl, rfl⟩
  | _ => simp [retries, RetryDue]

theorem stepsMeet_not_retryDue_iff (stepIndex : UInt32) (calls : List ActivityCall)
    (e : ActivityEngine) :
    StepsMeet step (fun e call => ¬ RetryDue key stepIndex e call) e calls
      ↔ ∀ task ∈ e.retriedBy calls, ¬ IsTaskOf key stepIndex task := by
  induction calls generalizing e with
  | nil => exact ⟨fun _ _ htask => (by cases htask), fun _ => trivial⟩
  | cons call calls ih =>
    rw [stepsMeet_cons, ih, ← exists_retries_iff, retriedBy, forall_mem_append]
    simp only [not_exists, not_and]

/-- The tasks queued again for the step carry the activity's name. -/
def RetriesKeepName (e : ActivityEngine) (key : UInt64) (step : UInt32) (activityNameId : UInt64)
    (calls : List ActivityCall) : Prop :=
  ∀ task ∈ (e.run calls).retried.drop e.retried.length,
    IsTaskOf key step task → task.activityNameId = activityNameId

instance (e : ActivityEngine) (key : UInt64) (step : UInt32) (activityNameId : UInt64)
    (calls : List ActivityCall) : Decidable (e.RetriesKeepName key step activityNameId calls) :=
  inferInstanceAs (Decidable (∀ task ∈ (e.run calls).retried.drop e.retried.length, _ ∧ _ → _))

/-- **Retries carry the name** iff it is `0` or no retry falls due. -/
theorem retriesKeepName_iff (e : ActivityEngine) (key : UInt64) (stepIndex : UInt32)
    (activityNameId : UInt64) (args : Bytes) (toStart startToClose toClose heartbeat : UInt64)
    (policy : ActivityRetryPolicy) (calls : List ActivityCall) :
    (e.scheduleWithPolicy key stepIndex activityNameId args toStart startToClose toClose heartbeat
        policy).RetriesKeepName key stepIndex activityNameId calls
      ↔ activityNameId = 0
        ∨ StepsMeet step (fun e call => ¬ RetryDue key stepIndex e call)
          (e.scheduleWithPolicy key stepIndex activityNameId args toStart startToClose toClose
            heartbeat policy) calls := by
  generalize e.scheduleWithPolicy key stepIndex activityNameId args toStart startToClose toClose
    heartbeat policy = e
  rw [stepsMeet_not_retryDue_iff, RetriesKeepName, retried_run, drop_left]
  constructor
  · intro hkeep
    by_cases hname : activityNameId = 0
    · exact Or.inl hname
    · right
      intro task htask hof
      exact hname (by rw [← hkeep task htask hof, e.activityNameId_retriedBy calls task htask])
  · rintro (rfl | hnone) task htask hof
    · exact e.activityNameId_retriedBy calls task htask
    · exact absurd hof (hnone task htask)

theorem not_retriesKeepName :
    ¬ ((new.startWorkflow 1 7).scheduleWithPolicy 1 0 42 [] 0 0 0 0
        ⟨3, fun _ => 0, none⟩).RetriesKeepName 1 0 42 [.fail 1 0]
      ∧ ¬ ((new.startWorkflow 1 7).scheduleWithPolicy 1 0 42 [] 0 0 0 0
        ⟨3, fun _ => 1000, none⟩).RetriesKeepName 1 0 42 [.fail 1 0, .fired 1] := by
  decide +kernel

/-! ### Without a policy -/

def HasNoPolicy (ctx : ActivityContext) : Prop :=
  ∀ key timeouts, ctx.activityTimeouts.get key = some timeouts → timeouts.retryPolicy = none

theorem hasNoPolicy_new (taskQueueHash : UInt64) :
    HasNoPolicy (ActivityContext.new taskQueueHash) := by
  intro key timeouts hget
  rw [ActivityContext.new, SlotMap.get_withCapacity] at hget
  cases hget

theorem HasNoPolicy.storeActivity {ctx : ActivityContext} (h : HasNoPolicy ctx) (step : UInt32)
    (args : Bytes) {timeouts : ActivityTimeouts} (htimeouts : timeouts.retryPolicy = none) :
    HasNoPolicy (ctx.storeActivity step args timeouts) := by
  intro key stored hget
  rw [ActivityContext.storeActivity, SlotMap.get_insert] at hget
  split at hget
  · rw [← Option.some.inj hget, htimeouts]
  · exact h key stored hget

theorem HasNoPolicy.nextRetry {ctx : ActivityContext} (h : HasNoPolicy ctx) (step : UInt32) :
    ctx.nextRetry step = (none, ctx) := by
  rw [ActivityContext.nextRetry]
  cases hget : ctx.activityTimeouts.get step.toUInt64 with
  | none => rfl
  | some timeouts => simp only [h _ timeouts hget]

structure Unretried (e : ActivityEngine) : Prop where
  policies : e.workflows.All HasNoPolicy
  pending : ∀ key, e.pendingRetries.lookup key = none
  retried : e.retried = []

theorem Unretried.nextRetry {e : ActivityEngine} (h : e.Unretried) (key : UInt64) (step : UInt32) :
    e.nextRetry key step = none := by
  rw [ActivityEngine.nextRetry]
  cases hctx : e.workflows.lookup key with
  | none => rfl
  | some ctx => rw [Option.bind_some, (h.policies.lookup hctx).nextRetry]

theorem Unretried.fail {e : ActivityEngine} (h : e.Unretried) (key : UInt64) (step : UInt32) :
    (e.failActivityWithRetry key step).1 = false
      ∧ (e.failActivityWithRetry key step).2.Unretried := by
  have hretry := e.withMut_nextRetry key step
  rw [h.nextRetry] at hretry
  simp only [failActivityWithRetry, hretry]
  refine ⟨trivial, ?_, h.pending, h.retried⟩
  rw [withMut_snd]
  exact h.policies.modify (fun ctx _ hctx => by rw [hctx.nextRetry]; exact hctx)

theorem Unretried.step {e : ActivityEngine} (h : e.Unretried) (call : ActivityCall) :
    (e.step call).Unretried := by
  cases call with
  | start key taskQueueHash =>
    exact ⟨h.policies.insert key (hasNoPolicy_new taskQueueHash), h.pending, h.retried⟩
  | schedule key stepIndex activityNameId args toStart startToClose toClose heartbeat =>
    have hstored : ∀ {timeouts : ActivityTimeouts}, timeouts.retryPolicy = none →
        (e.workflows.withMut key none (fun ctx =>
          (some ctx.taskQueueHash, ctx.storeActivity stepIndex args timeouts))).2.All
          HasNoPolicy := by
      intro timeouts htimeouts
      rw [withMut_snd]
      exact h.policies.modify (fun ctx _ hctx => hctx.storeActivity stepIndex args htimeouts)
    simp only [ActivityEngine.step, scheduleActivityWithTimeouts]
    split
    · exact ⟨hstored rfl, h.pending, h.retried⟩
    · exact ⟨hstored rfl, h.pending, h.retried⟩
  | fail key stepIndex => exact (h.fail key stepIndex).2
  | fired key =>
    -- nothing is pending, so nothing is removed
    simp only [ActivityEngine.step, processFiredTimer, h.pending key, Option.getD_none,
      foldl_nil]
    refine ⟨h.policies, fun k => ?_, h.retried⟩
    rw [lookup_erase_eq_ite, h.pending k]
    exact ite_self none
  | tick now => exact ⟨h.policies, h.pending, h.retried⟩

/-- **No retries** without a policy on the timeouts. -/
theorem never_retries (key : UInt64) (stepIndex : UInt32) :
    ((new.run calls).failActivityWithRetry key stepIndex).1 = false
      ∧ (new.run calls).retried = [] := by
  have hstep : ∀ (e : ActivityEngine) (call : ActivityCall), e.Unretried → True →
      (e.step call).Unretried := fun _ call h _ => h.step call
  have hnew : new.Unretried := ⟨all_new _, fun _ => rfl, rfl⟩
  have hrun : (new.run calls).Unretried :=
    foldl_invariant hstep calls new hnew (stepsMeet_of_forall fun _ _ => trivial)
  exact ⟨(hrun.fail key stepIndex).1, hrun.retried⟩

end ActivityEngine

end Velocity
