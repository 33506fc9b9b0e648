import Mathlib.Data.UInt
import Velocity.Engine.State
import Velocity.Lib.Keyed
import Velocity.Lib.Run

namespace Velocity.Tasks

open Lib List

/-!
# The task queue

One round of a blocking poll is one step: it returns, or leaves the state alone.

* `TaskQueue`: a queue for each hash, and totals over all of them.
* `Ledger`: a run with what was enqueued, returned and expired.
* `ledger_conservation`: every task is in exactly one place, and the counts say so.
-/

structure QueueState where
  deque : List TaskItem
  shutdown : Bool
  enqueued : UInt64
  dequeued : UInt64
  expired : UInt64
  oldestTaskAt : Option Nat
  deriving DecidableEq

def QueueState.new : QueueState := ⟨[], false, 0, 0, 0, none⟩

structure TaskQueue where
  inner : AList (fun _ : UInt64 => QueueState)
  nextTaskId : UInt64
  totalEnqueued : UInt64
  totalDequeued : UInt64
  totalExpired : UInt64

/-- Zero goes to the back, others before the first larger one. -/
def insertTask (deque : List TaskItem) (task : TaskItem) : List TaskItem :=
  if task.priority > 0 then
    deque.insertIdx (deque.findIdx (fun t => t.priority > task.priority)) task
  else deque ++ [task]

def QueueState.push (st : QueueState) (task : TaskItem) (now : Nat) : QueueState :=
  { st with
    deque := insertTask st.deque task
    enqueued := st.enqueued + 1
    oldestTaskAt := if st.oldestTaskAt.isNone then some now else st.oldestTaskAt }

def QueueState.popFront (st : QueueState) : Option (TaskItem × QueueState) :=
  match st.deque with
  | [] => none
  | task :: rest =>
    some (task, { st with
      deque := rest
      dequeued := st.dequeued + 1
      oldestTaskAt := if rest.isEmpty then none else st.oldestTaskAt })

def keeps (nowMs : UInt64) (task : TaskItem) : Bool :=
  task.deadlineMs == 0 || decide (task.deadlineMs > nowMs)

def QueueState.expire (st : QueueState) (nowMs : UInt64) : QueueState :=
  { st with
    deque := st.deque.filter (keeps nowMs)
    expired := st.expired
      + UInt64.ofNat (st.deque.length - (st.deque.filter (keeps nowMs)).length) }

inductive PollRound where
  | returned (task : Option TaskItem)
  | waiting
  deriving DecidableEq

namespace TaskQueue

def new : TaskQueue := ⟨∅, 1, 0, 0, 0⟩

variable (q : TaskQueue)

def enqueue (tqHash : UInt64) (task : TaskItem) (now : Nat) : TaskQueue :=
  let task := { task with taskId := q.nextTaskId }
  let state := (q.inner.lookup tqHash).getD QueueState.new
  { q with
    nextTaskId := q.nextTaskId + 1
    inner := q.inner.insert tqHash (state.push task now)
    totalEnqueued := q.totalEnqueued + 1 }

def takeFront (tqHash : UInt64) : Option (TaskItem × TaskQueue) :=
  match q.inner.lookup tqHash with
  | none => none
  | some state =>
    match state.popFront with
    | none => none
    | some (task, state') =>
      some (task, { q with
        inner := q.inner.insert tqHash state'
        totalDequeued := q.totalDequeued + 1 })

def isShutdown (tqHash : UInt64) : Bool :=
  (q.inner.lookup tqHash).any QueueState.shutdown

def tryPoll (tqHash : UInt64) : Option TaskItem × TaskQueue :=
  match q.takeFront tqHash with
  | some (task, q') => (some task, q')
  | none => (none, q)

def poll (tqHash : UInt64) : PollRound × TaskQueue :=
  match q.takeFront tqHash with
  | some (task, q') => (.returned (some task), q')
  | none => if q.isShutdown tqHash then (.returned none, q) else (.waiting, q)

def pollTimeout (tqHash : UInt64) (now deadline : Nat) : PollRound × TaskQueue :=
  match q.takeFront tqHash with
  | some (task, q') => (.returned (some task), q')
  | none =>
    if q.isShutdown tqHash then (.returned none, q)
    else if now ≥ deadline then (.returned none, q)
    else (.waiting, q)

def pendingCount (tqHash : UInt64) : Nat :=
  (q.inner.lookup tqHash).elim 0 (fun state => state.deque.length)

def removeExpired (nowMs : UInt64) : Nat × TaskQueue :=
  let removed := valueSum
    (fun state : QueueState =>
      state.deque.length - (state.deque.filter (keeps nowMs)).length) q.inner
  (removed, { q with
    inner := mapValues (fun state => state.expire nowMs) q.inner
    totalExpired := q.totalExpired + UInt64.ofNat removed })

def shutdown (q : TaskQueue) : TaskQueue :=
  { q with inner := mapValues (fun state => { state with shutdown := true }) q.inner }

def pending (tqHash : UInt64) : List TaskItem :=
  (q.inner.lookup tqHash).elim [] QueueState.deque

theorem pendingCount_eq (tqHash : UInt64) : q.pendingCount tqHash = (q.pending tqHash).length := by
  unfold pendingCount pending
  cases q.inner.lookup tqHash <;> rfl

end TaskQueue

open QueueState

/-! ### Runs -/

inductive TaskOp where
  | enqueue (tqHash : UInt64) (task : TaskItem) (now : Nat)
  | poll (tqHash : UInt64)
  | tryPoll (tqHash : UInt64)
  | pollTimeout (tqHash : UInt64) (now deadline : Nat)
  | removeExpired (nowMs : UInt64)
  | shutdown

def step (q : TaskQueue) : TaskOp → TaskQueue
  | .enqueue tqHash task now => q.enqueue tqHash task now
  | .poll tqHash => (q.poll tqHash).2
  | .tryPoll tqHash => (q.tryPoll tqHash).2
  | .pollTimeout tqHash now deadline => (q.pollTimeout tqHash now deadline).2
  | .removeExpired nowMs => (q.removeExpired nowMs).2
  | .shutdown => q.shutdown

def PollRound.task : PollRound → Option TaskItem
  | .returned task => task
  | .waiting => none

def answer (q : TaskQueue) : TaskOp → Option (UInt64 × TaskItem)
  | .poll tqHash => (q.poll tqHash).1.task.map (tqHash, ·)
  | .tryPoll tqHash => (q.tryPoll tqHash).1.map (tqHash, ·)
  | .pollTimeout tqHash now deadline => (q.pollTimeout tqHash now deadline).1.task.map (tqHash, ·)
  | _ => none

/-! ### Named queues -/

def TaskQueue.stat (q : TaskQueue) (f : QueueState → UInt64) (tqHash : UInt64) : UInt64 :=
  (q.inner.lookup tqHash).elim 0 f

theorem insertTask_perm (deque : List TaskItem) (task : TaskItem) :
    (insertTask deque task).Perm (task :: deque) := by
  unfold insertTask
  split
  · exact perm_insertIdx task deque findIdx_le_length
  · exact perm_append_singleton task deque

section Write

variable {q q' : TaskQueue} {h : UInt64} {st : QueueState}

theorem pending_of_insert (hq : q'.inner = q.inner.insert h st) (h' : UInt64) :
    q'.pending h' = if h' = h then st.deque else q.pending h' := by
  rw [TaskQueue.pending, hq, lookup_insert_eq_ite]
  by_cases hh : h' = h
  · simp [hh]
  · simp [hh, TaskQueue.pending]

theorem stat_of_insert (hq : q'.inner = q.inner.insert h st) (f : QueueState → UInt64)
    (h' : UInt64) : q'.stat f h' = if h' = h then f st else q.stat f h' := by
  rw [TaskQueue.stat, hq, lookup_insert_eq_ite]
  by_cases hh : h' = h
  · simp [hh]
  · simp [hh, TaskQueue.stat]

theorem valueSum_of_insert (hq : q'.inner = q.inner.insert h st) {f : QueueState → UInt64}
    {d : UInt64} (hd : f st = q.stat f h + d) : valueSum f q'.inner = valueSum f q.inner + d := by
  rw [hq]
  exact valueSum_insert_of_share hd

end Write

theorem ofNat_valueSum (g : QueueState → Nat) (m : AList fun _ : UInt64 => QueueState) :
    UInt64.ofNat (valueSum g m) = valueSum (fun state => UInt64.ofNat (g state)) m :=
  map_valueSum (⟨⟨UInt64.ofNat, rfl⟩, UInt64.ofNat_add⟩ : Nat →+ UInt64) g m

variable (q : TaskQueue)

variable (h : UInt64)

theorem getD_new_stat : ((q.inner.lookup h).getD new).deque = q.pending h
    ∧ ((q.inner.lookup h).getD new).enqueued = q.stat enqueued h
    ∧ ((q.inner.lookup h).getD new).dequeued = q.stat dequeued h
    ∧ ((q.inner.lookup h).getD new).expired = q.stat expired h := by
  unfold TaskQueue.pending TaskQueue.stat
  cases q.inner.lookup h <;> exact ⟨rfl, rfl, rfl, rfl⟩

theorem enqueue_pending (task : TaskItem) (now : Nat) (h' : UInt64) :
    (q.enqueue h task now).pending h'
      = if h' = h then insertTask (q.pending h) { task with taskId := q.nextTaskId }
        else q.pending h' := by
  rw [← (getD_new_stat q h).1]
  exact pending_of_insert (rfl : (q.enqueue h task now).inner = _) h'

theorem enqueue_stat (task : TaskItem) (now : Nat) (h' : UInt64) :
    (q.enqueue h task now).stat enqueued h'
        = q.stat enqueued h' + (if h' = h then 1 else 0)
    ∧ (q.enqueue h task now).stat dequeued h' = q.stat dequeued h'
    ∧ (q.enqueue h task now).stat expired h' = q.stat expired h' := by
  have hwrite := fun f => stat_of_insert (f := f) (rfl : (q.enqueue h task now).inner = _) h'
  obtain ⟨_, henq, hdeq, hexp⟩ := getD_new_stat q h
  rw [hwrite, hwrite, hwrite]
  by_cases hh : h' = h
  · subst hh
    simp [push, henq, hdeq, hexp]
  · simp [hh]

structure FrontTaken (q : TaskQueue) (h : UInt64) (task : TaskItem) (q' : TaskQueue) : Prop where
  pending_at : q.pending h = task :: q'.pending h
  pending_ne : ∀ h', h' ≠ h → q'.pending h' = q.pending h'
  enqueued : ∀ h', q'.stat QueueState.enqueued h' = q.stat QueueState.enqueued h'
  dequeued : ∀ h', q'.stat QueueState.dequeued h'
    = q.stat QueueState.dequeued h' + (if h' = h then 1 else 0)
  expired : ∀ h', q'.stat QueueState.expired h' = q.stat QueueState.expired h'
  sums : valueSum QueueState.enqueued q'.inner = valueSum QueueState.enqueued q.inner
    ∧ valueSum QueueState.dequeued q'.inner = valueSum QueueState.dequeued q.inner + 1
    ∧ valueSum QueueState.expired q'.inner = valueSum QueueState.expired q.inner
  totals : q'.totalEnqueued = q.totalEnqueued ∧ q'.totalDequeued = q.totalDequeued + 1
    ∧ q'.totalExpired = q.totalExpired
  nextTaskId : q'.nextTaskId = q.nextTaskId

theorem takeFront_some {q q' : TaskQueue} {h : UInt64} {task : TaskItem}
    (ht : q.takeFront h = some (task, q')) : FrontTaken q h task q' := by
  unfold TaskQueue.takeFront at ht
  cases hst : q.inner.lookup h with
  | none => simp [hst] at ht
  | some st =>
    cases hd : st.deque with
    | nil => simp [hst, QueueState.popFront, hd] at ht
    | cons front rest =>
      simp only [hst, QueueState.popFront, hd, Option.some.injEq, Prod.mk.injEq] at ht
      obtain ⟨rfl, hq'⟩ := ht
      have hinner := congrArg TaskQueue.inner hq'.symm
      have hstat : ∀ f, q.stat f h = f st := fun f => by rw [TaskQueue.stat, hst]; rfl
      exact {
        pending_at := by
          rw [pending_of_insert hinner, if_pos rfl, TaskQueue.pending, hst]
          exact hd
        pending_ne := fun h' hne => by rw [pending_of_insert hinner, if_neg hne]
        enqueued := fun h' => by
          rw [stat_of_insert hinner]
          by_cases hh : h' = h
          · rw [if_pos hh, hh, hstat]
          · rw [if_neg hh]
        dequeued := fun h' => by
          rw [stat_of_insert hinner]
          by_cases hh : h' = h
          · rw [if_pos hh, if_pos hh, hh, hstat]
          · rw [if_neg hh, if_neg hh, add_zero]
        expired := fun h' => by
          rw [stat_of_insert hinner]
          by_cases hh : h' = h
          · rw [if_pos hh, hh, hstat]
          · rw [if_neg hh]
        sums := by
          refine ⟨?_, valueSum_of_insert hinner (by rw [hstat]), ?_⟩
          · rw [valueSum_of_insert hinner (d := 0) (by rw [hstat, add_zero]), add_zero]
          · rw [valueSum_of_insert hinner (d := 0) (by rw [hstat, add_zero]), add_zero]
        totals := by rw [← hq']; exact ⟨rfl, rfl, rfl⟩
        nextTaskId := by rw [← hq'] }

theorem removeExpired_pending (nowMs h : UInt64) :
    (q.removeExpired nowMs).2.pending h = (q.pending h).filter (keeps nowMs) := by
  simp only [TaskQueue.removeExpired, TaskQueue.pending, lookup_mapValues]
  cases q.inner.lookup h <;> rfl

theorem removeExpired_stat (nowMs h : UInt64) :
    (q.removeExpired nowMs).2.stat enqueued h = q.stat enqueued h
    ∧ (q.removeExpired nowMs).2.stat dequeued h = q.stat dequeued h
    ∧ (q.removeExpired nowMs).2.stat expired h = q.stat expired h
        + UInt64.ofNat ((q.pending h).filter (fun task => !keeps nowMs task)).length := by
  have hcount : ∀ l : List TaskItem, l.length - (l.filter (keeps nowMs)).length
      = (l.filter (fun task => !keeps nowMs task)).length := by
    intro l
    have := (filter_append_perm (keeps nowMs) l).length_eq
    rw [length_append] at this
    omega
  simp only [TaskQueue.removeExpired, TaskQueue.stat, TaskQueue.pending, lookup_mapValues]
  cases q.inner.lookup h with
  | none => exact ⟨rfl, rfl, rfl⟩
  | some st => exact ⟨rfl, rfl, by simp [expire, hcount]⟩

theorem shutdown_pending : q.shutdown.pending h = q.pending h := by
  simp only [TaskQueue.shutdown, TaskQueue.pending, lookup_mapValues]
  cases q.inner.lookup h <;> rfl

theorem shutdown_stat : q.shutdown.stat enqueued h = q.stat enqueued h
    ∧ q.shutdown.stat dequeued h = q.stat dequeued h
    ∧ q.shutdown.stat expired h = q.stat expired h := by
  simp only [TaskQueue.shutdown, TaskQueue.stat, lookup_mapValues]
  cases q.inner.lookup h <;> exact ⟨rfl, rfl, rfl⟩

def TaskOp.polls : TaskOp → Option UInt64
  | .poll h | .tryPoll h | .pollTimeout h _ _ => some h
  | _ => none

theorem step_polls {op : TaskOp} {h : UInt64} (hop : op.polls = some h) :
    (q.takeFront h = none ∧ step q op = q ∧ answer q op = none)
    ∨ ∃ task q', q.takeFront h = some (task, q') ∧ step q op = q'
        ∧ answer q op = some (h, task) := by
  cases ht : q.takeFront h with
  | none =>
    refine .inl ⟨rfl, ?_⟩
    cases op <;> simp only [TaskOp.polls, Option.some.injEq, reduceCtorEq] at hop <;> subst hop
    case poll h =>
      cases hs : q.isShutdown h <;> simp [step, answer, TaskQueue.poll, ht, hs, PollRound.task]
    case tryPoll => simp [step, answer, TaskQueue.tryPoll, ht]
    case pollTimeout h now deadline =>
      cases hs : q.isShutdown h
      · by_cases hd : now ≥ deadline <;>
          simp [step, answer, TaskQueue.pollTimeout, ht, hs, hd, PollRound.task]
      · simp [step, answer, TaskQueue.pollTimeout, ht, hs, PollRound.task]
  | some found =>
    obtain ⟨task, q'⟩ := found
    refine .inr ⟨task, q', rfl, ?_⟩
    cases op <;> simp only [TaskOp.polls, Option.some.injEq, reduceCtorEq] at hop <;> subst hop <;>
      simp [step, answer, TaskQueue.poll, TaskQueue.tryPoll, TaskQueue.pollTimeout, ht,
        PollRound.task]

/-! ### The ledger of a run -/

/-- The queue with all that was enqueued, polled and expired. -/
structure Ledger where
  queue : TaskQueue
  log : List (UInt64 × TaskItem)
  returned : UInt64 → List TaskItem
  dropped : UInt64 → List TaskItem

namespace Ledger

attribute [ext] Ledger

def start : Ledger := ⟨TaskQueue.new, [], fun _ => [], fun _ => []⟩

variable (l : Ledger)

def arrived (h : UInt64) : List TaskItem :=
  (l.log.filter (fun entry => entry.1 = h)).map Prod.snd

def ids : List UInt64 := l.log.map (fun entry => entry.2.taskId)

def step (l : Ledger) (op : TaskOp) : Ledger where
  queue := Tasks.step l.queue op
  log := match op with
    | .enqueue h task _ => l.log ++ [(h, { task with taskId := l.queue.nextTaskId })]
    | _ => l.log
  returned := match answer l.queue op with
    | some (h, task) => Function.update l.returned h (l.returned h ++ [task])
    | none => l.returned
  dropped := match op with
    | .removeExpired nowMs => fun h =>
      l.dropped h ++ (l.queue.pending h).filter (fun task => !keeps nowMs task)
    | _ => l.dropped

def run (ops : List TaskOp) : Ledger := ops.foldl step start

/-- Every task is polled, expired or pending, one of these once. -/
def Placed : Prop :=
  ∀ h, (l.arrived h).Perm (l.returned h ++ l.dropped h ++ l.queue.pending h)

structure Counted (l : Ledger) : Prop where
  enqueued : ∀ h, l.queue.stat enqueued h = UInt64.ofNat (l.arrived h).length
  dequeued : ∀ h, l.queue.stat dequeued h = UInt64.ofNat (l.returned h).length
  expired : ∀ h, l.queue.stat expired h = UInt64.ofNat (l.dropped h).length

/-- The totals are the sums over the queues. -/
structure Totalled (q : TaskQueue) : Prop where
  enqueued : q.totalEnqueued = valueSum enqueued q.inner
  dequeued : q.totalDequeued = valueSum dequeued q.inner
  expired : q.totalExpired = valueSum expired q.inner

def Numbered : Prop :=
  l.queue.nextTaskId = UInt64.ofNat (l.ids.length + 1)
    ∧ l.ids = (List.range l.ids.length).map (fun i => UInt64.ofNat (i + 1))

/-! ### One call -/

theorem step_cases (op : TaskOp) : (∃ h task now, l.step op = { l with
        queue := l.queue.enqueue h task now
        log := l.log ++ [(h, { task with taskId := l.queue.nextTaskId })] })
    ∨ l.step op = l
    ∨ (∃ h task q', l.queue.takeFront h = some (task, q') ∧ l.step op = { l with
        queue := q'
        returned := Function.update l.returned h (l.returned h ++ [task]) })
    ∨ (∃ nowMs, l.step op = { l with
        queue := (l.queue.removeExpired nowMs).2
        dropped := fun h =>
          l.dropped h ++ (l.queue.pending h).filter (fun task => !keeps nowMs task) })
    ∨ l.step op = { l with queue := l.queue.shutdown } := by
  cases hop : op.polls with
  | none =>
    cases op <;> simp only [TaskOp.polls, reduceCtorEq] at hop
    case enqueue h task now => exact .inl ⟨h, task, now, rfl⟩
    case removeExpired nowMs => exact .inr (.inr (.inr (.inl ⟨nowMs, rfl⟩)))
    case shutdown => exact .inr (.inr (.inr (.inr rfl)))
  | some h =>
    have hrest : (l.step op).log = l.log ∧ (l.step op).dropped = l.dropped := by
      cases op <;> simp only [TaskOp.polls, reduceCtorEq] at hop <;> exact ⟨rfl, rfl⟩
    rcases step_polls l.queue hop with ⟨_, hstep, hans⟩ | ⟨task, q', htake, hstep, hans⟩
    · refine .inr (.inl ?_)
      have hret : (l.step op).returned = l.returned := by
        show (match answer l.queue op with
          | some (h, task) => Function.update l.returned h (l.returned h ++ [task])
          | none => l.returned) = l.returned
        rw [hans]
      exact Ledger.ext hstep hrest.1 hret hrest.2
    · refine .inr (.inr (.inl ⟨h, task, q', htake, ?_⟩))
      have hret : (l.step op).returned
          = Function.update l.returned h (l.returned h ++ [task]) := by
        show (match answer l.queue op with
          | some (h, task) => Function.update l.returned h (l.returned h ++ [task])
          | none => l.returned) = _
        rw [hans]
      exact Ledger.ext hstep hrest.1 hret hrest.2

variable {l}

theorem arrived_append {l' : Ledger} {h : UInt64} {task : TaskItem}
    (hlog : l'.log = l.log ++ [(h, task)]) (h' : UInt64) :
    l'.arrived h' = if h' = h then l.arrived h' ++ [task] else l.arrived h' := by
  rw [arrived, hlog, filter_append, map_append]
  by_cases hh : h' = h
  · subst hh
    simp [arrived]
  · simp [arrived, hh, Ne.symm hh]

theorem Placed.step (hl : l.Placed) (op : TaskOp) : (l.step op).Placed := by
  intro h'
  have hl' := hl h'
  rcases l.step_cases op with ⟨h, task, now, heq⟩ | heq | ⟨h, task, q', htake, heq⟩
    | ⟨nowMs, heq⟩ | heq
  · rw [heq]
    rw [arrived_append rfl h']
    simp only [enqueue_pending]
    by_cases hh : h' = h
    · subst hh
      simp only [if_true]
      refine (hl'.append_right _).trans ?_
      rw [append_assoc]
      exact List.Perm.append_left _
        ((perm_append_singleton _ _).trans (insertTask_perm _ _).symm)
    · simpa only [if_neg hh] using hl'
  · rw [heq]; exact hl'
  · have ht := takeFront_some htake
    rw [heq]
    simp only [Function.update_apply]
    by_cases hh : h' = h
    · subst hh
      rw [ht.pending_at] at hl'
      simp only [if_true, append_assoc] at hl' ⊢
      exact hl'.trans (List.Perm.append_left _ perm_middle)
    · simp only [if_neg hh, ht.pending_ne h' hh]
      exact hl'
  · rw [heq]
    simp only [removeExpired_pending]
    refine hl'.trans ?_
    simp only [append_assoc]
    refine List.Perm.append_left _ (List.Perm.append_left _ ?_)
    exact ((filter_append_perm (keeps nowMs) _).symm).trans perm_append_comm
  · rw [heq]
    simp only [shutdown_pending]
    exact hl'

theorem Counted.step (hl : l.Counted) (op : TaskOp) : (l.step op).Counted := by
  -- one more task in a list is one more in its statistic
  have hone : ∀ (tasks : List TaskItem) (h h' : UInt64) (task : TaskItem),
      UInt64.ofNat tasks.length + (if h' = h then 1 else 0)
        = UInt64.ofNat (if h' = h then tasks ++ [task] else tasks).length := by
    intro tasks h h' task
    by_cases hh : h' = h <;> simp [hh]
  rcases l.step_cases op with ⟨h, task, now, heq⟩ | heq | ⟨h, task, q', htake, heq⟩
    | ⟨nowMs, heq⟩ | heq
  · rw [heq]
    have hstat := enqueue_stat l.queue h task now
    exact {
      enqueued := fun h' => by
        rw [(hstat h').1, arrived_append rfl h', hl.enqueued, hone]
      dequeued := fun h' => (hstat h').2.1.trans (hl.dequeued h')
      expired := fun h' => (hstat h').2.2.trans (hl.expired h') }
  · rw [heq]; exact hl
  · have ht := takeFront_some htake
    rw [heq]
    exact {
      enqueued := fun h' => (ht.enqueued h').trans (hl.enqueued h')
      dequeued := fun h' => by
        rw [ht.dequeued, hl.dequeued, hone _ h h' task]
        by_cases hh : h' = h <;> simp [hh]
      expired := fun h' => (ht.expired h').trans (hl.expired h') }
  · rw [heq]
    have hstat := removeExpired_stat l.queue nowMs
    exact {
      enqueued := fun h' => (hstat h').1.trans (hl.enqueued h')
      dequeued := fun h' => (hstat h').2.1.trans (hl.dequeued h')
      expired := fun h' => by
        rw [(hstat h').2.2, hl.expired, length_append, UInt64.ofNat_add] }
  · rw [heq]
    have hstat := shutdown_stat l.queue
    exact {
      enqueued := fun h' => (hstat h').1.trans (hl.enqueued h')
      dequeued := fun h' => (hstat h').2.1.trans (hl.dequeued h')
      expired := fun h' => (hstat h').2.2.trans (hl.expired h') }

theorem Totalled.step (hl : Totalled l.queue) (op : TaskOp) : Totalled (l.step op).queue := by
  rcases l.step_cases op with ⟨h, task, now, heq⟩ | heq | ⟨h, task, q', htake, heq⟩
    | ⟨nowMs, heq⟩ | heq
  · rw [heq]
    obtain ⟨_, henq, hdeq, hexp⟩ := getD_new_stat l.queue h
    have hsum := fun (f : QueueState → UInt64) (d : UInt64) hd =>
      valueSum_of_insert (f := f) (d := d) (rfl : (l.queue.enqueue h task now).inner = _) hd
    exact {
      enqueued := by
        rw [hsum QueueState.enqueued 1 (by simp [QueueState.push, henq]), ← hl.enqueued]
        rfl
      dequeued := by
        rw [hsum QueueState.dequeued 0 (by simp [QueueState.push, hdeq]), add_zero, ← hl.dequeued]
        rfl
      expired := by
        rw [hsum QueueState.expired 0 (by simp [QueueState.push, hexp]), add_zero, ← hl.expired]
        rfl }
  · rw [heq]; exact hl
  · have ht := takeFront_some htake
    rw [heq]
    exact {
      enqueued := by rw [ht.totals.1, ht.sums.1, hl.enqueued]
      dequeued := by rw [ht.totals.2.1, ht.sums.2.1, hl.dequeued]
      expired := by rw [ht.totals.2.2, ht.sums.2.2, hl.expired] }
  · rw [heq]
    exact {
      enqueued := by
        rw [TaskQueue.removeExpired, valueSum_mapValues]
        exact hl.enqueued
      dequeued := by
        rw [TaskQueue.removeExpired, valueSum_mapValues]
        exact hl.dequeued
      expired := by
        simp only [TaskQueue.removeExpired, valueSum_mapValues, QueueState.expire]
        rw [valueSum_add, ← hl.expired, ofNat_valueSum] }
  · rw [heq]
    exact {
      enqueued := by
        rw [TaskQueue.shutdown, valueSum_mapValues]
        exact hl.enqueued
      dequeued := by
        rw [TaskQueue.shutdown, valueSum_mapValues]
        exact hl.dequeued
      expired := by
        rw [TaskQueue.shutdown, valueSum_mapValues]
        exact hl.expired }

theorem Numbered.step (hl : l.Numbered) (op : TaskOp) : (l.step op).Numbered := by
  obtain ⟨hnext, hids⟩ := hl
  rcases l.step_cases op with ⟨h, task, now, heq⟩ | heq | ⟨h, task, q', htake, heq⟩
    | ⟨nowMs, heq⟩ | heq
  · rw [heq]
    have hids' : ids { l with
        queue := l.queue.enqueue h task now
        log := l.log ++ [(h, { task with taskId := l.queue.nextTaskId })] }
          = l.ids ++ [l.queue.nextTaskId] := by
      simp [ids]
    rw [Numbered, hids', length_append]
    refine ⟨?_, ?_⟩
    · show l.queue.nextTaskId + 1 = _
      rw [hnext]
      simp
    · rw [length_singleton, range_succ, map_append, map_singleton, ← hids, hnext]
  · rw [heq]; exact ⟨hnext, hids⟩
  · rw [heq]; exact ⟨(takeFront_some htake).nextTaskId.trans hnext, hids⟩
  · rw [heq]; exact ⟨hnext, hids⟩
  · rw [heq]; exact ⟨hnext, hids⟩

/-! ### Whole runs -/

structure Balanced (l : Ledger) : Prop where
  placed : l.Placed
  counted : l.Counted
  totalled : Totalled l.queue
  numbered : l.Numbered

theorem balanced_start : start.Balanced where
  placed := fun _ => List.Perm.refl _
  counted := ⟨fun _ => rfl, fun _ => rfl, fun _ => rfl⟩
  totalled := ⟨rfl, rfl, rfl⟩
  numbered := ⟨rfl, rfl⟩

theorem Balanced.step (hl : l.Balanced) (op : TaskOp) : (l.step op).Balanced where
  placed := hl.placed.step op
  counted := hl.counted.step op
  totalled := hl.totalled.step op
  numbered := hl.numbered.step op

theorem balanced_run (ops : List TaskOp) : (run ops).Balanced := by
  have hall : StepsMeet Ledger.step (fun _ _ => True) start ops :=
    stepsMeet_of_forall (fun _ _ => trivial)
  exact foldl_invariant (I := Balanced) (fun _ op hl _ => hl.step op) ops start balanced_start hall

theorem Balanced.stat_eq (hl : l.Balanced) (h : UInt64) :
    l.queue.stat enqueued h
      = l.queue.stat dequeued h + l.queue.stat expired h
        + UInt64.ofNat (l.queue.pendingCount h) := by
  have hlen := (hl.placed h).length_eq
  rw [length_append, length_append] at hlen
  rw [hl.counted.enqueued, hl.counted.dequeued, hl.counted.expired, TaskQueue.pendingCount_eq,
    hlen, UInt64.ofNat_add, UInt64.ofNat_add]

theorem Balanced.ids_nodup (hl : l.Balanced) : (l.ids.take (2 ^ 64)).Nodup := by
  rw [hl.numbered.2, ← map_take, take_range]
  exact nodup_map_counter (Nat.min_le_left _ _)

end Ledger

/-- **Conservation**: every task was polled, expired or is pending, once, among the first `2^64`. -/
theorem ledger_conservation (ops : List TaskOp) :
    ((Ledger.run ops).ids.take (2 ^ 64)).Nodup
    ∧ (∀ h, ((Ledger.run ops).arrived h).Perm ((Ledger.run ops).returned h
        ++ (Ledger.run ops).dropped h ++ (Ledger.run ops).queue.pending h))
    ∧ (∀ h, (Ledger.run ops).queue.stat enqueued h
        = (Ledger.run ops).queue.stat dequeued h
          + (Ledger.run ops).queue.stat expired h
          + UInt64.ofNat ((Ledger.run ops).queue.pendingCount h))
    ∧ Ledger.Totalled (Ledger.run ops).queue :=
  have hl := Ledger.balanced_run ops
  ⟨hl.ids_nodup, hl.placed, hl.stat_eq, hl.totalled⟩

theorem ids_length_enqueues (task : TaskItem) (now n : Nat) (l : Ledger) :
    ((List.replicate n (TaskOp.enqueue h task now)).foldl Ledger.step l).ids.length
      = l.ids.length + n := by
  induction n generalizing l with
  | zero => rfl
  | succ n ih =>
    rw [replicate_succ, foldl_cons, ih]
    simp only [Ledger.ids, Ledger.step, length_map, length_append, length_singleton]
    omega

theorem ids_reused :
    ¬ (Ledger.run (List.replicate (2 ^ 64 + 1)
      (.enqueue 7 ⟨0, .workflowTask, 1, 7, 0, 0, 0, 0, 0⟩ 0))).ids.Nodup := by
  intro hnodup
  have hlen := ids_length_enqueues 7 ⟨0, .workflowTask, 1, 7, 0, 0, 0, 0, 0⟩ 0 (2 ^ 64 + 1)
    Ledger.start
  rw [← Ledger.run, show Ledger.start.ids.length = 0 from rfl, Nat.zero_add] at hlen
  rw [(Ledger.balanced_run _).numbered.2, hlen] at hnodup
  have hsame := inj_on_of_nodup_map hnodup (mem_range.mpr (by omega : 0 < 2 ^ 64 + 1))
    (mem_range.mpr (by omega : 2 ^ 64 < 2 ^ 64 + 1)) (by decide)
  omega

/-! ### The engine's queue -/

def TaskQueue.view (q : TaskQueue) : Velocity.TaskQueue := ⟨q.pending, q.nextTaskId⟩

theorem view_enqueue (tqHash : UInt64) (task : TaskItem) (now : Nat) :
    (q.enqueue tqHash task now).view = q.view.enqueue tqHash task := by
  have hqueues : (q.enqueue tqHash task now).pending
      = Function.update q.pending tqHash
        (insertTask (q.pending tqHash) { task with taskId := q.nextTaskId }) := by
    funext h'
    rw [enqueue_pending, Function.update_apply]
  rw [TaskQueue.view, hqueues]
  rfl

theorem view_new : TaskQueue.new.view = Velocity.TaskQueue.new := rfl

end Velocity.Tasks
