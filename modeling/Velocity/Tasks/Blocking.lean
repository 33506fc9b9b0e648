import Velocity.Lib.Condvar
import Velocity.Tasks.Queue

namespace Velocity.Tasks

open Lib List Tasks.TaskQueue

/-!
# Blocking polls

All queues share one condition variable, and `enqueue` wakes one sleeper.

* `noLostWakeup`: none is lost while notifications reach pollers of their own queue.
* `poll_returns_iff`: which polls a shutdown ends.
-/

variable {q : TaskQueue} {h : UInt64}

theorem takeFront_eq_none : q.takeFront h = none ↔ q.pending h = [] := by
  unfold takeFront TaskQueue.pending
  cases hst : q.inner.lookup h with
  | none => exact iff_of_true rfl rfl
  | some st =>
    cases hd : st.deque with
    | nil | cons task rest => simp [QueueState.popFront, hd]

/-! ### Waiting -/

/-- The queue, its pollers, and the enqueuers yet to notify. -/
structure Polling where
  queue : TaskQueue
  condvar : Condvar UInt64
  notifying : List UInt64

/-- A critical section, a `notify_one`, or a woken poller. -/
inductive PollStep where
  | push (tqHash : UInt64) (task : TaskItem) (now : Nat)
  | notify (enqueuer choice : Nat)
  | poll (tqHash : UInt64)
  | resume (poller : Nat)

namespace Polling

def start : Polling := ⟨new, .empty, []⟩

variable (s : Polling)

def round (tqHash : UInt64) : Polling :=
  match s.queue.poll tqHash with
  | (.returned _, queue) => { s with queue := queue }
  | (.waiting, queue) => { s with queue := queue, condvar := s.condvar.wait tqHash }

def step : PollStep → Polling
  | .push tqHash task now =>
    { s with queue := s.queue.enqueue tqHash task now, notifying := tqHash :: s.notifying }
  | .notify enqueuer choice =>
    match s.notifying[enqueuer]? with
    | none => s
    | some _ =>
      { s with
        condvar := s.condvar.notifyOne choice
        notifying := s.notifying.eraseIdx enqueuer }
  | .poll tqHash => s.round tqHash
  | .resume poller =>
    match s.condvar.woken[poller]? with
    | none => s
    | some tqHash => { s with condvar := s.condvar.resume poller }.round tqHash

def avail (tqHash : UInt64) : Nat :=
  (s.queue.pending tqHash).length - s.notifying.count tqHash

/-- Who sleeps next to a task will be followed by another wakeup. -/
def NoLostWakeup : Prop :=
  ∀ tqHash, s.queue.pending tqHash ≠ [] → tqHash ∈ s.condvar.asleep →
    tqHash ∈ s.condvar.woken ∨ tqHash ∈ s.notifying

/-- The notification reaches a poller of its own queue, if one sleeps. -/
def Reaches (choice : Nat) : Option UInt64 → Prop
  | none => True
  | some tqHash => tqHash ∈ s.condvar.asleep → s.condvar.notified choice = some tqHash

instance (s : Polling) (choice : Nat) : ∀ tqHash, Decidable (s.Reaches choice tqHash)
  | none => inferInstanceAs (Decidable True)
  | some tqHash =>
    inferInstanceAs
      (Decidable (tqHash ∈ s.condvar.asleep → s.condvar.notified choice = some tqHash))

/-- The notification wakes a poller of the queue that got the task. -/
def NotifiesOwn : PollStep → Prop
  | .notify enqueuer choice => s.Reaches choice s.notifying[enqueuer]?
  | _ => True

instance (s : Polling) : ∀ a, Decidable (s.NotifiesOwn a)
  | .notify enqueuer choice => inferInstanceAs (Decidable (s.Reaches choice s.notifying[enqueuer]?))
  | .push _ _ _ | .poll _ | .resume _ => inferInstanceAs (Decidable True)

theorem round_cases (h : UInt64) :
    (∃ task q', s.queue.takeFront h = some (task, q') ∧ s.round h = { s with queue := q' })
    ∨ s.queue.takeFront h = none
        ∧ (s.round h = s ∨ s.round h = { s with condvar := s.condvar.wait h }) := by
  simp only [round, poll]
  cases hfront : s.queue.takeFront h with
  | some found => exact .inl ⟨found.1, found.2, rfl, rfl⟩
  | none =>
    refine .inr ⟨rfl, ?_⟩
    cases s.queue.isShutdown h
    · exact .inr rfl
    · exact .inl rfl

variable {s}

theorem served_round {h : UInt64} {c : Condvar UInt64}
    (hbefore : c.Served fun k => if k = h then s.avail h - 1 else s.avail k) :
    ({ s with condvar := c }.round h).condvar.Served ({ s with condvar := c }.round h).avail := by
  rcases round_cases { s with condvar := c } h with ⟨task, q', hfront, heq⟩ | ⟨hnone, heq | heq⟩
  · have htaken := takeFront_some hfront
    rw [heq]
    refine hbefore.mono fun k => ?_
    show (q'.pending k).length - s.notifying.count k ≤ _
    split
    · next hk =>
      have hlen : (s.queue.pending h).length = (q'.pending h).length + 1 :=
        congrArg List.length htaken.pending_at
      rw [hk, avail]
      omega
    · next hk => rw [htaken.pending_ne k hk, avail]
  all_goals
    -- an empty queue: nothing was there to take
    have hlen : (s.queue.pending h).length = 0 := congrArg List.length (takeFront_eq_none.mp hnone)
    have hzero : s.avail h = 0 := by rw [avail, hlen, Nat.zero_sub]
    have hsame : c.Served s.avail := hbefore.mono fun k => by
      split
      · next hk => rw [hk, hzero]
      · exact Nat.le_refl _
    rw [heq]
  · exact hsame
  · exact hsame.wait hzero

theorem served_step (hs : s.condvar.Served s.avail) {a : PollStep}
    (ha : s.NotifiesOwn a) : (s.step a).condvar.Served (s.step a).avail := by
  cases a with
  | push h task now =>
    -- one task more, and one enqueuer more that has to notify
    refine hs.mono fun k => ?_
    show ((s.queue.enqueue h task now).pending k).length - (h :: s.notifying).count k ≤ s.avail k
    rw [enqueue_pending, avail]
    split
    · next hk =>
      rw [(insertTask_perm _ _).length_eq, length_cons, hk, count_cons_self]
      omega
    · next hk => rw [count_cons_of_ne (Ne.symm hk)]
  | notify enqueuer choice =>
    simp only [step]
    split
    · exact hs
    · next h hnotifying =>
      have hcount := Condvar.count_cons_eraseIdx hnotifying
      rw [NotifiesOwn, hnotifying] at ha
      refine hs.notifyOne ha ?_ fun k hk => ?_
      · show (s.queue.pending h).length - (s.notifying.eraseIdx enqueuer).count h ≤ s.avail h + 1
        have hself := hcount h
        rw [count_cons_self] at hself
        rw [avail]
        omega
      · show (s.queue.pending k).length - (s.notifying.eraseIdx enqueuer).count k ≤ s.avail k
        rw [avail, ← hcount k, count_cons_of_ne (Ne.symm hk)]
  | poll h =>
    refine served_round (hs.mono fun k => ?_)
    split
    · next hk => rw [hk]; exact Nat.sub_le _ _
    · exact Nat.le_refl _
  | resume poller =>
    simp only [step]
    split
    · exact hs
    · next h hwoken =>
      refine served_round (hs.resume hwoken (if_pos rfl) fun k hk => if_neg hk)

theorem NoLostWakeup.of_served (hs : s.condvar.Served s.avail) : s.NoLostWakeup := by
  intro h hpending hasleep
  by_cases hnotifying : h ∈ s.notifying
  · exact .inr hnotifying
  · have hpos := length_pos_iff.mpr hpending
    refine .inl (hs.mem_woken hasleep ?_)
    rw [avail, count_eq_zero.mpr hnotifying]
    exact hpos

end Polling

/-- **No lost wakeup** when notifications reach pollers of their own queue. -/
theorem noLostWakeup (steps : List PollStep)
    (hown : StepsMeet Polling.step Polling.NotifiesOwn Polling.start steps) :
    ∀ ps, ps <+: steps → (ps.foldl Polling.step Polling.start).NoLostWakeup := by
  intro ps hps
  have hstep : ∀ (s : Polling) (a : PollStep), s.condvar.Served s.avail → s.NotifiesOwn a →
      (s.step a).condvar.Served (s.step a).avail := fun s a hs ha => Polling.served_step hs ha
  exact .of_served (foldl_invariant hstep ps Polling.start (Condvar.served_empty _)
    (hown.initial hps))

def oneQueueSteps : List PollStep :=
  [.poll 1, .poll 1, .push 1 ⟨0, .workflowTask, 5, 1, 0, 0, 1, 0, 0⟩ 0,
    .push 1 ⟨0, .workflowTask, 5, 1, 1, 0, 1, 0, 0⟩ 0, .notify 1 1, .notify 0 0, .resume 1,
    .resume 0]

theorem noLostWakeup_one_queue : (oneQueueSteps.foldl Polling.step Polling.start).NoLostWakeup :=
  noLostWakeup oneQueueSteps (by decide +kernel) oneQueueSteps (prefix_refl _)

theorem lost_wakeup :
    ¬ ([PollStep.poll 2, .poll 1, .push 1 ⟨0, .workflowTask, 5, 1, 0, 0, 1, 0, 0⟩ 0, .notify 0 0,
        .resume 0].foldl Polling.step Polling.start).NoLostWakeup := by
  intro hnone
  have hwoken := hnone 1 (by decide +kernel) (by decide +kernel)
  exact absurd hwoken (by decide +kernel)

/-! ### Shutting down -/

def TaskQueue.flag (q : TaskQueue) (h : UInt64) : Option Bool :=
  (q.inner.lookup h).map QueueState.shutdown

theorem poll_ne_waiting : (q.poll h).1 ≠ .waiting ↔ q.pending h ≠ [] ∨ q.flag h = some true := by
  have hflag : q.isShutdown h = true ↔ q.flag h = some true := by
    unfold isShutdown flag
    cases q.inner.lookup h <;> simp
  rw [← hflag, ne_eq (q.pending h), ← takeFront_eq_none, poll]
  cases q.takeFront h with
  | some found => simp
  | none => cases q.isShutdown h <;> simp

theorem flag_takeFront {q' : TaskQueue} {task : TaskItem}
    (htake : q.takeFront h = some (task, q')) (h' : UInt64) : q'.flag h' = q.flag h' := by
  unfold takeFront at htake
  cases hst : q.inner.lookup h with
  | none => simp [hst] at htake
  | some st =>
    cases hd : st.deque with
    | nil => simp [hst, QueueState.popFront, hd] at htake
    | cons front rest =>
      simp only [hst, QueueState.popFront, hd, Option.some.injEq, Prod.mk.injEq] at htake
      rw [← htake.2, flag, lookup_insert_eq_ite, flag]
      split
      · next hh => rw [hh, hst]; rfl
      · rfl

theorem flag_enqueue (q : TaskQueue) (h : UInt64) (task : TaskItem) (now : Nat) (h' : UInt64) :
    (q.enqueue h task now).flag h' = if h' = h then some
    ((q.flag h).getD false) else q.flag h' := by
  rw [flag, enqueue, lookup_insert_eq_ite, flag, flag]
  split
  · cases q.inner.lookup h <;> rfl
  · rfl

theorem flag_shutdown (q : TaskQueue) (h : UInt64) :
    q.shutdown.flag h = (q.flag h).map fun _ => true := by
  simp only [flag, shutdown, lookup_mapValues, Option.map_map]
  rfl

theorem flag_removeExpired (q : TaskQueue) (nowMs h : UInt64) :
    (q.removeExpired nowMs).2.flag h = q.flag h := by
  simp only [flag, removeExpired, lookup_mapValues, Option.map_map]
  rfl

theorem flag_step (q : TaskQueue) (op : TaskOp) (h : UInt64) :
    (step q op).flag h
      = match op with
        | .enqueue h' _ _ => if h = h' then some ((q.flag h).getD false) else q.flag h
        | .shutdown => (q.flag h).map fun _ => true
        | _ => q.flag h := by
  have hpolls : ∀ {op : TaskOp} {k : UInt64}, op.polls = some k → (step q op).flag h = q.flag h := by
    intro op k hop
    rcases step_polls q hop with ⟨-, heq, -⟩ | ⟨task, q', htake, heq, -⟩
    · rw [heq]
    · rw [heq]
      exact flag_takeFront htake h
  cases op with
  | enqueue k task now =>
    dsimp only
    rw [step, flag_enqueue]
    split
    · next hk => rw [hk]
    · rfl
  | poll k | tryPoll k | pollTimeout k now deadline => exact hpolls rfl
  | removeExpired nowMs => exact flag_removeExpired q nowMs h
  | shutdown => exact flag_shutdown q h

def Enqueues (ops : List TaskOp) (h : UInt64) : Prop := ∃ task now, TaskOp.enqueue h task now ∈ ops

/-- The run shuts down after the queue was made. -/
def ShutsDown (ops : List TaskOp) (h : UInt64) : Prop :=
  ∃ before, before ++ [TaskOp.shutdown] <+: ops ∧ Enqueues before h

theorem enqueues_concat {ops : List TaskOp} {op : TaskOp} :
    Enqueues (ops ++ [op]) h ↔ Enqueues ops h ∨ ∃ task now, op = .enqueue h task now := by
  simp only [Enqueues, mem_append, mem_singleton, exists_or, @eq_comm _ op]

theorem shutsDown_concat {ops : List TaskOp} {op : TaskOp} :
    ShutsDown (ops ++ [op]) h ↔ ShutsDown ops h ∨ op = .shutdown ∧ Enqueues ops h := by
  simp only [ShutsDown, prefix_concat_iff]
  constructor
  · rintro ⟨before, heq | hprefix, henq⟩
    · obtain ⟨rfl, hop⟩ := append_inj' heq rfl
      exact .inr ⟨(singleton_inj.mp hop).symm, henq⟩
    · exact .inl ⟨before, hprefix, henq⟩
  · rintro (⟨before, hprefix, henq⟩ | ⟨rfl, henq⟩)
    · exact ⟨before, .inr hprefix, henq⟩
    · exact ⟨ops, .inl rfl, henq⟩

theorem flag_run (ops : List TaskOp) (h : UInt64) :
    ((ops.foldl step new).flag h ≠ none ↔ Enqueues ops h)
      ∧ ((ops.foldl step new).flag h = some true ↔ ShutsDown ops h) := by
  induction ops using List.reverseRecOn with
  | nil =>
    refine ⟨iff_of_false (fun hne => hne rfl) ?_, iff_of_false (fun heq => by cases heq) ?_⟩
    · rintro ⟨task, now, hmem⟩
      cases hmem
    · rintro ⟨before, hprefix, -⟩
      have hnil := prefix_nil.mp hprefix
      simp at hnil
  | append_singleton ops op ih =>
    obtain ⟨hexists, hclosed⟩ := ih
    rw [foldl_append, foldl_cons, foldl_nil, flag_step, enqueues_concat,
      shutsDown_concat, ← hexists, ← hclosed]
    generalize (ops.foldl step new).flag h = flag
    cases op with
    | enqueue k task now =>
      by_cases hk : h = k
      · subst hk
        cases flag <;> simp
      · have hk' : k ≠ h := Ne.symm hk
        cases flag <;> simp [hk, hk']
    | _ => cases flag <;> simp

/-- **Shutting down** ends a poll iff a task was enqueued on the queue before. -/
theorem poll_returns_iff (ops : List TaskOp) (h : UInt64) :
    ((ops.foldl step new).poll h).1 ≠ .waiting
      ↔ (ops.foldl step new).pending h ≠ [] ∨ ShutsDown ops h := by
  rw [poll_ne_waiting, (flag_run ops h).2]

theorem poll_sleeps_after_shutdown :
    (([TaskOp.shutdown].foldl step new).poll 7).1 = .waiting
      ∧ (([TaskOp.shutdown, .enqueue 7 ⟨0, .workflowTask, 5, 7, 0, 0, 1, 0, 0⟩ 0,
          .poll 7].foldl step new).poll 7).1 = .waiting := by
  decide +kernel

end Velocity.Tasks
