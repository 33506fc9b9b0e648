import Velocity.Lib.ServiceOrder
import Velocity.Tasks.Queue

namespace Velocity.Tasks

open Lib

/-!
# Priorities of a task queue

A task of priority zero is put at the back whatever waits before it.
-/

def rank (task : TaskItem) : Nat := task.priority.toNat

inductive QueueOp where
  | enqueue (task : TaskItem) (now : Nat)
  | tryPoll

/-- The tasks of one queue in their order of arrival. -/
structure Watched where
  queue : TaskQueue
  waiting : List TaskItem

def Watched.step (h : UInt64) (w : Watched) : QueueOp → Watched
  | .enqueue task now =>
    { queue := w.queue.enqueue h task now
      waiting := w.waiting ++ [{ task with taskId := w.queue.nextTaskId }] }
  | .tryPoll =>
    { queue := (w.queue.tryPoll h).2
      waiting := match (w.queue.tryPoll h).1 with
        | some task => w.waiting.erase task
        | none => w.waiting }

def polls (h : UInt64) : Nat → TaskQueue → List TaskItem
  | 0, _ => []
  | n + 1, q =>
    match (q.tryPoll h).1 with
    | none => []
    | some task => task :: polls h n (q.tryPoll h).2

/-- Each poll gives the smallest number enqueued first. -/
def ServesInOrder (h : UInt64) (w : Watched) : Prop :=
  ∀ n, polls h n w.queue = bestFirst rank n w.waiting

/-! ### The order of the answers -/

theorem tryPoll_pending (q : TaskQueue) (h : UInt64) :
    (q.tryPoll h).1 = (q.pending h).head? ∧ (q.tryPoll h).2.pending h = (q.pending h).tail := by
  unfold TaskQueue.tryPoll
  cases ht : q.takeFront h with
  | none =>
    have hnil : q.pending h = [] := by
      unfold TaskQueue.takeFront at ht
      cases hst : q.inner.lookup h with
      | none => simp [TaskQueue.pending, hst]
      | some st =>
        cases hd : st.deque with
        | nil => simp [TaskQueue.pending, hst, hd]
        | cons front rest => simp [hst, QueueState.popFront, hd] at ht
    simp [hnil]
  | some found =>
    obtain ⟨task, q'⟩ := found
    simp [(takeFront_some ht).pending_at]

theorem polls_eq_take (h : UInt64) (n : Nat) (q : TaskQueue) :
    polls h n q = (q.pending h).take n := by
  induction n generalizing q with
  | zero => simp [polls]
  | succ n ih =>
    obtain ⟨hfront, hrest⟩ := tryPoll_pending q h
    rw [polls, ih, hrest]
    cases hp : q.pending h with
    | nil | cons task rest => simp [hfront, hp]

theorem servesInOrder_iff_deque (h : UInt64) (w : Watched) :
    ServesInOrder h w ↔ w.queue.pending h = serviceOrder rank w.waiting := by
  constructor
  · intro hs
    have hmax := hs (max (w.queue.pending h).length (serviceOrder rank w.waiting).length)
    rw [polls_eq_take, bestFirst_eq_take, List.take_of_length_le (Nat.le_max_left _ _),
      List.take_of_length_le (Nat.le_max_right _ _)] at hmax
    exact hmax
  · intro heq n
    rw [polls_eq_take, bestFirst_eq_take, heq]

/-! ### Insertion in order -/

/-- A task of priority 0 comes when no other priority waits. -/
def OrderSafe (w : Watched) : QueueOp → Prop
  | .enqueue task _ => task.priority = 0 → ∀ t ∈ w.waiting, t.priority = 0
  | .tryPoll => True

instance (w : Watched) : DecidablePred (OrderSafe w)
  | .enqueue task _ =>
    inferInstanceAs (Decidable (task.priority = 0 → ∀ t ∈ w.waiting, t.priority = 0))
  | .tryPoll => inferInstanceAs (Decidable True)

theorem rank_eq_zero {task : TaskItem} : rank task = 0 ↔ task.priority = 0 := by
  rw [rank, ← UInt8.toNat_inj]
  rfl

theorem priority_gt_eq (task t : TaskItem) :
    decide (t.priority > task.priority) = decide (rank task < rank t) :=
  decide_eq_decide.mpr UInt8.lt_iff_toNat_lt

theorem insertTask_serviceOrder (waiting : List TaskItem) (task : TaskItem) :
    insertTask (serviceOrder rank waiting) task = serviceOrder rank (waiting ++ [task])
      ↔ (task.priority = 0 → ∀ t ∈ waiting, t.priority = 0) := by
  have hmem : ∀ t, t ∈ serviceOrder rank waiting ↔ t ∈ waiting :=
    fun t => (serviceOrder_perm waiting).mem_iff
  unfold insertTask
  simp only [priority_gt_eq]
  by_cases hpos : task.priority > 0
  · have hne : task.priority ≠ 0 := by
      intro h0
      rw [h0] at hpos
      exact absurd hpos (by decide)
    rw [if_pos hpos]
    exact ⟨fun _ h0 => absurd h0 hne, fun _ => (serviceOrder_concat waiting task).symm⟩
  · have h0 : rank task = 0 := by
      have hle := UInt8.le_iff_toNat_le.mp (UInt8.not_lt.mp hpos)
      exact Nat.le_zero.mp hle
    rw [if_neg hpos]
    constructor
    · intro heq _ t ht
      -- the service order is sorted, and here it ends in rank zero
      have hsorted := serviceOrder_sorted (f := rank) (waiting ++ [task])
      rw [← heq, List.pairwise_append] at hsorted
      have hle := hsorted.2.2 t ((hmem t).mpr ht) task (List.mem_singleton_self task)
      exact rank_eq_zero.mp (by omega)
    · intro hzero
      have hend : (serviceOrder rank waiting).findIdx (fun x => decide (rank task < rank x))
          = (serviceOrder rank waiting).length := by
        refine List.findIdx_eq_length.mpr (fun t ht => ?_)
        have ht0 := rank_eq_zero.mpr (hzero (rank_eq_zero.mp h0) t ((hmem t).mp ht))
        simp [h0, ht0]
      rw [serviceOrder_concat, hend, List.insertIdx_length_self]

theorem ServesInOrder.tryPoll {h : UInt64} {w : Watched} (hs : ServesInOrder h w) :
    ServesInOrder h (w.step h .tryPoll) := by
  rw [servesInOrder_iff_deque] at hs ⊢
  obtain ⟨hfront, hrest⟩ := tryPoll_pending w.queue h
  show (w.queue.tryPoll h).2.pending h = serviceOrder rank (match (w.queue.tryPoll h).1 with
    | some task => w.waiting.erase task
    | none => w.waiting)
  rw [hfront, hrest, hs]
  cases hbest : w.waiting.argmin rank with
  | none =>
    rw [List.argmin_eq_none] at hbest
    simp [hbest]
  | some best =>
    rw [serviceOrder_of_argmin hbest]
    rfl

theorem servesInOrder_enqueue_iff {h : UInt64} {w : Watched} (hs : ServesInOrder h w)
    (task : TaskItem) (now : Nat) :
    ServesInOrder h (w.step h (.enqueue task now)) ↔ OrderSafe w (.enqueue task now) := by
  rw [servesInOrder_iff_deque] at hs ⊢
  have hpend : (w.step h (.enqueue task now)).queue.pending h
      = insertTask (w.queue.pending h) { task with taskId := w.queue.nextTaskId } := by
    simp only [Watched.step, enqueue_pending, if_true]
  rw [hpend, hs]
  exact insertTask_serviceOrder w.waiting _

/-! ### Whole runs -/

def Watched.start : Watched := ⟨TaskQueue.new, []⟩

/-- **Priority service** iff none of priority zero is enqueued behind a larger number. -/
theorem servesInOrder_iff (h : UInt64) (ops : List QueueOp) :
    (∀ ps, ps <+: ops → ServesInOrder h (ps.foldl (Watched.step h) Watched.start))
      ↔ StepsMeet (Watched.step h) OrderSafe Watched.start ops := by
  have hkeeps : ∀ w op, ServesInOrder h w → True → OrderSafe w op →
      ServesInOrder h (w.step h op) := by
    intro w op hs _ hsafe
    cases op with
    | enqueue task now => exact (servesInOrder_enqueue_iff hs task now).mpr hsafe
    | tryPoll => exact hs.tryPoll
  have hexact : ∀ w op, ServesInOrder h w → True → ServesInOrder h (w.step h op) →
      OrderSafe w op := by
    intro w op hs _ hs'
    cases op with
    | enqueue task now => exact (servesInOrder_enqueue_iff hs task now).mp hs'
    | tryPoll => trivial
  have hstart : ServesInOrder h Watched.start := (servesInOrder_iff_deque h _).mpr rfl
  have hadm : StepsMeet (Watched.step h) (fun _ _ => True) Watched.start ops :=
    stepsMeet_of_forall (fun _ _ => trivial)
  exact forall_prefixes_iff_stepsMeet (fun _ hs => hs) hkeeps hexact hstart hadm

theorem zero_served_late :
    let q := (TaskQueue.new.enqueue 7 ⟨0, .workflowTask, 1, 7, 0, 0, 0, 5, 0⟩ 0).enqueue 7
      ⟨0, .workflowTask, 2, 7, 0, 0, 0, 0, 0⟩ 0
    (q.pending 7).map TaskItem.priority = [5, 0]
      ∧ (q.tryPoll 7).1.map TaskItem.priority = some 5 := by
  decide

end Velocity.Tasks
