import Mathlib.Data.List.Nodup
import Mathlib.Logic.Function.Basic
import Velocity.Lib.Run

namespace Velocity.Lib

open Function

/-!
# Keyed locks with queues

Tasks wait for their key, hold it while they run, and hand it on when they end.

* `LockTable.step`: tasks arrive, suspend, resume and finish.
* `Sound.step_iff`: a step keeps one holder per key iff it is `InTurn`.
-/

variable {κ ι ο : Type*}

inductive Phase (ο : Type*) where
  | waiting
  | running
  | suspended
  | ended (outcome : ο)

def Phase.Active (p : Phase ο) : Prop := p = .running ∨ p = .suspended

@[simp] theorem Phase.active_running : (Phase.running : Phase ο).Active := .inl rfl

@[simp] theorem Phase.active_suspended : (Phase.suspended : Phase ο).Active := .inr rfl

@[simp] theorem Phase.not_active_waiting : ¬ (Phase.waiting : Phase ο).Active :=
  fun h => h.elim nofun nofun

theorem Phase.Active.ne_waiting {p : Phase ο} (h : p.Active) : p ≠ .waiting := by
  rintro rfl
  exact not_active_waiting h

@[simp] theorem Phase.not_active_ended (outcome : ο) : ¬ (Phase.ended outcome).Active :=
  fun h => h.elim nofun nofun

@[ext]
structure LockTable (κ ι ο : Type*) where
  holder : κ → Option ι
  queue : κ → List ι
  task : ι → Option (κ × Phase ο)

inductive LockOp (κ ι ο : Type*) where
  | arrive (i : ι) (k : κ)
  | suspend (i : ι)
  | resume (i : ι)
  | finish (i : ι) (outcome : ο)

namespace LockTable

variable [DecidableEq κ] [DecidableEq ι]

variable (t : LockTable κ ι ο)

def setPhase (i : ι) (p : Phase ο) : LockTable κ ι ο :=
  { t with task := update t.task i ((t.task i).map fun e => (e.1, p)) }

def dispatch (k : κ) : LockTable κ ι ο :=
  match t.holder k with
  | some _ => t
  | none =>
    match t.queue k with
    | [] => t
    | i :: rest =>
      { t.setPhase i .running with
        holder := update t.holder k (some i)
        queue := update t.queue k rest }

def enqueue (i : ι) (k : κ) : LockTable κ ι ο :=
  { t with
    task := update t.task i (some (k, .waiting))
    queue := update t.queue k (t.queue k ++ [i]) }

def release (k : κ) : LockTable κ ι ο :=
  { t with holder := update t.holder k none }

def step : LockOp κ ι ο → LockTable κ ι ο
  | .arrive i k => (t.enqueue i k).dispatch k
  | .suspend i => t.setPhase i .suspended
  | .resume i =>
    match t.task i with
    | some (_, .suspended) => t.setPhase i .running
    | _ => t
  | .finish i outcome =>
    match t.task i with
    | some (k, _) => ((t.setPhase i (.ended outcome)).release k).dispatch k
    | none => t

def SingleHolder : Prop :=
  ∀ i k p, t.task i = some (k, p) → p.Active → t.holder k = some i

def EndedStay (t t' : LockTable κ ι ο) : Prop :=
  ∀ i k outcome, t.task i = some (k, .ended outcome) → ∃ k', t'.task i = some (k', .ended outcome)

/-- Holders are active, and each queue lists the tasks that wait for its key. -/
structure Consistent (t : LockTable κ ι ο) : Prop where
  holds : t.SingleHolder
  held : ∀ k i, t.holder k = some i → ∃ p, t.task i = some (k, p) ∧ p.Active
  queued : ∀ k i, i ∈ t.queue k ↔ t.task i = some (k, .waiting)
  nodup : ∀ k, (t.queue k).Nodup

/-- The key `k` may be free with tasks waiting. -/
structure SoundBut (k : κ) (t : LockTable κ ι ο) : Prop extends Consistent t where
  idle : ∀ k', k' ≠ k → t.holder k' = none → t.queue k' = []

structure Sound (t : LockTable κ ι ο) : Prop extends Consistent t where
  idle : ∀ k, t.holder k = none → t.queue k = []

/-- Suspended while running, ended while holding the key, or ended again. -/
def InTurn : LockOp κ ι ο → Prop
  | .arrive _ _ => True
  | .suspend i => ∀ k p, t.task i = some (k, p) → p.Active
  | .resume _ => True
  | .finish i outcome => ∀ k p, t.task i = some (k, p) →
    p.Active ∨ p = .ended outcome ∧ t.holder k = none

def Fresh : LockOp κ ι ο → Prop
  | .arrive i _ => t.task i = none
  | _ => True

variable {t}

omit [DecidableEq κ] [DecidableEq ι] in
theorem Sound.soundBut (h : t.Sound) (k : κ) : t.SoundBut k :=
  ⟨h.toConsistent, fun k' _ => h.idle k'⟩

variable {i j : ι} {k : κ} {p : Phase ο}

omit [DecidableEq κ] [DecidableEq ι] in
theorem Sound.not_mem_queue (h : t.Sound)
    (hi : t.task i = some (k, p)) (hp : p ≠ .waiting) (k' : κ) : i ∉ t.queue k' := by
  intro hmem
  have hwaits := (h.queued k' i).mp hmem
  rw [hi] at hwaits
  cases hwaits
  exact hp rfl

omit [DecidableEq κ] in
theorem task_setPhase (i j : ι) (p : Phase ο) :
    (t.setPhase i p).task j = if j = i then (t.task i).map fun e => (e.1, p) else t.task j :=
  update_apply ..

/-! ### Handing a key on -/

def grant (t : LockTable κ ι ο) (k : κ) (i : ι) (rest : List ι) : LockTable κ ι ο :=
  { t.setPhase i .running with
    holder := update t.holder k (some i)
    queue := update t.queue k rest }

/-- Dispatch does nothing, or gives a free key to the first in its queue. -/
theorem dispatch_cases (t : LockTable κ ι ο) (k : κ) :
    ((t.holder k = none → t.queue k = []) ∧ t.dispatch k = t)
      ∨ ∃ i rest, t.holder k = none ∧ t.queue k = i :: rest
        ∧ t.dispatch k = t.grant k i rest := by
  rw [dispatch]
  split
  · next i hi => exact .inl ⟨fun hnone => (by rw [hi] at hnone; cases hnone), rfl⟩
  · next hnone =>
    split
    · next hempty => exact .inl ⟨fun _ => hempty, rfl⟩
    · next i rest hqueue => exact .inr ⟨i, rest, hnone, hqueue, rfl⟩

theorem SoundBut.grant (h : t.SoundBut k) {rest : List ι}
    (hnone : t.holder k = none) (hqueue : t.queue k = i :: rest) : (t.grant k i rest).Sound := by
  have hi : t.task i = some (k, .waiting) := (h.queued k i).mp (by simp [hqueue])
  have hrest := List.nodup_cons.mp (hqueue ▸ h.nodup k)
  have htask : ∀ j, (t.grant k i rest).task j = if j = i then some (k, .running) else t.task j := by
    intro j
    show (t.setPhase i .running).task j = _
    rw [task_setPhase, hi, Option.map_some]
  have hholder : ∀ k', (t.grant k i rest).holder k' = if k' = k then some i else t.holder k' :=
    fun k' => update_apply ..
  have hqueue' : ∀ k', (t.grant k i rest).queue k' = if k' = k then rest else t.queue k' :=
    fun k' => update_apply ..
  refine ⟨⟨?_, ?_, ?_, ?_⟩, ?_⟩
  · intro j k' p hj hp
    rw [htask] at hj
    rw [hholder]
    split at hj
    · next hji =>
      cases hj
      rw [if_pos rfl, hji]
    · -- another task that is active holds another key, as this one was free
      have hheld := h.holds j k' p hj hp
      rw [if_neg (fun hk => by rw [hk, hnone] at hheld; cases hheld)]
      exact hheld
  · intro k' j hj
    rw [hholder] at hj
    rw [htask]
    split at hj
    · next hk =>
      cases hj
      exact ⟨.running, by rw [if_pos rfl, hk], by simp⟩
    · obtain ⟨p, hp, hact⟩ := h.held k' j hj
      have hji : j ≠ i := by
        rintro rfl
        rw [hi] at hp
        cases hp
        exact Phase.not_active_waiting hact
      exact ⟨p, by rw [if_neg hji, hp], hact⟩
  · intro k' j
    rw [hqueue', htask]
    by_cases hji : j = i
    · subst hji
      rw [if_pos rfl]
      refine iff_of_false ?_ (by simp)
      split
      · exact hrest.1
      · next hk =>
        rw [h.queued, hi]
        simp [Ne.symm hk]
    · rw [if_neg hji]
      split
      · next hk =>
        rw [hk, ← h.queued k j, hqueue, List.mem_cons]
        simp [hji]
      · exact h.queued k' j
  · intro k'
    rw [hqueue']
    split
    · exact hrest.2
    · exact h.nodup k'
  · intro k'
    rw [hholder, hqueue']
    split
    · exact nofun
    · next hk => exact h.idle k' hk

theorem SoundBut.dispatch (h : t.SoundBut k) : (t.dispatch k).Sound := by
  rcases t.dispatch_cases k with ⟨hidle, hsame⟩ | ⟨i, rest, hnone, hqueue, hgrant⟩
  · rw [hsame]
    refine ⟨h.toConsistent, fun k' => ?_⟩
    by_cases hk : k' = k
    · exact hk ▸ hidle
    · exact h.idle k' hk
  · rw [hgrant]
    exact h.grant hnone hqueue

/-! ### Operations in turn -/

theorem Sound.enqueue (h : t.Sound) (hi : t.task i = none) (k : κ) :
    (t.enqueue i k).SoundBut k := by
  have htask : ∀ j, (t.enqueue i k).task j = if j = i then some (k, .waiting) else t.task j :=
    fun j => update_apply ..
  have hqueue : ∀ k', (t.enqueue i k).queue k'
      = if k' = k then t.queue k ++ [i] else t.queue k' := fun k' => update_apply ..
  have hnew : ∀ k', i ∉ t.queue k' := by
    intro k' hmem
    rw [h.queued, hi] at hmem
    cases hmem
  refine ⟨⟨?_, ?_, ?_, ?_⟩, ?_⟩
  · intro j k' p hj hp
    rw [htask] at hj
    split at hj
    · cases hj
      exact absurd hp Phase.not_active_waiting
    · exact h.holds j k' p hj hp
  · intro k' j hj
    obtain ⟨p, hp, hact⟩ := h.held k' j hj
    have hji : j ≠ i := by
      rintro rfl
      rw [hi] at hp
      cases hp
    exact ⟨p, by rw [htask, if_neg hji, hp], hact⟩
  · intro k' j
    rw [hqueue, htask]
    by_cases hji : j = i
    · subst hji
      rw [if_pos rfl]
      split
      · next hk => simp [hk]
      · next hk => exact iff_of_false (hnew k') (by simp [Ne.symm hk])
    · rw [if_neg hji, ← h.queued k' j]
      split
      · next hk => simp [hk, hji]
      · rfl
  · intro k'
    rw [hqueue]
    split
    · exact List.nodup_append.mpr ⟨h.nodup k, List.nodup_singleton i,
        fun a ha b hb => by rw [List.mem_singleton.mp hb]; rintro rfl; exact hnew k ha⟩
    · exact h.nodup k'
  · intro k' hk
    rw [hqueue, if_neg hk]
    exact h.idle k'

omit [DecidableEq κ] in
theorem Sound.setPhase_of_active (h : t.Sound) {q : Phase ο}
    (hi : t.task i = some (k, p)) (hp : p.Active) (hq : q.Active) : (t.setPhase i q).Sound := by
  have htask : ∀ j, (t.setPhase i q).task j = if j = i then some (k, q) else t.task j := by
    intro j
    rw [task_setPhase, hi, Option.map_some]
  refine ⟨⟨?_, ?_, ?_, h.nodup⟩, h.idle⟩
  · intro j k' p' hj hp'
    rw [htask] at hj
    split at hj
    · next hji =>
      cases hj
      exact hji ▸ h.holds i k p hi hp
    · exact h.holds j k' p' hj hp'
  · intro k' j hj
    rw [htask]
    split
    · next hji =>
      obtain ⟨p', hp', -⟩ := h.held k' j hj
      rw [hji, hi] at hp'
      cases hp'
      exact ⟨q, rfl, hq⟩
    · exact h.held k' j hj
  · intro k' j
    rw [htask, show (t.setPhase i q).queue = t.queue from rfl, h.queued]
    split
    · next hji =>
      refine iff_of_false ?_ ?_
      · rw [hji, hi]
        rintro ⟨⟩
        exact Phase.not_active_waiting hp
      · rintro ⟨⟩
        exact Phase.not_active_waiting hq
    · rfl

theorem Sound.finish_of_active (h : t.Sound)
    (hi : t.task i = some (k, p)) (hp : p.Active) (outcome : ο) :
    ((t.setPhase i (.ended outcome)).release k).SoundBut k := by
  have hholds := h.holds i k p hi hp
  have htask : ∀ j, ((t.setPhase i (.ended outcome)).release k).task j
      = if j = i then some (k, .ended outcome) else t.task j := by
    intro j
    show (t.setPhase i (.ended outcome)).task j = _
    rw [task_setPhase, hi, Option.map_some]
  have hholder : ∀ k', ((t.setPhase i (.ended outcome)).release k).holder k'
      = if k' = k then none else t.holder k' := fun k' => update_apply ..
  refine ⟨⟨?_, ?_, ?_, h.nodup⟩, ?_⟩
  · intro j k' q hj hq
    rw [htask] at hj
    split at hj
    · cases hj
      exact absurd hq (Phase.not_active_ended outcome)
    · next hji =>
      have hheld := h.holds j k' q hj hq
      rw [hholder, if_neg, hheld]
      rintro rfl
      exact hji (Option.some.inj (hheld.symm.trans hholds))
  · intro k' j hj
    rw [hholder] at hj
    split at hj
    · cases hj
    · next hk =>
      obtain ⟨q, hq, hact⟩ := h.held k' j hj
      have hji : j ≠ i := by
        rintro rfl
        rw [hi] at hq
        cases hq
        exact hk rfl
      exact ⟨q, by rw [htask, if_neg hji, hq], hact⟩
  · intro k' j
    rw [htask]
    show j ∈ t.queue k' ↔ _
    rw [h.queued]
    split
    · next hji =>
      refine iff_of_false ?_ nofun
      rw [hji, hi]
      rintro ⟨⟩
      exact Phase.not_active_waiting hp
    · rfl
  · intro k' hk hnone
    rw [hholder, if_neg hk] at hnone
    exact h.idle k' hnone

theorem Sound.finish_again (h : t.Sound) {outcome : ο}
    (hi : t.task i = some (k, .ended outcome)) (hk : t.holder k = none) :
    ((t.setPhase i (.ended outcome)).release k).SoundBut k := by
  have hsame : (t.setPhase i (.ended outcome)).release k = t := by
    have htask : update t.task i ((t.task i).map fun e => (e.1, .ended outcome))
        = t.task := by
      rw [hi]
      exact update_eq_self_iff.mpr hi.symm
    have hholder : update t.holder k none = t.holder :=
      update_eq_self_iff.mpr hk.symm
    simp only [release, setPhase, htask, hholder]
  rw [hsame]
  exact h.soundBut k

variable {op : LockOp κ ι ο}

/-- **Operations in turn keep agreement.** -/
theorem Sound.step (h : t.Sound) (hfresh : t.Fresh op) (hturn : t.InTurn op) :
    (t.step op).Sound := by
  cases op with
  | arrive i k => exact (h.enqueue hfresh k).dispatch
  | suspend i =>
    cases hi : t.task i with
    | none =>
      have hsame : t.setPhase i .suspended = t := by
        simp only [setPhase, hi, Option.map_none]
        rw [← hi, update_eq_self]
      show (t.setPhase i .suspended).Sound
      rwa [hsame]
    | some e => exact h.setPhase_of_active hi (hturn e.1 e.2 hi) Phase.active_suspended
  | resume i =>
    rw [LockTable.step]
    split
    · next k hi => exact h.setPhase_of_active hi Phase.active_suspended Phase.active_running
    · exact h
  | finish i outcome =>
    rw [LockTable.step]
    split
    · next k p hi =>
      rcases hturn k p hi with hp | ⟨rfl, hk⟩
      · exact (h.finish_of_active hi hp outcome).dispatch
      · exact (h.finish_again hi hk).dispatch
    · exact h

/-! ### Operations out of turn -/

theorem task_dispatch_of_not_mem (hj : j ∉ t.queue k) : (t.dispatch k).task j = t.task j := by
  rcases t.dispatch_cases k with ⟨-, hsame⟩ | ⟨i, rest, -, hqueue, heq⟩
  · rw [hsame]
  · rw [heq]
    show (t.setPhase i .running).task j = _
    rw [task_setPhase, if_neg]
    rintro rfl
    exact hj (by simp [hqueue])

theorem holder_dispatch (hk : t.holder k = none) : (t.dispatch k).holder k = (t.queue k).head? := by
  rcases t.dispatch_cases k with ⟨hidle, hsame⟩ | ⟨i, rest, -, hqueue, heq⟩
  · rw [hsame, hk, hidle hk, List.head?_nil]
  · rw [heq, hqueue, List.head?_cons]
    exact update_self ..

theorem step_finish (hi : t.task i = some (k, p)) (outcome : ο) :
    t.step (.finish i outcome) = ((t.setPhase i (.ended outcome)).release k).dispatch k := by
  rw [LockTable.step, hi]

theorem task_step_finish (hi : t.task i = some (k, p)) (hj : j ∉ t.queue k) (outcome : ο) :
    (t.step (.finish i outcome)).task j
      = if j = i then some (k, .ended outcome) else t.task j := by
  have hsame := task_dispatch_of_not_mem (t := (t.setPhase i (.ended outcome)).release k) hj
  rw [step_finish hi, hsame]
  show (t.setPhase i (.ended outcome)).task j = _
  rw [task_setPhase, hi, Option.map_some]

theorem Sound.not_singleHolder_finish (h : t.Sound)
    (hi : t.task i = some (k, p)) (hk : t.holder k = some j) (hji : j ≠ i) (outcome : ο) :
    ¬ (t.step (.finish i outcome)).SingleHolder := by
  intro hsingle
  obtain ⟨q, hj, hq⟩ := h.held k j hk
  have hnot := h.not_mem_queue hj hq.ne_waiting k
  have hj' : (t.step (.finish i outcome)).task j = some (k, q) := by
    rw [task_step_finish hi hnot, if_neg hji, hj]
  have hholder := hsingle j k q hj' hq
  rw [step_finish hi, holder_dispatch (update_self ..)] at hholder
  exact hnot (List.mem_of_mem_head? hholder)

theorem Sound.task_finish (h : t.Sound) (hi : t.task i = some (k, p))
    (hp : p ≠ .waiting) (outcome : ο) :
    (t.step (.finish i outcome)).task i = some (k, .ended outcome) := by
  rw [task_step_finish hi (h.not_mem_queue hi hp k), if_pos rfl]

theorem Sound.endedStay (h : t.Sound) (hfresh : t.Fresh op)
    (hturn : t.InTurn op) : t.EndedStay (t.step op) := by
  intro j k outcome hj
  have hnot : ∀ k', j ∉ t.queue k' := h.not_mem_queue hj nofun
  cases op with
  | arrive i k' =>
    have hji : j ≠ i := by
      rintro rfl
      rw [Fresh, hj] at hfresh
      cases hfresh
    have hnot' : j ∉ (t.enqueue i k').queue k' := by
      show j ∉ update t.queue k' (t.queue k' ++ [i]) k'
      rw [update_self, List.mem_append, List.mem_singleton]
      exact fun hmem => hmem.elim (hnot k') hji
    refine ⟨k, ?_⟩
    rw [LockTable.step, task_dispatch_of_not_mem hnot']
    exact (update_of_ne hji ..).trans hj
  | suspend i =>
    have hji : j ≠ i := by
      rintro rfl
      exact Phase.not_active_ended outcome (hturn k _ hj)
    exact ⟨k, by rw [LockTable.step, task_setPhase, if_neg hji, hj]⟩
  | resume i =>
    refine ⟨k, ?_⟩
    rw [LockTable.step]
    split
    · next k' hi =>
      rw [task_setPhase, if_neg, hj]
      rintro rfl
      rw [hi] at hj
      cases hj
    · exact hj
  | finish i outcome' =>
    refine ⟨k, ?_⟩
    by_cases hji : j = i
    · subst hji
      rcases hturn k _ hj with hact | ⟨heq, -⟩
      · exact absurd hact (Phase.not_active_ended outcome)
      · rw [h.task_finish hj nofun, heq]
    · cases hi : t.task i with
      | none => rwa [LockTable.step, hi]
      | some e =>
        rw [task_step_finish hi (hnot e.1), if_neg hji, hj]

/-- **Exactness.** An operation breaks the discipline iff it did not come in turn. -/
theorem Sound.step_iff (h : t.Sound) (hfresh : t.Fresh op) :
    (t.step op).SingleHolder ∧ t.EndedStay (t.step op) ↔ t.InTurn op := by
  refine ⟨?_, fun hturn => ⟨(h.step hfresh hturn).holds, h.endedStay hfresh hturn⟩⟩
  rintro ⟨hsingle, hstay⟩
  cases op with
  | arrive i k => trivial
  | suspend i =>
    intro k p hi
    have hi' : (t.step (.suspend i)).task i = some (k, .suspended) := by
      rw [LockTable.step, task_setPhase, if_pos rfl, hi, Option.map_some]
    cases p with
    | running | suspended => simp
    | waiting =>
      obtain ⟨p, hp, hact⟩ := h.held k i (hsingle i k _ hi' Phase.active_suspended)
      rw [hi] at hp
      cases hp
      exact absurd hact Phase.not_active_waiting
    | ended outcome =>
      obtain ⟨k', hstays⟩ := hstay i k outcome hi
      rw [hi'] at hstays
      cases hstays
  | resume i => trivial
  | finish i outcome =>
    intro k p hi
    by_contra hout
    obtain ⟨hinactive, hkept⟩ := not_or.mp hout
    have hfree : t.holder k = none := by
      cases hk : t.holder k with
      | none => rfl
      | some j =>
        refine absurd hsingle (h.not_singleHolder_finish hi hk ?_ outcome)
        rintro rfl
        obtain ⟨q, hq, hact⟩ := h.held k j hk
        rw [hi] at hq
        cases hq
        exact hinactive hact
    cases p with
    | running => exact hinactive Phase.active_running
    | suspended => exact hinactive Phase.active_suspended
    | waiting =>
      -- nobody waits for a free key
      have hmem := (h.queued k i).mpr hi
      rw [h.idle k hfree] at hmem
      cases hmem
    | ended outcome' =>
      obtain ⟨k', hstays⟩ := hstay i k outcome' hi
      rw [h.task_finish hi nofun] at hstays
      cases hstays
      exact hkept ⟨rfl, hfree⟩

/-! ### Which tasks there are -/

omit [DecidableEq κ] in
theorem task_setPhase_eq_none : (t.setPhase i p).task j = none ↔ t.task j = none := by
  rw [task_setPhase]
  split
  · next hji => rw [Option.map_eq_none_iff, hji]
  · rfl

theorem task_dispatch_eq_none : (t.dispatch k).task j = none ↔ t.task j = none := by
  rcases t.dispatch_cases k with ⟨-, hsame⟩ | ⟨i, rest, -, -, heq⟩
  · rw [hsame]
  · rw [heq]
    exact task_setPhase_eq_none

theorem task_step_eq_none (hop : ∀ k, op ≠ .arrive j k) :
    (t.step op).task j = none ↔ t.task j = none := by
  cases op with
  | arrive i k =>
    have hji : j ≠ i := fun hji => hop k (by rw [hji])
    rw [LockTable.step, task_dispatch_eq_none, enqueue]
    simp only [update_of_ne hji]
  | suspend i => exact task_setPhase_eq_none
  | resume i =>
    rw [LockTable.step]
    split
    · exact task_setPhase_eq_none
    · rfl
  | finish i outcome =>
    rw [LockTable.step]
    split
    · rw [task_dispatch_eq_none]
      exact task_setPhase_eq_none
    · rfl

end LockTable

end Velocity.Lib
