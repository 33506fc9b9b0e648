import Velocity.Objects.Runtime

namespace Velocity.Objects

open Lib HandlerState

/-!
# One writer per object

Calls that suspend, complete or fail take any known id, whatever its state.
-/

def HandlerState.Active (s : HandlerState) : Prop := s = .running ∨ s = .suspended

instance (s : HandlerState) : Decidable s.Active := inferInstanceAs (Decidable (_ ∨ _))

def HandlerState.Ended (s : HandlerState) : Prop := s = .completed ∨ s = .failed

theorem HandlerState.active_phase (s : HandlerState) : s.phase.Active ↔ s.Active := by
  cases s <;> simp [phase, Active]

theorem HandlerState.phase_injective : Function.Injective phase := by
  intro s s' h
  cases s <;> cases s' <;> simp_all [phase]

theorem HandlerState.ended_iff
    (s : HandlerState) : s.Ended ↔ ∃ outcome, s.phase = .ended outcome := by
  cases s <;> simp [phase, Ended]

namespace VirtualObjectRuntime

variable (r : VirtualObjectRuntime)

/-- At most one active invocation per object, which holds the lock. -/
def SingleWriter : Prop :=
  (∀ i j inv inv', r.invocations.lookup i = some inv → r.invocations.lookup j = some inv' →
      inv.target = inv'.target → inv.state.Active → inv'.state.Active → i = j)
    ∧ ∀ i inv, r.invocations.lookup i = some inv → inv.state.Active →
      r.keyLocks.lookup inv.target.fullKey = some i

/-- Ended invocations stay, with their state. -/
def EndedStay (r r' : VirtualObjectRuntime) : Prop :=
  ∀ i inv, r.invocations.lookup i = some inv → inv.state.Ended →
    ∃ inv', r'.invocations.lookup i = some inv' ∧ inv'.state = inv.state

/-- The invocation has its key, or ends again while it is not locked. -/
def InTurn : ObjectOp → Prop
  | .suspendInvocation i => ∀ inv, r.invocations.lookup i = some inv → inv.state.Active
  | .completeInvocation i _ => ∀ inv, r.invocations.lookup i = some inv →
    inv.state.Active ∨ inv.state = .completed ∧ r.keyLocks.lookup inv.target.fullKey = none
  | .failInvocation i _ => ∀ inv, r.invocations.lookup i = some inv →
    inv.state.Active ∨ inv.state = .failed ∧ r.keyLocks.lookup inv.target.fullKey = none
  | _ => True

/-- An invocation that is made gets an id that no other has. -/
def FreshId : ObjectOp → Prop
  | .invoke target handlerName _ idempotencyKey =>
    r.invokes target.objectType handlerName idempotencyKey = true →
      r.invocations.lookup r.nextInvocationId = none
  | _ => True

instance (r : VirtualObjectRuntime) (op : ObjectOp) : Decidable (r.FreshId op) := by
  unfold FreshId
  split <;> infer_instance

variable {r} {r' : VirtualObjectRuntime}

theorem task_locks {i : UInt64} {k : String} {p : Phase Outcome} :
    r.locks.task i = some (k, p)
      ↔ ∃ inv, r.invocations.lookup i = some inv ∧ inv.target.fullKey = k ∧ inv.state.phase = p := by
  simp [locks, Option.map_eq_some_iff]

theorem singleWriter_iff_singleHolder : r.SingleWriter ↔ r.locks.SingleHolder := by
  constructor
  · rintro ⟨-, hlock⟩ i k p hi hp
    obtain ⟨inv, hinv, rfl, rfl⟩ := task_locks.mp hi
    exact hlock i inv hinv ((active_phase _).mp hp)
  · intro hsingle
    have hlock : ∀ i inv, r.invocations.lookup i = some inv → inv.state.Active →
        r.keyLocks.lookup inv.target.fullKey = some i := fun i inv hinv hact =>
      hsingle i _ _ (task_locks.mpr ⟨inv, hinv, rfl, rfl⟩) ((active_phase _).mpr hact)
    refine ⟨fun i j inv inv' hinv hinv' htarget hact hact' => ?_, hlock⟩
    have hi := hlock i inv hinv hact
    rw [htarget, hlock j inv' hinv' hact'] at hi
    exact (Option.some.inj hi).symm

theorem endedStay_iff : r.EndedStay r' ↔ r.locks.EndedStay r'.locks := by
  constructor
  · intro hstay i k outcome hi
    obtain ⟨inv, hinv, -, hphase⟩ := task_locks.mp hi
    obtain ⟨inv', hinv', hstate⟩ :=
      hstay i inv hinv ((ended_iff _).mpr ⟨outcome, hphase⟩)
    exact ⟨_, task_locks.mpr ⟨inv', hinv', rfl, hstate ▸ hphase⟩⟩
  · intro hstay i inv hinv hended
    obtain ⟨outcome, hphase⟩ := (ended_iff _).mp hended
    obtain ⟨k, hk⟩ := hstay i _ outcome (task_locks.mpr ⟨inv, hinv, rfl, hphase⟩)
    obtain ⟨inv', hinv', -, hphase'⟩ := task_locks.mp hk
    exact ⟨inv', hinv', phase_injective (hphase'.trans hphase.symm)⟩

variable {lockOp : LockOp String UInt64 Outcome}

theorem settleOp_cases {awakeableId : String}
    (h : r.settleOp awakeableId = some lockOp) : ∃ i, lockOp = .resume i := by
  rw [settleOp] at h
  split at h
  · next awk _ =>
    split at h
    · cases h
    · exact ⟨awk.ownerInvocationId, (Option.some.inj h).symm⟩
  · cases h

theorem invoke_lockOp_cases {target : ObjectKey} {handlerName : String} {input : Bytes}
    {idempotencyKey : Option String}
    (h : r.lockOp (.invoke target handlerName input idempotencyKey) = some lockOp) :
    r.invokes target.objectType handlerName idempotencyKey = true
      ∧ lockOp = .arrive r.nextInvocationId target.fullKey := by
  rw [VirtualObjectRuntime.lockOp] at h
  split at h
  · next hinvokes => exact ⟨hinvokes, (Option.some.inj h).symm⟩
  · cases h

theorem inTurn_finish_iff (i : UInt64) {state : HandlerState} {outcome : Outcome}
    (hstate : state.phase = .ended outcome) :
    (∀ inv, r.invocations.lookup i = some inv →
        inv.state.Active ∨ inv.state = state ∧ r.keyLocks.lookup inv.target.fullKey = none)
      ↔ r.locks.InTurn (.finish i outcome) := by
  constructor
  · intro h k p hi
    obtain ⟨inv, hinv, rfl, rfl⟩ := task_locks.mp hi
    refine (h inv hinv).imp (active_phase _).mpr ?_
    rintro ⟨heq, hfree⟩
    exact ⟨heq ▸ hstate, hfree⟩
  · intro h inv hinv
    refine (h _ _ (task_locks.mpr ⟨inv, hinv, rfl, rfl⟩)).imp (active_phase _).mp ?_
    rintro ⟨heq, hfree⟩
    exact ⟨phase_injective (heq.trans hstate.symm), hfree⟩

theorem inTurn_iff (op : ObjectOp) :
    r.InTurn op ↔ ∀ lockOp, r.lockOp op = some lockOp → r.locks.InTurn lockOp := by
  cases op with
  | invoke target handlerName input idempotencyKey =>
    refine iff_of_true trivial fun lockOp hop => ?_
    obtain ⟨-, rfl⟩ := invoke_lockOp_cases hop
    trivial
  | suspendInvocation i =>
    simp only [VirtualObjectRuntime.lockOp, Option.some.injEq, forall_eq']
    constructor
    · intro h k p hi
      obtain ⟨inv, hinv, rfl, rfl⟩ := task_locks.mp hi
      exact (active_phase _).mpr (h inv hinv)
    · intro h inv hinv
      exact (active_phase _).mp (h _ _ (task_locks.mpr ⟨inv, hinv, rfl, rfl⟩))
  | completeInvocation i output | failInvocation i error =>
    simp only [VirtualObjectRuntime.lockOp, Option.some.injEq, forall_eq']
    exact inTurn_finish_iff i rfl
  | resumeInvocation i =>
    refine iff_of_true trivial fun lockOp hop => ?_
    cases hop
    trivial
  | resolveAwakeable awakeableId value | rejectAwakeable awakeableId error =>
    refine iff_of_true trivial fun lockOp hop => ?_
    obtain ⟨i, rfl⟩ := settleOp_cases hop
    trivial
  | registerObjectType typeName handlers | stateSet target stateKey value
  | stateClear target stateKey | createAwakeable i =>
    exact iff_of_true trivial fun _ hop => by cases hop

variable {op : ObjectOp}

theorem FreshId.fresh (h : r.FreshId op)
    (hop : r.lockOp op = some lockOp) : r.locks.Fresh lockOp := by
  cases lockOp with
  | arrive i k =>
    cases op with
    | invoke target handlerName input idempotencyKey =>
      obtain ⟨hinvokes, heq⟩ := invoke_lockOp_cases hop
      cases heq
      show (r.invocations.lookup r.nextInvocationId).map _ = none
      rw [h hinvokes, Option.map_none]
    | resolveAwakeable awakeableId value | rejectAwakeable awakeableId error =>
      obtain ⟨i, heq⟩ := settleOp_cases hop
      cases heq
    | _ => cases hop
  | suspend i | resume i | finish i outcome => trivial

theorem sound_apply (h : r.locks.Sound) (hfresh : r.FreshId op)
    (hturn : r.InTurn op) : (r.apply op).locks.Sound := by
  rw [locks_apply]
  cases hop : r.lockOp op with
  | none => exact h
  | some lockOp => exact h.step (hfresh.fresh hop) ((inTurn_iff op).mp hturn _ hop)

theorem singleWriter_apply_iff (h : r.locks.Sound) (hfresh : r.FreshId op) :
    (r.apply op).SingleWriter ∧ r.EndedStay (r.apply op) ↔ r.InTurn op := by
  rw [singleWriter_iff_singleHolder, endedStay_iff, locks_apply, inTurn_iff]
  cases hop : r.lockOp op with
  | none => exact iff_of_true ⟨h.holds, fun _ k _ hi => ⟨k, hi⟩⟩ nofun
  | some lockOp =>
    simp only [Option.some.injEq, forall_eq']
    exact h.step_iff (hfresh.fresh hop)

theorem sound_new : VirtualObjectRuntime.new.locks.Sound := by
  refine ⟨⟨?_, ?_, ?_, ?_⟩, ?_⟩ <;> simp [new, locks, LockTable.SingleHolder]

/-! ### Invocation ids -/

def IdsBelow (r : VirtualObjectRuntime) : Prop :=
  ∀ i, r.locks.task i ≠ none → i < r.nextInvocationId

@[simp] theorem nextInvocationId_tryDispatch (k : String) :
    (r.tryDispatch k).nextInvocationId = r.nextInvocationId := by
  rw [tryDispatch]
  split
  · rfl
  · split <;> rfl

@[simp] theorem nextInvocationId_endInvocation (i : UInt64)
    (f : HandlerInvocation → HandlerInvocation) :
    (r.endInvocation i f).2.nextInvocationId = r.nextInvocationId := by
  rw [endInvocation]
  split
  · rfl
  · exact nextInvocationId_tryDispatch _

@[simp] theorem nextInvocationId_wake (i : UInt64) :
    (r.wake i).nextInvocationId = r.nextInvocationId := by
  rw [wake]
  split
  · split <;> rfl
  · rfl

@[simp] theorem nextInvocationId_settleAwakeable (awakeableId : String)
    (f : Awakeable → Awakeable) :
    (r.settleAwakeable awakeableId f).2.nextInvocationId = r.nextInvocationId := by
  rw [settleAwakeable]
  split
  · rfl
  · split
    · rfl
    · exact nextInvocationId_wake _

theorem nextInvocationId_apply (op : ObjectOp) :
    (∃ k, r.lockOp op = some (.arrive r.nextInvocationId k)
        ∧ (r.apply op).nextInvocationId = r.nextInvocationId + 1)
      ∨ (∀ i k, r.lockOp op ≠ some (.arrive i k))
        ∧ (r.apply op).nextInvocationId = r.nextInvocationId := by
  cases op with
  | invoke target handlerName input idempotencyKey =>
    rw [VirtualObjectRuntime.lockOp, apply, invoke_snd]
    split
    · exact .inl ⟨_, rfl, nextInvocationId_tryDispatch _⟩
    · exact .inr ⟨fun _ _ hop => (by cases hop), rfl⟩
  | registerObjectType typeName handlers => exact .inr ⟨fun _ _ hop => (by cases hop), rfl⟩
  | stateSet target stateKey value =>
    refine .inr ⟨fun _ _ hop => (by cases hop), ?_⟩
    rw [apply, stateSet, changeState]
    split <;> rfl
  | stateClear target stateKey =>
    refine .inr ⟨fun _ _ hop => (by cases hop), ?_⟩
    rw [apply, stateClear, changeState]
    split <;> rfl
  | completeInvocation i output | failInvocation i error =>
    exact .inr ⟨fun _ _ hop => (by cases hop), nextInvocationId_endInvocation i _⟩
  | suspendInvocation i =>
    refine .inr ⟨fun _ _ hop => (by cases hop), ?_⟩
    rw [apply, suspendInvocation]
    split <;> rfl
  | resumeInvocation i =>
    refine .inr ⟨fun _ _ hop => (by cases hop), ?_⟩
    rw [apply, resumeInvocation_snd, nextInvocationId_wake]
  | createAwakeable i =>
    refine .inr ⟨fun _ _ hop => (by cases hop), ?_⟩
    rw [apply, createAwakeable]
    split <;> rfl
  | resolveAwakeable awakeableId value | rejectAwakeable awakeableId error =>
    refine .inr ⟨fun i k hop => ?_, nextInvocationId_settleAwakeable awakeableId _⟩
    obtain ⟨j, heq⟩ := settleOp_cases hop
    cases heq

theorem IdsBelow.apply (h : r.IdsBelow) (hnext : r.nextInvocationId.toNat + 1 < 2 ^ 64)
    (op : ObjectOp) : (r.apply op).IdsBelow := by
  have hsucc : (r.nextInvocationId + 1).toNat = r.nextInvocationId.toNat + 1 := by
    rw [UInt64.toNat_add, UInt64.toNat_one, Nat.mod_eq_of_lt hnext]
  intro i hi
  rw [locks_apply] at hi
  rcases nextInvocationId_apply (r := r) op with ⟨k, hop, hid⟩ | ⟨hop, hid⟩
  · rw [hid, UInt64.lt_iff_toNat_lt, hsucc]
    by_cases hnew : i = r.nextInvocationId
    · rw [hnew]
      omega
    · rw [hop, Option.elim_some, Ne, LockTable.task_step_eq_none (by simp [Ne.symm hnew])] at hi
      exact Nat.lt_succ_of_lt (UInt64.lt_iff_toNat_lt.mp (h i hi))
  · rw [hid]
    cases hlock : r.lockOp op with
    | none =>
      rw [hlock, Option.elim_none] at hi
      exact h i hi
    | some lockOp =>
      rw [hlock, Option.elim_some, Ne, LockTable.task_step_eq_none] at hi
      · exact h i hi
      · rintro k rfl
        exact hop i k hlock

end VirtualObjectRuntime

open VirtualObjectRuntime

/-- **One writer per object**, and ended invocations stay ended, iff every call comes in turn. -/
theorem singleWriter_iff (ops : List ObjectOp)
    (hfresh : StepsMeet apply FreshId VirtualObjectRuntime.new ops) :
    ((∀ ps, ps <+: ops → (VirtualObjectRuntime.new.run ps).SingleWriter)
        ∧ ∀ ps op, ps ++ [op] <+: ops →
          (VirtualObjectRuntime.new.run ps).EndedStay ((VirtualObjectRuntime.new.run ps).apply op))
      ↔ StepsMeet apply InTurn VirtualObjectRuntime.new ops := by
  rw [← stepsMeet_iff_stepsMeet (I := fun r => r.locks.Sound)
    (P := fun r op => (r.apply op).SingleWriter ∧ r.EndedStay (r.apply op))
    (fun _ _ h hfresh hturn => sound_apply h hfresh hturn)
    (fun _ _ h hfresh => singleWriter_apply_iff h hfresh) sound_new hfresh,
    stepsMeet_iff_prefixes]
  constructor
  · rintro ⟨hsingle, hstay⟩ ps op hpre
    refine ⟨?_, hstay ps op hpre⟩
    have := hsingle _ hpre
    rwa [run, List.foldl_append] at this
  · intro hall
    refine ⟨fun ps hpre => ?_, fun ps op hpre => (hall ps op hpre).2⟩
    rcases List.eq_nil_or_concat' ps with rfl | ⟨qs, op, rfl⟩
    · exact singleWriter_iff_singleHolder.mpr sound_new.holds
    · rw [run, List.foldl_append]
      exact (hall qs op hpre).1

/-- The first is suspended in between and completed twice. -/
def inSequence : List ObjectOp :=
  [.registerObjectType "Cart" [⟨"checkout", .workflow, none, none⟩],
   .invoke ⟨"Cart", "a"⟩ "checkout" [] none, .invoke ⟨"Cart", "a"⟩ "checkout" [] none,
   .suspendInvocation 1, .resumeInvocation 1, .completeInvocation 1 [],
   .completeInvocation 2 [], .completeInvocation 1 []]

theorem singleWriter_iff_inSequence :
    ((∀ ps, ps <+: inSequence → (VirtualObjectRuntime.new.run ps).SingleWriter)
        ∧ ∀ ps op, ps ++ [op] <+: inSequence →
          (VirtualObjectRuntime.new.run ps).EndedStay ((VirtualObjectRuntime.new.run ps).apply op))
      ↔ StepsMeet apply InTurn VirtualObjectRuntime.new inSequence :=
  singleWriter_iff inSequence (by decide +kernel)

theorem suspended_while_queued :
    let r := VirtualObjectRuntime.new.run
      [.registerObjectType "Cart" [⟨"checkout", .workflow, none, none⟩],
       .invoke ⟨"Cart", "a"⟩ "checkout" [] none, .invoke ⟨"Cart", "a"⟩ "checkout" [] none,
       .suspendInvocation 2]
    (r.invocations.lookup 1).map (·.state) = some .running
      ∧ (r.invocations.lookup 2).map (·.state) = some .suspended
      ∧ r.keyLocks.lookup "Cart/a" = some 1 := by
  decide +kernel

end Velocity.Objects
