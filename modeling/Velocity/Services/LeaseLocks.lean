import Mathlib.Data.UInt
import Mathlib.Logic.Function.Basic
import Velocity.Lib.Run

namespace Velocity

open Lib

/-!
# Lease locks

`LockManager` over a clock that only moves forward, with a log of its grants.
-/

structure DistributedLock where
  resourceId : String
  owner : String
  fencingToken : UInt64
  acquiredAt : Nat
  ttl : Nat

@[grind] def DistributedLock.isExpired (lock : DistributedLock) (now : Nat) : Bool :=
  now - lock.acquiredAt > lock.ttl

inductive LockError where
  | alreadyLocked (resourceId : String)
  | notFound (resourceId : String)
  | notOwner (resourceId : String)

structure LockManager where
  locks : String → Option DistributedLock
  nextToken : UInt64

namespace LockManager

def new : LockManager := ⟨fun _ => none, 1⟩

variable (m : LockManager)

def acquire (checked now : Nat) (resourceId owner : String) (ttl : Nat) :
    Except LockError DistributedLock × LockManager :=
  if (m.locks resourceId).any fun lock => !lock.isExpired checked && lock.owner != owner then
    (.error (.alreadyLocked resourceId), m)
  else
    let lock := ⟨resourceId, owner, m.nextToken, now, ttl⟩
    (.ok lock, ⟨Function.update m.locks resourceId (some lock), m.nextToken + 1⟩)

def release (resourceId owner : String) : Except LockError Unit × LockManager :=
  match m.locks resourceId with
  | none => (.error (.notFound resourceId), m)
  | some lock =>
    if lock.owner ≠ owner then (.error (.notOwner resourceId), m)
    else (.ok (), { m with locks := Function.update m.locks resourceId none })

def renew (now : Nat) (resourceId owner : String) (newTtl : Nat) :
    Except LockError UInt64 × LockManager :=
  match m.locks resourceId with
  | none => (.error (.notFound resourceId), m)
  | some lock =>
    if lock.owner ≠ owner then (.error (.notOwner resourceId), m)
    else
      let lock := { lock with acquiredAt := now, ttl := newTtl }
      (.ok lock.fencingToken, { m with locks := Function.update m.locks resourceId (some lock) })

def cleanupExpired (now : Nat) : LockManager :=
  { m with locks := fun resourceId => (m.locks resourceId).filter (!·.isExpired now) }

end LockManager

inductive LockOp where
  | acquire (wait taken : Nat) (resourceId owner : String) (ttl : Nat)
  | renew (wait : Nat) (resourceId owner : String) (ttl : Nat)
  | release (wait : Nat) (resourceId owner : String)
  | cleanupExpired (wait : Nat)

inductive LockEvent where
  | granted (resourceId owner : String) (token : UInt64) (time ttl : Nat)
  | renewed (resourceId owner : String) (time ttl : Nat)
  | released (resourceId owner : String)

structure LockSystem where
  manager : LockManager
  clock : Nat
  log : List LockEvent

namespace LockSystem

def start (clock : Nat) : LockSystem := ⟨.new, clock, []⟩

def step (s : LockSystem) : LockOp → LockSystem
  | .acquire wait taken resourceId owner ttl =>
    let now := s.clock + wait + taken
    match s.manager.acquire (s.clock + wait) now resourceId owner ttl with
    | (.ok lock, m) => ⟨m, now, .granted resourceId owner lock.fencingToken now ttl :: s.log⟩
    | (.error _, m) => ⟨m, now, s.log⟩
  | .renew wait resourceId owner ttl =>
    match s.manager.renew (s.clock + wait) resourceId owner ttl with
    | (.ok _, m) => ⟨m, s.clock + wait, .renewed resourceId owner (s.clock + wait) ttl :: s.log⟩
    | (.error _, m) => ⟨m, s.clock + wait, s.log⟩
  | .release wait resourceId owner =>
    match s.manager.release resourceId owner with
    | (.ok _, m) => ⟨m, s.clock + wait, .released resourceId owner :: s.log⟩
    | (.error _, m) => ⟨m, s.clock + wait, s.log⟩
  | .cleanupExpired wait =>
    ⟨s.manager.cleanupExpired (s.clock + wait), s.clock + wait, s.log⟩

end LockSystem

@[grind] def pending (r o : String) : List LockEvent → Option (Nat × Nat)
  | [] => none
  | .granted r' o' _ time ttl :: log | .renewed r' o' time ttl :: log =>
    if r' = r ∧ o' = o then some (time, ttl) else pending r o log
  | .released r' o' :: log => if r' = r ∧ o' = o then none else pending r o log

/-- A grant finds other leases released or expired, and smaller tokens. -/
def Exclusive (log : List LockEvent) : Prop :=
  ∀ r o token time ttl earlier, .granted r o token time ttl :: earlier <:+ log →
    (∀ o' ≠ o, ∀ lease, pending r o' earlier = some lease → lease.1 + lease.2 < time)
      ∧ ∀ o' token' time' ttl', .granted r o' token' time' ttl' ∈ earlier → token' < token

def LockOp.acquires : LockOp → Nat
  | .acquire .. => 1
  | _ => 0

namespace LockSystem

/-- A lease not given back is in the table or has expired. -/
structure Kept (s : LockSystem) (n : Nat) : Prop where
  leases : ∀ r o lease, pending r o s.log = some lease →
    (∃ lock, s.manager.locks r = some lock ∧ lock.owner = o
      ∧ (lock.acquiredAt, lock.ttl) = lease) ∨ lease.1 + lease.2 < s.clock
  next : s.manager.nextToken = UInt64.ofNat n
  tokens : ∀ r o token time ttl, .granted r o token time ttl ∈ s.log → token.toNat < n
  exclusive : Exclusive s.log

variable {s : LockSystem} {n : Nat}

theorem Kept.acquire (h : s.Kept n) (hn : n < 2 ^ 64) (wait taken : Nat) (r o : String)
    (ttl : Nat) : ∃ n' ≤ n + 1, (s.step (.acquire wait taken r o ttl)).Kept n' := by
  obtain ⟨hleases, hnext, htokens, hexclusive⟩ := h
  simp only [step, LockManager.acquire]
  split
  · next heq =>
    split at heq
    · cases heq
    · next hfree =>
      cases heq
      have hothers : ∀ o' ≠ o, ∀ lease, pending r o' s.log = some lease →
          lease.1 + lease.2 < s.clock + wait + taken := by
        cases hlock : s.manager.locks r <;> grind
      refine ⟨n + 1, le_rfl, fun r' o' lease hlease => ?_, by simp [hnext], ?_, ?_⟩
      · by_cases hsame : r = r' ∧ o = o'
        · obtain ⟨rfl, rfl⟩ := hsame
          exact .inl ⟨_, Function.update_self .., rfl, by simpa [pending] using hlease⟩
        · grind [Function.update_apply]
      · have hn : (UInt64.ofNat n).toNat = n := UInt64.toNat_ofNat_of_lt' hn
        grind
      · intro r' o' token time ttl earlier hsuffix
        rcases List.suffix_cons_iff.mp hsuffix with heq | hsuffix
        · cases heq
          refine ⟨hothers, fun o' token' _ _ hmem => UInt64.lt_iff_toNat_lt.mpr ?_⟩
          rw [hnext, UInt64.toNat_ofNat_of_lt' hn]
          exact htokens _ _ _ _ _ hmem
        · exact hexclusive _ _ _ _ _ _ hsuffix
  · next heq =>
    split at heq
    · cases heq
      exact ⟨n, by omega, by grind, hnext, htokens, hexclusive⟩
    · cases heq

theorem Kept.step (h : s.Kept n) (op : LockOp) (hn : n + op.acquires ≤ 2 ^ 64) :
    ∃ n' ≤ n + op.acquires, (s.step op).Kept n' := by
  have ⟨hleases, hnext, htokens, hexclusive⟩ := h
  unfold Exclusive at hexclusive
  cases op with
  | acquire wait taken r o ttl => exact h.acquire hn wait taken r o ttl
  | renew wait r o ttl | release wait r o =>
    refine ⟨n, le_rfl, ?_⟩
    simp only [LockSystem.step, LockManager.renew, LockManager.release]
    cases hlock : s.manager.locks r with
    | none => exact ⟨by grind, hnext, htokens, hexclusive⟩
    | some lock =>
      by_cases howner : lock.owner = o
      · simp only [howner, ne_eq, not_true_eq_false, if_false]
        exact ⟨by grind [Function.update_apply], hnext, by grind,
          by grind [Exclusive, List.suffix_cons_iff]⟩
      · simp only [howner, ne_eq, not_false_eq_true, if_true]
        exact ⟨by grind, hnext, htokens, hexclusive⟩
  | cleanupExpired wait =>
    refine ⟨n, le_rfl, ?_, hnext, htokens, hexclusive⟩
    simp only [LockSystem.step, LockManager.cleanupExpired]
    grind

theorem Kept.run (h : s.Kept n) (ops : List LockOp)
    (hn : n + (ops.map LockOp.acquires).sum ≤ 2 ^ 64) :
    ∃ n', (ops.foldl LockSystem.step s).Kept n' := by
  induction ops generalizing s n with
  | nil => exact ⟨n, h⟩
  | cons op ops ih =>
    rw [List.map_cons, List.sum_cons] at hn
    obtain ⟨n', hle, hstep⟩ := h.step op (by omega)
    exact ih hstep (by omega)

/-- **Leases exclude each other** over fewer than `2 ^ 64` calls of `acquire`. -/
theorem exclusive_run (clock : Nat) (ops : List LockOp)
    (hops : (ops.map LockOp.acquires).sum < 2 ^ 64) :
    Exclusive (ops.foldl step (start clock)).log := by
  have hstart : (start clock).Kept 1 :=
    ⟨by simp [start, pending], rfl, by simp [start], by simp [Exclusive, start]⟩
  obtain ⟨n, hkept⟩ := hstart.run ops (by omega)
  exact hkept.exclusive

theorem exclusive_run_expired :
    let ops := [.acquire 0 0 "r" "a" 5, .acquire 6 0 "r" "b" 5]
    (ops.map LockOp.acquires).sum < 2 ^ 64 ∧ Exclusive (ops.foldl step (start 0)).log :=
  ⟨by decide, exclusive_run 0 _ (by decide)⟩

theorem foldl_acquire (n : Nat) : ∃ m earlier,
    (List.replicate (n + 1) (.acquire 0 0 "r" "o" 0)).foldl step (start 0)
      = ⟨m, 0, .granted "r" "o" (UInt64.ofNat (n + 1)) 0 0 :: earlier⟩
      ∧ m.nextToken = UInt64.ofNat (n + 2) ∧ (∀ lock ∈ m.locks "r", lock.owner = "o")
      ∧ (n = 0 ∨ .granted "r" "o" 1 0 0 ∈ earlier) := by
  induction n with
  | zero => exact ⟨_, _, rfl, rfl, by simp, .inl rfl⟩
  | succ n ih =>
    obtain ⟨m, earlier, hrun, hnext, howner, hfirst⟩ := ih
    rw [List.replicate_succ', List.foldl_append, hrun]
    have hfree : ¬ (m.locks "r").any (fun lock => !lock.isExpired 0 && lock.owner != "o") := by
      cases hlock : m.locks "r" <;> grind
    simp only [List.foldl_cons, List.foldl_nil, step, LockManager.acquire, Nat.add_zero,
      if_neg hfree, hnext]
    refine ⟨_, _, rfl, (UInt64.ofNat_add _ 1).symm, by simp, .inr ?_⟩
    rcases hfirst with rfl | hfirst
    · exact List.mem_cons_self
    · exact List.mem_cons_of_mem _ hfirst

theorem not_exclusive_wrapped :
    ¬ Exclusive ((List.replicate (2 ^ 64) (.acquire 0 0 "r" "o" 0)).foldl step (start 0)).log := by
  intro h
  obtain ⟨m, earlier, hrun, -, -, hfirst⟩ := foldl_acquire (2 ^ 64 - 1)
  have hcount : 2 ^ 64 - 1 + 1 = 2 ^ 64 := by decide
  rw [hcount] at hrun
  rw [hrun] at h
  have hlt := (h _ _ _ _ _ _ (List.suffix_refl _)).2 _ _ _ _ (hfirst.resolve_left (by decide))
  exact absurd hlt (by decide)

end LockSystem

end Velocity
