import Mathlib.Data.List.Perm.Basic
import Mathlib.Tactic.Common

namespace Velocity.Lib

/-!
# Condition variables

The threads at a condition variable; `Served` keeps a wakeup from being lost.
-/

structure Condvar (κ : Type*) where
  asleep : List κ
  woken : List κ
  deriving DecidableEq

namespace Condvar

variable {κ : Type*}

def empty : Condvar κ := ⟨[], []⟩

variable (c : Condvar κ)

def wait (k : κ) : Condvar κ := { c with asleep := c.asleep ++ [k] }

/-- `choice` stands for the scheduler. -/
def notified (choice : Nat) : Option κ := c.asleep[choice % c.asleep.length]?

def notifyOne (choice : Nat) : Condvar κ :=
  match c.notified choice with
  | none => c
  | some k => ⟨c.asleep.eraseIdx (choice % c.asleep.length), k :: c.woken⟩

def resume (i : Nat) : Condvar κ := { c with woken := c.woken.eraseIdx i }

theorem mem_asleep_of_notifyOne {c : Condvar κ} {choice : Nat} {k : κ}
    (h : k ∈ (c.notifyOne choice).asleep) : k ∈ c.asleep := by
  unfold notifyOne at h
  split at h
  · exact h
  · exact List.mem_of_mem_eraseIdx h

variable [DecidableEq κ]

theorem count_cons_eraseIdx {l : List κ} {i : Nat} {k : κ} (hi : l[i]? = some k) (k' : κ) :
    (k :: l.eraseIdx i).count k' = l.count k' := by
  obtain ⟨hlt, hget⟩ := List.getElem?_eq_some_iff.mp hi
  rw [← hget]
  exact (List.getElem_cons_eraseIdx_perm hlt).count_eq k'

/-- Each sleeper has as many woken threads as there is for it. -/
def Served (avail : κ → Nat) : Prop :=
  ∀ k ∈ c.asleep, avail k ≤ c.woken.count k

variable {c} {avail avail' : κ → Nat} {k : κ}

theorem served_empty (avail : κ → Nat) : (empty : Condvar κ).Served avail :=
  fun _ h => absurd h List.not_mem_nil

theorem Served.mono (h : c.Served avail) (hle : ∀ k, avail' k ≤ avail k) : c.Served avail' :=
  fun k hk => Nat.le_trans (hle k) (h k hk)

theorem Served.wait (h : c.Served avail) (hk : avail k = 0) : (c.wait k).Served avail := by
  intro k' hk'
  rcases List.mem_append.mp hk' with hk' | hk'
  · exact h k' hk'
  · rw [List.mem_singleton.mp hk', hk]
    exact Nat.zero_le _

theorem count_woken_le_notifyOne (c : Condvar κ) (choice : Nat) (k : κ) :
    c.woken.count k ≤ (c.notifyOne choice).woken.count k := by
  unfold notifyOne
  split
  · exact Nat.le_refl _
  · exact List.count_le_count_cons

theorem Served.notifyOne (h : c.Served avail) {choice : Nat}
    (hown : k ∈ c.asleep → c.notified choice = some k) (hk : avail' k ≤ avail k + 1)
    (hne : ∀ k', k' ≠ k → avail' k' ≤ avail k') : (c.notifyOne choice).Served avail' := by
  intro k' hk'
  have hbefore := h k' (mem_asleep_of_notifyOne hk')
  by_cases heq : k' = k
  · -- one more of what was notified, and one more thread awake for it
    subst heq
    have hnotified := hown (mem_asleep_of_notifyOne hk')
    have hwoken : (c.notifyOne choice).woken = k' :: c.woken := by
      simp only [Condvar.notifyOne, hnotified]
    rw [hwoken, List.count_cons_self]
    exact Nat.le_trans hk (Nat.succ_le_succ hbefore)
  · exact Nat.le_trans (hne k' heq) (Nat.le_trans hbefore (count_woken_le_notifyOne c choice k'))

theorem Served.resume (h : c.Served avail) {i : Nat} (hi : c.woken[i]? = some k)
    (hk : avail' k = avail k - 1) (hne : ∀ k', k' ≠ k → avail' k' = avail k') :
    (c.resume i).Served avail' := by
  intro k' hk'
  have hbefore := h k' hk'
  have hcount : (k :: (c.resume i).woken).count k' = c.woken.count k' := count_cons_eraseIdx hi k'
  by_cases heq : k' = k
  · subst heq
    rw [List.count_cons_self] at hcount
    omega
  · rw [List.count_cons_of_ne (Ne.symm heq)] at hcount
    rw [hne k' heq]
    omega

/-- **No lost wakeup**, unless another is awake. -/
theorem Served.mem_woken (h : c.Served avail) (hk : k ∈ c.asleep) (havail : 0 < avail k) :
    k ∈ c.woken :=
  List.count_pos_iff.mp (Nat.lt_of_lt_of_le havail (h k hk))

end Condvar

end Velocity.Lib
