import Velocity.Lib.Run
import Velocity.Store.SlotMap

namespace Velocity

open Lib List

/-!
# Slot vectors as queues

A queue per key; the key `u64::MAX` also marks the vacant slots.
-/

namespace SlotVec

variable {V : Type} {s : SlotVec V} {key k : UInt64}

def slotsOf (s : SlotVec V) (key : UInt64) : List (List V) :=
  (s.slots.filter (·.1 == key)).map (·.2)

theorem queued_eq_flatten (s : SlotVec V) (key : UInt64) :
    s.queued key = (s.slotsOf key).flatten := by
  rw [queued, slotsOf]
  induction s.slots with
  | nil => rfl
  | cons slot slots ih =>
    obtain ⟨k, values⟩ := slot
    by_cases hk : k = key <;> cases values <;> simp_all [slotHolds]

theorem filter_eq_nil_of_ne {slots : List (UInt64 × List V)} (h : ∀ x ∈ slots, x.1 ≠ key) :
    slots.filter (·.1 == key) = [] :=
  filter_eq_nil_iff.mpr fun x hx => by simpa using h x hx

/-! ### A push -/

theorem slotsOf_push_self (s : SlotVec V) (key : UInt64) (value : V) :
    (s.push key value).slotsOf key
      = ((s.slotsOf key).headD [] ++ [value]) :: (s.slotsOf key).tail := by
  rcases s.push_split key value with
    ⟨pre, slot, post, hslots, rfl, hpre, heq⟩ | ⟨hnone, ⟨pre, post, hslots, heq⟩ | heq⟩
  · simp [slotsOf, hslots, heq, filter_eq_nil_of_ne hpre]
  · rw [hslots] at hnone
    have hpre := filter_eq_nil_of_ne fun x hx => hnone x (mem_append_left _ hx)
    have hvacant := hnone _ (mem_append_right _ mem_cons_self)
    have hpost := filter_eq_nil_of_ne fun x hx =>
      hnone x (mem_append_right _ (mem_cons_of_mem _ hx))
    simp [slotsOf, hslots, heq, hpre, hpost, hvacant]
  · simp [slotsOf, heq, filter_eq_nil_of_ne hnone]

theorem slotsOf_push_of_ne (hk : k ≠ key) (value : V) :
    (s.push key value).slotsOf k <+ s.slotsOf k := by
  have hne : (key == k) = false := beq_eq_false_iff_ne.mpr hk.symm
  refine Sublist.map _ ?_
  rcases s.push_split key value with
    ⟨pre, slot, post, hslots, rfl, -, heq⟩ | ⟨-, ⟨pre, post, hslots, heq⟩ | heq⟩
  · simp [hslots, heq, hne]
  · rw [hslots, heq, filter_append, filter_append, filter_cons_of_neg (by simp [hne])]
    exact (Sublist.refl _).append ((sublist_cons_self _ _).filter _)
  · simp [heq, hne]

theorem queued_push_self (s : SlotVec V) (key : UInt64) (value : V) :
    s.queued key = (s.slotsOf key).headD [] ++ (s.slotsOf key).tail.flatten
      ∧ (s.push key value).queued key
        = (s.slotsOf key).headD [] ++ value :: (s.slotsOf key).tail.flatten := by
  rw [queued_eq_flatten, queued_eq_flatten, slotsOf_push_self]
  cases s.slotsOf key <;> simp

/-! ### A pop -/

theorem slotsOf_popFront (s : SlotVec V) (key : UInt64) :
    (k ≠ key → (s.popFront key).2.queued k = s.queued k)
      ∧ (k ≠ vacantKey → ((s.popFront key).2.slotsOf k).length ≤ (s.slotsOf k).length) := by
  unfold popFront
  cases hfind : s.slots.findIdx? (slotHolds key) with
  | none => exact ⟨fun _ => rfl, fun _ => Nat.le_refl _⟩
  | some i =>
    obtain ⟨pre, ⟨k', values⟩, post, hslots, rfl, hholds, hpre⟩ := split_of_findIdx? hfind
    simp only [slotHolds, Bool.and_eq_true, beq_iff_eq, Bool.not_eq_true'] at hholds
    obtain ⟨rfl, hne⟩ := hholds
    cases values with
    | nil => simp at hne
    | cons value rest =>
      by_cases hk : k' = k
      · subst hk
        cases rest <;> simp [slotsOf, hslots, filter_cons]
        split <;> simp
      · cases rest <;> simp_all [queued, slotsOf, slotHolds, filter_cons]
        intro hvacant
        simp [Ne.symm hvacant]

def taken (s : SlotVec V) (key : UInt64) : Nat → List (Option V)
  | 0 => []
  | n + 1 => (s.popFront key).1 :: (s.popFront key).2.taken key n

theorem taken_eq (s : SlotVec V) (key : UInt64) (n : Nat) :
    s.taken key n = (range n).map ((s.queued key)[·]?) := by
  induction n generalizing s with
  | zero => rfl
  | succ n ih =>
    obtain ⟨hhead, htail⟩ := s.popFront_queued key
    rw [taken, ih, hhead, htail, range_succ_eq_map, map_cons, map_map]
    cases s.queued key <;> simp [Function.comp_def]

/-! ### Runs -/

inductive Call (V : Type) where
  | push (key : UInt64) (value : V)
  | popFront (key : UInt64)
  deriving DecidableEq

def step (s : SlotVec V × (UInt64 → List V)) : Call V → SlotVec V × (UInt64 → List V)
  | .push key value => (s.1.push key value, Function.update s.2 key (s.2 key ++ [value]))
  | .popFront key => ((s.1.popFront key).2, Function.update s.2 key (s.2 key).tail)

/-- Consecutive pops return the queued values in order. -/
def Serves (s : SlotVec V × (UInt64 → List V)) : Prop :=
  ∀ key n, s.1.taken key n = (range n).map ((s.2 key)[·]?)

theorem serves_iff {s : SlotVec V × (UInt64 → List V)} :
    Serves s ↔ ∀ key, s.1.queued key = s.2 key := by
  refine forall_congr' fun key => ⟨fun h => List.ext_getElem? fun n => ?_, fun h n => ?_⟩
  · have hn := h (n + 1)
    rw [taken_eq, range_succ, map_append, map_append] at hn
    simpa using (append_inj' hn rfl).2
  · rw [taken_eq, h]

/-- A push under `u64::MAX` changes nothing behind the first mark. -/
def InOrder (s : SlotVec V × (UInt64 → List V)) : Call V → Prop
  | .push key value => key = vacantKey → ∀ w ∈ (s.1.slotsOf key).tail.flatten, w = value
  | .popFront _ => True

structure Kept (s : SlotVec V × (UInt64 → List V)) : Prop where
  queues : ∀ key, s.1.queued key = s.2 key
  oneSlot : ∀ key, key ≠ vacantKey → (s.1.slotsOf key).length ≤ 1

theorem cons_eq_concat_iff {v : V} {l : List V} : v :: l = l ++ [v] ↔ ∀ w ∈ l, w = v := by
  induction l with
  | nil => simp
  | cons w l ih =>
    rw [cons_append, cons.injEq, forall_mem_cons, ← ih, eq_comm]
    exact and_congr_right fun h => by rw [h]

theorem queued_push_self_iff (s : SlotVec V) (key : UInt64) (value : V) :
    (s.push key value).queued key = s.queued key ++ [value]
      ↔ ∀ w ∈ (s.slotsOf key).tail.flatten, w = value := by
  obtain ⟨hold, hnew⟩ := s.queued_push_self key value
  rw [hold, hnew, append_assoc, append_cancel_left_eq, cons_eq_concat_iff]

theorem kept_step {s : SlotVec V × (UInt64 → List V)} (h : Kept s) (call : Call V)
    (hcall : InOrder s call) : Kept (step s call) := by
  cases call with
  | push key value =>
    have htail : ∀ w ∈ (s.1.slotsOf key).tail.flatten, w = value := by
      by_cases hkey : key = vacantKey
      · exact hcall hkey
      · have hone := h.oneSlot key hkey
        have hnil : (s.1.slotsOf key).tail = [] := by
          rw [← length_eq_zero_iff, length_tail]
          omega
        simp [hnil]
    refine ⟨fun k => ?_, fun k hk => ?_⟩
    · by_cases hkey : k = key
      · subst hkey
        simpa [step, ← h.queues] using (queued_push_self_iff s.1 k value).mpr htail
      · simpa [step, hkey, ← h.queues] using queued_push_of_ne s.1 hkey value
    · have hone := h.oneSlot k hk
      by_cases hkey : k = key
      · subst hkey
        simp only [step, slotsOf_push_self, length_cons, length_tail]
        omega
      · exact Nat.le_trans (slotsOf_push_of_ne hkey value).length_le hone
  | popFront key =>
    refine ⟨fun k => ?_, fun k hk => ?_⟩
    · by_cases hkey : k = key
      · subst hkey
        simpa [step, ← h.queues] using (s.1.popFront_queued k).2
      · simpa [step, hkey, ← h.queues] using (s.1.slotsOf_popFront key).1 hkey
    · exact Nat.le_trans ((s.1.slotsOf_popFront key).2 hk) (h.oneSlot k hk)

/-- **Queues per key** are served, for every capacity, iff the pushes are in order. -/
theorem serves_iff_inOrder (capacity : Nat) (calls : List (Call V)) :
    (∀ ps, ps <+: calls → Serves (ps.foldl step (withCapacity capacity, fun _ => [])))
      ↔ StepsMeet step InOrder (withCapacity capacity, fun _ => []) calls := by
  refine forall_prefixes_iff_stepsMeet (I := Kept) (fun s h => serves_iff.mpr h.queues)
    (fun s call h (_ : True) hcall => kept_step h call hcall) (fun s call h _ hserves => ?_) ?_
    (stepsMeet_of_mem fun _ _ _ => trivial)
  · cases call with
    | popFront key => trivial
    | push key value =>
      intro _
      have hqueue := serves_iff.mp hserves key
      rw [← queued_push_self_iff]
      simpa [step, h.queues] using hqueue
  · refine ⟨fun key => queued_withCapacity capacity key, fun key hkey => ?_⟩
    simp [slotsOf, withCapacity, hkey.symm]

theorem not_serves_vacated :
    ¬ Serves ([.push 1 10, .push 0xFFFFFFFFFFFFFFFF 20, .popFront 1,
        .push 0xFFFFFFFFFFFFFFFF 30].foldl step ((withCapacity 2 : SlotVec Nat), fun _ => [])) := by
  intro h
  have htaken := h 0xFFFFFFFFFFFFFFFF 1
  revert htaken
  decide

end SlotVec

end Velocity
