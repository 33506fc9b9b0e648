import Velocity.Lib.LittleEndian
import Velocity.Lib.Slots

namespace Velocity

open Lib List

/-!
# Slot maps

Small maps with `u64` keys in a vector of slots.
-/

variable {V : Type}

def vacantKey : UInt64 := 0xFFFFFFFFFFFFFFFF

/-! ### `SlotMap` -/

structure SlotMap (V : Type) where
  slots : List (UInt64 × Option V)
  occupied : Nat
  deriving DecidableEq, Repr

namespace SlotMap

def withCapacity (capacity : Nat) : SlotMap V :=
  ⟨List.replicate capacity (vacantKey, none), 0⟩

def slotHolds (key : UInt64) (slot : UInt64 × Option V) : Bool :=
  slot.1 == key && slot.2.isSome

def insert (m : SlotMap V) (key : UInt64) (value : V) : SlotMap V :=
  match m.slots.findIdx? (slotHolds key) with
  | some i => { m with slots := m.slots.set i (key, some value) }
  | none =>
    match m.slots.findIdx? (fun slot => slot.2.isNone) with
    | some i => ⟨m.slots.set i (key, some value), m.occupied + 1⟩
    | none => ⟨m.slots ++ [(key, some value)], m.occupied + 1⟩

def get (m : SlotMap V) (key : UInt64) : Option V :=
  (m.slots.find? (slotHolds key)).bind (·.2)

def retainSlot (f : UInt64 → V → Bool) (slot : UInt64 × Option V) : UInt64 × Option V :=
  match slot.2 with
  | some v => if f slot.1 v then slot else (vacantKey, none)
  | none => slot

def retain (m : SlotMap V) (f : UInt64 → V → Bool) : SlotMap V :=
  let slots := m.slots.map (retainSlot f)
  ⟨slots, m.occupied - (m.slots.countP (·.2.isSome) - slots.countP (·.2.isSome))⟩

@[simp] theorem get_withCapacity (capacity : Nat) (k : UInt64) :
    (withCapacity capacity : SlotMap V).get k = none := by
  have hnone : (List.replicate capacity (vacantKey, (none : Option V))).find? (slotHolds k)
      = none := by
    rw [find?_eq_none]
    intro slot hslot
    simp [(mem_replicate.mp hslot).2, slotHolds]
  rw [get, withCapacity, hnone]
  rfl

@[simp] theorem slotHolds_some (key k : UInt64) (v : V) : slotHolds key (k, some v) =
    (k == key) := by
  simp [slotHolds]

variable (m : SlotMap V)

theorem insert_cases (key : UInt64) (value : V) :
    (∃ pre slot post, m.slots = pre ++ slot :: post ∧ (slot.1 = key ∨ slot.2 = none)
        ∧ (∀ x ∈ pre, slotHolds key x = false)
        ∧ (m.insert key value).slots = pre ++ (key, some value) :: post)
      ∨ ((∀ x ∈ m.slots, slotHolds key x = false)
        ∧ (m.insert key value).slots = m.slots ++ [(key, some value)]) := by
  unfold insert
  cases hheld : m.slots.findIdx? (slotHolds key) with
  | some i =>
    obtain ⟨pre, slot, post, hslots, rfl, hholds, hpre⟩ := split_of_findIdx? hheld
    simp only [slotHolds, Bool.and_eq_true, beq_iff_eq] at hholds
    exact .inl ⟨pre, slot, post, hslots, .inl hholds.1, hpre, by simp [hslots]⟩
  | none =>
    have habsent := findIdx?_eq_none_iff.mp hheld
    cases hempty : m.slots.findIdx? (fun slot => slot.2.isNone) with
    | some i =>
      obtain ⟨pre, slot, post, hslots, rfl, hnone, _⟩ := split_of_findIdx? hempty
      refine .inl ⟨pre, slot, post, hslots, .inr (Option.isNone_iff_eq_none.mp hnone),
        fun x hx => habsent x ?_, by simp [hslots]⟩
      rw [hslots]
      exact mem_append_left _ hx
    | none => exact .inr ⟨habsent, rfl⟩

theorem get_insert (key : UInt64) (value : V) (k : UInt64) :
    (m.insert key value).get k = if k = key then some value else m.get k := by
  rcases m.insert_cases key value with ⟨pre, slot, post, hslots, hslot, hpre, heq⟩ | ⟨habsent, heq⟩
  · by_cases hk : k = key
    · subst hk
      have hskip : pre.find? (slotHolds k) = none := find?_eq_none.mpr (by simpa using hpre)
      simp [get, heq, find?_append, hskip]
    · have hold : slotHolds k slot = false := by
        rcases hslot with h | h <;> simp [slotHolds, h, Ne.symm hk]
      simp [get, heq, hslots, find?_append, hold, hk, Ne.symm hk]
  · by_cases hk : k = key
    · subst hk
      have hskip : m.slots.find? (slotHolds k) = none :=
        find?_eq_none.mpr (by simpa using habsent)
      simp [get, heq, find?_append, hskip]
    · simp [get, heq, find?_append, hk, Ne.symm hk]

theorem slotHolds_retainSlot (q : UInt64 → Bool) (k : UInt64) (slot : UInt64 × Option V) :
    slotHolds k (retainSlot (fun key _ => q key) slot) = (slotHolds k slot && q k) := by
  obtain ⟨key, value⟩ := slot
  cases value with
  | none => simp [retainSlot, slotHolds]
  | some v =>
    by_cases hk : key = k
    · subst hk
      cases hq : q key <;> simp [retainSlot, slotHolds, hq]
    · simp only [retainSlot]
      split <;> simp [slotHolds, hk]

theorem get_retain (q : UInt64 → Bool) (k : UInt64) :
    (m.retain (fun key _ => q key)).get k = if q k then m.get k else none := by
  have hholds : slotHolds k ∘ retainSlot (fun key _ => q key)
      = fun slot : UInt64 × Option V => slotHolds k slot && q k :=
    funext (slotHolds_retainSlot q k)
  simp only [get, retain, find?_map, hholds]
  by_cases hq : q k = true
  · simp only [hq, Bool.and_true, if_true]
    cases hfind : m.slots.find? (slotHolds k) with
    | none => rfl
    | some slot =>
      -- a slot that is kept is kept as it is
      have hslot : slot.1 = k ∧ slot.2.isSome = true := by
        simpa [slotHolds] using find?_some hfind
      obtain ⟨v, hv⟩ := Option.isSome_iff_exists.mp hslot.2
      simp [retainSlot, hv, hslot.1, hq]
  · have hnone : m.slots.find? (fun slot => slotHolds k slot && q k) = none :=
      find?_eq_none.mpr (by simp [hq])
    rw [hnone, if_neg hq]
    rfl

end SlotMap

/-! ### `SlotVec` -/

structure SlotVec (V : Type) where
  slots : List (UInt64 × List V)
  occupied : Nat
  deriving DecidableEq, Repr

namespace SlotVec

def withCapacity (capacity : Nat) : SlotVec V := ⟨List.replicate capacity (vacantKey, []), 0⟩

def slotHolds (key : UInt64) (slot : UInt64 × List V) : Bool :=
  slot.1 == key && !slot.2.isEmpty

def push (s : SlotVec V) (key : UInt64) (value : V) : SlotVec V :=
  match s.slots.findIdx? (fun slot => slot.1 == key) with
  | some i =>
    let values := (s.slots[i]?.getD (key, [])).2
    ⟨s.slots.set i (key, values ++ [value]),
      if values.isEmpty then s.occupied + 1 else s.occupied⟩
  | none =>
    match s.slots.findIdx? (fun slot => slot.2.isEmpty && slot.1 == vacantKey) with
    | some i => ⟨s.slots.set i (key, [value]), s.occupied + 1⟩
    | none => ⟨s.slots ++ [(key, [value])], s.occupied + 1⟩

def get (s : SlotVec V) (key : UInt64) : Option (List V) :=
  (s.slots.find? (slotHolds key)).map (·.2)

def popFront (s : SlotVec V) (key : UInt64) : Option V × SlotVec V :=
  match s.slots.findIdx? (slotHolds key) with
  | none => (none, s)
  | some i =>
    match (s.slots[i]?.getD (key, [])).2 with
    | [] => (none, s)
    | value :: rest =>
      if rest.isEmpty then (some value, ⟨s.slots.set i (vacantKey, rest), s.occupied - 1⟩)
      else (some value, ⟨s.slots.set i (key, rest), s.occupied⟩)

def isEmptyAt (s : SlotVec V) (key : UInt64) : Bool := (s.slots.find? (slotHolds key)).isNone

theorem popFront_of_isEmptyAt {s : SlotVec V} {key : UInt64} (h : s.isEmptyAt key = true) :
    s.popFront key = (none, s) := by
  have hnone : s.slots.findIdx? (slotHolds key) = none := by
    rw [isEmptyAt, Option.isNone_iff_eq_none, find?_eq_none] at h
    rw [findIdx?_eq_none_iff]
    intro slot hslot
    exact Bool.eq_false_iff.mpr (h slot hslot)
  rw [popFront, hnone]

def queued (s : SlotVec V) (key : UInt64) : List V :=
  (s.slots.filter (slotHolds key)).flatMap (·.2)

variable (s : SlotVec V)

variable (key : UInt64)

theorem popFront_queued : (s.popFront key).1 = (s.queued key).head?
      ∧ (s.popFront key).2.queued key = (s.queued key).tail := by
  unfold popFront
  cases hfind : s.slots.findIdx? (slotHolds key) with
  | none =>
    have hnone : s.slots.filter (slotHolds key) = [] := by
      rw [filter_eq_nil_iff]
      intro slot hslot
      exact Bool.eq_false_iff.mp (findIdx?_eq_none_iff.mp hfind slot hslot)
    simp [queued, hnone]
  | some i =>
    obtain ⟨pre, ⟨k, values⟩, post, hslots, hlen, hholds, hpre⟩ := split_of_findIdx? hfind
    have hskip : pre.filter (slotHolds key) = [] := by
      rw [filter_eq_nil_iff]
      exact fun x hx => Bool.eq_false_iff.mp (hpre x hx)
    subst hlen
    simp only [slotHolds, Bool.and_eq_true, beq_iff_eq, Bool.not_eq_true'] at hholds
    obtain ⟨rfl, hne⟩ := hholds
    cases values with
    | nil => simp at hne
    | cons value rest =>
      have hqueue : s.queued k = value :: (rest ++ (post.filter (slotHolds k)).flatMap (·.2)) := by
        simp [queued, hslots, hskip, slotHolds]
      rw [hqueue]
      cases rest with
      | nil | cons next rest => simp [queued, hslots, hskip, slotHolds]

theorem push_split (value : V) :
    (∃ pre slot post, s.slots = pre ++ slot :: post ∧ slot.1 = key ∧ (∀ x ∈ pre, x.1 ≠ key)
        ∧ (s.push key value).slots = pre ++ (key, slot.2 ++ [value]) :: post)
      ∨ (∀ x ∈ s.slots, x.1 ≠ key)
        ∧ ((∃ pre post, s.slots = pre ++ (vacantKey, []) :: post
            ∧ (s.push key value).slots = pre ++ (key, [value]) :: post)
          ∨ (s.push key value).slots = s.slots ++ [(key, [value])]) := by
  unfold push
  cases hkey : s.slots.findIdx? (fun slot => slot.1 == key) with
  | some i =>
    obtain ⟨pre, slot, post, hslots, rfl, hslot, hpre⟩ := split_of_findIdx? hkey
    exact .inl ⟨pre, slot, post, hslots, beq_iff_eq.mp hslot,
      fun x hx => beq_eq_false_iff_ne.mp (hpre x hx), by simp [hslots]⟩
  | none =>
    refine .inr ⟨fun x hx => beq_eq_false_iff_ne.mp (findIdx?_eq_none_iff.mp hkey x hx), ?_⟩
    simp only
    cases hvacant : s.slots.findIdx? (fun slot => slot.2.isEmpty && slot.1 == vacantKey) with
    | some i =>
      obtain ⟨pre, ⟨k, values⟩, post, hslots, rfl, hslot, _⟩ := split_of_findIdx? hvacant
      simp only [Bool.and_eq_true, List.isEmpty_iff, beq_iff_eq] at hslot
      obtain ⟨rfl, rfl⟩ := hslot
      exact .inl ⟨pre, post, hslots, by simp [hslots]⟩
    | none => exact .inr rfl

theorem push_cases (value : V) :
    (∃ pre slot post, s.slots = pre ++ slot :: post ∧ (slot.1 = key ∨ slot.2 = [])
        ∧ (s.push key value).slots = pre ++ (key, slot.2 ++ [value]) :: post)
      ∨ (s.push key value).slots = s.slots ++ [(key, [value])] := by
  rcases s.push_split key value with
    ⟨pre, slot, post, hslots, hkey, -, heq⟩ | ⟨-, ⟨pre, post, hslots, heq⟩ | heq⟩
  · exact .inl ⟨pre, slot, post, hslots, .inl hkey, heq⟩
  · exact .inl ⟨pre, _, post, hslots, .inr rfl, heq⟩
  · exact .inr heq

theorem queued_push_of_ne {key k : UInt64} (hk : k ≠ key) (value : V) :
    (s.push key value).queued k = s.queued k := by
  have hnot : ∀ values : List V, slotHolds k (key, values) = false := by
    intro values
    simp [slotHolds, Ne.symm hk]
  rcases s.push_cases key value with ⟨pre, ⟨k', values⟩, post, hslots, hslot, heq⟩ | heq
  · have hold : slotHolds k (k', values) = false := by
      rcases hslot with rfl | rfl
      · exact hnot values
      · simp [slotHolds]
    simp [queued, heq, hslots, hnot, hold]
  · simp [queued, heq, hnot]

theorem mem_queued_push (value : V) : value ∈ (s.push key value).queued key := by
  rcases s.push_cases key value with ⟨pre, slot, post, _, _, heq⟩ | heq
  · simp [queued, heq, slotHolds]
  · simp [queued, heq, slotHolds]

@[simp] theorem queued_withCapacity (capacity : Nat) (key : UInt64) :
    (withCapacity capacity : SlotVec V).queued key = [] := by
  simp [queued, withCapacity, slotHolds]

end SlotVec

end Velocity
