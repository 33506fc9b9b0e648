import Velocity.Store.ContextPool

namespace Velocity

/-!
# Pools in lock step

Two pools that agree in slots, key index and free list, with contexts related by `R`.
-/

theorem map_eq_of_rel {α β γ : Type} {f : α → γ} {g : β → γ} {x : Option α} {y : Option β}
    (h : Option.Rel (fun a b => f a = g b) x y) : x.map f = y.map g := by
  cases h with
  | some hab => exact congrArg some hab
  | none => rfl

namespace WorkflowContextPool

variable {α β : Type} {R : α → β → Prop}

structure LockStep (R : α → β → Prop) (p : WorkflowContextPool α) (q : WorkflowContextPool β) :
    Prop where
  keyIndex : p.keyIndex = q.keyIndex
  slots : p.slots = q.slots
  freeList : p.freeList = q.freeList
  contexts : ∀ idx, Option.Rel R (p.contexts idx) (q.contexts idx)

namespace LockStep

variable {p : WorkflowContextPool α} {q : WorkflowContextPool β}

theorem new : LockStep R (WorkflowContextPool.new : WorkflowContextPool α)
    (WorkflowContextPool.new : WorkflowContextPool β) where
  keyIndex := rfl
  slots := rfl
  freeList := rfl
  contexts _ := .none

theorem findKeySlot (h : LockStep R p q) (key : UInt64) : p.findKeySlot key = q.findKeySlot key :=
  findKeySlot_congr h.keyIndex h.slots key

theorem lookup (h : LockStep R p q) (key : UInt64) :
    Option.Rel R (p.lookup key) (q.lookup key) := by
  rw [WorkflowContextPool.lookup, WorkflowContextPool.lookup, h.findKeySlot key]
  cases q.findKeySlot key with
  | none => exact .none
  | some idx => exact h.contexts idx

theorem setContext (h : LockStep R p q) (idx : SlotIdx) {c : α} {d : β} (hcd : R c d) :
    LockStep R (p.setContext idx c) (q.setContext idx d) where
  keyIndex := h.keyIndex
  slots := h.slots
  freeList := h.freeList
  contexts j := by
    by_cases hj : j = idx
    · rw [hj, setContext_contexts, setContext_contexts, Function.update_self,
        Function.update_self]
      exact .some hcd
    · rw [setContext_contexts, setContext_contexts, Function.update_of_ne hj,
        Function.update_of_ne hj]
      exact h.contexts j

theorem occupy (h : LockStep R p q) (idx : SlotIdx) (rest : List SlotIdx) (key : UInt64)
    {c : α} {d : β} (hcd : R c d) :
    LockStep R (p.occupy idx rest key c) (q.occupy idx rest key d) where
  keyIndex := by
    show Function.update p.keyIndex _ _ = Function.update q.keyIndex _ _
    rw [h.keyIndex]
  slots := by
    show Function.update p.slots _ _ = Function.update q.slots _ _
    rw [h.slots]
  freeList := rfl
  contexts := (h.setContext idx hcd).contexts

theorem insert (h : LockStep R p q) (key : UInt64) {c : α} {d : β} (hcd : R c d) :
    LockStep R (p.insert key c).2 (q.insert key d).2 := by
  have hfind := h.findKeySlot key
  cases hq : q.findKeySlot key with
  | some idx =>
    rw [insert_of_some (hfind.trans hq), insert_of_some hq]
    exact h.setContext idx hcd
  | none =>
    cases hfree : q.freeList with
    | nil =>
      rw [insert_of_full (hfind.trans hq) (h.freeList.trans hfree), insert_of_full hq hfree]
      exact h
    | cons idx rest =>
      rw [insert_of_free (hfind.trans hq) (h.freeList.trans hfree), insert_of_free hq hfree]
      exact h.occupy idx rest key hcd

theorem insert_insertIfAbsent (h : LockStep R p q) (hq : q.WellFormed) (key : UInt64) {c : α}
    {d : β} (hcd : R c d) (hheld : ∀ d', q.lookup key = some d' → R c d') :
    LockStep R (p.insert key c).2 (q.insertIfAbsent key d).2 := by
  cases hfind : q.findKeySlot key with
  | none =>
    rw [insertIfAbsent_of_none hfind]
    exact h.insert key hcd
  | some idx =>
    obtain ⟨d', hd'⟩ := hq.exists_context hfind
    have hlookup : q.lookup key = some d' := by
      rw [WorkflowContextPool.lookup, hfind, Option.bind_some, hd']
    rw [insert_of_some ((h.findKeySlot key).trans hfind), insertIfAbsent_of_some hfind]
    -- on the right the held context is stored again, so to speak
    have hsame : q.setContext idx d' = q := by
      rw [WorkflowContextPool.setContext, ← hd', Function.update_eq_self]
    rw [← hsame]
    exact h.setContext idx (hheld d' hlookup)

theorem modify (h : LockStep R p q) (key : UInt64) {f : α → α} {g : β → β}
    (hfg : ∀ c d, p.lookup key = some c → q.lookup key = some d → R c d → R (f c) (g d)) :
    LockStep R (p.modify key f) (q.modify key g) := by
  unfold WorkflowContextPool.modify withMut
  rw [h.findKeySlot key]
  cases hfind : q.findKeySlot key with
  | none => exact h
  | some idx =>
    have hrel := h.contexts idx
    cases hp : p.contexts idx with
    | none =>
      rw [hp] at hrel
      cases hq : q.contexts idx with
      | none => simp only [hp, hq]; exact h
      | some d => rw [hq] at hrel; cases hrel
    | some c =>
      rw [hp] at hrel
      cases hq : q.contexts idx with
      | none => rw [hq] at hrel; cases hrel
      | some d =>
        rw [hq] at hrel
        cases hrel with
        | some hcd =>
          simp only [hp, hq]
          refine h.setContext idx (hfg c d ?_ ?_ hcd)
          · rw [WorkflowContextPool.lookup, h.findKeySlot key, hfind, Option.bind_some, hp]
          · rw [WorkflowContextPool.lookup, hfind, Option.bind_some, hq]

theorem modify_left (h : LockStep R p q) (key : UInt64) {f : α → α}
    (hf : ∀ c d, p.lookup key = some c → q.lookup key = some d → R c d → R (f c) d) :
    LockStep R (p.modify key f) q := by
  have hboth := h.modify key (g := id) hf
  rwa [modify_of_eq (f := id) (fun _ _ => rfl)] at hboth

end LockStep

end WorkflowContextPool

end Velocity
