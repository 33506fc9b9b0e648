import Mathlib.Data.Finmap
import Velocity.Lib.Run
import Velocity.Store.ContextPool

namespace Velocity

open Lib WorkflowContextPool Finmap

/-!
# The pool as a finite map

The pool refines a map while no removal blanks a cell that another key relies on.

* `Simulates`: the map that a pool stands for; every operation keeps it.
* `refines_iff_noCollidingRemove`: exactly when the pool answers as the map.
* `slots_run`: the accounting of slots and counters, in every run.
-/

variable {α : Type}

abbrev ContextMap (α : Type) := Finmap (fun _ : UInt64 => α)

inductive PoolOp (α : Type) where
  | insert (key : UInt64) (ctx : α)
  | insertIfAbsent (key : UInt64) (ctx : α)
  | remove (key : UInt64)
  deriving DecidableEq, Repr

def WorkflowContextPool.step (p : WorkflowContextPool α) : PoolOp α → WorkflowContextPool α
  | .insert key ctx => (p.insert key ctx).2
  | .insertIfAbsent key ctx => (p.insertIfAbsent key ctx).2
  | .remove key => (p.remove key).2

def ContextMap.step (m : ContextMap α) : PoolOp α → ContextMap α
  | .insert key ctx =>
    if key ∈ m ∨ m.keys.card < workflowPoolCapacity then m.insert key ctx else m
  | .insertIfAbsent key ctx =>
    if key ∉ m ∧ m.keys.card < workflowPoolCapacity then m.insert key ctx else m
  | .remove key => m.erase key

/-- The pool answers as the map does. -/
structure Refines (p : WorkflowContextPool α) (m : ContextMap α) : Prop where
  withCtx : ∀ {β : Type} (key : UInt64) (f : Option α → β), p.withCtx key f = f (m.lookup key)
  withMut : ∀ {β : Type} (key : UInt64) (absent : β) (present : α → β × α),
    (p.withMut key absent present).1 = (m.lookup key).elim absent (fun ctx => (present ctx).1)
  remove : ∀ key, (p.remove key).1 = m.lookup key
  one_slot : ∀ key i j, p.slotHolds key i = true → p.slotHolds key j = true → i = j

/-- No other key of the map is in the bucket of a removed one. -/
def noCollidingRemove (m : ContextMap α) : PoolOp α → Prop
  | .remove key => key ∈ m → ∀ k ∈ m.keys, bucket k = bucket key → k = key
  | _ => True

/-! ### The simulation -/

/-- The pool serves the map's contexts and has its free space. -/
structure Simulates (m : ContextMap α) (p : WorkflowContextPool α) : Prop where
  wellFormed : p.WellFormed
  lookup : ∀ key, p.lookup key = m.lookup key
  room : m.keys.card + p.freeList.length = workflowPoolCapacity

namespace Simulates

variable {m : ContextMap α} {p : WorkflowContextPool α}

theorem refines (h : Simulates m p) : Refines p m where
  withCtx key f := by rw [WorkflowContextPool.withCtx, h.lookup]
  withMut key absent present := by rw [withMut_fst, h.lookup]
  remove key := by rw [WorkflowContextPool.remove_fst, h.lookup]
  one_slot := h.wellFormed.key_unique

theorem mem_iff (h : Simulates m p) (key : UInt64) : key ∈ m ↔ p.findKeySlot key ≠ none := by
  rw [← lookup_isSome, ← h.lookup, Option.isSome_iff_ne_none, ne_eq, ne_eq,
    h.wellFormed.lookup_eq_none]

theorem mem_of_slotHolds (h : Simulates m p) {key : UInt64} {idx : SlotIdx}
    (hholds : p.slotHolds key idx = true) : key ∈ m := by
  rw [h.mem_iff, h.wellFormed.findKeySlot_iff.mpr hholds]
  exact Option.some_ne_none idx

theorem room_iff (h : Simulates m p) : m.keys.card < workflowPoolCapacity ↔ p.freeList ≠ [] := by
  have hroom := h.room
  rw [← List.length_pos_iff_ne_nil]
  omega

theorem keys_insert {key : UInt64} {ctx : α} : (m.insert key ctx).keys = insert key m.keys := by
  ext k
  rw [Finmap.mem_keys, Finmap.mem_insert, Finset.mem_insert, Finmap.mem_keys]

theorem room_insert (h : Simulates m p) (key : UInt64) (ctx : α)
    (hroom : key ∈ m ∨ p.freeList ≠ []) :
    (m.insert key ctx).keys.card + (p.insert key ctx).2.freeList.length
      = workflowPoolCapacity := by
  by_cases hmem : key ∈ m
  · obtain ⟨idx, hfind⟩ := Option.ne_none_iff_exists'.mp ((h.mem_iff key).mp hmem)
    rw [keys_insert, Finset.insert_eq_of_mem (mem_keys.mpr hmem),
      insert_of_some hfind]
    exact h.room
  -- one slot less is free
  · have hfind : p.findKeySlot key = none := not_not.mp (mt (h.mem_iff key).mpr hmem)
    obtain ⟨idx, rest, hfree⟩ := List.exists_cons_of_ne_nil (hroom.resolve_left hmem)
    have hold := h.room
    rw [hfree, List.length_cons] at hold
    rw [keys_insert, Finset.card_insert_of_notMem (mt mem_keys.mp hmem),
      insert_of_free hfind hfree]
    simp only [WorkflowContextPool.occupy]
    omega

theorem insert (h : Simulates m p) (key : UInt64) (ctx : α) :
    Simulates (m.step (.insert key ctx)) (p.insert key ctx).2 := by
  simp only [ContextMap.step, h.room_iff]
  by_cases hroom : key ∈ m ∨ p.freeList ≠ []
  · rw [if_pos hroom]
    refine ⟨h.wellFormed.insert key ctx, fun k => ?_, h.room_insert key ctx hroom⟩
    have hsome : (p.lookup key).isSome ∨ p.freeList ≠ [] := by
      rwa [h.lookup, lookup_isSome]
    rw [h.wellFormed.lookup_insert]
    by_cases hk : k = key
    · subst hk
      rw [if_pos ⟨rfl, hsome⟩, lookup_insert]
    · rw [if_neg (fun hc => hk hc.1), lookup_insert_of_ne m hk, h.lookup]
  · rw [if_neg hroom]
    -- both refuse
    obtain ⟨hmem, hfull⟩ := not_or.mp hroom
    have hfind : p.findKeySlot key = none := not_not.mp (mt (h.mem_iff key).mpr hmem)
    rw [WorkflowContextPool.insert_of_full hfind (not_not.mp hfull)]
    exact h

theorem insertIfAbsent (h : Simulates m p) (key : UInt64) (ctx : α) :
    Simulates (m.step (.insertIfAbsent key ctx)) (p.insertIfAbsent key ctx).2 := by
  by_cases hmem : key ∈ m
  · obtain ⟨idx, hfind⟩ := Option.ne_none_iff_exists'.mp ((h.mem_iff key).mp hmem)
    rw [insertIfAbsent_of_some hfind, ContextMap.step,
      if_neg (fun hc => hc.1 hmem)]
    exact h
  · -- an absent key: the conditional insertions are the unconditional ones
    have hfind : p.findKeySlot key = none := not_not.mp (mt (h.mem_iff key).mpr hmem)
    have hinsert := h.insert key ctx
    rw [insertIfAbsent_of_none hfind]
    simp only [ContextMap.step, hmem, not_false_eq_true, true_and, false_or] at hinsert ⊢
    exact hinsert

theorem remove (h : Simulates m p) {key : UInt64}
    (hgood : noCollidingRemove m (.remove key)) : Simulates (m.erase key) (p.remove key).2 := by
  by_cases hmem : key ∈ m
  · obtain ⟨idx, hfind⟩ := Option.ne_none_iff_exists'.mp ((h.mem_iff key).mp hmem)
    -- no other slot is in the bucket
    have halone : ∀ k j, p.slotHolds k j = true → bucket k = bucket key → k = key :=
      fun k j hholds hb => hgood hmem k (mem_keys.mpr (h.mem_of_slotHolds hholds)) hb
    refine ⟨h.wellFormed.remove halone, fun k => ?_, ?_⟩
    · rw [h.wellFormed.lookup_remove halone]
      by_cases hk : k = key
      · subst hk
        rw [if_pos rfl, lookup_erase]
      · rw [if_neg hk, lookup_erase_ne hk, h.lookup]
    · have hold := h.room
      have hpos : 0 < m.keys.card := Finset.card_pos.mpr ⟨key, mem_keys.mpr hmem⟩
      rw [keys_erase, Finset.card_erase_of_mem (mem_keys.mpr hmem),
        remove_of_some hfind]
      simp only [WorkflowContextPool.release, List.length_cons]
      omega
  · have hfind : p.findKeySlot key = none := not_not.mp (mt (h.mem_iff key).mpr hmem)
    have herase : m.erase key = m := by
      refine ext_lookup (fun k => ?_)
      by_cases hk : k = key
      · subst hk
        rw [lookup_erase, lookup_eq_none.mpr hmem]
      · rw [lookup_erase_ne hk]
    rw [remove_of_none hfind, herase]
    exact h

end Simulates

theorem simulates_new : Simulates (∅ : ContextMap α) WorkflowContextPool.new where
  wellFormed := WorkflowContextPool.wellFormed_new
  lookup key := by rw [lookup_empty, lookup_new]
  room := by
    rw [keys_empty, Finset.card_empty]
    exact (Nat.zero_add _).trans List.length_finRange

variable {m : ContextMap α} {p : WorkflowContextPool α}

theorem step_simulates (op : PoolOp α) (h : Simulates m p) (hgood : noCollidingRemove m op) :
    Simulates (m.step op) (p.step op) := by
  cases op with
  | insert key ctx => exact h.insert key ctx
  | insertIfAbsent key ctx => exact h.insertIfAbsent key ctx
  | remove key => exact h.remove hgood

theorem run_simulates {ops : List (PoolOp α)}
    (h : StepsMeet ContextMap.step noCollidingRemove ∅ ops) :
    Simulates (ops.foldl ContextMap.step ∅)
      (ops.foldl WorkflowContextPool.step WorkflowContextPool.new) :=
  foldl_simulation (fun _ _ op hsim hgood => step_simulates op hsim hgood) ops _ _
    simulates_new h

/-! ### The exact condition -/

theorem lookup_remove_of_collision
    (h : Simulates m p) {key k : UInt64} (hmem : key ∈ m) (hb : bucket k = bucket key) :
    (p.remove key).2.lookup k = none := by
  obtain ⟨idx, hfind⟩ := Option.ne_none_iff_exists'.mp ((h.mem_iff key).mp hmem)
  rw [remove_of_some hfind]
  have hcell : (p.release idx key).keyIndex (bucket k) = none := by
    rw [hb]
    exact Function.update_self ..
  unfold WorkflowContextPool.lookup WorkflowContextPool.findKeySlot
  rw [hcell]
  rfl

theorem not_refines_of_collision (h : Simulates m p) {key k : UInt64} (hmem : key ∈ m) (hk : k ∈ m)
    (hb : bucket k = bucket key) (hne : k ≠ key) : ¬ Refines (p.remove key).2 (m.erase key) := by
  intro href
  have hpool : (p.remove key).2.lookup k = none := lookup_remove_of_collision h hmem hb
  have hmap : (m.erase key).lookup k = m.lookup k := lookup_erase_ne hne
  have hsame : (p.remove key).2.lookup k = (m.erase key).lookup k := href.withCtx k id
  rw [hpool, hmap] at hsame
  exact lookup_eq_none.mp hsame.symm hk

/-- **The pool is a finite map** iff no removal hits a bucket that another live key shares. -/
theorem refines_iff_noCollidingRemove (ops : List (PoolOp α)) :
    (∀ ps, ps <+: ops →
        Refines (ps.foldl WorkflowContextPool.step WorkflowContextPool.new)
          (ps.foldl ContextMap.step ∅))
      ↔ StepsMeet ContextMap.step noCollidingRemove ∅ ops := by
  constructor
  · -- by induction from the end: the run before the last mutation is a good one, so a
    -- collision in that mutation would break the refinement
    induction ops using List.reverseRecOn with
    | nil => exact fun _ => trivial
    | append_singleton ops op ih =>
      intro href
      have hgood := ih (fun ps hps => href ps (hps.trans (List.prefix_append ops [op])))
      have hsim := run_simulates hgood
      rw [stepsMeet_append]
      refine ⟨hgood, ?_, trivial⟩
      cases op with
      | insert key ctx | insertIfAbsent key ctx => trivial
      | remove key =>
        intro hmem k hk hb
        by_contra hne
        have hlast := href (ops ++ [.remove key]) (List.prefix_refl _)
        rw [List.foldl_append, List.foldl_append] at hlast
        exact not_refines_of_collision hsim hmem (mem_keys.mp hk) hb hne hlast
  · intro hgood ps hps
    exact (run_simulates (hgood.initial hps)).refines

theorem not_refines_insert_insert_remove :
    ¬ Refines
      ([PoolOp.insert 1 10, .insert 8193 20, .remove 8193].foldl WorkflowContextPool.step
        (WorkflowContextPool.new : WorkflowContextPool Nat))
      ([PoolOp.insert 1 10, .insert 8193 20, .remove 8193].foldl ContextMap.step ∅) := by
  have hsim : Simulates ([PoolOp.insert 1 10, .insert 8193 20].foldl ContextMap.step ∅)
      ([PoolOp.insert 1 10, .insert 8193 20].foldl WorkflowContextPool.step
        (WorkflowContextPool.new : WorkflowContextPool Nat)) :=
    run_simulates ⟨trivial, trivial, trivial⟩
  have hmap : [PoolOp.insert 1 10, .insert 8193 20].foldl ContextMap.step ∅
      = (singleton 1 (10 : Nat)).insert 8193 20 := by
    decide +kernel
  have hbucket : bucket 1 = bucket 8193 := by
    unfold bucket workflowPoolCapacity
    rfl
  have hmem : 8193 ∈ [PoolOp.insert 1 10, .insert 8193 20].foldl ContextMap.step ∅ := by
    rw [hmap]
    exact mem_insert.mpr (Or.inl rfl)
  have hmate : 1 ∈ [PoolOp.insert 1 10, .insert 8193 20].foldl ContextMap.step ∅ := by
    rw [hmap]
    exact mem_insert.mpr (Or.inr ((mem_singleton 1 1 10).mpr rfl))
  exact not_refines_of_collision hsim hmem hmate hbucket (by decide)

/-! ### Every slot once -/

namespace WorkflowContextPool

def activeSlots (p : WorkflowContextPool α) : List SlotIdx :=
  (List.finRange workflowPoolCapacity).filter fun idx => (p.slots idx).active

structure Accounted (p : WorkflowContextPool α) : Prop where
  partitioned : p.Partitioned
  totals : p.activeCount + p.totalRemoved = p.totalInserted

variable {p : WorkflowContextPool α}

theorem Accounted.insert (h : p.Accounted) (key : UInt64) (ctx : α) :
    (p.insert key ctx).2.Accounted := by
  cases hfind : p.findKeySlot key with
  | some idx =>
    rw [insert_of_some hfind]
    exact ⟨{ h.partitioned with }, h.totals⟩
  | none =>
    cases hfree : p.freeList with
    | nil =>
      rw [insert_of_full hfind hfree]
      exact h
    | cons idx rest =>
      rw [insert_of_free hfind hfree]
      refine ⟨h.partitioned.occupy hfree key ctx, ?_⟩
      show p.activeCount + 1 + p.totalRemoved = p.totalInserted + 1
      rw [← h.totals, UInt64.add_assoc, UInt64.add_comm 1, ← UInt64.add_assoc]

theorem Accounted.step (h : p.Accounted) (op : PoolOp α) : (p.step op).Accounted := by
  cases op with
  | insert key ctx => exact h.insert key ctx
  | insertIfAbsent key ctx =>
    cases hfind : p.findKeySlot key with
    | some idx => simpa only [WorkflowContextPool.step, insertIfAbsent_of_some hfind] using h
    | none =>
      simpa only [WorkflowContextPool.step, insertIfAbsent_of_none hfind] using h.insert key ctx
  | remove key =>
    cases hfind : p.findKeySlot key with
    | none => simpa only [WorkflowContextPool.step, remove_of_none hfind] using h
    | some idx =>
      simp only [WorkflowContextPool.step, remove_of_some hfind]
      refine ⟨h.partitioned.release (slotHolds_iff.mp (findKeySlot_some hfind)).1 key, ?_⟩
      show p.activeCount - 1 + (p.totalRemoved + 1) = p.totalInserted
      rw [← h.totals, UInt64.add_comm p.totalRemoved, ← UInt64.add_assoc, UInt64.sub_add_cancel]

theorem Partitioned.perm (h : p.Partitioned) :
    (p.freeList ++ p.activeSlots).Perm (List.finRange workflowPoolCapacity) := by
  refine (List.perm_ext_iff_of_nodup ?_ (List.nodup_finRange _)).mpr fun idx => ?_
  · refine h.nodup_freeList.append ((List.nodup_finRange _).filter _) fun idx hfree hactive => ?_
    rw [h.mem_freeList] at hfree
    simp [activeSlots, hfree] at hactive
  · cases hactive : (p.slots idx).active <;> simp [activeSlots, h.mem_freeList, hactive]

end WorkflowContextPool

/-- **Every slot once**, colliding removals included, and the counters agree. -/
theorem slots_run (ops : List (PoolOp α)) :
    let p := ops.foldl WorkflowContextPool.step WorkflowContextPool.new
    ((p.freeList ++ p.activeSlots).map Fin.val).Perm (List.range 8192)
      ∧ p.activeCount.toNat = p.activeSlots.length
      ∧ p.activeCount + p.totalRemoved = p.totalInserted := by
  intro p
  have h : p.Accounted := foldl_invariant (fun _ op hp (_ : True) => hp.step op) ops _
    ⟨partitioned_new, rfl⟩ (stepsMeet_of_mem fun _ _ _ => trivial)
  have hperm := h.partitioned.perm
  have hrange : (List.finRange workflowPoolCapacity).map Fin.val = List.range 8192 := by
    rw [List.map_coe_finRange_eq_range]
    unfold workflowPoolCapacity
    rfl
  refine ⟨hrange ▸ hperm.map Fin.val, ?_, h.totals⟩
  have hlen := hperm.length_eq
  have hcount := h.partitioned.count
  rw [List.length_append, List.length_finRange] at hlen
  omega

end Velocity
