import Mathlib.Algebra.Group.Nat.Defs
import Mathlib.Data.Fintype.Card
import Mathlib.Data.Fintype.EquivFin
import Mathlib.Data.List.FinRange
import Mathlib.Logic.Function.Basic
import Mathlib.Tactic.Common

namespace Velocity

open List Function

/-!
# The workflow context pool

A cell of the key index is only a hint, but a blank one is taken as proof of absence.

* `WorkflowContextPool`: slots, contexts, free list and key index, with the source's operations.
* `WellFormed`: the invariant; `lookup` after each operation.
-/

@[irreducible] def workflowPoolCapacity : Nat := 8192

theorem workflowPoolCapacity_pos : 0 < workflowPoolCapacity := by
  unfold workflowPoolCapacity
  decide

theorem workflowPoolCapacity_lt : workflowPoolCapacity < 2 ^ 32 := by
  unfold workflowPoolCapacity
  decide

abbrev SlotIdx := Fin workflowPoolCapacity

structure PoolSlot where
  key : UInt64
  active : Bool
  deriving DecidableEq, Repr

def PoolSlot.empty : PoolSlot := ⟨0, false⟩

/-- Arrays are functions; a cell `none` is `KEY_SLOT_EMPTY`. -/
structure WorkflowContextPool (α : Type) where
  keyIndex : SlotIdx → Option SlotIdx
  slots : SlotIdx → PoolSlot
  contexts : SlotIdx → Option α
  freeList : List SlotIdx
  activeCount : UInt64
  totalInserted : UInt64
  totalRemoved : UInt64

def bucket (key : UInt64) : SlotIdx :=
  ⟨key.toNat % workflowPoolCapacity, Nat.mod_lt _ workflowPoolCapacity_pos⟩

namespace WorkflowContextPool

variable {α β γ : Type}

def new : WorkflowContextPool α where
  keyIndex := fun _ => none
  slots := fun _ => PoolSlot.empty
  contexts := fun _ => none
  freeList := List.finRange workflowPoolCapacity
  activeCount := 0
  totalInserted := 0
  totalRemoved := 0

variable (p : WorkflowContextPool α)

def slotHolds (key : UInt64) (idx : SlotIdx) : Bool :=
  (p.slots idx).active && (p.slots idx).key == key

def findKeySlotLinear (key : UInt64) : Option SlotIdx :=
  (List.finRange workflowPoolCapacity).find? (p.slotHolds key)

/-- A blank cell answers `none` without a scan. -/
def findKeySlot (key : UInt64) : Option SlotIdx :=
  match p.keyIndex (bucket key) with
  -- the one answer that is not verified
  | none => none
  | some idx => if p.slotHolds key idx then some idx else p.findKeySlotLinear key

def setContext (idx : SlotIdx) (ctx : α) : WorkflowContextPool α :=
  { p with contexts := update p.contexts idx (some ctx) }

/-- The tail that `insert` and `insert_if_absent` share. -/
def occupy (idx : SlotIdx) (rest : List SlotIdx) (key : UInt64)
    (ctx : α) : WorkflowContextPool α where
  keyIndex := update p.keyIndex (bucket key) (some idx)
  slots := update p.slots idx ⟨key, true⟩
  contexts := update p.contexts idx (some ctx)
  freeList := rest
  activeCount := p.activeCount + 1
  totalInserted := p.totalInserted + 1
  totalRemoved := p.totalRemoved

def insert (key : UInt64) (ctx : α) : Option SlotIdx × WorkflowContextPool α :=
  match p.findKeySlot key with
  | some idx => (some idx, p.setContext idx ctx)
  | none =>
    match p.freeList with
    | [] => (none, p)
    | idx :: rest => (some idx, p.occupy idx rest key ctx)

def insertIfAbsent (key : UInt64) (ctx : α) : Bool × WorkflowContextPool α :=
  match p.findKeySlot key with
  -- a second start of a key changes nothing
  | some _ => (false, p)
  | none =>
    match p.freeList with
    | [] => (false, p)
    | idx :: rest => (true, p.occupy idx rest key ctx)

def lookup (key : UInt64) : Option α :=
  (p.findKeySlot key).bind p.contexts

def withCtx (key : UInt64) (f : Option α → β) : β :=
  f (p.lookup key)

def withMut (key : UInt64) (absent : β) (present : α → β × α) : β × WorkflowContextPool α :=
  match p.findKeySlot key with
  | none => (absent, p)
  | some idx =>
    match p.contexts idx with
    | none => (absent, p)
    | some ctx => ((present ctx).1, p.setContext idx (present ctx).2)

def modify (key : UInt64) (f : α → α) : WorkflowContextPool α :=
  (p.withMut key () (fun ctx => ((), f ctx))).2

/-- What `remove` does to the slot it found. -/
def release (idx : SlotIdx) (key : UInt64) : WorkflowContextPool α where
  -- blanked even if it names another key's slot
  keyIndex := update p.keyIndex (bucket key) none
  slots := update p.slots idx PoolSlot.empty
  contexts := update p.contexts idx none
  freeList := idx :: p.freeList
  activeCount := p.activeCount - 1
  totalInserted := p.totalInserted
  totalRemoved := p.totalRemoved + 1

def remove (key : UInt64) : Option α × WorkflowContextPool α :=
  match p.findKeySlot key with
  | none => (none, p)
  | some idx => (p.contexts idx, p.release idx key)

def entries : List (UInt64 × α) :=
  (List.finRange workflowPoolCapacity).filterMap fun idx =>
    if (p.slots idx).active then (p.contexts idx).map (fun ctx => ((p.slots idx).key, ctx))
    else none

def keys : List UInt64 :=
  ((List.finRange workflowPoolCapacity).filter (fun idx => (p.slots idx).active)).map
    (fun idx => (p.slots idx).key)

def len : Nat := p.activeCount.toNat

def available : Nat := p.freeList.length

/-! ### Lookup -/

variable {p} {key : UInt64} {idx : SlotIdx}

theorem slotHolds_iff :
    p.slotHolds key idx = true ↔ (p.slots idx).active = true ∧ (p.slots idx).key = key := by
  simp only [slotHolds, Bool.and_eq_true, beq_iff_eq]

theorem findKeySlotLinear_eq_none :
    p.findKeySlotLinear key = none ↔ ∀ idx, p.slotHolds key idx = false := by
  simp only [findKeySlotLinear, find?_eq_none, mem_finRange, true_imp_iff,
    Bool.not_eq_true]

theorem findKeySlot_some (h : p.findKeySlot key = some idx) : p.slotHolds key idx = true := by
  unfold findKeySlot at h
  split at h
  · cases h
  · next cell _ =>
    split at h
    · next hcell => cases h; exact hcell
    · exact find?_some h

theorem findKeySlot_congr {q : WorkflowContextPool β}
    (hindex : p.keyIndex = q.keyIndex) (hslots : p.slots = q.slots) (key : UInt64) :
    p.findKeySlot key = q.findKeySlot key := by
  have hholds : p.slotHolds = q.slotHolds := by
    funext k idx
    rw [slotHolds, slotHolds, hslots]
  rw [findKeySlot, findKeySlot, findKeySlotLinear, findKeySlotLinear, hindex, hholds]

@[simp] theorem lookup_new (key : UInt64) : (new : WorkflowContextPool α).lookup key = none := rfl

theorem freeList_new_ne_nil : (new : WorkflowContextPool α).freeList ≠ [] := by
  intro h
  have hlen : (List.finRange workflowPoolCapacity).length = 0 := by
    rw [show List.finRange workflowPoolCapacity = [] from h]
    rfl
  rw [length_finRange] at hlen
  exact absurd hlen (Nat.ne_of_gt workflowPoolCapacity_pos)

/-! ### Case by case -/

theorem slotHolds_occupy {rest : List SlotIdx} {ctx : α} {k : UInt64} {j : SlotIdx} :
    (p.occupy idx rest key ctx).slotHolds k j = true
      ↔ (j = idx ∧ k = key) ∨ (j ≠ idx ∧ p.slotHolds k j = true) := by
  simp only [slotHolds, occupy]
  by_cases hj : j = idx
  · subst hj
    simp only [update_self, Bool.true_and, beq_iff_eq, true_and, ne_eq, not_true,
      false_and, or_false]
    exact eq_comm
  · simp [hj]

theorem slotHolds_release {k : UInt64} {j : SlotIdx} :
    (p.release idx key).slotHolds k j = true ↔ j ≠ idx ∧ p.slotHolds k j = true := by
  simp only [slotHolds, release]
  by_cases hj : j = idx
  · subst hj
    simp [PoolSlot.empty]
  · simp [hj]

@[simp] theorem setContext_contexts (p : WorkflowContextPool α) (idx : SlotIdx) (ctx : α) :
    (p.setContext idx ctx).contexts = update p.contexts idx (some ctx) := rfl

@[simp] theorem occupy_contexts (p : WorkflowContextPool α) (idx : SlotIdx)
    (rest : List SlotIdx) (key : UInt64) (ctx : α) :
    (p.occupy idx rest key ctx).contexts = update p.contexts idx (some ctx) := rfl

@[simp] theorem release_contexts (p : WorkflowContextPool α) (idx : SlotIdx) (key : UInt64) :
    (p.release idx key).contexts = update p.contexts idx none := rfl

@[simp] theorem findKeySlot_setContext (p : WorkflowContextPool α) (idx : SlotIdx) (ctx : α)
    (key : UInt64) : (p.setContext idx ctx).findKeySlot key = p.findKeySlot key :=
  findKeySlot_congr rfl rfl key

theorem insert_of_some (h : p.findKeySlot key = some idx) (ctx : α) :
    p.insert key ctx = (some idx, p.setContext idx ctx) := by
  simp only [insert, h]

theorem insert_of_full (h : p.findKeySlot key = none) (hfree : p.freeList = []) (ctx : α) :
    p.insert key ctx = (none, p) := by
  simp only [insert, h, hfree]

theorem insert_of_free
    {rest : List SlotIdx} (h : p.findKeySlot key = none) (hfree : p.freeList = idx :: rest)
    (ctx : α) : p.insert key ctx = (some idx, p.occupy idx rest key ctx) := by
  simp only [insert, h, hfree]

/-- The key has a slot, or a slot is free. -/
def HasRoom (p : WorkflowContextPool α) (key : UInt64) : Prop :=
  (p.findKeySlot key).isSome = true ∨ p.freeList ≠ []

instance (p : WorkflowContextPool α) (key : UInt64) : Decidable (p.HasRoom key) :=
  inferInstanceAs (Decidable ((p.findKeySlot key).isSome = true ∨ p.freeList ≠ []))

theorem findKeySlot_occupy_self (p : WorkflowContextPool α) (idx : SlotIdx)
    (rest : List SlotIdx) (key : UInt64) (ctx : α) :
    (p.occupy idx rest key ctx).findKeySlot key = some idx := by
  have hholds : (p.occupy idx rest key ctx).slotHolds key idx = true :=
    slotHolds_occupy.mpr (Or.inl ⟨rfl, rfl⟩)
  have hcell : (p.occupy idx rest key ctx).keyIndex (bucket key) = some idx :=
    update_self ..
  simp only [findKeySlot, hcell, hholds, if_true]

theorem lookup_insert_self (h : p.HasRoom key)
    (ctx : α) : (p.insert key ctx).2.lookup key = some ctx := by
  cases hfind : p.findKeySlot key with
  | some idx =>
    rw [insert_of_some hfind, lookup, findKeySlot_setContext, hfind, Option.bind_some,
      setContext_contexts, update_self]
  | none =>
    have hfree : p.freeList ≠ [] := h.resolve_left (by rw [hfind]; exact Bool.false_ne_true)
    obtain ⟨idx, rest, hcons⟩ := exists_cons_of_ne_nil hfree
    rw [insert_of_free hfind hcons, lookup, findKeySlot_occupy_self, Option.bind_some,
      occupy_contexts, update_self]

theorem insert_of_not_hasRoom (h : ¬ p.HasRoom key)
    (ctx : α) : (p.insert key ctx).2 = p ∧ p.lookup key = none := by
  have hfind : p.findKeySlot key = none :=
    Option.not_isSome_iff_eq_none.mp (fun hsome => h (Or.inl hsome))
  have hfree : p.freeList = [] := by
    by_contra hne
    exact h (Or.inr hne)
  refine ⟨by rw [insert_of_full hfind hfree], ?_⟩
  rw [lookup, hfind]
  rfl

theorem insertIfAbsent_of_none (h : p.findKeySlot key = none) (ctx : α) :
    (p.insertIfAbsent key ctx).2 = (p.insert key ctx).2 := by
  simp only [insertIfAbsent, insert, h]
  split <;> rfl

theorem insertIfAbsent_of_some
    (h : p.findKeySlot key = some idx) (ctx : α) : p.insertIfAbsent key ctx = (false, p) := by
  simp only [insertIfAbsent, h]

theorem remove_of_none (h : p.findKeySlot key = none) : p.remove key = (none, p) := by
  simp only [remove, h]

theorem remove_of_some (h : p.findKeySlot key = some idx) :
    p.remove key = (p.contexts idx, p.release idx key) := by
  simp only [remove, h]

theorem withMut_fst (p : WorkflowContextPool α) (key : UInt64) (absent : β) (present : α → β × α) :
    (p.withMut key absent present).1
      = (p.lookup key).elim absent (fun ctx => (present ctx).1) := by
  unfold withMut lookup
  cases p.findKeySlot key with
  | none => rfl
  | some idx =>
    cases hctx : p.contexts idx with
    | none | some ctx => simp only [hctx, Option.bind_some, Option.elim]

theorem withMut_snd (p : WorkflowContextPool α) (key : UInt64) (absent : β) (present : α → β × α) :
    (p.withMut key absent present).2 = p.modify key (fun ctx => (present ctx).2) := by
  unfold modify withMut
  cases p.findKeySlot key with
  | none => rfl
  | some idx =>
    cases hctx : p.contexts idx with
    | none | some ctx => simp only [hctx]

theorem modify_of_eq {f : α → α}
    (h : ∀ ctx, p.lookup key = some ctx → f ctx = ctx) : p.modify key f = p := by
  unfold modify withMut
  cases hfind : p.findKeySlot key with
  | none => rfl
  | some idx =>
    cases hctx : p.contexts idx with
    | none => simp only [hctx]
    | some ctx =>
      have hsame : f ctx = ctx := h ctx (by rw [lookup, hfind, Option.bind_some, hctx])
      simp only [hctx, hsame]
      rw [setContext, ← hctx, update_eq_self]

@[simp] theorem freeList_modify (p : WorkflowContextPool α) (key : UInt64) (f : α → α) :
    (p.modify key f).freeList = p.freeList := by
  unfold modify withMut
  split
  · rfl
  · split <;> rfl

theorem freeList_insertIfAbsent (p : WorkflowContextPool α) (key : UInt64) (ctx : α) :
    p.freeList.length ≤ (p.insertIfAbsent key ctx).2.freeList.length + 1 := by
  cases hfind : p.findKeySlot key with
  | some idx =>
    rw [insertIfAbsent_of_some hfind]
    exact Nat.le_succ _
  | none =>
    rw [insertIfAbsent_of_none hfind]
    cases hfree : p.freeList with
    | nil => exact Nat.zero_le _
    | cons idx rest =>
      rw [insert_of_free hfind hfree]
      exact Nat.le_refl _

theorem freeList_insertIfAbsent_of_full {ctx : α}
    (h : p.freeList = []) : (p.insertIfAbsent key ctx).2.freeList = p.freeList := by
  cases hfind : p.findKeySlot key with
  | some idx => rw [insertIfAbsent_of_some hfind]
  | none => rw [insertIfAbsent_of_none hfind, insert_of_full hfind h]

theorem remove_fst (p : WorkflowContextPool α) (key : UInt64) :
    (p.remove key).1 = p.lookup key := by
  cases hfind : p.findKeySlot key with
  | none => rw [remove_of_none hfind, lookup, hfind, Option.bind_none]
  | some idx => rw [remove_of_some hfind, lookup, hfind, Option.bind_some]

theorem lookup_setContext (hfind : p.findKeySlot key = some idx) (ctx : α) (k : UInt64) :
    (p.setContext idx ctx).lookup k = if k = key then some ctx else p.lookup k := by
  rw [lookup, findKeySlot_setContext, setContext_contexts]
  by_cases hk : k = key
  · subst hk
    rw [if_pos rfl, hfind, Option.bind_some, update_self]
  · rw [if_neg hk, lookup]
    cases hother : p.findKeySlot k with
    | none => rfl
    | some j =>
      -- a slot carries one key
      have hj : j ≠ idx := by
        intro h
        have hkey := (slotHolds_iff.mp (findKeySlot_some hfind)).2
        have hkj := (slotHolds_iff.mp (findKeySlot_some hother)).2
        exact hk (by rw [← hkj, h, hkey])
      rw [Option.bind_some, Option.bind_some, update_of_ne hj]

theorem lookup_withMut (p : WorkflowContextPool α) (key : UInt64) (absent : β)
    (present : α → β × α) (k : UInt64) :
    (p.withMut key absent present).2.lookup k
      = if k = key then (p.lookup k).map (fun ctx => (present ctx).2) else p.lookup k := by
  unfold withMut
  by_cases hk : k = key
  · subst hk
    rw [if_pos rfl]
    cases hfind : p.findKeySlot k with
    | none => simp only [lookup, hfind, Option.bind_none, Option.map_none]
    | some idx =>
      cases hctx : p.contexts idx with
      | none => simp only [lookup, hfind, hctx, Option.bind_some, Option.map_none]
      | some ctx =>
        simp only [hctx]
        rw [lookup_setContext hfind, if_pos rfl, lookup, hfind, Option.bind_some, hctx,
          Option.map_some]
  · rw [if_neg hk]
    cases hfind : p.findKeySlot key with
    | none => rfl
    | some idx =>
      cases hctx : p.contexts idx with
      | none => simp only [hctx]
      | some ctx =>
        simp only [hctx]
        rw [lookup_setContext hfind, if_neg hk]

theorem lookup_modify (p : WorkflowContextPool α) (key : UInt64) (f : α → α) (k : UInt64) :
    (p.modify key f).lookup k = if k = key then (p.lookup k).map f else p.lookup k :=
  lookup_withMut ..

theorem lookup_foldl_modify (f : UInt64 → α → α) {ks : List UInt64} (hks : ks.Nodup)
    (p : WorkflowContextPool α) (k : UInt64) :
    (ks.foldl (fun p key => p.modify key (f key)) p).lookup k
      = if k ∈ ks then (p.lookup k).map (f k) else p.lookup k := by
  induction ks generalizing p with
  | nil => rfl
  | cons key ks ih =>
    obtain ⟨hnot, hks⟩ := nodup_cons.mp hks
    rw [foldl_cons, ih hks, lookup_modify]
    by_cases hk : k = key
    · subst hk
      simp [hnot]
    · simp [hk]

theorem mem_keys (h : (p.lookup key).isSome) : key ∈ p.keys := by
  cases hfind : p.findKeySlot key with
  | none =>
    rw [lookup, hfind] at h
    cases h
  | some idx =>
    obtain ⟨hactive, hkey⟩ := slotHolds_iff.mp (findKeySlot_some hfind)
    rw [keys, mem_map]
    exact ⟨idx, mem_filter.mpr ⟨mem_finRange idx, hactive⟩, hkey⟩

/-! ### Stored contexts -/

def All (P : α → Prop) (p : WorkflowContextPool α) : Prop :=
  ∀ idx ctx, p.contexts idx = some ctx → P ctx

theorem all_new (P : α → Prop) : (new : WorkflowContextPool α).All P := by
  intro idx ctx h
  cases h

namespace All

variable {P : α → Prop} {p : WorkflowContextPool α}

variable {key : UInt64} {ctx : α}

theorem lookup (hp : p.All P) (h : p.lookup key = some ctx) : P ctx := by
  obtain ⟨idx, -, hctx⟩ := Option.bind_eq_some_iff.mp h
  exact hp idx ctx hctx

private theorem update (hp : p.All P) {idx : SlotIdx} {x : Option α} (hx : ∀ ctx ∈ x, P ctx) :
    ∀ i ctx, update p.contexts idx x i = some ctx → P ctx := by
  intro i ctx hctx
  by_cases hi : i = idx
  · rw [hi, update_self] at hctx
    exact hx ctx hctx
  · rw [update_of_ne hi] at hctx
    exact hp i ctx hctx

theorem insert (hp : p.All P) (key : UInt64) (hctx : P ctx) : (p.insert key ctx).2.All P := by
  have hx : ∀ c ∈ some ctx, P c := fun c hc => Option.some.inj hc ▸ hctx
  cases hfind : p.findKeySlot key with
  | some idx =>
    rw [insert_of_some hfind]
    exact hp.update hx
  | none =>
    cases hfree : p.freeList with
    | nil =>
      rw [insert_of_full hfind hfree]
      exact hp
    | cons idx rest =>
      rw [insert_of_free hfind hfree]
      exact hp.update hx

theorem insertIfAbsent (hp : p.All P) (key : UInt64) (hctx : P ctx) :
    (p.insertIfAbsent key ctx).2.All P := by
  cases hfind : p.findKeySlot key with
  | some idx =>
    rw [insertIfAbsent_of_some hfind]
    exact hp
  | none =>
    rw [insertIfAbsent_of_none hfind]
    exact hp.insert key hctx

theorem modify (hp : p.All P) {f : α → α}
    (hf : ∀ ctx, p.lookup key = some ctx → P ctx → P (f ctx)) : (p.modify key f).All P := by
  unfold WorkflowContextPool.modify withMut
  cases hfind : p.findKeySlot key with
  | none => exact hp
  | some idx =>
    cases hctx : p.contexts idx with
    | none =>
      simp only [hctx]
      exact hp
    | some ctx =>
      have hfound : p.lookup key = some ctx := by
        rw [WorkflowContextPool.lookup, hfind, Option.bind_some, hctx]
      simp only [hctx]
      refine hp.update (fun c hc => ?_)
      rw [← Option.some.inj hc]
      exact hf ctx hfound (hp idx ctx hctx)

theorem modify_iff (hp : p.All P) {f : α → α} :
    (p.modify key f).All P ↔ ∀ ctx, p.lookup key = some ctx → P (f ctx) := by
  refine ⟨fun hafter ctx hctx => ?_, fun h => hp.modify (fun ctx hctx _ => h ctx hctx)⟩
  have hfound : (p.modify key f).lookup key = some (f ctx) := by
    rw [lookup_modify, if_pos rfl, hctx, Option.map_some]
  exact hafter.lookup hfound

theorem remove (hp : p.All P) (key : UInt64) : (p.remove key).2.All P := by
  cases hfind : p.findKeySlot key with
  | none =>
    rw [remove_of_none hfind]
    exact hp
  | some idx =>
    rw [remove_of_some hfind]
    exact hp.update (fun _ h => absurd h (Option.not_mem_none _))

end All

/-! ### Free and active slots -/

structure Partitioned (p : WorkflowContextPool α) : Prop where
  mem_freeList : ∀ idx, idx ∈ p.freeList ↔ (p.slots idx).active = false
  nodup_freeList : p.freeList.Nodup
  count : p.activeCount.toNat + p.freeList.length = workflowPoolCapacity

theorem partitioned_new : (new : WorkflowContextPool α).Partitioned where
  mem_freeList idx := iff_of_true (mem_finRange idx) rfl
  nodup_freeList := nodup_finRange workflowPoolCapacity
  count := (Nat.zero_add _).trans length_finRange

namespace Partitioned

variable {p : WorkflowContextPool α} {idx : SlotIdx}

theorem occupy (hp : p.Partitioned) {rest : List SlotIdx} (hfree : p.freeList = idx :: rest)
    (key : UInt64) (ctx : α) : (p.occupy idx rest key ctx).Partitioned where
  mem_freeList j := by
    have hnodup : (idx :: rest).Nodup := hfree ▸ hp.nodup_freeList
    have hmem := hp.mem_freeList j
    rw [hfree, mem_cons] at hmem
    simp only [WorkflowContextPool.occupy]
    by_cases hj : j = idx
    · subst hj
      simp only [update_self, Bool.true_eq_false, iff_false]
      exact (nodup_cons.mp hnodup).1
    · rw [update_of_ne hj, ← hmem]
      simp only [hj, false_or]
  nodup_freeList := (nodup_cons.mp (hfree ▸ hp.nodup_freeList)).2
  count := by
    have hcount := hp.count
    have hcap := workflowPoolCapacity_lt
    rw [hfree, length_cons] at hcount
    show (p.activeCount + 1).toNat + rest.length = _
    rw [UInt64.toNat_add, UInt64.toNat_one, Nat.mod_eq_of_lt (by omega)]
    omega

theorem release (hp : p.Partitioned) (hactive : (p.slots idx).active = true) (key : UInt64) :
    (p.release idx key).Partitioned := by
  have hnotfree : idx ∉ p.freeList := by
    rw [hp.mem_freeList, hactive]
    exact Bool.true_eq_false.mp
  have hnodup : (idx :: p.freeList).Nodup := hp.nodup_freeList.cons hnotfree
  have hcount := hp.count
  -- the freed slot is a slot more, so the free list was not full
  have hlen := List.Nodup.length_le_card hnodup
  rw [Fintype.card_fin, length_cons] at hlen
  refine ⟨fun j => ?_, hnodup, ?_⟩
  · by_cases hj : j = idx
    · subst hj
      simp [WorkflowContextPool.release, PoolSlot.empty]
    · simp only [WorkflowContextPool.release, update_of_ne hj, mem_cons, hj, false_or]
      exact hp.mem_freeList j
  · have hone : 1 ≤ p.activeCount := UInt64.le_iff_toNat_le.mpr (by rw [UInt64.toNat_one]; omega)
    show (p.activeCount - 1).toNat + (p.freeList.length + 1) = _
    rw [UInt64.toNat_sub_of_le _ _ hone, UInt64.toNat_one]
    omega

end Partitioned

/-! ### Well-formed pools -/

/-- A context in every active slot, one slot for a key, and no key behind an empty cell. -/
structure WellFormed (p : WorkflowContextPool α) : Prop extends Partitioned p where
  context_isSome : ∀ idx, (p.contexts idx).isSome = (p.slots idx).active
  key_unique : ∀ key i j, p.slotHolds key i = true → p.slotHolds key j = true → i = j
  blank_cell : ∀ key idx, p.keyIndex (bucket key) = none → p.slotHolds key idx = false

theorem wellFormed_new : (new : WorkflowContextPool α).WellFormed where
  toPartitioned := partitioned_new
  context_isSome _ := rfl
  key_unique key i j h := by simp [slotHolds, new, PoolSlot.empty] at h
  blank_cell key idx _ := by simp [slotHolds, new, PoolSlot.empty]

namespace WellFormed

variable {p : WorkflowContextPool α} (hp : p.WellFormed) {key : UInt64} {idx : SlotIdx}

include hp

theorem findKeySlot_iff :
    p.findKeySlot key = some idx ↔ p.slotHolds key idx = true := by
  refine ⟨findKeySlot_some, fun hholds => ?_⟩
  cases hcell : p.keyIndex (bucket key) with
  | none =>
    rw [hp.blank_cell key idx hcell] at hholds
    cases hholds
  | some cell =>
    simp only [findKeySlot, hcell]
    -- the cell names the slot, or the scan finds it
    split
    · next h => rw [hp.key_unique key cell idx h hholds]
    · cases hscan : p.findKeySlotLinear key with
      | none =>
        rw [findKeySlotLinear_eq_none.mp hscan idx] at hholds
        cases hholds
      | some found =>
        have hfound : p.slotHolds key found = true := find?_some hscan
        rw [hp.key_unique key found idx hfound hholds]

theorem findKeySlot_eq_none :
    p.findKeySlot key = none ↔ ∀ idx, p.slotHolds key idx = false := by
  constructor
  · intro hnone idx
    by_contra hholds
    rw [hp.findKeySlot_iff.mpr (Bool.not_eq_false _ ▸ hholds)] at hnone
    cases hnone
  · intro hfree
    cases hfind : p.findKeySlot key with
    | none => rfl
    | some idx =>
      have hholds := findKeySlot_some hfind
      rw [hfree idx] at hholds
      cases hholds

theorem exists_context (h : p.findKeySlot key = some idx) : ∃ ctx, p.contexts idx = some ctx := by
  rw [← Option.isSome_iff_exists, hp.context_isSome]
  exact (slotHolds_iff.mp (findKeySlot_some h)).1

theorem exists_lookup (h : p.findKeySlot key = some idx) : ∃ ctx, p.lookup key = some ctx := by
  obtain ⟨ctx, hctx⟩ := hp.exists_context h
  exact ⟨ctx, by rw [lookup, h, Option.bind_some, hctx]⟩

theorem lookup_eq_none : p.lookup key = none ↔ p.findKeySlot key = none := by
  cases hfind : p.findKeySlot key with
  | none => simp [lookup, hfind]
  | some idx =>
    obtain ⟨ctx, hctx⟩ := hp.exists_lookup hfind
    simp [hctx]

/-! ### Every operation keeps a pool well formed -/

theorem setContext (hactive : (p.slots idx).active = true) (ctx : α) :
    (p.setContext idx ctx).WellFormed where
  toPartitioned := { hp with }
  context_isSome j := by
    by_cases hj : j = idx
    · subst hj
      rw [setContext_contexts, update_self, Option.isSome_some]
      exact hactive.symm
    · rw [setContext_contexts, update_of_ne hj]
      exact hp.context_isSome j
  key_unique := hp.key_unique
  blank_cell := hp.blank_cell

theorem occupy {rest : List SlotIdx}
    (hfree : p.freeList = idx :: rest) (habsent : ∀ j, p.slotHolds key j = false) (ctx : α) :
    (p.occupy idx rest key ctx).WellFormed where
  toPartitioned := hp.toPartitioned.occupy hfree key ctx
  context_isSome j := by
    simp only [WorkflowContextPool.occupy]
    by_cases hj : j = idx
    · subst hj
      simp only [update_self, Option.isSome_some]
    · rw [update_of_ne hj, update_of_ne hj]
      exact hp.context_isSome j
  key_unique k i j hi hj := by
    rw [slotHolds_occupy] at hi hj
    -- another slot with `k` held it before
    rcases hi with ⟨rfl, rfl⟩ | ⟨hi', hki⟩ <;> rcases hj with ⟨rfl, hk⟩ | ⟨hj', hkj⟩
    · rfl
    · rw [habsent] at hkj; cases hkj
    · rw [hk, habsent] at hki; cases hki
    · exact hp.key_unique k i j hki hkj
  blank_cell k j hcell := by
    by_contra hholds
    rw [Bool.not_eq_false, slotHolds_occupy] at hholds
    simp only [WorkflowContextPool.occupy] at hcell
    -- only this bucket's cell was written
    by_cases hb : bucket k = bucket key
    · rw [hb, update_self] at hcell
      cases hcell
    · rw [update_of_ne hb] at hcell
      rcases hholds with ⟨_, rfl⟩ | ⟨_, hold⟩
      · exact hb rfl
      · rw [hp.blank_cell k j hcell] at hold
        cases hold

theorem remove (halone : ∀ k idx, p.slotHolds k idx = true → bucket k = bucket key → k = key) :
    (p.remove key).2.WellFormed := by
  cases hfind : p.findKeySlot key with
  | none =>
    rw [remove_of_none hfind]
    exact hp
  | some idx =>
    have hholds := slotHolds_iff.mp (findKeySlot_some hfind)
    have hslots := hp.toPartitioned.release hholds.1 key
    rw [remove_of_some hfind]
    refine
      { toPartitioned := hslots
        context_isSome := fun j => ?_
        key_unique := fun k i j hi hj => ?_
        blank_cell := fun k j hcell => ?_ }
    · by_cases hj : j = idx
      · subst hj
        simp [release, PoolSlot.empty]
      · simp only [release, update_of_ne hj]
        exact hp.context_isSome j
    · exact hp.key_unique k i j (slotHolds_release.mp hi).2 (slotHolds_release.mp hj).2
    · by_contra hheld
      obtain ⟨hj, hold⟩ := slotHolds_release.mp (Bool.not_eq_false _ ▸ hheld)
      by_cases hb : bucket k = bucket key
      · -- the cell was blanked by this removal: `k` can only be the removed key
        have hk : k = key := halone k j hold hb
        exact hj (hp.key_unique key j idx (hk ▸ hold) (findKeySlot_some hfind))
      · simp only [release, update_of_ne hb] at hcell
        rw [hp.blank_cell k j hcell] at hold
        cases hold

theorem insert (key : UInt64) (ctx : α) : (p.insert key ctx).2.WellFormed := by
  cases hfind : p.findKeySlot key with
  | some idx =>
    rw [insert_of_some hfind]
    exact hp.setContext (slotHolds_iff.mp (findKeySlot_some hfind)).1 ctx
  | none =>
    cases hfree : p.freeList with
    | nil =>
      rw [insert_of_full hfind hfree]
      exact hp
    | cons idx rest =>
      rw [insert_of_free hfind hfree]
      exact hp.occupy hfree (hp.findKeySlot_eq_none.mp hfind) ctx

theorem insertIfAbsent (key : UInt64) (ctx : α) :
    (p.insertIfAbsent key ctx).2.WellFormed := by
  cases hfind : p.findKeySlot key with
  | some idx =>
    rw [insertIfAbsent_of_some hfind]
    exact hp
  | none =>
    rw [insertIfAbsent_of_none hfind]
    exact hp.insert key ctx

theorem withMut (key : UInt64) (absent : β) (present : α → β × α) :
    (p.withMut key absent present).2.WellFormed := by
  unfold WorkflowContextPool.withMut
  split
  · exact hp
  · next idx hfind =>
    split
    · exact hp
    · exact hp.setContext (slotHolds_iff.mp (findKeySlot_some hfind)).1 _

/-! ### Every key -/

theorem lookup_eq_some {ctx : α} :
    p.lookup key = some ctx ↔ ∃ idx, p.slotHolds key idx = true ∧ p.contexts idx = some ctx := by
  simp only [lookup, Option.bind_eq_some_iff, hp.findKeySlot_iff]

theorem lookup_occupy {rest : List SlotIdx}
    (hfree : p.freeList = idx :: rest) (hfind : p.findKeySlot key = none) (ctx : α) (k : UInt64) :
    (p.occupy idx rest key ctx).lookup k = if k = key then some ctx else p.lookup k := by
  have hwf := hp.occupy hfree (hp.findKeySlot_eq_none.mp hfind) ctx
  have hinactive : (p.slots idx).active = false :=
    (hp.mem_freeList idx).mp (hfree ▸ mem_cons_self)
  by_cases hk : k = key
  · subst hk
    rw [if_pos rfl, hwf.lookup_eq_some]
    exact ⟨idx, slotHolds_occupy.mpr (Or.inl ⟨rfl, rfl⟩), update_self ..⟩
  · rw [if_neg hk]
    ext c
    simp only [hwf.lookup_eq_some, hp.lookup_eq_some, slotHolds_occupy]
    constructor
    · rintro ⟨j, ⟨_, hkey⟩ | ⟨hj, hold⟩, hctx⟩
      · exact absurd hkey hk
      · exact ⟨j, hold, by rwa [occupy_contexts, update_of_ne hj] at hctx⟩
    · rintro ⟨j, hold, hctx⟩
      -- a free slot holds no key
      have hj : j ≠ idx := by
        rintro rfl
        rw [(slotHolds_iff.mp hold).1] at hinactive
        cases hinactive
      exact ⟨j, Or.inr ⟨hj, hold⟩, by rwa [occupy_contexts, update_of_ne hj]⟩

theorem lookup_insert (key : UInt64) (ctx : α) (k : UInt64) :
    (p.insert key ctx).2.lookup k
      = if k = key ∧ ((p.lookup key).isSome ∨ p.freeList ≠ []) then some ctx
        else p.lookup k := by
  cases hfind : p.findKeySlot key with
  | some idx =>
    obtain ⟨held, hsome⟩ := hp.exists_lookup hfind
    rw [insert_of_some hfind, lookup_setContext hfind]
    simp only [hsome, Option.isSome_some, true_or, and_true]
  | none =>
    have hnone : p.lookup key = none := hp.lookup_eq_none.mpr hfind
    cases hfree : p.freeList with
    | nil =>
      rw [insert_of_full hfind hfree]
      simp [hnone]
    | cons idx rest =>
      rw [insert_of_free hfind hfree, hp.lookup_occupy hfree hfind]
      simp

theorem lookup_insertIfAbsent (key : UInt64) (ctx : α) (k : UInt64) :
    (p.insertIfAbsent key ctx).2.lookup k
      = if k = key ∧ p.lookup key = none ∧ p.freeList ≠ [] then some ctx else p.lookup k := by
  cases hfind : p.findKeySlot key with
  | some idx =>
    obtain ⟨held, hsome⟩ := hp.exists_lookup hfind
    rw [insertIfAbsent_of_some hfind]
    simp [hsome]
  | none =>
    have hnone : p.lookup key = none := hp.lookup_eq_none.mpr hfind
    rw [insertIfAbsent_of_none hfind, hp.lookup_insert]
    simp [hnone]

theorem lookup_remove
    (halone : ∀ k idx, p.slotHolds k idx = true → bucket k = bucket key → k = key) (k : UInt64) :
    (p.remove key).2.lookup k = if k = key then none else p.lookup k := by
  cases hfind : p.findKeySlot key with
  | none =>
    rw [remove_of_none hfind]
    by_cases hk : k = key
    · subst hk
      rw [if_pos rfl, hp.lookup_eq_none.mpr hfind]
    · rw [if_neg hk]
  | some idx =>
    have hwf := hp.remove halone
    rw [remove_of_some hfind] at hwf ⊢
    have hholds := findKeySlot_some hfind
    by_cases hk : k = key
    · subst hk
      rw [if_pos rfl, hwf.lookup_eq_none, hwf.findKeySlot_eq_none]
      intro j
      by_contra hheld
      obtain ⟨hj, hold⟩ := slotHolds_release.mp (Bool.not_eq_false _ ▸ hheld)
      exact hj (hp.key_unique k j idx hold hholds)
    · rw [if_neg hk]
      ext c
      rw [hwf.lookup_eq_some, hp.lookup_eq_some]
      constructor
      · rintro ⟨j, hheld, hctx⟩
        obtain ⟨hj, hold⟩ := slotHolds_release.mp hheld
        exact ⟨j, hold, by rwa [release_contexts, update_of_ne hj] at hctx⟩
      · rintro ⟨j, hold, hctx⟩
        have hj : j ≠ idx := by
          rintro rfl
          exact hk ((slotHolds_iff.mp hold).2.symm.trans (slotHolds_iff.mp hholds).2)
        exact ⟨j, slotHolds_release.mpr ⟨hj, hold⟩,
          by rwa [release_contexts, update_of_ne hj]⟩

theorem nodup_keys : p.keys.Nodup := by
  refine List.Nodup.map_on (fun i hi j hj hkey => ?_) ((nodup_finRange _).filter _)
  exact hp.key_unique _ i j (slotHolds_iff.mpr ⟨(mem_filter.mp hi).2, rfl⟩)
    (slotHolds_iff.mpr ⟨(mem_filter.mp hj).2, hkey.symm⟩)

theorem isSome_lookup_of_mem_keys (h : key ∈ p.keys) :
    (p.lookup key).isSome := by
  obtain ⟨idx, hidx, hkey⟩ := mem_map.mp h
  have hactive := (mem_filter.mp hidx).2
  obtain ⟨ctx, hctx⟩ := Option.isSome_iff_exists.mp ((hp.context_isSome idx).trans hactive)
  rw [hp.lookup_eq_some.mpr ⟨idx, slotHolds_iff.mpr ⟨hactive, hkey⟩, hctx⟩]
  rfl

theorem lookup_of_mem_entries {ctx : α} (h : (key, ctx) ∈ p.entries) :
    p.lookup key = some ctx := by
  obtain ⟨idx, -, hentry⟩ := mem_filterMap.mp h
  split at hentry
  · next hactive =>
    obtain ⟨ctx', hctx, heq⟩ := Option.map_eq_some_iff.mp hentry
    cases heq
    exact hp.lookup_eq_some.mpr ⟨idx, slotHolds_iff.mpr ⟨hactive, rfl⟩, hctx⟩
  · cases hentry

theorem freeList_ne_nil_of_subset {q : WorkflowContextPool β} (hq : q.WellFormed)
    (hsub : ∀ k, (q.lookup k).isSome → (p.lookup k).isSome)
    (hkey : (p.lookup key).isSome) (hnone : q.lookup key = none) : q.freeList ≠ [] := by
  intro hfull
  have hactive : ∀ idx, (q.slots idx).active = true := by
    intro idx
    by_contra hinactive
    have hmem := (hq.mem_freeList idx).mpr (Bool.eq_false_iff.mpr hinactive)
    rw [hfull] at hmem
    cases hmem
  have hholds : ∀ idx, q.slotHolds (q.slots idx).key idx = true := fun idx =>
    slotHolds_iff.mpr ⟨hactive idx, rfl⟩
  -- `p` has no slot left for `key`
  have hslot : ∀ idx, ∃ j, p.slotHolds (q.slots idx).key j = true := by
    intro idx
    have hserved : (q.lookup (q.slots idx).key).isSome := by
      rw [← Option.ne_none_iff_isSome, Ne, hq.lookup_eq_none, hq.findKeySlot_eq_none]
      intro hfree
      have hheld := hholds idx
      rw [hfree idx] at hheld
      cases hheld
    have hsome := hsub _ hserved
    rw [← Option.ne_none_iff_isSome, Ne, hp.lookup_eq_none] at hsome
    obtain ⟨j, hj⟩ := Option.ne_none_iff_exists'.mp hsome
    exact ⟨j, findKeySlot_some hj⟩
  choose g hg using hslot
  have hinj : Function.Injective g := by
    intro i j hij
    have hi := (slotHolds_iff.mp (hg i)).2
    have hj := (slotHolds_iff.mp (hg j)).2
    rw [hij] at hi
    have hsame : (q.slots i).key = (q.slots j).key := hi.symm.trans hj
    exact hq.key_unique _ i j (hholds i) (hsame ▸ hholds j)
  obtain ⟨j, hj⟩ : ∃ j, p.findKeySlot key = some j := by
    rw [← Option.ne_none_iff_isSome, Ne, hp.lookup_eq_none] at hkey
    exact Option.ne_none_iff_exists'.mp hkey
  obtain ⟨i, hi⟩ := Finite.injective_iff_surjective.mp hinj j
  have hkeys : (q.slots i).key = key := by
    have hgi := (slotHolds_iff.mp (hg i)).2
    rw [hi, (slotHolds_iff.mp (findKeySlot_some hj)).2] at hgi
    exact hgi.symm
  rw [hq.lookup_eq_none, hq.findKeySlot_eq_none] at hnone
  have hheld := hholds i
  rw [hkeys, hnone i] at hheld
  cases hheld

end WellFormed

end WorkflowContextPool

end Velocity
