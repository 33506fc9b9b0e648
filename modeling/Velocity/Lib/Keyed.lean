import Mathlib.Algebra.BigOperators.Group.List.Basic
import Mathlib.Data.List.AList

namespace Velocity.Lib

open List

/-!
# Maps that are counted over

Maps as `AList`s, and what a program counts over them.
-/

variable {κ ν ν' M : Type*} [DecidableEq κ] [AddCommMonoid M]

omit [DecidableEq κ] in
def valueSum (g : ν → M) (m : AList fun _ : κ => ν) : M :=
  (m.entries.map (fun entry => g entry.2)).sum

variable (m : AList fun _ : κ => ν)

omit [AddCommMonoid M] in
theorem lookup_insert_eq_ite (k k' : κ) (v : ν) :
    (m.insert k v).lookup k' = if k' = k then some v else m.lookup k' := by
  by_cases hk : k' = k
  · subst hk
    rw [if_pos rfl, AList.lookup_insert]
  · rw [if_neg hk, AList.lookup_insert_ne hk]

def modifyKey (m : AList fun _ : κ => ν) (k : κ) (f : ν → ν) : AList fun _ : κ => ν :=
  match m.lookup k with
  | some v => m.insert k (f v)
  | none => m

theorem lookup_modifyKey (k k' : κ) (f : ν → ν) :
    (modifyKey m k f).lookup k' = if k' = k then (m.lookup k).map f else m.lookup k' := by
  rw [modifyKey]
  split
  · next v hv => rw [lookup_insert_eq_ite, hv, Option.map_some]
  · next hnone =>
    split
    · next hk => rw [hk, hnone, Option.map_none]
    · rfl

@[simp] theorem lookup_modifyKey_self (k : κ) (f : ν → ν) :
    (modifyKey m k f).lookup k = (m.lookup k).map f := by
  rw [lookup_modifyKey, if_pos rfl]

theorem lookup_erase_eq_ite (k k' : κ) :
    (m.erase k).lookup k' = if k' = k then none else m.lookup k' := by
  by_cases hk : k' = k
  · subst hk
    rw [if_pos rfl, AList.lookup_erase]
  · rw [if_neg hk, AList.lookup_erase_ne hk]

section Update

variable {β : Type*} (g : Option ν → β) (m : AList fun _ : κ => ν) (k : κ)

theorem read_insert (v : ν) :
    (fun k' => g ((m.insert k v).lookup k'))
      = Function.update (fun k' => g (m.lookup k')) k (g (some v)) := by
  funext k'
  rw [lookup_insert_eq_ite, Function.update_apply, apply_ite g]

theorem read_erase :
    (fun k' => g ((m.erase k).lookup k'))
      = Function.update (fun k' => g (m.lookup k')) k (g none) := by
  funext k'
  rw [lookup_erase_eq_ite, Function.update_apply, apply_ite g]

theorem read_modifyKey (f : ν → ν) :
    (fun k' => g ((modifyKey m k f).lookup k'))
      = Function.update (fun k' => g (m.lookup k')) k (g ((m.lookup k).map f)) := by
  funext k'
  rw [lookup_modifyKey, Function.update_apply, apply_ite g]

end Update

variable (g : ν → M)

theorem sum_kerase (k : κ) (l : List (Sigma fun _ : κ => ν)) :
    (l.map (fun entry => g entry.2)).sum
      = ((l.dlookup k).elim 0 g) + ((l.kerase k).map (fun entry => g entry.2)).sum := by
  induction l with
  | nil => simp
  | cons entry rest ih =>
    obtain ⟨k', v⟩ := entry
    by_cases hk : k = k'
    · subst hk
      simp
    · rw [dlookup_cons_ne _ _ hk, kerase_cons_ne hk]
      simp only [map_cons, sum_cons, ih]
      exact add_left_comm _ _ _

theorem valueSum_eq_lookup_add (k : κ) (m : AList fun _ : κ => ν) :
    valueSum g m = (m.lookup k).elim 0 g + valueSum g (m.erase k) :=
  sum_kerase g k m.entries

theorem valueSum_insert (k : κ) (v : ν) (m : AList fun _ : κ => ν) :
    valueSum g (m.insert k v) = g v + valueSum g (m.erase k) := by
  show ((List.kinsert k v m.entries).map (fun entry => g entry.2)).sum
    = g v + ((m.entries.kerase k).map (fun entry => g entry.2)).sum
  rw [kinsert_def, map_cons, sum_cons]

theorem valueSum_insert_of_share {g : ν → M} {k : κ} {v : ν} {m : AList fun _ : κ => ν} {d : M}
    (h : g v = (m.lookup k).elim 0 g + d) : valueSum g (m.insert k v) = valueSum g m + d := by
  rw [valueSum_insert, h, valueSum_eq_lookup_add g k m]
  exact add_right_comm _ _ _

omit [DecidableEq κ] [AddCommMonoid M] in
def mapValues (f : ν → ν') (m : AList fun _ : κ => ν) : AList fun _ : κ => ν' where
  entries := m.entries.map (fun entry => ⟨entry.1, f entry.2⟩)
  nodupKeys := by
    have hkeys : (m.entries.map (fun entry => (⟨entry.1, f entry.2⟩ : Sigma fun _ : κ => ν'))).keys
        = m.entries.keys := by
      simp [List.keys]
    rw [List.NodupKeys, hkeys]
    exact m.nodupKeys

omit [AddCommMonoid M] in
@[simp] theorem lookup_mapValues (f : ν → ν') (m : AList fun _ : κ => ν) (k : κ) :
    (mapValues f m).lookup k = (m.lookup k).map f := by
  show List.dlookup k (m.entries.map (fun entry => (⟨entry.1, f entry.2⟩ : Sigma fun _ : κ => ν')))
    = (m.entries.dlookup k).map f
  induction m.entries with
  | nil => rfl
  | cons entry rest ih =>
    obtain ⟨k', v⟩ := entry
    by_cases hk : k = k'
    · subst hk
      simp
    · rw [map_cons, dlookup_cons_ne _ _ hk, dlookup_cons_ne _ _ hk, ih]

omit [DecidableEq κ] in
@[simp] theorem valueSum_mapValues (g : ν' → M) (f : ν → ν') (m : AList fun _ : κ => ν) :
    valueSum g (mapValues f m) = valueSum (fun v => g (f v)) m := by
  simp [valueSum, mapValues, Function.comp_def]

omit [DecidableEq κ] in
theorem valueSum_add (h : ν → M) (m : AList fun _ : κ => ν) :
    valueSum (fun v => g v + h v) m = valueSum g m + valueSum h m :=
  sum_map_add

omit [DecidableEq κ] in
theorem map_valueSum {N : Type*} [AddCommMonoid N] (φ : M →+ N) (g : ν → M)
    (m : AList fun _ : κ => ν) : φ (valueSum g m) = valueSum (fun v => φ (g v)) m := by
  rw [valueSum, map_list_sum, map_map]
  rfl

/-! ### How many keys -/

section Size

omit [DecidableEq κ] [AddCommMonoid M]

def size (m : AList fun _ : κ => ν) : Nat := m.entries.length

theorem size_eq_length_keys (m : AList fun _ : κ => ν) : size m = m.keys.length :=
  (length_map _).symm

variable [DecidableEq κ]

variable {m : AList fun _ : κ => ν}

theorem length_le_size {l : List κ} (hl : l.Nodup)
    (hm : ∀ k ∈ l, m.lookup k ≠ none) : l.length ≤ size m := by
  rw [size_eq_length_keys]
  refine (subperm_of_subset hl (fun k hk => ?_)).length_le
  by_contra hnot
  exact hm k hk (AList.lookup_eq_none.mpr hnot)

theorem size_le_length {l : List κ} (hm : ∀ k, m.lookup k ≠ none → k ∈ l) : size m ≤ l.length := by
  rw [size_eq_length_keys]
  refine (subperm_of_subset m.keys_nodup (fun k hk => hm k ?_)).length_le
  intro hnone
  exact AList.lookup_eq_none.mp hnone hk

theorem size_eq_lookup_add (m : AList fun _ : κ => ν) (k : κ) :
    size m = (m.lookup k).elim 0 (fun _ => 1) + size (m.erase k) := by
  have hsum : ∀ m' : AList fun _ : κ => ν, size m' = valueSum (fun _ => 1) m' := by
    intro m'
    simp [size, valueSum]
  rw [hsum, hsum, valueSum_eq_lookup_add _ k m]

variable {k : κ}

theorem size_erase_add_one (hk : m.lookup k ≠ none) : size (m.erase k) + 1 = size m := by
  obtain ⟨v, hv⟩ := Option.ne_none_iff_exists'.mp hk
  rw [size_eq_lookup_add m k, hv, Nat.add_comm]
  rfl

theorem size_insert (m : AList fun _ : κ => ν) (k : κ) (v : ν) :
    size (m.insert k v) = size (m.erase k) + 1 := rfl

theorem entries_perm_erase {v : ν} (hk : m.lookup k = some v) :
    m.entries.Perm (⟨k, v⟩ :: (m.erase k).entries) := by
  have hlist : ∀ l : List (Sigma fun _ : κ => ν), l.dlookup k = some v →
      l.Perm (⟨k, v⟩ :: l.kerase k) := by
    intro l
    induction l with
    | nil => simp
    | cons entry rest ih =>
      obtain ⟨k', w⟩ := entry
      intro hl
      by_cases hkk : k = k'
      · subst hkk
        obtain rfl : w = v := by simpa using hl
        simp
      · rw [dlookup_cons_ne _ _ hkk] at hl
        rw [kerase_cons_ne hkk]
        exact ((ih hl).cons _).trans (List.Perm.swap _ _ _)
  exact hlist m.entries hk

theorem entries_insert_of_new (hk : m.lookup k = none) (v : ν) :
    (m.insert k v).entries = ⟨k, v⟩ :: m.entries := by
  show List.kinsert k v m.entries = _
  rw [List.kinsert, kerase_of_notMem_keys (AList.lookup_eq_none.mp hk)]

theorem eq_empty_of_lookup (hm : ∀ k, m.lookup k = none) : m = ∅ := by
  refine AList.ext ?_
  cases hentries : m.entries with
  | nil => rfl
  | cons entry rest =>
    obtain ⟨k, v⟩ := entry
    have hk : m.lookup k = some v := AList.mem_lookup_iff.mpr (by rw [hentries]; exact mem_cons_self)
    rw [hm k] at hk
    exact absurd hk (by simp)

end Size

end Velocity.Lib
