import Mathlib.Data.List.AList
import Mathlib.Data.List.Nodup
import Mathlib.Logic.Function.Basic

namespace Velocity.Lib

open List Function

/-!
# Secondary indexes

Lists of keys under the value of some attribute: the index is right when it inverts the tags.
-/

variable {κ α ν : Type*}

def Inverts (index : α → List κ) (tag : κ → Option α) : Prop :=
  ∀ a, (index a).Nodup ∧ ∀ k, k ∈ index a ↔ tag k = some a

def pushSlot [DecidableEq α] (index : α → List κ) (a : α) (k : κ) : α → List κ :=
  update index a (index a ++ [k])

def dropSlot [DecidableEq α] [DecidableEq κ] (index : α → List κ) (a : α) (k : κ) : α → List κ :=
  update index a ((index a).filter (· ≠ k))

section Changes

variable [DecidableEq α] [DecidableEq κ] {index : α → List κ} {tag : κ → Option α}

omit [DecidableEq α] in
theorem Inverts.slot_of_ne (h : Inverts index tag) {k : κ} {t : Option α} {b : α}
    (hold : tag k ≠ some b) (hnew : t ≠ some b) :
    (index b).Nodup ∧ ∀ k', k' ∈ index b ↔ update tag k t k' = some b := by
  refine ⟨(h b).1, fun k' => ?_⟩
  rw [(h b).2, update_apply]
  split
  · next hk' =>
    rw [hk']
    exact iff_of_false hold hnew
  · rfl

theorem Inverts.push (h : Inverts index tag) {k : κ} (hk : tag k = none) (a : α) :
    Inverts (pushSlot index a k) (update tag k (some a)) := by
  have hnot : ∀ b, k ∉ index b := fun b hmem => by
    rw [(h b).2, hk] at hmem
    cases hmem
  intro b
  rw [pushSlot, update_apply]
  split
  · next hb =>
    subst hb
    refine ⟨nodup_append.mpr ⟨(h b).1, nodup_singleton k, ?_⟩, fun k' => ?_⟩
    · intro x hx y hy hxy
      exact hnot b (mem_singleton.mp hy ▸ hxy ▸ hx)
    · rw [mem_append, mem_singleton, (h b).2, update_apply]
      split
      · next hk' => simp [hk']
      · next hk' => simp [hk']
  · next hb => exact h.slot_of_ne (by simp [hk]) (by simp [Ne.symm hb])

theorem Inverts.drop (h : Inverts index tag) {k : κ} {a : α} (hk : tag k = some a) :
    Inverts (dropSlot index a k) (update tag k none) := by
  intro b
  rw [dropSlot, update_apply]
  split
  · next hb =>
    subst hb
    refine ⟨(h b).1.filter _, fun k' => ?_⟩
    rw [mem_filter, (h b).2, update_apply]
    split
    · next hk' => simp [hk']
    · next hk' => simp [hk']
  · next hb => exact h.slot_of_ne (by simp [hk, Ne.symm hb]) nofun

theorem Inverts.move (h : Inverts index tag) {k : κ} {a : α} (hk : tag k = some a) (b : α) :
    Inverts (pushSlot (dropSlot index a k) b k) (update tag k (some b)) := by
  have hmove := (h.drop hk).push (update_self k none tag) b
  rwa [update_idem] at hmove

theorem Inverts.push_option (h : Inverts index tag) {k : κ} (hk : tag k = none) (t : Option α) :
    Inverts (match t with | some a => pushSlot index a k | none => index)
      (update tag k t) := by
  cases t with
  | some a => exact h.push hk a
  | none =>
    have hsame : update tag k none = tag := update_eq_self_iff.mpr hk.symm
    exact hsame.symm ▸ h

theorem Inverts.drop_option (h : Inverts index tag) {k : κ} {t : Option α} (hk : tag k = t) :
    Inverts (match t with | some a => dropSlot index a k | none => index)
      (update tag k none) := by
  cases t with
  | some a => exact h.drop hk
  | none =>
    have hsame : update tag k none = tag := update_eq_self_iff.mpr hk.symm
    exact hsame.symm ▸ h

end Changes

/-! ### Listings -/

section Listings

variable [DecidableEq κ]

def values (m : AList fun _ : κ => ν) : List ν := m.entries.map (·.2)

/-- **Listing** gives every value with the property once. -/
theorem perm_filter_values (m : AList fun _ : κ => ν) (p : ν → Bool) {l : List κ} (hl : l.Nodup)
    (hmem : ∀ k, k ∈ l ↔ ∃ v, m.lookup k = some v ∧ p v = true) :
    (l.filterMap fun k => m.lookup k).Perm ((values m).filter p) := by
  -- in the order of the map
  have hkeys : l.Perm ((m.entries.filter fun e => p e.2).map (·.1)) := by
    refine (perm_ext_iff_of_nodup hl ?_).mpr fun k => ?_
    · exact (filter_sublist.map _).nodup m.nodupKeys
    · rw [hmem, mem_map]
      constructor
      · rintro ⟨v, hv, hp⟩
        exact ⟨⟨k, v⟩, mem_filter.mpr ⟨AList.mem_lookup_iff.mp hv, hp⟩, rfl⟩
      · rintro ⟨e, he, rfl⟩
        obtain ⟨he, hp⟩ := mem_filter.mp he
        exact ⟨e.2, AList.mem_lookup_iff.mpr he, hp⟩
  refine (hkeys.filterMap _).trans ?_
  rw [filterMap_map, values, filter_map]
  refine List.Perm.of_eq ?_
  rw [← filterMap_eq_map]
  refine filterMap_congr fun e he => ?_
  exact AList.mem_lookup_iff.mpr (mem_filter.mp he).1

variable {index : α → List κ} {m : AList fun _ : κ => ν} {attr : ν → Option α}

theorem Inverts.listing_flatMap (h : Inverts index fun k => (m.lookup k).bind attr) {as : List α}
    (has : as.Nodup) {p : ν → Bool} (hp : ∀ v, p v = true ↔ ∃ a ∈ as, attr v = some a) :
    (as.flatMap fun a => (index a).filterMap fun k => m.lookup k).Perm ((values m).filter p) := by
  rw [← filterMap_flatMap]
  refine perm_filter_values m p ?_ fun k => ?_
  · refine nodup_flatMap.mpr ⟨fun a _ => (h a).1, has.imp fun {a b} hab => ?_⟩
    refine disjoint_left.mpr fun k ha hb => ?_
    rw [(h a).2] at ha
    rw [(h b).2, ha] at hb
    exact hab (Option.some.inj hb)
  · simp only [mem_flatMap, (h _).2, Option.bind_eq_some_iff, hp]
    constructor
    · rintro ⟨a, ha, v, hv, hattr⟩
      exact ⟨v, hv, a, ha, hattr⟩
    · rintro ⟨v, hv, a, ha, hattr⟩
      exact ⟨a, ha, v, hv, hattr⟩

theorem Inverts.listing (h : Inverts index fun k => (m.lookup k).bind attr) (a : α) {p : ν → Bool}
    (hp : ∀ v, p v = true ↔ attr v = some a) :
    ((index a).filterMap fun k => m.lookup k).Perm ((values m).filter p) := by
  have hslots := h.listing_flatMap (nodup_singleton a) (p := p) (by simpa using hp)
  simpa using hslots

theorem Inverts.length_listing (h : Inverts index fun k => (m.lookup k).bind attr) (a : α) :
    ((index a).filterMap fun k => m.lookup k).length = (index a).length := by
  refine filterMap_length_eq_length.mpr fun k hk => ?_
  obtain ⟨v, hv, -⟩ := Option.bind_eq_some_iff.mp (((h a).2 k).mp hk)
  rw [hv, Option.isSome_some]

theorem nodup_values {key : ν → κ} (hkey : ∀ k v, m.lookup k = some v → key v = k) :
    (values m).Nodup := by
  refine List.Nodup.of_map key ?_
  have hkeys : (values m).map key = m.keys := by
    rw [values, map_map]
    refine map_congr_left fun e he => ?_
    exact hkey e.1 e.2 (AList.mem_lookup_iff.mpr he)
  rw [hkeys]
  exact m.keys_nodup

end Listings

end Velocity.Lib
