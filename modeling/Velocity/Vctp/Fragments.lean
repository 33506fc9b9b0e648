import Velocity.Lib.Chunks
import Velocity.Lib.Keyed
import Velocity.Lib.LittleEndian

namespace Velocity.Vctp

open Lib List

/-!
# Fragmented requests

The server notes the total of the first fragment of an address and never renews it.
-/

def maxVctpPayload : Nat := 65479

def encodeFragmentMeta (index total : UInt16) : UInt32 :=
  (index.toUInt32 <<< 16) ||| total.toUInt32

def decodeFragmentMeta (slabOffset : UInt32) : UInt16 × UInt16 :=
  ((slabOffset >>> 16).toUInt16, (slabOffset &&& 0xFFFF).toUInt16)

def fragmentPayload (payload : Bytes) : List Bytes :=
  if payload.length ≤ maxVctpPayload then [payload] else chunks maxVctpPayload payload

def fragmentPackets (payload : Bytes) : List (UInt32 × Bytes) :=
  let fragments := fragmentPayload payload
  let total := UInt16.ofNat fragments.length
  fragments.mapIdx (fun i fragment => (encodeFragmentMeta (UInt16.ofNat i) total, fragment))

abbrev Fragments := AList (fun _ : UInt16 => Bytes)

/-- The first missing fragment ends the loop. -/
def reassembleLoop : List UInt16 → Bytes → Fragments → Option Bytes × Fragments
  | [], result, fragments => (some result, fragments)
  | i :: rest, result, fragments =>
    match fragments.lookup i with
    | some chunk => reassembleLoop rest (result ++ chunk) (fragments.erase i)
    -- the fragments before `i` are gone
    | none => (none, fragments)

def indices (total : UInt16) : List UInt16 := (List.range total.toNat).map UInt16.ofNat

def reassembleFragments (fragments : Fragments) (total : UInt16) : Option Bytes × Fragments :=
  if size fragments ≠ total.toNat then (none, fragments)
  else reassembleLoop (indices total) [] fragments

abbrev FragBuf (Addr : Type) := Addr → Option (Fragments × UInt16)

/-- The part of `handle_fragment` before the request is parsed. -/
def collectFragment {Addr : Type} [DecidableEq Addr] (buf : FragBuf Addr) (addr : Addr)
    (index total : UInt16) (payload : Bytes) : Option Bytes × FragBuf Addr :=
  -- a total that comes later is not looked at
  let entry := (buf addr).getD (∅, total)
  let r := reassembleFragments (entry.1.insert index payload) entry.2
  (r.1, Function.update buf addr (some (r.2, entry.2)))

/-! ### Indices and fragments -/

theorem mem_indices {total i : UInt16} : i ∈ indices total ↔ i < total := by
  unfold indices
  rw [mem_map, UInt16.lt_iff_toNat_lt]
  constructor
  · rintro ⟨n, hn, rfl⟩
    have hn' := mem_range.mp hn
    have := total.toNat_lt
    rw [UInt16.toNat_ofNat', Nat.mod_eq_of_lt (by omega)]
    exact hn'
  · intro hi
    exact ⟨i.toNat, mem_range.mpr hi, UInt16.ofNat_toNat⟩

variable (total : UInt16) (fragments : Fragments)

theorem nodup_indices : (indices total).Nodup := by
  refine List.Nodup.map_on ?_ nodup_range
  intro a ha b hb hab
  have ha' := mem_range.mp ha
  have hb' := mem_range.mp hb
  have := total.toNat_lt
  have hnat := congrArg UInt16.toNat hab
  rw [UInt16.toNat_ofNat', UInt16.toNat_ofNat', Nat.mod_eq_of_lt (by omega),
    Nat.mod_eq_of_lt (by omega)] at hnat
  exact hnat

@[simp] theorem length_indices : (indices total).length = total.toNat := by
  simp [indices]

theorem toNat_encodeFragmentMeta (index total : UInt16) :
    (encodeFragmentMeta index total).toNat = index.toNat * 65536 + total.toNat := by
  have hi := index.toNat_lt
  have ht := total.toNat_lt
  have hshift : index.toNat <<< 16 % 2 ^ 32 = index.toNat <<< 16 := by
    rw [Nat.shiftLeft_eq]
    exact Nat.mod_eq_of_lt (by omega)
  simp only [encodeFragmentMeta, UInt32.toNat_or, UInt32.toNat_shiftLeft, UInt16.toNat_toUInt32,
    UInt32.reduceToNat, Nat.reduceMod]
  rw [hshift, ← Nat.shiftLeft_add_eq_or_of_lt ht, Nat.shiftLeft_eq]

theorem decode_encodeFragmentMeta (index total : UInt16) :
    decodeFragmentMeta (encodeFragmentMeta index total) = (index, total) := by
  have hi := index.toNat_lt
  have ht := total.toNat_lt
  have hmeta := toNat_encodeFragmentMeta index total
  refine Prod.ext (UInt16.toNat_inj.mp ?_) (UInt16.toNat_inj.mp ?_)
  · simp only [decodeFragmentMeta, UInt32.toNat_toUInt16, UInt32.toNat_shiftRight, hmeta,
      UInt32.reduceToNat, Nat.reduceMod]
    rw [Nat.shiftRight_eq_div_pow]
    omega
  · simp only [decodeFragmentMeta, UInt32.toNat_toUInt16, UInt32.toNat_and, hmeta,
      UInt32.reduceToNat]
    rw [show 65535 = 2 ^ 16 - 1 from rfl, Nat.and_two_pow_sub_one_eq_mod]
    omega

/-! ### Reassembly -/

theorem reassembleLoop_lookup_ne {k : UInt16} :
    ∀ {is : List UInt16} (result : Bytes) (fragments : Fragments), k ∉ is →
      (reassembleLoop is result fragments).2.lookup k = fragments.lookup k
  | [], _, _, _ => rfl
  | i :: rest, result, fragments, hk => by
    have hki : k ≠ i := fun h => hk (h ▸ mem_cons_self)
    have hrest : k ∉ rest := fun h => hk (mem_cons_of_mem i h)
    rw [reassembleLoop]
    cases fragments.lookup i with
    | none => rfl
    | some chunk =>
      simp only
      rw [reassembleLoop_lookup_ne _ _ hrest, AList.lookup_erase_ne hki]

theorem reassembleLoop_of_held {c : UInt16 → Bytes} :
    ∀ {is : List UInt16} (result : Bytes) (fragments : Fragments), is.Nodup →
      (∀ i ∈ is, fragments.lookup i = some (c i)) →
      (reassembleLoop is result fragments).1 = some (result ++ is.flatMap c)
        ∧ ∀ i ∈ is, (reassembleLoop is result fragments).2.lookup i = none
  | [], result, _, _, _ => ⟨by simp [reassembleLoop], by simp⟩
  | i :: rest, result, fragments, hnodup, hheld => by
    obtain ⟨hi, hrest⟩ := nodup_cons.mp hnodup
    have hlater : ∀ j ∈ rest, (fragments.erase i).lookup j = some (c j) := by
      intro j hj
      have hji : j ≠ i := fun h => hi (h ▸ hj)
      rw [AList.lookup_erase_ne hji]
      exact hheld j (mem_cons_of_mem i hj)
    obtain ⟨hout, hgone⟩ :=
      reassembleLoop_of_held (result ++ c i) (fragments.erase i) hrest hlater
    rw [reassembleLoop, hheld i mem_cons_self]
    refine ⟨by rw [hout, flatMap_cons, append_assoc], ?_⟩
    intro j hj
    rcases mem_cons.mp hj with rfl | hj
    · rw [reassembleLoop_lookup_ne _ _ hi, AList.lookup_erase]
    · exact hgone j hj

theorem held_of_reassembleLoop {payload : Bytes} :
    ∀ {is : List UInt16} (result : Bytes) (fragments : Fragments), is.Nodup →
      (reassembleLoop is result fragments).1 = some payload →
      ∀ i ∈ is, fragments.lookup i ≠ none
  | [], _, _, _, _ => by simp
  | i :: rest, result, fragments, hnodup, hout => by
    obtain ⟨hi, hrest⟩ := nodup_cons.mp hnodup
    rw [reassembleLoop] at hout
    cases hl : fragments.lookup i with
    | none => simp [hl] at hout
    | some chunk =>
      simp only [hl] at hout
      intro j hj
      rcases mem_cons.mp hj with rfl | hj
      · simp [hl]
      · have hji : j ≠ i := fun h => hi (h ▸ hj)
        have hlater := held_of_reassembleLoop (result ++ chunk) (fragments.erase i) hrest hout j hj
        rwa [AList.lookup_erase_ne hji] at hlater

theorem reassembleFragments_some {fragments : Fragments} {total : UInt16} {payload : Bytes}
    (h : (reassembleFragments fragments total).1 = some payload) :
    size fragments = total.toNat ∧ (∀ i, i < total → fragments.lookup i ≠ none)
      ∧ ∀ i, i < total → (reassembleFragments fragments total).2.lookup i = none := by
  unfold reassembleFragments at h ⊢
  by_cases hsize : size fragments = total.toNat
  · rw [if_neg (not_not.mpr hsize)] at h ⊢
    have hheld := held_of_reassembleLoop [] fragments (nodup_indices total) h
    have hget : ∀ i ∈ indices total,
        fragments.lookup i = some ((fragments.lookup i).getD []) := by
      intro i hi
      cases hl : fragments.lookup i with
      | none => exact absurd hl (hheld i hi)
      | some chunk => rfl
    have hall := reassembleLoop_of_held [] fragments (nodup_indices total) hget
    exact ⟨hsize, fun i hi => hheld i (mem_indices.mpr hi),
      fun i hi => hall.2 i (mem_indices.mpr hi)⟩
  · rw [if_pos hsize] at h
    exact absurd h (by simp)

theorem reassembleFragments_lookup_ge {total k : UInt16} (hk : total ≤ k) :
    (reassembleFragments fragments total).2.lookup k = fragments.lookup k := by
  unfold reassembleFragments
  split
  · rfl
  · refine reassembleLoop_lookup_ne [] fragments (fun hmem => ?_)
    exact absurd hk (UInt16.not_le.mpr (mem_indices.mp hmem))

theorem reassembleFragments_lookup_some {fragments : Fragments} {total k : UInt16} {chunk : Bytes}
    (h : (reassembleFragments fragments total).2.lookup k = some chunk) :
    fragments.lookup k = some chunk := by
  have hloop : ∀ (is : List UInt16) (result : Bytes) (fragments : Fragments),
      (reassembleLoop is result fragments).2.lookup k = some chunk →
      fragments.lookup k = some chunk := by
    intro is
    induction is with
    | nil => exact fun _ _ h => h
    | cons i rest ih =>
      intro result fragments h
      rw [reassembleLoop] at h
      cases hl : fragments.lookup i with
      | none => simpa [hl] using h
      | some c =>
        simp only [hl] at h
        have herase := ih _ _ h
        by_cases hki : k = i
        · rw [hki, AList.lookup_erase] at herase
          exact absurd herase (by simp)
        · rwa [AList.lookup_erase_ne hki] at herase
  unfold reassembleFragments at h
  split at h
  · exact h
  · exact hloop _ _ _ h

/-! ### One address -/

def feed (total : UInt16) (fragments : Fragments) (f : UInt16 × Bytes) :
    Option Bytes × Fragments :=
  reassembleFragments (fragments.insert f.1 f.2) total

def feedAll (total : UInt16) : Fragments → List (UInt16 × Bytes) → List Bytes × Fragments
  | fragments, [] => ([], fragments)
  | fragments, f :: rest =>
    ((feed total fragments f).1.toList ++ (feedAll total (feed total fragments f).2 rest).1,
      (feedAll total (feed total fragments f).2 rest).2)

@[simp] theorem feedAll_nil : feedAll total fragments [] = ([], fragments) := rfl

@[simp] theorem feedAll_cons (f : UInt16 × Bytes) (rest : List (UInt16 × Bytes)) :
    feedAll total fragments (f :: rest)
      = ((feed total fragments f).1.toList ++ (feedAll total (feed total fragments f).2 rest).1,
        (feedAll total (feed total fragments f).2 rest).2) := rfl

theorem feedAll_append (fs gs : List (UInt16 × Bytes)) : feedAll total fragments (fs ++ gs)
      = ((feedAll total fragments fs).1 ++ (feedAll total (feedAll total fragments fs).2 gs).1,
        (feedAll total (feedAll total fragments fs).2 gs).2) := by
  induction fs generalizing fragments with
  | nil => simp
  | cons f fs ih => simp only [cons_append, feedAll_cons, ih, append_assoc]

end Velocity.Vctp
