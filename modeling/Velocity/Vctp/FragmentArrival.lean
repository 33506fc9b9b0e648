import Mathlib.Data.List.Dedup
import Velocity.Vctp.Reassembly

namespace Velocity.Vctp

open Lib List

/-!
# The fragments of one payload in any order

The packets of one payload are put into the map one by one.
-/

def arrive (fragments : Fragments) (packet : UInt32 × Bytes) : Option Bytes × Fragments :=
  let (index, total) := decodeFragmentMeta packet.1
  reassembleFragments (fragments.insert index packet.2) total

def arriveAll (fragments : Fragments) (packets : List (UInt32 × Bytes)) : Fragments :=
  packets.foldl (fun fragments packet => (arrive fragments packet).2) fragments

/-! ### One fragment -/

theorem Holds.congr {c : UInt16 → Bytes} {fragments : Fragments} {seen seen' : List UInt16}
    (h : Holds c fragments seen) (hmem : ∀ k, k ∈ seen ↔ k ∈ seen') : Holds c fragments seen' := by
  intro k
  rw [h k]
  exact if_congr (hmem k) rfl rfl

theorem Holds.feed {c : UInt16 → Bytes} {fragments : Fragments} {seen : List UInt16}
    {total i : UInt16} (h : Holds c fragments seen) (hseen : ∀ k ∈ seen, k < total)
    (hmissing : ∃ k, k < total ∧ k ∉ seen) (hi : i < total) :
    ((∀ k, k < total → k ∈ i :: seen) →
        feed total fragments (i, c i) = (some ((indices total).flatMap c), ∅))
      ∧ ((∃ k, k < total ∧ k ∉ i :: seen) →
        feed total fragments (i, c i) = (none, fragments.insert i (c i))) := by
  constructor
  · intro hall
    obtain ⟨k, hk, hknot⟩ := hmissing
    -- the fragment that was missing is this one
    have hki : k = i := by
      rcases mem_cons.mp (hall k hk) with heq | hmem
      · exact heq
      · exact absurd hmem hknot
    subst hki
    have hdedup : Holds c fragments seen.dedup := h.congr (fun k => List.mem_dedup.symm)
    have hnodup : (k :: seen.dedup).Nodup :=
      nodup_cons.mpr ⟨fun hmem => hknot (mem_dedup.mp hmem), nodup_dedup _⟩
    refine hdedup.feed_last ((perm_ext_iff_of_nodup hnodup (nodup_indices total)).mpr ?_)
    intro j
    rw [mem_cons, mem_dedup, mem_indices, ← mem_cons]
    refine ⟨fun hj => ?_, hall j⟩
    rcases mem_cons.mp hj with rfl | hj
    · exact hi
    · exact hseen j hj
  · rintro ⟨k, hk, hknot⟩
    have hnext : Holds c (fragments.insert i (c i)) (i :: seen).dedup :=
      (h.insert i).congr (fun k => List.mem_dedup.symm)
    have hnodup : (k :: (i :: seen).dedup).Nodup :=
      nodup_cons.mpr ⟨fun hmem => hknot (mem_dedup.mp hmem), nodup_dedup _⟩
    have hbelow : ∀ j ∈ k :: (i :: seen).dedup, j ∈ indices total := by
      intro j hj
      rw [mem_cons, mem_dedup, mem_cons] at hj
      rw [mem_indices]
      rcases hj with rfl | rfl | hj
      · exact hk
      · exact hi
      · exact hseen j hj
    -- without the missing one they are too few
    have hlen := (subperm_of_subset hnodup hbelow).length_le
    rw [length_cons, length_indices] at hlen
    have hfew : size (fragments.insert i (c i)) ≠ total.toNat := by
      rw [hnext.size_eq (nodup_dedup _)]
      omega
    rw [Velocity.Vctp.feed, reassembleFragments, if_pos hfew]

/-! ### The packets of a payload -/

theorem flatten_fragmentPayload (payload : Bytes) :
    (fragmentPayload payload).flatten = payload := by
  unfold fragmentPayload
  split
  · exact flatten_singleton
  · have hcover := length_le_chunks_mul (by decide : 0 < maxVctpPayload) payload
    rw [length_chunks] at hcover
    rw [chunks, ← flatMap_def, flatMap_chunk, take_of_length_le hcover]

section Payload

variable (payload : Bytes)

def fragmentTotal : UInt16 := UInt16.ofNat (fragmentPayload payload).length

def fragmentAt (i : UInt16) : Bytes := (fragmentPayload payload).getD i.toNat []

variable {payload}

theorem toNat_fragmentTotal (hmax : (fragmentPayload payload).length ≤ 65535) :
    (fragmentTotal payload).toNat = (fragmentPayload payload).length := by
  rw [fragmentTotal, UInt16.toNat_ofNat', Nat.mod_eq_of_lt (by omega)]

theorem flatMap_fragmentAt (hmax : (fragmentPayload payload).length ≤ 65535) :
    (indices (fragmentTotal payload)).flatMap (fragmentAt payload) = payload := by
  have hmap : (indices (fragmentTotal payload)).map (fragmentAt payload) = fragmentPayload payload := by
    have htotal := toNat_fragmentTotal hmax
    refine ext_getElem (by simp [htotal]) (fun i h₁ h₂ => ?_)
    have hi : i % 65536 = i := Nat.mod_eq_of_lt (by omega)
    simp [indices, fragmentAt, hi, h₂]
  rw [flatMap_def, hmap, flatten_fragmentPayload]

theorem mem_fragmentPackets (hmax : (fragmentPayload payload).length ≤ 65535)
    {packet : UInt32 × Bytes} :
    packet ∈ fragmentPackets payload
      ↔ ∃ i, i < fragmentTotal payload
          ∧ packet = (encodeFragmentMeta i (fragmentTotal payload), fragmentAt payload i) := by
  have htotal := toNat_fragmentTotal hmax
  rw [fragmentPackets, mem_mapIdx]
  constructor
  · rintro ⟨n, hn, rfl⟩
    have hn' : n % 65536 = n := Nat.mod_eq_of_lt (by omega)
    refine ⟨UInt16.ofNat n, UInt16.lt_iff_toNat_lt.mpr ?_, ?_⟩
    · rw [htotal, UInt16.toNat_ofNat', hn']
      exact hn
    · simp [fragmentAt, fragmentTotal, hn', hn]
  · rintro ⟨i, hi, rfl⟩
    have hi' : i.toNat < (fragmentPayload payload).length := by
      rw [← htotal]
      exact UInt16.lt_iff_toNat_lt.mp hi
    exact ⟨i.toNat, hi', by simp [fragmentAt, fragmentTotal, hi']⟩

theorem arrive_packet (fragments : Fragments) (i : UInt16) :
    arrive fragments (encodeFragmentMeta i (fragmentTotal payload), fragmentAt payload i)
      = feed (fragmentTotal payload) fragments (i, fragmentAt payload i) := by
  simp only [arrive, decode_encodeFragmentMeta, feed]

def indicesOf (packets : List (UInt32 × Bytes)) : List UInt16 :=
  packets.map (fun packet => (decodeFragmentMeta packet.1).1)

theorem mem_indicesOf (hmax : (fragmentPayload payload).length ≤ 65535)
    {packets : List (UInt32 × Bytes)} (hpackets : ∀ p ∈ packets, p ∈ fragmentPackets payload)
    {i : UInt16} :
    i ∈ indicesOf packets
      ↔ (encodeFragmentMeta i (fragmentTotal payload), fragmentAt payload i) ∈ packets := by
  rw [indicesOf, mem_map]
  constructor
  · rintro ⟨packet, hmem, rfl⟩
    obtain ⟨j, _, rfl⟩ := (mem_fragmentPackets hmax).mp (hpackets packet hmem)
    rw [decode_encodeFragmentMeta]
    exact hmem
  · intro hmem
    exact ⟨_, hmem, by rw [decode_encodeFragmentMeta]⟩

theorem holds_arriveAll (hmax : (fragmentPayload payload).length ≤ 65535) :
    ∀ {packets : List (UInt32 × Bytes)} {fragments : Fragments} {seen : List UInt16},
      (∀ p ∈ packets, p ∈ fragmentPackets payload) → (∀ k ∈ seen, k < fragmentTotal payload) →
      (∃ k, k < fragmentTotal payload ∧ k ∉ indicesOf packets ++ seen) →
      Holds (fragmentAt payload) fragments seen →
      Holds (fragmentAt payload) (arriveAll fragments packets) (indicesOf packets ++ seen)
  | [], _, _, _, _, _, hholds => hholds
  | packet :: packets, fragments, seen, hpackets, hseen, hmissing, hholds => by
    obtain ⟨i, hi, rfl⟩ := (mem_fragmentPackets hmax).mp (hpackets _ mem_cons_self)
    obtain ⟨k, hk, hknot⟩ := hmissing
    simp only [indicesOf, map_cons, decode_encodeFragmentMeta, cons_append, mem_cons,
      mem_append, not_or] at hknot
    obtain ⟨hki, hkpackets, hkseen⟩ := hknot
    -- an index is missing, so nothing comes out
    have hstep := (hholds.feed hseen ⟨k, hk, hkseen⟩ hi).2
      ⟨k, hk, fun hmem => (mem_cons.mp hmem).elim hki hkseen⟩
    have hrest : ∃ k, k < fragmentTotal payload ∧ k ∉ indicesOf packets ++ (i :: seen) := by
      refine ⟨k, hk, fun hmem => ?_⟩
      rcases mem_append.mp hmem with hmem | hmem
      · exact hkpackets hmem
      · exact (mem_cons.mp hmem).elim hki hkseen
    have hnext := holds_arriveAll hmax (fun p hp => hpackets p (mem_cons_of_mem _ hp))
      (forall_mem_cons.mpr ⟨hi, hseen⟩) hrest (hholds.insert i)
    have hmap : arriveAll fragments
        ((encodeFragmentMeta i (fragmentTotal payload), fragmentAt payload i) :: packets)
          = arriveAll (fragments.insert i (fragmentAt payload i)) packets := by
      show arriveAll (arrive fragments _).2 packets = _
      rw [arrive_packet, hstep]
    rw [hmap]
    refine hnext.congr (fun j => ?_)
    simp only [indicesOf, map_cons, decode_encodeFragmentMeta, mem_append, mem_cons]
    tauto

end Payload

/-- **Reassembly in any order**, with duplicates. -/
theorem arrive_fragmentPackets (payload : Bytes)
    (hmax : (fragmentPayload payload).length ≤ 65535) (before : List (UInt32 × Bytes))
    (hbefore : ∀ p ∈ before, p ∈ fragmentPackets payload)
    (hmissing : ∃ p ∈ fragmentPackets payload, p ∉ before) (packet : UInt32 × Bytes)
    (hpacket : packet ∈ fragmentPackets payload) :
    ((∃ p ∈ fragmentPackets payload, p ∉ before ++ [packet]) →
        arrive (arriveAll ∅ before) packet
          = (none, (arriveAll ∅ before).insert (decodeFragmentMeta packet.1).1 packet.2))
      ∧ ((∀ p ∈ fragmentPackets payload, p ∈ before ++ [packet]) →
        (arrive (arriveAll ∅ before) packet).1 = some payload) := by
  obtain ⟨i, hi, rfl⟩ := (mem_fragmentPackets hmax).mp hpacket
  have hmem : ∀ {j : UInt16}, j ∈ indicesOf before
      ↔ (encodeFragmentMeta j (fragmentTotal payload), fragmentAt payload j) ∈ before :=
    mem_indicesOf hmax hbefore
  have hbelow : ∀ k ∈ indicesOf before, k < fragmentTotal payload := by
    intro k hk
    obtain ⟨j, hj, heq⟩ := (mem_fragmentPackets hmax).mp (hbefore _ (hmem.mp hk))
    have hmeta := congrArg (fun p => (decodeFragmentMeta p.1).1) heq
    simp only [decode_encodeFragmentMeta] at hmeta
    exact hmeta ▸ hj
  have hgap : ∃ k, k < fragmentTotal payload ∧ k ∉ indicesOf before := by
    obtain ⟨p, hp, hnot⟩ := hmissing
    obtain ⟨k, hk, rfl⟩ := (mem_fragmentPackets hmax).mp hp
    exact ⟨k, hk, fun h => hnot (hmem.mp h)⟩
  have hholds : Holds (fragmentAt payload) (arriveAll ∅ before) (indicesOf before) := by
    have hempty : Holds (fragmentAt payload) ∅ [] := fun k => by simp
    have := holds_arriveAll hmax hbefore (by simp) (by simpa using hgap) hempty
    simpa using this
  obtain ⟨hlast, hmore⟩ := hholds.feed hbelow hgap hi
  rw [arrive_packet, decode_encodeFragmentMeta]
  have hcons : ∀ {j : UInt16}, j ∈ i :: indicesOf before
      ↔ (encodeFragmentMeta j (fragmentTotal payload), fragmentAt payload j)
          ∈ before ++ [(encodeFragmentMeta i (fragmentTotal payload), fragmentAt payload i)] := by
    intro j
    rw [mem_cons, hmem, mem_append, mem_singleton, or_comm]
    refine or_congr_right ⟨fun h => by rw [h], fun h => ?_⟩
    have hmeta := congrArg (fun p => (decodeFragmentMeta p.1).1) h
    simpa only [decode_encodeFragmentMeta] using hmeta
  constructor
  · rintro ⟨p, hp, hnot⟩
    obtain ⟨k, hk, rfl⟩ := (mem_fragmentPackets hmax).mp hp
    exact hmore ⟨k, hk, fun h => hnot (hcons.mp h)⟩
  · intro hall
    have hout := hlast (fun k hk => hcons.mpr (hall _ ((mem_fragmentPackets hmax).mpr ⟨k, hk, rfl⟩)))
    rw [hout, flatMap_fragmentAt hmax]

theorem fragmentPackets_replicate : fragmentPackets (replicate 130959 7)
    = [(encodeFragmentMeta 0 3, replicate 65479 7), (encodeFragmentMeta 1 3, replicate 65479 7),
      (encodeFragmentMeta 2 3, [7])] := by
  have hpayload : fragmentPayload (replicate 130959 7)
      = [replicate 65479 7, replicate 65479 7, [7]] := by
    rw [fragmentPayload, length_replicate, if_neg (by decide), chunks, length_replicate]
    show map (chunk maxVctpPayload (replicate 130959 7)) [0, 1, 2] = _
    rw [map_cons, map_cons, map_cons, map_nil]
    unfold chunk
    rw [drop_replicate, drop_replicate, drop_replicate, take_replicate, take_replicate,
      take_replicate]
    rfl
  rw [fragmentPackets, hpayload]
  rfl

theorem arrive_fragmentPackets_three :
    (arrive (arriveAll ∅ [(encodeFragmentMeta 2 3, [7]), (encodeFragmentMeta 0 3,
        replicate 65479 7), (encodeFragmentMeta 2 3, [7])])
      (encodeFragmentMeta 1 3, replicate 65479 7)).1 = some (replicate 130959 7) := by
  have hmax : (fragmentPayload (replicate 130959 7)).length ≤ 65535 := by
    have hlen := congrArg length fragmentPackets_replicate
    rw [fragmentPackets, length_mapIdx] at hlen
    rw [hlen]
    decide
  have hmissing : (encodeFragmentMeta 1 3, replicate 65479 (7 : UInt8))
      ∉ [(encodeFragmentMeta 2 3, [7]), (encodeFragmentMeta 0 3, replicate 65479 7),
        (encodeFragmentMeta 2 3, [7])] := by
    intro hmem
    have hmeta := mem_map_of_mem (f := Prod.fst) hmem
    exact absurd hmeta (by decide)
  refine (arrive_fragmentPackets _ hmax _ ?_ ⟨_, ?_, hmissing⟩ _ ?_).2 ?_
  all_goals
    rw [fragmentPackets_replicate]
    generalize replicate 65479 (7 : UInt8) = fragment
    simp

end Velocity.Vctp
