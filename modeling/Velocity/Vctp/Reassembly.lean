import Velocity.Vctp.Fragments

namespace Velocity.Vctp

open Lib List

/-!
# Messages through the reassembly buffer

Messages of one address in sequence, the fragments of each in any order.

* `Sent`: a message with its fragments in the order of arrival.
* `handed_eq_iff`: when the messages handed on are those sent.
-/

/-! ### The noted total -/

/-- The fragments `c` of the indices in `seen`, nothing else. -/
def Holds (c : UInt16 → Bytes) (fragments : Fragments) (seen : List UInt16) : Prop :=
  ∀ k, fragments.lookup k = if k ∈ seen then some (c k) else none

theorem Holds.size_eq {c : UInt16 → Bytes} {fragments : Fragments} {seen : List UInt16}
    (h : Holds c fragments seen) (hnodup : seen.Nodup) : size fragments = seen.length := by
  refine Nat.le_antisymm (size_le_length (fun k hk => ?_)) (length_le_size hnodup (fun k hk => ?_))
  · by_contra hnot
    exact hk (by rw [h k, if_neg hnot])
  · rw [h k, if_pos hk]
    simp

theorem Holds.insert {c : UInt16 → Bytes} {fragments : Fragments} {seen : List UInt16}
    (h : Holds c fragments seen) (i : UInt16) : Holds c (fragments.insert i (c i)) (i :: seen) := by
  intro k
  rw [lookup_insert_eq_ite, h k]
  by_cases hk : k = i
  · simp [hk]
  · simp [hk]

theorem Holds.feed_last {c : UInt16 → Bytes} {fragments : Fragments} {seen : List UInt16}
    (h : Holds c fragments seen) {i total : UInt16} (hperm : (i :: seen).Perm (indices total)) :
    feed total fragments (i, c i) = (some ((indices total).flatMap c), ∅) := by
  have hnext := h.insert i
  have hnodup := hperm.nodup_iff.mpr (nodup_indices total)
  have hfeed : feed total fragments (i, c i)
      = reassembleLoop (indices total) [] (fragments.insert i (c i)) := by
    rw [feed, reassembleFragments, if_neg]
    rw [hnext.size_eq hnodup, hperm.length_eq, length_indices]
    exact fun hne => hne rfl
  have hheld : ∀ k ∈ indices total, (fragments.insert i (c i)).lookup k = some (c k) :=
    fun k hk => by rw [hnext k, if_pos (hperm.mem_iff.mpr hk)]
  obtain ⟨hout, hgone⟩ :=
    reassembleLoop_of_held [] (fragments.insert i (c i)) (nodup_indices total) hheld
  have hempty : (feed total fragments (i, c i)).2 = ∅ := by
    refine eq_empty_of_lookup (fun k => ?_)
    rw [hfeed]
    by_cases hk : k ∈ indices total
    · exact hgone k hk
    · rw [reassembleLoop_lookup_ne [] _ hk, hnext k, if_neg (fun h => hk (hperm.mem_iff.mp h))]
  rw [← hempty, ← nil_append ((indices total).flatMap c), ← hout, ← hfeed]

theorem feedAll_rest {c : UInt16 → Bytes} {total : UInt16} :
    ∀ {fs : List (UInt16 × Bytes)} {fragments : Fragments} {seen : List UInt16},
      Holds c fragments seen → (seen ++ fs.map Prod.fst).Perm (indices total) →
      (∀ f ∈ fs, f.2 = c f.1) → fs ≠ [] →
      feedAll total fragments fs = ([(indices total).flatMap c], ∅) := by
  intro fs
  induction fs with
  | nil => exact fun _ _ _ hne => absurd rfl hne
  | cons f fs ih =>
    intro fragments seen hholds hperm hchunks _
    obtain ⟨i, chunk⟩ := f
    obtain rfl : chunk = c i := hchunks (i, chunk) mem_cons_self
    have hnext := hholds.insert i
    have hperm' : ((i :: seen) ++ fs.map Prod.fst).Perm (indices total) :=
      List.perm_middle.symm.trans hperm
    rw [feedAll_cons]
    by_cases hlast : fs = []
    · subst hlast
      rw [hholds.feed_last (by simpa using hperm')]
      rfl
    · -- too few fragments yet
      have hnodup : (i :: seen).Nodup :=
        (nodup_append.mp (hperm'.nodup_iff.mpr (nodup_indices total))).1
      have hsize := hnext.size_eq hnodup
      have hlen := hperm'.length_eq
      rw [length_append, length_map, length_indices] at hlen
      have hpos : 0 < fs.length := length_pos_iff.mpr hlast
      have hfeed : feed total fragments (i, c i) = (none, fragments.insert i (c i)) := by
        rw [feed, reassembleFragments, if_pos]
        rw [hsize]
        omega
      rw [hfeed]
      simp only [Option.toList_none, nil_append]
      exact ih hnext hperm' (fun f hf => hchunks f (mem_cons_of_mem _ hf)) hlast

theorem feedAll_message {c : UInt16 → Bytes} {total : UInt16} {order : List (UInt16 × Bytes)}
    (hperm : order.Perm ((indices total).map (fun i => (i, c i)))) (hpos : 0 < total.toNat) :
    feedAll total ∅ order = ([(indices total).flatMap c], ∅) := by
  have hfst : (order.map Prod.fst).Perm (indices total) := by
    have := hperm.map Prod.fst
    simpa [Function.comp_def] using this
  have hnone : Holds c ∅ [] := fun k => by simp
  refine feedAll_rest hnone hfst ?_ ?_
  · intro f hf
    obtain ⟨i, _, rfl⟩ := mem_map.mp (hperm.mem_iff.mp hf)
    rfl
  · rintro rfl
    have hlen := hfst.length_eq
    rw [map_nil, length_nil, length_indices] at hlen
    omega

/-! ### Past the noted total -/

def Poisoned (total : UInt16) (fragments : Fragments) : Prop :=
  ∃ k, total ≤ k ∧ fragments.lookup k ≠ none

theorem reassembleFragments_poisoned {total : UInt16} {fragments : Fragments}
    (h : Poisoned total fragments) : (reassembleFragments fragments total).1 = none := by
  obtain ⟨k, hk, hheld⟩ := h
  cases hout : (reassembleFragments fragments total).1 with
  | none => rfl
  | some payload =>
    -- one more does not fit the size
    obtain ⟨hsize, hall, _⟩ := reassembleFragments_some hout
    have hnotin : k ∉ indices total :=
      fun hmem => absurd hk (UInt16.not_le.mpr (mem_indices.mp hmem))
    have hlen := length_le_size (nodup_cons.mpr ⟨hnotin, nodup_indices total⟩)
      (forall_mem_cons.mpr ⟨hheld, fun i hi => hall i (mem_indices.mp hi)⟩)
    rw [length_cons, length_indices] at hlen
    omega

theorem feed_poisons {total : UInt16} {fragments : Fragments} {f : UInt16 × Bytes}
    (h : total ≤ f.1 ∨ Poisoned total fragments) :
    (feed total fragments f).1 = none ∧ Poisoned total (feed total fragments f).2 := by
  have hins : Poisoned total (fragments.insert f.1 f.2) := by
    rcases h with hf | ⟨k, hk, hheld⟩
    · exact ⟨f.1, hf, by simp⟩
    · refine ⟨k, hk, ?_⟩
      rw [lookup_insert_eq_ite]
      split
      · simp
      · exact hheld
  refine ⟨reassembleFragments_poisoned hins, ?_⟩
  obtain ⟨k, hk, hheld⟩ := hins
  exact ⟨k, hk, by rw [feed, reassembleFragments_lookup_ge _ hk]; exact hheld⟩

theorem Poisoned.feedAll {total : UInt16} :
    ∀ {fragments : Fragments} (fs : List (UInt16 × Bytes)), Poisoned total fragments →
      (feedAll total fragments fs).1 = [] ∧ Poisoned total (feedAll total fragments fs).2
  | _, [], h => ⟨rfl, h⟩
  | _, f :: fs, h => by
    obtain ⟨hnone, hnext⟩ := feed_poisons (f := f) (.inr h)
    obtain ⟨hrest, hend⟩ := Poisoned.feedAll fs hnext
    rw [feedAll_cons, hnone, hrest]
    exact ⟨rfl, hend⟩

theorem feedAll_poisons {total : UInt16} {k : UInt16} (hk : total ≤ k) :
    ∀ {fs : List (UInt16 × Bytes)} (fragments : Fragments), k ∈ fs.map Prod.fst →
      Poisoned total (feedAll total fragments fs).2
  | [], _, hmem => by simp at hmem
  | f :: fs, fragments, hmem => by
    rw [feedAll_cons]
    rcases mem_cons.mp hmem with rfl | hmem
    · exact ((feed_poisons (.inl hk)).2.feedAll fs).2
    · exact feedAll_poisons hk _ hmem

/-! ### What comes out -/

theorem mem_feedAll {c : UInt16 → Bytes} {total : UInt16} {payload : Bytes} :
    ∀ {fs : List (UInt16 × Bytes)} {fragments : Fragments},
      (∀ k chunk, fragments.lookup k = some chunk → chunk = c k) → (∀ f ∈ fs, f.2 = c f.1) →
      payload ∈ (feedAll total fragments fs).1 → payload = (indices total).flatMap c := by
  intro fs
  induction fs with
  | nil => exact fun _ _ h => by simp at h
  | cons f fs ih =>
    intro fragments hheld hchunks hmem
    have hins : ∀ k chunk, (fragments.insert f.1 f.2).lookup k = some chunk → chunk = c k := by
      intro k chunk hk
      rw [lookup_insert_eq_ite] at hk
      split at hk
      · next heq => rw [← Option.some.inj hk, hchunks f mem_cons_self, heq]
      · exact hheld k chunk hk
    rw [feedAll_cons, mem_append] at hmem
    rcases hmem with hnow | hlater
    · have hout : (feed total fragments f).1 = some payload := by simpa using hnow
      obtain ⟨hsize, hall, _⟩ := reassembleFragments_some hout
      have hget : ∀ i ∈ indices total, (fragments.insert f.1 f.2).lookup i = some (c i) := by
        intro i hi
        cases hl : (fragments.insert f.1 f.2).lookup i with
        | none => exact absurd hl (hall i (mem_indices.mp hi))
        | some chunk => rw [hins i chunk hl]
      rw [feed, reassembleFragments, if_neg (not_not.mpr hsize),
        (reassembleLoop_of_held [] _ (nodup_indices total) hget).1] at hout
      simpa using hout.symm
    · exact ih (fun k chunk hk => hins k chunk (reassembleFragments_lookup_some hk))
        (fun f hf => hchunks f (mem_cons_of_mem _ hf)) hlater

def held (fragments : Fragments) (k : UInt16) : Nat := (fragments.lookup k).elim 0 (fun _ => 1)

theorem length_feed_le {total k : UInt16} (hk : k < total) (fragments : Fragments)
    (f : UInt16 × Bytes) :
    (feed total fragments f).1.toList.length + held (feed total fragments f).2 k
      ≤ held fragments k + (if f.1 = k then 1 else 0) := by
  have hins : held (fragments.insert f.1 f.2) k ≤ held fragments k + (if f.1 = k then 1 else 0) := by
    unfold held
    rw [lookup_insert_eq_ite]
    by_cases hkf : k = f.1
    · rw [if_pos hkf, if_pos hkf.symm]
      simp
    · simp [hkf]
  cases hout : (feed total fragments f).1 with
  | none =>
    have hkept : held (feed total fragments f).2 k ≤ held (fragments.insert f.1 f.2) k := by
      unfold held
      cases hl : (feed total fragments f).2.lookup k with
      | none => simp
      | some chunk => rw [reassembleFragments_lookup_some hl]
    simp only [Option.toList_none, length_nil]
    omega
  | some payload =>
    obtain ⟨_, hall, hgone⟩ := reassembleFragments_some hout
    have hone : held (fragments.insert f.1 f.2) k = 1 := by
      unfold held
      cases hl : (fragments.insert f.1 f.2).lookup k with
      | none => exact absurd hl (hall k hk)
      | some chunk => rfl
    have hzero : held (feed total fragments f).2 k = 0 := by
      rw [held, feed, hgone k hk]
      rfl
    simp only [Option.toList_some, length_singleton]
    omega

theorem length_feedAll_le {total k : UInt16} (hk : k < total) :
    ∀ (fs : List (UInt16 × Bytes)) (fragments : Fragments),
      (feedAll total fragments fs).1.length + held (feedAll total fragments fs).2 k
        ≤ held fragments k + (fs.map Prod.fst).count k
  | [], _ => by simp
  | f :: fs, fragments => by
    have hfirst := length_feed_le hk fragments f
    have hrest := length_feedAll_le hk fs (feed total fragments f).2
    have hcount : (f.1 :: fs.map Prod.fst).count k
        = (fs.map Prod.fst).count k + (if f.1 = k then 1 else 0) := by
      rw [count_cons]
      simp
    simp only [feedAll_cons, length_append, map_cons, hcount]
    omega

/-! ### Messages -/

def numbered (message : Bytes) : List (UInt16 × Bytes) :=
  (fragmentPayload message).zipIdx.map (fun p => (UInt16.ofNat p.2, p.1))

structure Sent where
  message : Bytes
  order : List (UInt16 × Bytes)
  two_le : 2 ≤ (fragmentPayload message).length
  le_max : (fragmentPayload message).length ≤ 65535
  perm : order.Perm (numbered message)

namespace Sent

variable (s : Sent)

def total : UInt16 := UInt16.ofNat (fragmentPayload s.message).length

def packets : List (UInt16 × UInt16 × Bytes) :=
  s.order.map (fun f => (f.1, s.total, f.2))

def fragment (i : UInt16) : Bytes := chunk maxVctpPayload s.message i.toNat

theorem fragmentPayload_eq : fragmentPayload s.message = chunks maxVctpPayload s.message := by
  have htwo := s.two_le
  unfold fragmentPayload at htwo ⊢
  split
  · next hsmall => simp [hsmall] at htwo
  · rfl

theorem toNat_total : s.total.toNat = (chunks maxVctpPayload s.message).length := by
  have hmax := s.le_max
  rw [total, UInt16.toNat_ofNat', Nat.mod_eq_of_lt (by omega), fragmentPayload_eq]

theorem two_le_total : 2 ≤ s.total.toNat := by
  rw [toNat_total, ← fragmentPayload_eq]
  exact s.two_le

theorem map_indices {β : Type} (t : UInt16) (g : UInt16 → Nat → β) :
    (indices t).map (fun i => g i i.toNat) = (List.range t.toNat).map
    (fun n => g (UInt16.ofNat n) n) := by
  rw [indices, map_map]
  refine map_congr_left (fun n hn => ?_)
  have hn' := mem_range.mp hn
  have := t.toNat_lt
  simp only [Function.comp_apply, UInt16.toNat_ofNat']
  rw [Nat.mod_eq_of_lt (by omega)]

theorem perm_fragments : s.order.Perm ((indices s.total).map (fun i => (i, s.fragment i))) := by
  have hnumbered : numbered s.message = (indices s.total).map (fun i => (i, s.fragment i)) := by
    have hmap := map_indices s.total (fun i n => (i, chunk maxVctpPayload s.message n))
    refine Eq.trans ?_ hmap.symm
    rw [numbered, fragmentPayload_eq, toNat_total, length_chunks, chunks]
    refine ext_getElem (by simp) (fun i h₁ h₂ => ?_)
    simp
  rw [← hnumbered]
  exact s.perm

theorem flatMap_fragment (t : UInt16) :
    (indices t).flatMap s.fragment = s.message.take (t.toNat * maxVctpPayload) := by
  have hmap := map_indices t (fun _ n => chunk maxVctpPayload s.message n)
  rw [flatMap_def]
  have heq : (indices t).map s.fragment = (List.range t.toNat).map (chunk maxVctpPayload s.message) :=
    hmap
  rw [heq, ← flatMap_def, flatMap_chunk]

theorem flatMap_total : (indices s.total).flatMap s.fragment = s.message := by
  have hcover := length_le_chunks_mul (by decide : 0 < maxVctpPayload) s.message
  rw [flatMap_fragment, toNat_total, take_of_length_le hcover]

theorem flatMap_ne {t : UInt16} (ht : t < s.total) :
    s.message ≠ (indices t).flatMap s.fragment := by
  intro heq
  have hlt : t.toNat < (chunks maxVctpPayload s.message).length := by
    rw [← toNat_total]
    exact UInt16.lt_iff_toNat_lt.mp ht
  have hshort := mul_lt_length_of_lt (by decide : 0 < maxVctpPayload) hlt
  have hlen := congrArg List.length heq
  rw [flatMap_fragment, length_take] at hlen
  omega

theorem perm_fst : (s.order.map Prod.fst).Perm (indices s.total) := by
  have := s.perm_fragments.map Prod.fst
  simpa [Function.comp_def] using this

theorem count_fst (k : UInt16) : (s.order.map Prod.fst).count k = if k < s.total then 1 else 0 := by
  rw [s.perm_fst.count_eq]
  split
  · next hk => exact count_eq_one_of_mem (nodup_indices _) (mem_indices.mpr hk)
  · next hk => exact count_eq_zero_of_not_mem (fun hmem => hk (mem_indices.mp hmem))

theorem chunk_of_mem {f : UInt16 × Bytes} (hf : f ∈ s.order) : f.2 = s.fragment f.1 := by
  obtain ⟨i, _, rfl⟩ := mem_map.mp (s.perm_fragments.mem_iff.mp hf)
  rfl

end Sent

open Sent

/-! ### Message after message -/

section Messages

variable {Addr : Type} [DecidableEq Addr]

def collectAll (addr : Addr) : FragBuf Addr → List (UInt16 × UInt16 × Bytes) →
    List Bytes × FragBuf Addr
  | buf, [] => ([], buf)
  | buf, (index, total, payload) :: rest =>
    let r := collectFragment buf addr index total payload
    (r.1.toList ++ (collectAll addr r.2 rest).1, (collectAll addr r.2 rest).2)

def handed (addr : Addr) (sent : List Sent) : List Bytes :=
  (collectAll addr (fun _ => none) (sent.flatMap packets)).1

variable (addr : Addr)

theorem collectAll_noted (packets : List (UInt16 × UInt16 × Bytes)) :
    ∀ {buf : FragBuf Addr} {fragments : Fragments} {total : UInt16},
      buf addr = some (fragments, total) →
      (collectAll addr buf packets).1
        = (feedAll total fragments (packets.map (fun p => (p.1, p.2.2)))).1 := by
  induction packets with
  | nil => exact fun _ => rfl
  | cons p rest ih =>
    intro buf fragments total hbuf
    obtain ⟨index, total', payload⟩ := p
    have hstep : collectFragment buf addr index total' payload
        = ((feed total fragments (index, payload)).1,
          Function.update buf addr (some ((feed total fragments (index, payload)).2, total))) := by
      rw [collectFragment, hbuf]
      rfl
    rw [collectAll, hstep, map_cons, feedAll_cons]
    simp only
    rw [ih (Function.update_self addr _ buf)]

theorem collectAll_fresh {buf : FragBuf Addr} (hbuf : buf addr = none)
    (index total : UInt16) (payload : Bytes) (rest : List (UInt16 × UInt16 × Bytes)) :
    (collectAll addr buf ((index, total, payload) :: rest)).1
      = (feedAll total ∅ (((index, total, payload) :: rest).map (fun p => (p.1, p.2.2)))).1 := by
  have hsame : collectFragment buf addr index total payload
      = collectFragment (Function.update buf addr (some (∅, total))) addr index total payload := by
    simp [collectFragment, hbuf]
  have hnoted := collectAll_noted addr ((index, total, payload) :: rest)
    (Function.update_self addr (some ((∅ : Fragments), total)) buf)
  rw [collectAll] at hnoted ⊢
  rw [hsame]
  exact hnoted

theorem collectAll_append (buf : FragBuf Addr) (ps qs : List (UInt16 × UInt16 × Bytes)) :
    collectAll addr buf (ps ++ qs)
      = ((collectAll addr buf ps).1 ++ (collectAll addr (collectAll addr buf ps).2 qs).1,
        (collectAll addr (collectAll addr buf ps).2 qs).2) := by
  induction ps generalizing buf with
  | nil => rfl
  | cons p ps ih => simp only [cons_append, collectAll, ih, append_assoc]

theorem collectAll_ready {buf : FragBuf Addr} {total : UInt16}
    (hbuf : buf addr = none ∨ buf addr = some (∅, total))
    {packets : List (UInt16 × UInt16 × Bytes)} (htotal : ∀ p ∈ packets, p.2.1 = total) :
    (collectAll addr buf packets).1
      = (feedAll total ∅ (packets.map (fun p => (p.1, p.2.2)))).1 := by
  rcases hbuf with hnone | hnoted
  · cases packets with
    | nil => rfl
    | cons p rest =>
      obtain ⟨index, total', payload⟩ := p
      obtain rfl : total' = total := htotal _ mem_cons_self
      exact collectAll_fresh addr hnone index total' payload rest
  · exact collectAll_noted addr packets hnoted

theorem map_packets (sent : List Sent) :
    (sent.flatMap packets).map (fun p => (p.1, p.2.2)) = sent.flatMap order := by
  induction sent with
  | nil => rfl
  | cons s rest ih =>
    rw [flatMap_cons, map_append, ih, flatMap_cons]
    congr 1
    simp [packets, Function.comp_def]

theorem handed_cons (s : Sent) (rest : List Sent) :
    handed addr (s :: rest) = (feedAll s.total ∅ ((s :: rest).flatMap order)).1 := by
  rw [handed, ← map_packets, flatMap_cons]
  have hpos : 0 < s.order.length := by
    have hlen := s.perm_fst.length_eq
    rw [length_map, length_indices] at hlen
    have := s.two_le_total
    omega
  cases horder : s.order with
  | nil => simp [horder] at hpos
  | cons f fs =>
    rw [packets, horder]
    exact collectAll_fresh addr rfl f.1 s.total f.2 _

theorem feedAll_messages {t : UInt16} :
    ∀ {sent : List Sent}, (∀ s ∈ sent, s.total = t) →
      feedAll t ∅ (sent.flatMap order) = (sent.map message, ∅)
  | [], _ => rfl
  | s :: rest, hall => by
    have hs : s.total = t := hall s mem_cons_self
    have hpos : 0 < t.toNat := by
      have := s.two_le_total
      rw [hs] at this
      omega
    have hperm := s.perm_fragments
    rw [hs] at hperm
    have hmessage := feedAll_message hperm hpos
    have hwhole := s.flatMap_total
    rw [hs] at hwhole
    rw [flatMap_cons, feedAll_append, hmessage,
      feedAll_messages (fun s' hs' => hall s' (mem_cons_of_mem s hs')), hwhole]
    rfl

theorem total_eq_of_feedAll {t : UInt16} :
    ∀ {sent : List Sent}, (∀ s ∈ sent, t ≤ s.total) →
      (feedAll t ∅ (sent.flatMap order)).1 = sent.map message → ∀ s ∈ sent, s.total = t
  | [], _, _ => by simp
  | s :: rest, hge, hout => by
    have hs : s.total = t := by
      by_contra hne
      have hlt : t < s.total :=
        UInt16.lt_of_le_of_ne (hge s mem_cons_self) (fun h => hne h.symm)
      -- the fragment of index `t` blocks the buffer
      have hpoison : Poisoned t (feedAll t ∅ s.order).2 :=
        feedAll_poisons UInt16.le_rfl ∅ (s.perm_fst.mem_iff.mpr (mem_indices.mpr hlt))
      rw [flatMap_cons, feedAll_append, (hpoison.feedAll _).1, append_nil,
        map_cons] at hout
      have hmem : s.message ∈ (feedAll t ∅ s.order).1 := by
        rw [hout]
        exact mem_cons_self
      exact s.flatMap_ne hlt (mem_feedAll (by simp) (fun f hf => s.chunk_of_mem hf) hmem)
    have hperm := s.perm_fragments
    have hwhole := s.flatMap_total
    rw [hs] at hperm hwhole
    have hpos : 0 < t.toNat := by
      have := s.two_le_total
      rw [hs] at this
      omega
    rw [flatMap_cons, feedAll_append, feedAll_message hperm hpos, hwhole] at hout
    have hrest := total_eq_of_feedAll (fun s' hs' => hge s' (mem_cons_of_mem s hs'))
      (List.cons.inj hout).2
    exact forall_mem_cons.mpr ⟨hs, hrest⟩

theorem count_flatMap_order (k : UInt16) (sent : List Sent) :
    ((sent.flatMap order).map Prod.fst).count k = sent.countP (fun s => k < s.total) := by
  induction sent with
  | nil => rfl
  | cons s rest ih =>
    rw [flatMap_cons, map_append, count_append, ih, count_fst,
      countP_cons]
    by_cases hk : k < s.total
    · simp [hk, Nat.add_comm]
    · simp [hk]

theorem total_le_of_length {t : UInt16} (ht : 2 ≤ t.toNat) {sent : List Sent}
    (hlen : (feedAll t ∅ (sent.flatMap order)).1.length = sent.length) :
    ∀ s ∈ sent, t ≤ s.total := by
  have hone : (t - 1).toNat = t.toNat - 1 := by
    rw [UInt16.toNat_sub_of_le _ _ (UInt16.le_iff_toNat_le.mpr (by simp; omega))]
    rfl
  have hk : t - 1 < t := UInt16.lt_iff_toNat_lt.mpr (by omega)
  have hcount := length_feedAll_le hk (sent.flatMap order) ∅
  have hzero : held ∅ (t - 1) = 0 := rfl
  rw [hlen, hzero, count_flatMap_order] at hcount
  have hfull : sent.countP (fun s => t - 1 < s.total) = sent.length :=
    Nat.le_antisymm countP_le_length (by omega)
  intro s hs
  have hlt : t - 1 < s.total := by simpa using (countP_eq_length.mp hfull) s hs
  have hnat := UInt16.lt_iff_toNat_lt.mp hlt
  exact UInt16.le_iff_toNat_le.mpr (by omega)

/-- **Messages reassemble to themselves** iff all have the same number of fragments. -/
theorem handed_eq_iff (addr : Addr) (sent : List Sent) :
    handed addr sent = sent.map message ↔ ∀ s ∈ sent, ∀ s' ∈ sent, s.total = s'.total := by
  cases sent with
  | nil => exact ⟨fun _ _ hs => by simp at hs, fun _ => rfl⟩
  | cons first rest =>
    rw [handed_cons]
    constructor
    · intro hout
      have hge := total_le_of_length first.two_le_total
        (by rw [hout, length_map] : _ = (first :: rest).length)
      have hall := total_eq_of_feedAll hge hout
      exact fun s hs s' hs' => (hall s hs).trans (hall s' hs').symm
    · intro hsame
      rw [feedAll_messages (fun s hs => hsame s hs first mem_cons_self)]

end Messages

theorem length_fragmentPayload_replicate {n : Nat} (hn : maxVctpPayload < n) (b : UInt8) :
    (fragmentPayload (List.replicate n b)).length = (n + maxVctpPayload - 1) / maxVctpPayload := by
  rw [fragmentPayload, if_neg (by rw [length_replicate]; omega), length_chunks,
    length_replicate]

def Sent.ofBytes (n : Nat) (b : UInt8) (hn : maxVctpPayload < n)
    (hmax : (n + maxVctpPayload - 1) / maxVctpPayload ≤ 65535) : Sent where
  message := List.replicate n b
  order := numbered (List.replicate n b)
  two_le := by
    rw [length_fragmentPayload_replicate hn, Nat.le_div_iff_mul_le (by decide)]
    omega
  le_max := by
    rw [length_fragmentPayload_replicate hn]
    exact hmax
  perm := List.Perm.refl _

theorem handed_two_three :
    handed () [ofBytes 65480 1 (by decide) (by decide),
        ofBytes 130959 2 (by decide) (by decide)]
      ≠ [List.replicate 65480 1, List.replicate 130959 2] := by
  intro hout
  have htotal : (ofBytes 65480 1 (by decide) (by decide)).total = 2 := by
    rw [total, ofBytes, length_fragmentPayload_replicate (by decide)]
    rfl
  have htotal' : (ofBytes 130959 2 (by decide) (by decide)).total = 3 := by
    rw [total, ofBytes, length_fragmentPayload_replicate (by decide)]
    rfl
  rw [handed_cons, htotal] at hout
  have hall := total_eq_of_feedAll
    (forall_mem_cons.mpr ⟨by rw [htotal]; decide,
      forall_mem_singleton.mpr (by rw [htotal']; decide)⟩) hout
  have hthree := hall _ (mem_cons_of_mem _ mem_cons_self)
  rw [htotal'] at hthree
  exact absurd hthree (by decide)

end Velocity.Vctp
