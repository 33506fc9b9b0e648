import Velocity.Vctp.Fragments
import Velocity.Vctp.Reorder

namespace Velocity.Vctp

open Lib List ReorderBuffer

/-!
# Delivery of single-packet requests

Single-packet requests go through one reorder buffer that all clients share.

* `serve`: arrivals through the buffer to the handlers.
* `serve_eq_iff`: all clients are served iff their requests together are in sequence.
-/

structure VctpPacket where
  sequenceNumber : UInt64
  slabOffset : UInt32
  payload : Bytes
  deriving DecidableEq

variable {Addr : Type}

def VctpPacket.isFragment (packet : VctpPacket) : Bool :=
  decide ((decodeFragmentMeta packet.slabOffset).2 > 1)

def serve : ReorderBuffer Addr → List (Addr × VctpPacket) →
    List (Bytes × Addr) × ReorderBuffer Addr
  | b, [] => ([], b)
  | b, (addr, packet) :: rest =>
    if packet.isFragment then serve b rest
    else
      let r := b.insert (packet.sequenceNumber, packet.payload, addr)
      (r.1 ++ (serve r.2 rest).1, (serve r.2 rest).2)

def singles (arrivals : List (Addr × VctpPacket)) : List (Numbered Addr) :=
  (arrivals.filter (fun a => !a.2.isFragment)).map
    (fun a => (a.2.sequenceNumber, a.2.payload, a.1))

theorem serve_eq_insertAll (arrivals : List (Addr × VctpPacket)) (b : ReorderBuffer Addr) :
    serve b arrivals = b.insertAll (singles arrivals) := by
  induction arrivals generalizing b with
  | nil => rfl
  | cons a rest ih =>
    obtain ⟨addr, packet⟩ := a
    rw [serve]
    cases hf : packet.isFragment with
    | true => simpa [singles, hf] using ih b
    | false => simp [singles, hf, insertAll, ih]

/-! ### While nothing is lost -/

/-- The buffer after `ps`, while nothing was lost. -/
structure Served (b : ReorderBuffer Addr) (ps released : List (Numbered Addr)) : Prop where
  numbers : released.map Prod.fst
    = (List.range released.length).map (fun i => UInt64.ofNat (i + 1))
  next : b.nextExpected = UInt64.ofNat (released.length + 1)
  short : released.length < 2 ^ 64
  placed : ps.Perm (released ++ b.waiting)
  stopped : b.pending.lookup b.nextExpected = none
  nonzero : ∀ p ∈ ps, p.1 ≠ 0

theorem served_new (maxDepth : Nat) :
    Served (new maxDepth : ReorderBuffer Addr) [] [] where
  numbers := rfl
  next := rfl
  short := Nat.two_pow_pos 64
  placed := List.Perm.refl _
  stopped := rfl
  nonzero := by simp

variable {b : ReorderBuffer Addr} {ps released : List (Numbered Addr)}

theorem Served.accept
    (hs : Served b ps released) {p : Numbered Addr} (hfree : b.pending.lookup p.1 = none)
    (hp : p.1 ≠ 0) :
    ∃ more, (b.accept p).1 = more.map Prod.snd
      ∧ Served (b.accept p).2 (ps ++ [p]) (released ++ more) := by
  obtain ⟨more, hout, hnum, hperm, hnext, _, hstopped⟩ := b.accept_spec p
  have hwaiting : waiting { b with pending := b.pending.insert p.1 p.2 }
      = p :: b.waiting := by
    rw [waiting, entries_insert_of_new hfree]
    rfl
  have hplaced : (ps ++ [p]).Perm (released ++ more ++ (b.accept p).2.waiting) := by
    rw [hwaiting] at hperm
    calc (ps ++ [p]).Perm (p :: ps) := perm_append_singleton p ps
      _ |>.Perm (p :: (released ++ b.waiting)) := hs.placed.cons p
      _ |>.Perm (released ++ (p :: b.waiting)) := List.perm_middle.symm
      _ |>.Perm (released ++ (more ++ (b.accept p).2.waiting)) := hperm.append_left released
      _ = released ++ more ++ (b.accept p).2.waiting := (append_assoc _ _ _).symm
  have hnonzero : ∀ x ∈ ps ++ [p], x.1 ≠ 0 := by
    intro x hx
    rcases mem_append.mp hx with hx | hx
    · exact hs.nonzero x hx
    · rw [mem_singleton.mp hx]
      exact hp
  have hmore : more.map Prod.fst
      = (List.range more.length).map (fun i => UInt64.ofNat (released.length + i + 1)) := by
    rw [hnum, hs.next]
    refine map_congr_left (fun i _ => ?_)
    rw [← UInt64.ofNat_add]
    congr 1
    omega
  refine ⟨more, hout, ⟨?_, ?_, ?_, hplaced, hstopped, hnonzero⟩⟩
  · rw [map_append, hs.numbers, hmore, length_append, range_add, map_append,
      map_map]
    rfl
  · rw [hnext, hs.next, ← UInt64.ofNat_add, length_append]
    congr 1
    omega
  · -- the number after `2^64 - 1` would be zero, which no packet has
    rw [length_append]
    by_contra hlong
    have hshort := hs.short
    have hzero : (0 : UInt64) ∈ more.map Prod.fst := by
      rw [hmore]
      refine mem_map.mpr ⟨2 ^ 64 - 1 - released.length, mem_range.mpr (by omega), ?_⟩
      have : released.length + (2 ^ 64 - 1 - released.length) + 1 = 2 ^ 64 := by omega
      rw [this]
      rfl
    obtain ⟨x, hx, hx0⟩ := mem_map.mp hzero
    have hmem : x ∈ ps ++ [p] := by
      rw [hplaced.mem_iff]
      simp [hx]
    exact hnonzero x hmem hx0

theorem Served.insertAll {d : Nat} (hd : d ≠ 0) :
    ∀ {qs ps released : List (Numbered Addr)} {b : ReorderBuffer Addr},
      Served b ps released → b.maxDepth = d → size b.pending ≤ d → (∀ q ∈ qs, q.1 ≠ 0) →
      StepsMeet (fun b p => (b.insert p).2) ReorderBuffer.Clean b qs →
      ∃ more, (b.insertAll qs).1 = more.map Prod.snd
        ∧ Served (b.insertAll qs).2 (ps ++ qs) (released ++ more)
        ∧ size (b.insertAll qs).2.pending ≤ d
  | [], ps, released, b, hs, _, hroom, _, _ => ⟨[], rfl, by simpa [insertAll], hroom⟩
  | q :: qs, ps, released, b, hs, hdepth, _, hq, hrun => by
    obtain ⟨hclean, hrest⟩ := hrun
    have hins := hclean.insert_eq (by rw [hdepth]; exact hd)
    obtain ⟨more, hout, hs'⟩ := hs.accept hclean.1 (hq q mem_cons_self)
    rw [← hins] at hout hs'
    have hroom' : size (b.insert q).2.pending ≤ d := by
      rw [hins, ← hdepth]
      exact hclean.2
    obtain ⟨more', hout', hs'', hroom''⟩ :=
      hs'.insertAll hd (by rw [maxDepth_insert, hdepth]) hroom'
        (fun x hx => hq x (mem_cons_of_mem q hx)) hrest
    refine ⟨more ++ more', ?_, ?_, hroom''⟩
    · rw [ReorderBuffer.insertAll, hout, hout', map_append]
    · rw [ReorderBuffer.insertAll, ← append_assoc]
      simpa using hs''

/-! ### The first missing number -/

def seqs (ps : List (Numbered Addr)) : List Nat := ps.map (fun p => p.1.toNat)

def frontier (ns : List Nat) : Nat :=
  ((List.range ns.length).takeWhile (fun i => decide (i + 1 ∈ ns))).length

theorem frontier_eq {ns : List Nat} {r : Nat} (hall : ∀ i, i < r → i + 1 ∈ ns)
    (hnext : r + 1 ∉ ns) : frontier ns = r := by
  have hle : r ≤ ns.length := by
    have hnodup : ((List.range r).map (· + 1)).Nodup :=
      nodup_range.map (fun _ _ h => Nat.succ.inj h)
    have hsub : (List.range r).map (· + 1) ⊆ ns := by
      intro x hx
      obtain ⟨i, hi, rfl⟩ := mem_map.mp hx
      exact hall i (mem_range.mp hi)
    have hlen := (subperm_of_subset hnodup hsub).length_le
    simpa using hlen
  obtain ⟨k, hk⟩ := Nat.exists_eq_add_of_le hle
  have hbelow : ∀ i ∈ List.range r, decide (i + 1 ∈ ns) = true :=
    fun i hi => decide_eq_true (hall i (mem_range.mp hi))
  have hstop : ((List.range k).map (r + ·)).takeWhile (fun i => decide (i + 1 ∈ ns)) = [] := by
    cases k with
    | zero => rfl
    | succ k =>
      rw [range_succ_eq_map, map_cons, takeWhile_cons_of_neg]
      simpa using hnext
  rw [frontier, hk, range_add, takeWhile_append_of_pos hbelow, hstop, append_nil,
    length_range]

theorem Served.missing (hs : Served b ps released) : released.length + 1 ∉ seqs ps := by
  have hshort := hs.short
  intro hmem
  obtain ⟨p, hp, hpr⟩ := mem_map.mp hmem
  rcases mem_append.mp (hs.placed.mem_iff.mp hp) with hrel | hwait
  · -- a released packet has a smaller number
    have hfst : p.1 ∈ released.map Prod.fst := mem_map_of_mem hrel
    rw [hs.numbers] at hfst
    obtain ⟨i, hi, hpi⟩ := mem_map.mp hfst
    have hi' := mem_range.mp hi
    rw [← hpi, UInt64.toNat_ofNat', Nat.mod_eq_of_lt (by omega)] at hpr
    omega
  · -- a waiting packet of this number would have been released
    have heq : p.1 = b.nextExpected := by
      rw [hs.next, ← hpr, UInt64.ofNat_toNat]
    have hl := lookup_of_mem_waiting hwait
    rw [heq, hs.stopped] at hl
    exact absurd hl (by simp)

theorem Served.frontier_eq (hs : Served b ps released) : frontier (seqs ps) = released.length := by
  have hshort := hs.short
  refine Vctp.frontier_eq (fun i hi => ?_) hs.missing
  have hnum : UInt64.ofNat (i + 1) ∈ released.map Prod.fst := by
    rw [hs.numbers]
    exact mem_map_of_mem (mem_range.mpr hi)
  obtain ⟨p, hp, hpi⟩ := mem_map.mp hnum
  refine mem_map.mpr ⟨p, hs.placed.mem_iff.mpr (mem_append_left _ hp), ?_⟩
  rw [hpi, UInt64.toNat_ofNat', Nat.mod_eq_of_lt (by omega)]

theorem Served.length_eq
    (hs : Served b ps released) : ps.length = frontier (seqs ps) + size b.pending := by
  rw [hs.frontier_eq, ← length_waiting, hs.placed.length_eq, length_append]

/-- 1 to `n`, each once, at most `depth` past the first missing one. -/
def InSequence (depth : Nat) (ns : List Nat) : Prop :=
  ns.Perm (List.range' 1 ns.length) ∧ ∀ ms, ms <+: ns → ms.length ≤ frontier ms + depth

theorem Served.seqs_released
    (hs : Served b ps released) : seqs released = List.range' 1 released.length := by
  have hshort := hs.short
  have hmap : seqs released = (released.map Prod.fst).map UInt64.toNat := by
    simp [seqs, Function.comp_def]
  rw [hmap, hs.numbers, map_map, range'_eq_map_range]
  refine map_congr_left (fun i hi => ?_)
  have hi' := mem_range.mp hi
  rw [Function.comp_apply, UInt64.toNat_ofNat', Nat.mod_eq_of_lt (by omega), Nat.add_comm]

/-! ### Nothing is lost -/

section Buffer

variable {d : Nat} {ps : List (Numbered Addr)}

theorem inSequence_of_length (hd : d ≠ 0) (hps : ∀ p ∈ ps, p.1 ≠ 0)
    (hlen : ((new d).insertAll ps).1.length = ps.length) :
    InSequence d (seqs ps) := by
  obtain ⟨hle, hclean⟩ := length_insertAll_le ps (new d) hd
  have hzero : size (new d : ReorderBuffer Addr).pending = 0 := rfl
  have hempty : size ((new d).insertAll ps).2.pending = 0 := by omega
  have hrun := hclean (by omega)
  have hserved : ∀ qs, qs <+: ps → ∃ released,
      Served ((new d).insertAll qs).2 qs released
        ∧ size ((new d).insertAll qs).2.pending ≤ d := by
    intro qs hqs
    obtain ⟨more, _, hs, hroom⟩ := (served_new d).insertAll hd rfl (Nat.zero_le d)
      (fun q hq => hps q (hqs.subset hq)) (hrun.initial hqs)
    exact ⟨_, by simpa using hs, hroom⟩
  refine ⟨?_, fun ms hms => ?_⟩
  · obtain ⟨released, hs, _⟩ := hserved ps (prefix_refl ps)
    have hnone : ((new d).insertAll ps).2.waiting = [] :=
      length_eq_zero_iff.mp (by rw [length_waiting, hempty])
    have hplaced := hs.placed
    rw [hnone, append_nil] at hplaced
    have hperm := hplaced.map (fun p => p.1.toNat)
    rw [seqs, length_map, hplaced.length_eq, ← hs.seqs_released]
    exact hperm
  · obtain ⟨qs, hqs, rfl⟩ : ∃ qs, qs <+: ps ∧ seqs qs = ms := by
      refine ⟨ps.take ms.length, take_prefix _ _, ?_⟩
      rw [seqs, map_take]
      exact (prefix_iff_eq_take.mp hms).symm
    obtain ⟨released, hs, hroom⟩ := hserved qs hqs
    have hplaced := hs.length_eq
    rw [seqs, length_map]
    rw [seqs] at hplaced
    omega

theorem stepsMeet_clean (hd : d ≠ 0) :
    ∀ {qs ps released : List (Numbered Addr)} {b : ReorderBuffer Addr},
      Served b ps released → b.maxDepth = d → (∀ q ∈ qs, q.1 ≠ 0) → (seqs (ps ++ qs)).Nodup →
      (∀ ms, ms <+: seqs (ps ++ qs) → ms.length ≤ frontier ms + d) →
      StepsMeet (fun b p => (b.insert p).2) ReorderBuffer.Clean b qs
  | [], _, _, _, _, _, _, _, _ => trivial
  | q :: qs, ps, released, b, hs, hdepth, hq, hnodup, hbound => by
    have hsplit : ps ++ q :: qs = (ps ++ [q]) ++ qs := by simp
    have hfree : b.pending.lookup q.1 = none := by
      by_contra htaken
      obtain ⟨entry, hentry⟩ := Option.ne_none_iff_exists'.mp htaken
      have hwait : (q.1, entry) ∈ b.waiting :=
        mem_map.mpr ⟨⟨q.1, entry⟩, AList.mem_lookup_iff.mp hentry, rfl⟩
      have hmem : q.1.toNat ∈ seqs ps :=
        mem_map.mpr ⟨(q.1, entry), hs.placed.mem_iff.mpr (mem_append_right _ hwait), rfl⟩
      rw [seqs, map_append] at hnodup
      exact (nodup_append.mp hnodup).2.2 _ hmem _ mem_cons_self rfl
    obtain ⟨more, _, hs'⟩ := hs.accept hfree (hq q mem_cons_self)
    have hroom : size (b.accept q).2.pending ≤ b.maxDepth := by
      have hlen := hs'.length_eq
      have hle := hbound (seqs (ps ++ [q])) (by
        rw [hsplit]
        exact (prefix_append (ps ++ [q]) qs).map _)
      rw [seqs, length_map] at hle
      rw [seqs] at hlen
      omega
    have hclean : b.Clean q := ⟨hfree, hroom⟩
    have hins := hclean.insert_eq (by rw [hdepth]; exact hd)
    refine ⟨hclean, ?_⟩
    rw [hsplit] at hnodup hbound
    rw [← hins] at hs'
    exact stepsMeet_clean hd hs' (by rw [maxDepth_insert, hdepth])
      (fun x hx => hq x (mem_cons_of_mem q hx)) hnodup hbound

theorem released_of_inSequence (hd : d ≠ 0) (hps : ∀ p ∈ ps, p.1 ≠ 0)
    (hseq : InSequence d (seqs ps)) :
    ∃ released, ((new d).insertAll ps).1 = released.map Prod.snd
      ∧ ps.Perm released ∧ seqs released = List.range' 1 released.length := by
  obtain ⟨hperm, hbound⟩ := hseq
  have hnodup : (seqs ps).Nodup := hperm.nodup_iff.mpr nodup_range'
  have hrun := stepsMeet_clean hd (served_new d) rfl hps (by simpa using hnodup)
    (by simpa using hbound)
  obtain ⟨released, hout, hs, _⟩ := (served_new d).insertAll hd rfl (Nat.zero_le d) hps hrun
  rw [nil_append, nil_append] at hs
  refine ⟨released, hout, ?_, hs.seqs_released⟩
  -- none is left behind
  have hlen : (seqs ps).length = ps.length := length_map _
  have hfull : ps.length ≤ released.length := by
    by_contra hless
    refine hs.missing ?_
    rw [hperm.mem_iff, mem_range']
    exact ⟨released.length, by omega, by omega⟩
  have hplaced := hs.placed
  have hnone : ((new d).insertAll ps).2.waiting = [] := by
    have := hplaced.length_eq
    rw [length_append] at this
    exact length_eq_zero_iff.mp (by omega)
  rwa [hnone, append_nil] at hplaced

end Buffer

/-! ### Clients -/

section Clients

variable [DecidableEq Addr]

/-- Each client numbers its packets from 1. -/
def OwnNumbers (arrivals : List (Addr × VctpPacket)) : Prop :=
  ∀ c, (arrivals.filter (fun a => a.1 = c)).map (fun a => a.2.sequenceNumber.toNat)
    = List.range' 1 (arrivals.filter (fun a => a.1 = c)).length

/-- Each client's requests are served, in its order. -/
def ServesEach (depth : Nat) (arrivals : List (Addr × VctpPacket)) : Prop :=
  ∀ c, ((serve (new depth) arrivals).1).filter (fun r => r.2 = c)
    = ((singles arrivals).map Prod.snd).filter (fun r => r.2 = c)

theorem singles_filter (arrivals : List (Addr × VctpPacket)) (c : Addr) :
    (singles arrivals).filter (fun p => p.2.2 = c) = singles
    (arrivals.filter (fun a => a.1 = c)) := by
  simp only [singles, filter_map, filter_filter, Function.comp_def, Bool.and_comm]

variable {arrivals : List (Addr × VctpPacket)}

theorem OwnNumbers.pairwise_singles (h : OwnNumbers arrivals) (c : Addr) :
    ((singles arrivals).filter (fun p => p.2.2 = c)).Pairwise
      (fun p q => p.1.toNat < q.1.toNat) := by
  rw [singles_filter, singles, pairwise_map]
  refine List.Pairwise.filter _ ?_
  have hsorted : (List.range' 1 (arrivals.filter (fun a => a.1 = c)).length).Pairwise (· < ·) :=
    pairwise_lt_range'
  rw [← h c, pairwise_map] at hsorted
  exact hsorted

theorem OwnNumbers.nonzero (h : OwnNumbers arrivals) : ∀ p ∈ singles arrivals, p.1 ≠ 0 := by
  intro p hp hzero
  obtain ⟨a, ha, rfl⟩ := mem_map.mp hp
  have hmem : a.2.sequenceNumber.toNat
      ∈ (arrivals.filter (fun b => b.1 = a.1)).map (fun b => b.2.sequenceNumber.toNat) :=
    mem_map.mpr ⟨a, mem_filter.mpr ⟨(mem_filter.mp ha).1, by simp⟩, rfl⟩
  rw [h a.1, mem_range'] at hmem
  obtain ⟨i, _, hi⟩ := hmem
  have hz : a.2.sequenceNumber.toNat = 0 := congrArg UInt64.toNat hzero
  omega

theorem ServesEach.length_eq {depth : Nat} (h : ServesEach depth arrivals) :
    (serve (new depth) arrivals).1.length = (singles arrivals).length := by
  have hperm : ((serve (new depth) arrivals).1).Perm
      ((singles arrivals).map Prod.snd) := by
    rw [perm_iff_count]
    intro r
    have hcount := congrArg (List.count r) (h r.2)
    rwa [count_filter (by simp), count_filter (by simp)] at hcount
  rw [hperm.length_eq, length_map]

/-- **Every client is served** iff all their requests together arrive in sequence. -/
theorem serve_eq_iff {depth : Nat} (hd : depth ≠ 0) {arrivals : List (Addr × VctpPacket)}
    (hown : OwnNumbers arrivals) :
    ServesEach depth arrivals ↔ InSequence depth (seqs (singles arrivals)) := by
  constructor
  · intro hserves
    have hlen := hserves.length_eq
    rw [serve_eq_insertAll] at hlen
    exact inSequence_of_length hd hown.nonzero hlen
  · intro hseq c
    obtain ⟨released, hout, hperm, hnum⟩ := released_of_inSequence hd hown.nonzero hseq
    rw [serve_eq_insertAll, hout, filter_map, filter_map]
    -- both list them in the order of their numbers
    have hsorted : released.Pairwise (fun p q => p.1.toNat < q.1.toNat) := by
      have hrange : (List.range' 1 released.length).Pairwise (· < ·) := pairwise_lt_range'
      rw [← hnum, seqs, pairwise_map] at hrange
      exact hrange
    have heq : released.filter (fun p => p.2.2 = c)
        = (singles arrivals).filter (fun p => p.2.2 = c) :=
      List.Perm.eq_of_pairwise (fun a b _ _ hab hba => absurd hab (Nat.lt_asymm hba))
        (hsorted.filter _) (hown.pairwise_singles c) (hperm.symm.filter _)
    exact congrArg (List.map Prod.snd) heq

end Clients

def single (n : UInt64) (payload : Bytes) : VctpPacket := ⟨n, 0, payload⟩

/-- Two clients; the first numbers of the second go to fragments. -/
def twoClients : List (Bool × VctpPacket) :=
  [(true, single 1 [7]), (false, ⟨1, encodeFragmentMeta 0 2, [5]⟩), (true, single 2 [8]),
    (false, ⟨2, encodeFragmentMeta 1 2, [6]⟩), (false, single 3 [9])]

theorem serve_two_clients : OwnNumbers twoClients ∧ ServesEach 64 twoClients := by
  have hown : OwnNumbers twoClients := by
    unfold OwnNumbers
    decide
  refine ⟨hown, (serve_eq_iff (by decide) hown).mpr ⟨by decide, fun ms hms => ?_⟩⟩
  have hlen : ms.length ≤ 3 := hms.length_le
  omega

theorem serve_leaves_out :
    (OwnNumbers [(false, single 1 [7]), (true, single 1 [8])]
      ∧ (serve (new 64) [(false, single 1 [7]), (true, single 1 [8])]).1
          = [([7], false)])
    ∧ (OwnNumbers [(true, ⟨1, encodeFragmentMeta 0 2, [5]⟩), (true, ⟨2, encodeFragmentMeta 1 2, [6]⟩),
          (true, single 3 [7])]
      ∧ (serve (new 64) [(true, ⟨1, encodeFragmentMeta 0 2, [5]⟩),
          (true, ⟨2, encodeFragmentMeta 1 2, [6]⟩), (true, single 3 [7])]).1 = []) := by
  unfold OwnNumbers
  decide

end Velocity.Vctp
