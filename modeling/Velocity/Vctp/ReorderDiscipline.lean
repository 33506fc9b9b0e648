import Velocity.Lib.WordBits
import Velocity.Vctp.Reorder

namespace Velocity.Vctp

open Lib List

/-!
# What the reorder buffer releases and keeps

Along any packets whose numbers lie below `u64::MAX`.
-/

namespace ReorderBuffer

variable {Addr : Type}

def drainSeqs : Nat → ReorderBuffer Addr → List UInt64
  | 0, _ => []
  | n + 1, b =>
    match b.pending.lookup b.nextExpected with
    | none => []
    | some _ => b.nextExpected :: drainSeqs n b.pop

variable (b : ReorderBuffer Addr)

def put (p : Numbered Addr) : ReorderBuffer Addr :=
  { b with pending := b.pending.insert p.1 p.2 }

def releasedSeqs (p : Numbered Addr) : List UInt64 :=
  if b.maxDepth = 0 then [p.1] else drainSeqs (size (b.put p).pending) (b.put p)

def releasedAll : ReorderBuffer Addr → List (Numbered Addr) → List UInt64
  | _, [] => []
  | b, p :: ps => b.releasedSeqs p ++ (b.insert p).2.releasedAll ps

/-! ### Numbers and packets -/

variable {b}

theorem drainSeqs_of_none (h : b.pending.lookup b.nextExpected = none)
    (n : Nat) : drainSeqs n b = [] := by
  cases n with
  | zero => rfl
  | succ n => simp [drainSeqs, h]

theorem drainSeqs_of_some {entry : Bytes × Addr}
    (h : b.pending.lookup b.nextExpected = some entry) (n : Nat) :
    drainSeqs (n + 1) b = b.nextExpected :: drainSeqs n b.pop := by
  simp [drainSeqs, h]

theorem lookup_pop (b : ReorderBuffer Addr) (k : UInt64) :
    b.pop.pending.lookup k = if k = b.nextExpected then none else b.pending.lookup k :=
  lookup_erase_eq_ite _ _ _

theorem lookup_drainSeqs (n : Nat) (b : ReorderBuffer Addr) :
    (drain n b).1.map some = (drainSeqs n b).map b.pending.lookup := by
  induction n generalizing b with
  | zero => rfl
  | succ n ih =>
    cases hl : b.pending.lookup b.nextExpected with
    | none => rw [drain_of_none hl, drainSeqs_of_none hl]; rfl
    | some entry =>
      rw [drain_of_some hl, drainSeqs_of_some hl, map_cons, map_cons, hl, ih]
      congr 1
      -- a number found after the erasure is found before it
      refine map_congr_left (fun k hk => ?_)
      have hsome : b.pop.pending.lookup k ∈ (drain n b.pop).1.map some := by
        rw [ih]
        exact mem_map_of_mem hk
      obtain ⟨found, _, hfound⟩ := mem_map.mp hsome
      rw [lookup_pop] at hfound ⊢
      split
      · next heq => rw [if_pos heq] at hfound; exact absurd hfound (by simp)
      · rfl

theorem lookup_releasedSeqs (b : ReorderBuffer Addr) (p : Numbered Addr) :
    (b.insert p).1.map some = (b.releasedSeqs p).map (b.put p).pending.lookup := by
  unfold releasedSeqs
  by_cases hd : b.maxDepth = 0
  · rw [insert, if_pos hd, if_pos hd]
    simp [put]
  · rw [insert_eq hd, if_neg hd]
    exact lookup_drainSeqs _ _

/-! ### The drain -/

def Bounded (b : ReorderBuffer Addr) : Prop :=
  ∀ k, b.pending.lookup k ≠ none → k.toNat + 1 < 2 ^ 64

structure Drained (b b' : ReorderBuffer Addr) (seqs : List UInt64) : Prop where
  next : b'.nextExpected.toNat = b.nextExpected.toNat + seqs.length
  increasing : seqs.Pairwise (· < ·)
  range : ∀ k ∈ seqs, b.nextExpected.toNat ≤ k.toNat ∧ k.toNat < b'.nextExpected.toNat
  lookup_eq : ∀ k, b'.pending.lookup k
    = if b.nextExpected.toNat ≤ k.toNat ∧ k.toNat < b'.nextExpected.toNat then none
      else b.pending.lookup k
  size_eq : size b'.pending + seqs.length = size b.pending
  stopped : b'.pending.lookup b'.nextExpected = none
  depth : b'.maxDepth = b.maxDepth

theorem Drained.cons {b' : ReorderBuffer Addr} {seqs : List UInt64} (hb : Bounded b)
    (hheld : b.pending.lookup b.nextExpected ≠ none) (h : Drained b.pop b' seqs) :
    Drained b b' (b.nextExpected :: seqs) := by
  have hpop : b.pop.nextExpected.toNat = b.nextExpected.toNat + 1 := toNat_add_one_of_lt (hb _ hheld)
  have hone : size b.pop.pending + 1 = size b.pending := size_erase_add_one hheld
  have hnext := h.next
  have hrange := h.range
  have hsize := h.size_eq
  rw [hpop] at hnext
  refine ⟨?_, ?_, ?_, fun k => ?_, ?_, h.stopped, h.depth⟩
  · rw [length_cons]
    omega
  · refine pairwise_cons.mpr ⟨fun k hk => UInt64.lt_iff_toNat_lt.mpr ?_, h.increasing⟩
    have := (hrange k hk).1
    omega
  · intro k hk
    rcases mem_cons.mp hk with rfl | hk
    · omega
    · have := hrange k hk
      omega
  · rw [h.lookup_eq k, lookup_pop, hpop]
    by_cases hk : k = b.nextExpected
    · have hin : b.nextExpected.toNat ≤ k.toNat ∧ k.toNat < b'.nextExpected.toNat := by
        rw [hk]
        omega
      rw [if_pos hin, if_pos hk, ite_self]
    · have hne : k.toNat ≠ b.nextExpected.toNat := fun h => hk (UInt64.toNat_inj.mp h)
      rw [if_neg hk]
      exact if_congr (by omega) rfl rfl
  · rw [length_cons]
    omega

theorem drained_drain (n : Nat) (b : ReorderBuffer Addr) (hsize : size b.pending ≤ n)
    (hb : Bounded b) : Drained b (drain n b).2 (drainSeqs n b) := by
  induction n generalizing b with
  | zero =>
    have hempty : b.pending = ∅ := AList.ext (length_eq_zero_iff.mp (Nat.le_zero.mp hsize))
    refine ⟨rfl, List.Pairwise.nil, by simp [drainSeqs], fun k => ?_, rfl, ?_, rfl⟩
    · rw [if_neg (by simp only [drain]; omega)]
      rfl
    · show b.pending.lookup b.nextExpected = none
      rw [hempty]
      rfl
  | succ n ih =>
    cases hl : b.pending.lookup b.nextExpected with
    | none =>
      rw [drain_of_none hl, drainSeqs_of_none hl]
      refine ⟨rfl, List.Pairwise.nil, by simp, fun k => ?_, rfl, hl, rfl⟩
      rw [if_neg (by simp only; omega)]
    | some entry =>
      have hheld : b.pending.lookup b.nextExpected ≠ none := by simp [hl]
      have hone : size b.pop.pending + 1 = size b.pending := size_erase_add_one hheld
      have hb' : Bounded b.pop := by
        intro k hk
        rw [lookup_pop] at hk
        refine hb k (fun hnone => hk ?_)
        rw [hnone, ite_self]
      rw [drain_of_some hl, drainSeqs_of_some hl]
      exact (ih b.pop (by omega) hb').cons hb hheld

/-! ### Dropping packets -/

theorem evict_keeps (n : Nat) (b : ReorderBuffer Addr) (hb : Bounded b) :
    (size b.pending ≤ n + b.maxDepth → size (evict n b).pending ≤ b.maxDepth)
      ∧ (∀ k, (evict n b).pending.lookup k ≠ none → b.pending.lookup k ≠ none)
      ∧ b.nextExpected.toNat ≤ (evict n b).nextExpected.toNat := by
  induction n generalizing b with
  | zero => exact ⟨fun h => by simpa [evict] using h, fun _ h => h, Nat.le_refl _⟩
  | succ n ih =>
    by_cases hfull : size b.pending > b.maxDepth
    · obtain ⟨oldest, hold, hheld, _⟩ := exists_oldestKey (b := b) (by omega)
      have hone := size_erase_add_one hheld
      have hsub : ∀ k, (b.pending.erase oldest).lookup k ≠ none → b.pending.lookup k ≠ none := by
        intro k hk hnone
        rw [lookup_erase_eq_ite, hnone, ite_self] at hk
        exact hk rfl
      -- one packet less to drop
      rw [evict_of_full hfull hold]
      obtain ⟨hsize, hkept, hnext⟩ := ih { b with
        pending := b.pending.erase oldest
        nextExpected := if oldest ≥ b.nextExpected then oldest + 1 else b.nextExpected }
        (fun k hk => hb k (hsub k hk))
      simp only at hsize hnext
      refine ⟨fun h => hsize (by omega), fun k hk => hsub k (hkept k hk), Nat.le_trans ?_ hnext⟩
      split
      · next hge =>
        rw [toNat_add_one_of_lt (hb oldest hheld)]
        have := UInt64.le_iff_toNat_le.mp hge
        omega
      · exact Nat.le_refl _
    · rw [(evict_spec b (n + 1)).2.1 (by omega)]
      exact ⟨fun _ => by omega, fun _ h => h, Nat.le_refl _⟩

/-! ### One packet -/

structure Tidy (b : ReorderBuffer Addr) : Prop where
  bounded : Bounded b
  size_le : size b.pending ≤ b.maxDepth
  depth_pos : b.maxDepth ≠ 0

theorem tidy_new {maxDepth : Nat} (hd : maxDepth ≠ 0) : Tidy
    (new maxDepth : ReorderBuffer Addr) where
  bounded := fun k hk => absurd (AList.lookup_empty k) hk
  size_le := Nat.zero_le _
  depth_pos := hd

theorem lookup_put (b : ReorderBuffer Addr) (p : Numbered Addr) (k : UInt64) :
    (b.put p).pending.lookup k = if k = p.1 then some p.2 else b.pending.lookup k :=
  lookup_insert_eq_ite _ _ _ _

@[simp] theorem nextExpected_put (b : ReorderBuffer Addr) (p : Numbered Addr) :
    (b.put p).nextExpected = b.nextExpected := rfl

variable {p : Numbered Addr}

theorem bounded_put (hb : Bounded b) (hp : p.1.toNat + 1 < 2 ^ 64) : Bounded (b.put p) := by
  intro k hk
  rw [lookup_put] at hk
  split at hk
  · next heq => rw [heq]; exact hp
  · exact hb k hk

theorem size_put (b : ReorderBuffer Addr) (p : Numbered Addr) :
    size (b.put p).pending
      = if b.pending.lookup p.1 = none then size b.pending + 1 else size b.pending := by
  have hsize := size_eq_lookup_add b.pending p.1
  have hput : size (b.put p).pending = size (b.pending.erase p.1) + 1 := size_insert _ _ _
  rw [hput]
  cases hl : b.pending.lookup p.1 with
  | none | some entry =>
    rw [hl] at hsize
    simp at hsize
    simp
    omega

theorem drained_accept (ht : Tidy b)
    (hp : p.1.toNat + 1 < 2 ^ 64) : Drained (b.put p) (b.accept p).2 (b.releasedSeqs p) := by
  rw [releasedSeqs, if_neg ht.depth_pos]
  exact drained_drain _ _ (Nat.le_refl _) (bounded_put ht.bounded hp)

theorem Drained.held {b' : ReorderBuffer Addr} {seqs : List UInt64} (h : Drained b b' seqs)
    {k : UInt64} (hk : b'.pending.lookup k ≠ none) : b.pending.lookup k ≠ none := by
  rw [h.lookup_eq k] at hk
  split at hk
  · exact absurd rfl hk
  · exact hk

theorem bounded_accept (ht : Tidy b) (hp : p.1.toNat + 1 < 2 ^ 64) : Bounded (b.accept p).2 :=
  fun k hk => bounded_put ht.bounded hp k ((drained_accept ht hp).held hk)

theorem tidy_insert (ht : Tidy b) (hp : p.1.toNat + 1 < 2 ^ 64) :
    Tidy (b.insert p).2
      ∧ ∀ k ∈ b.releasedSeqs p, b.nextExpected.toNat ≤ k.toNat
        ∧ k.toNat < (b.insert p).2.nextExpected.toNat := by
  have hd := drained_accept ht hp
  have hbounded := bounded_accept ht hp
  obtain ⟨hsize, hkept, hnext⟩ := evict_keeps (size (b.accept p).2.pending) _ hbounded
  have hinsert := insert_eq ht.depth_pos p
  have hdepth : (b.insert p).2.maxDepth = b.maxDepth := maxDepth_insert b p
  refine ⟨⟨?_, ?_, by rw [hdepth]; exact ht.depth_pos⟩, fun k hk => ?_⟩
  · rw [hinsert]
    exact fun k hk => hbounded k (hkept k hk)
  · rw [hdepth, hinsert]
    exact Nat.le_trans (hsize (Nat.le_add_right _ _)) (Nat.le_of_eq hd.depth)
  · have hrange := hd.range k hk
    rw [hinsert]
    exact ⟨hrange.1, Nat.lt_of_lt_of_le hrange.2 hnext⟩

theorem nextExpected_le_insert (ht : Tidy b) (hp : p.1.toNat + 1 < 2 ^ 64) :
    b.nextExpected.toNat ≤ (b.insert p).2.nextExpected.toNat := by
  rw [insert_eq ht.depth_pos p]
  refine Nat.le_trans ?_ (evict_keeps _ _ (bounded_accept ht hp)).2.2
  rw [(drained_accept ht hp).next]
  exact Nat.le_add_right _ _

/-- **The released numbers strictly increase**, from `next_expected`. -/
theorem releasedAll_increasing :
    ∀ {ps : List (Numbered Addr)} {b : ReorderBuffer Addr}, Tidy b →
      (∀ p ∈ ps, p.1.toNat + 1 < 2 ^ 64) →
      (b.releasedAll ps).Pairwise (· < ·)
        ∧ ∀ k ∈ b.releasedAll ps, b.nextExpected.toNat ≤ k.toNat
  | [], _, _, _ => ⟨List.Pairwise.nil, by simp [releasedAll]⟩
  | p :: ps, b, ht, hps => by
    have hp := hps p mem_cons_self
    obtain ⟨ht', hnow⟩ := tidy_insert ht hp
    obtain ⟨hlater, hfrom⟩ :=
      releasedAll_increasing ht' (fun q hq => hps q (mem_cons_of_mem _ hq))
    have hmono := nextExpected_le_insert ht hp
    refine ⟨pairwise_append.mpr ⟨(drained_accept ht hp).increasing, hlater, ?_⟩, ?_⟩
    · intro k hk j hj
      have := (hnow k hk).2
      have := hfrom j hj
      exact UInt64.lt_iff_toNat_lt.mpr (by omega)
    · intro k hk
      rcases mem_append.mp hk with hk | hk
      · exact (hnow k hk).1
      · exact Nat.le_trans hmono (hfrom k hk)

/-! ### What waits -/

def Ahead (b : ReorderBuffer Addr) : Prop :=
  ∀ k, b.pending.lookup k ≠ none → b.nextExpected < k

/-- The packet is expected, or displaces nothing that is needed. -/
def KeepsAhead (b : ReorderBuffer Addr) (p : Numbered Addr) : Prop :=
  p.1 = b.nextExpected
    ∨ (b.nextExpected < p.1
        ∧ (b.pending.lookup p.1 ≠ none ∨ size b.pending < b.maxDepth
          ∨ ∀ oldest, (b.put p).oldestKey = some oldest →
              (b.put p).pending.lookup (oldest + 1) = none))
    ∨ (p.1 < b.nextExpected ∧ b.maxDepth ≤ size b.pending)

theorem insert_of_ne (ht : Tidy b) (ha : Ahead b) (hne : p.1 ≠ b.nextExpected) :
    b.insert p = ([], evict (size (b.put p).pending) (b.put p)) := by
  have hnone : (b.put p).pending.lookup (b.put p).nextExpected = none := by
    rw [lookup_put, if_neg (fun h => hne h.symm)]
    by_contra hheld
    exact absurd (ha _ hheld) (UInt64.lt_irrefl _)
  have haccept : b.accept p = ([], b.put p) := drain_of_none hnone _
  rw [insert_eq ht.depth_pos, haccept]

theorem ahead_insert_expected (ht : Tidy b)
    (ha : Ahead b) (hp : p.1.toNat + 1 < 2 ^ 64) (heq : p.1 = b.nextExpected) :
    Ahead (b.insert p).2 := by
  have hd := drained_accept ht hp
  have hsome : (b.put p).pending.lookup b.nextExpected ≠ none := by
    rw [lookup_put, if_pos heq.symm]
    simp
  -- the packet is released, so none is dropped
  have hmoved : 0 < (b.releasedSeqs p).length := by
    by_contra hzero
    have hsame : (b.accept p).2.nextExpected = b.nextExpected := by
      apply UInt64.toNat_inj.mp
      rw [hd.next, Nat.eq_zero_of_not_pos hzero]
      rfl
    have hstopped := hd.stopped
    rw [hd.lookup_eq, if_neg (by omega), hsame] at hstopped
    exact hsome hstopped
  have hroom : size (b.accept p).2.pending ≤ (b.accept p).2.maxDepth := by
    have hsize := hd.size_eq
    have hput := size_put b p
    have hle := ht.size_le
    have hdepth : (b.accept p).2.maxDepth = b.maxDepth := hd.depth
    split at hput <;> omega
  rw [insert_eq ht.depth_pos, (evict_spec _ _).2.1 hroom]
  show Ahead (b.accept p).2
  intro k hk
  have hput := hd.held hk
  have hnext := hd.next
  rw [nextExpected_put] at hnext
  have hlookup := hk
  rw [hd.lookup_eq k] at hlookup
  have hout : ¬ (b.nextExpected.toNat ≤ k.toNat ∧ k.toNat < (b.accept p).2.nextExpected.toNat) :=
    fun hin => hlookup (if_pos hin)
  have hle : b.nextExpected.toNat ≤ k.toNat := by
    rw [lookup_put] at hput
    split at hput
    · next hkp => rw [hkp, heq]
    · exact Nat.le_of_lt (UInt64.lt_iff_toNat_lt.mp (ha k hput))
  -- the drain stops at a number that does not wait
  have hne : k ≠ (b.accept p).2.nextExpected := fun h => hk (h ▸ hd.stopped)
  have hne' : k.toNat ≠ (b.accept p).2.nextExpected.toNat := fun h => hne (UInt64.toNat_inj.mp h)
  exact UInt64.lt_iff_toNat_lt.mpr (by omega)

/-! #### A place is found -/

theorem insert_of_room (ht : Tidy b) (ha : Ahead b)
    (hne : p.1 ≠ b.nextExpected) (hroom : size (b.put p).pending ≤ b.maxDepth) :
    (b.insert p).2 = b.put p := by
  rw [insert_of_ne ht ha hne]
  exact (evict_spec (b.put p) _).2.1 hroom

theorem ahead_put_iff (p : Numbered Addr) (ha : Ahead b) :
    Ahead (b.put p) ↔ b.nextExpected < p.1 := by
  constructor
  · intro hahead
    exact hahead p.1 (by rw [lookup_put, if_pos rfl]; simp)
  · intro hearly k hk
    rw [lookup_put] at hk
    split at hk
    · next hkp => rw [hkp]; exact hearly
    · exact ha k hk

theorem keepsAhead_iff_of_room (ha : Ahead b)
    (hne : p.1 ≠ b.nextExpected) (hroom : size (b.put p).pending ≤ b.maxDepth) :
    b.KeepsAhead p ↔ b.nextExpected < p.1 := by
  have hsize := size_put b p
  constructor
  · rintro (heq | ⟨hearly, -⟩ | ⟨hlate, hfull⟩)
    · exact absurd heq hne
    · exact hearly
    · -- a late number does not wait already, so it takes a place
      have hnew : b.pending.lookup p.1 = none := by
        by_contra hheld
        exact UInt64.lt_irrefl _ (UInt64.lt_trans hlate (ha _ hheld))
      rw [if_pos hnew] at hsize
      omega
  · intro hearly
    refine .inr (.inl ⟨hearly, ?_⟩)
    by_cases hheld : b.pending.lookup p.1 = none
    · rw [if_pos hheld] at hsize
      exact .inr (.inl (by omega))
    · exact .inl hheld

/-! #### One too many -/

def dropOldest (b : ReorderBuffer Addr) (oldest : UInt64) : ReorderBuffer Addr :=
  { b with
    pending := b.pending.erase oldest
    nextExpected := if oldest ≥ b.nextExpected then oldest + 1 else b.nextExpected }

theorem lookup_dropOldest_ne_none (b : ReorderBuffer Addr) (oldest k : UInt64) :
    (b.dropOldest oldest).pending.lookup k ≠ none
      ↔ k ≠ oldest ∧ b.pending.lookup k ≠ none := by
  rw [dropOldest, lookup_erase_eq_ite]
  by_cases hk : k = oldest
  · simp [hk]
  · simp [hk]

theorem insert_of_full (ht : Tidy b) (ha : Ahead b)
    (hne : p.1 ≠ b.nextExpected) (hfull : b.maxDepth < size (b.put p).pending) :
    b.pending.lookup p.1 = none ∧ b.maxDepth ≤ size b.pending
      ∧ ∃ oldest, (b.put p).oldestKey = some oldest ∧ (b.put p).pending.lookup oldest ≠ none
        ∧ (∀ k, (b.put p).pending.lookup k ≠ none → oldest ≤ k)
        ∧ (b.insert p).2 = (b.put p).dropOldest oldest := by
  have hsize := size_put b p
  have hle := ht.size_le
  have hnew : b.pending.lookup p.1 = none := by
    by_contra hheld
    rw [if_neg hheld] at hsize
    omega
  rw [if_pos hnew] at hsize
  obtain ⟨oldest, hold, hheld, hleast⟩ := exists_oldestKey (b := b.put p) (by omega)
  refine ⟨hnew, by omega, oldest, hold, hheld, hleast, ?_⟩
  have hone := size_erase_add_one hheld
  rw [insert_of_ne ht ha hne, hsize]
  simp only
  rw [evict_of_full hfull hold]
  refine (evict_spec _ _).2.1 ?_
  show size ((b.put p).pending.erase oldest) ≤ b.maxDepth
  omega

theorem ahead_dropOldest_of_late (ha : Ahead b)
    (hlate : p.1 < b.nextExpected) : Ahead ((b.put p).dropOldest p.1) := by
  intro k hk
  obtain ⟨hkne, hk⟩ := (lookup_dropOldest_ne_none _ _ _).mp hk
  rw [lookup_put, if_neg hkne] at hk
  show (if p.1 ≥ b.nextExpected then p.1 + 1 else b.nextExpected) < k
  rw [if_neg (UInt64.not_le.mpr hlate)]
  exact ha k hk

theorem ahead_dropOldest_iff {oldest : UInt64}
    (hbound : oldest.toNat + 1 < 2 ^ 64) (hpast : b.nextExpected ≤ oldest)
    (hleast : ∀ k, b.pending.lookup k ≠ none → oldest ≤ k) :
    Ahead (b.dropOldest oldest) ↔ b.pending.lookup (oldest + 1) = none := by
  have hnext : (b.dropOldest oldest).nextExpected = oldest + 1 := if_pos hpast
  have hsucc := toNat_add_one_of_lt hbound
  constructor
  · intro hahead
    by_contra hheld
    have hne : oldest + 1 ≠ oldest := fun h => by
      have := congrArg UInt64.toNat h
      omega
    have hself := hahead _ ((lookup_dropOldest_ne_none _ _ _).mpr ⟨hne, hheld⟩)
    rw [hnext] at hself
    exact UInt64.lt_irrefl _ hself
  · intro hnone k hk
    obtain ⟨hkne, hk⟩ := (lookup_dropOldest_ne_none _ _ _).mp hk
    have hge := UInt64.le_iff_toNat_le.mp (hleast k hk)
    have hkne' : k.toNat ≠ oldest.toNat := fun h => hkne (UInt64.toNat_inj.mp h)
    have hksucc : k.toNat ≠ (oldest + 1).toNat := fun h => hk (UInt64.toNat_inj.mp h ▸ hnone)
    rw [hnext]
    exact UInt64.lt_iff_toNat_lt.mpr (by omega)

theorem keepsAhead_iff_of_full {oldest : UInt64}
    (hearly : b.nextExpected < p.1) (hnew : b.pending.lookup p.1 = none)
    (hfull : b.maxDepth ≤ size b.pending) (hold : (b.put p).oldestKey = some oldest) :
    b.KeepsAhead p ↔ (b.put p).pending.lookup (oldest + 1) = none := by
  constructor
  · rintro (heq | ⟨-, hheld | hroom | hsucc⟩ | ⟨hlate, -⟩)
    · exact absurd (heq ▸ hearly) (UInt64.lt_irrefl _)
    · exact absurd hnew hheld
    · omega
    · exact hsucc oldest hold
    · exact absurd (UInt64.lt_trans hlate hearly) (UInt64.lt_irrefl _)
  · intro hsucc
    refine .inr (.inl ⟨hearly, .inr (.inr fun k hk => ?_)⟩)
    rw [hold] at hk
    rw [← Option.some.inj hk]
    exact hsucc

theorem ahead_insert_iff (ht : Tidy b) (ha : Ahead b)
    (hp : p.1.toNat + 1 < 2 ^ 64) : Ahead (b.insert p).2 ↔ b.KeepsAhead p := by
  by_cases heq : p.1 = b.nextExpected
  · exact iff_of_true (ahead_insert_expected ht ha hp heq) (.inl heq)
  by_cases hroom : size (b.put p).pending ≤ b.maxDepth
  · rw [insert_of_room ht ha heq hroom, ahead_put_iff p ha, keepsAhead_iff_of_room ha heq hroom]
  obtain ⟨hnew, hfull, oldest, hold, hheld, hleast, hafter⟩ :=
    insert_of_full ht ha heq (Nat.lt_of_not_le hroom)
  rw [hafter]
  by_cases hlate : p.1 < b.nextExpected
  · -- a late packet is itself the smallest and goes at once
    have hdropped : oldest = p.1 := by
      by_contra hother
      have hself : oldest ≤ p.1 := hleast p.1 (by rw [lookup_put, if_pos rfl]; simp)
      rw [lookup_put, if_neg hother] at hheld
      have hpast := UInt64.lt_of_lt_of_le (ha oldest hheld) hself
      exact UInt64.lt_irrefl _ (UInt64.lt_trans hlate hpast)
    rw [hdropped]
    exact iff_of_true (ahead_dropOldest_of_late ha hlate) (.inr (.inr ⟨hlate, hfull⟩))
  · have hearly : b.nextExpected < p.1 :=
      UInt64.lt_of_le_of_ne (UInt64.not_lt.mp hlate) (fun h => heq h.symm)
    have hpast : (b.put p).nextExpected ≤ oldest := by
      rw [lookup_put] at hheld
      split at hheld
      · next hop => rw [hop]; exact UInt64.le_of_lt hearly
      · exact UInt64.le_of_lt (ha oldest hheld)
    rw [ahead_dropOldest_iff (bounded_put ht.bounded hp oldest hheld) hpast hleast,
      keepsAhead_iff_of_full hearly hnew hfull hold]

/-! ### Whole runs -/

/-- The buffer keeps its depth and holds later numbers only. -/
def Disciplined (b : ReorderBuffer Addr) : Prop := size b.pending ≤ b.maxDepth ∧ Ahead b

/-- **The discipline of the buffer** holds iff every packet meets the condition. -/
theorem disciplined_iff {maxDepth : Nat} (hd : 0 < maxDepth) {ps : List (Numbered Addr)}
    (hps : ∀ p ∈ ps, p.1.toNat < 2 ^ 64 - 1) :
    ((releasedAll (new maxDepth) ps).Pairwise (· < ·)
        ∧ ∀ qs, qs <+: ps → Disciplined (qs.foldl (fun b p => (b.insert p).2) (new maxDepth)))
      ↔ StepsMeet (fun b p => (b.insert p).2) KeepsAhead (new maxDepth) ps := by
  have hps' : ∀ p ∈ ps, p.1.toNat + 1 < 2 ^ 64 := fun p hp => by
    have := hps p hp
    omega
  have htidy : Tidy (new maxDepth : ReorderBuffer Addr) := tidy_new (by omega)
  have hstart : Ahead (new maxDepth : ReorderBuffer Addr) :=
    fun k hk => absurd (AList.lookup_empty k) hk
  have hkeeps : ∀ (b : ReorderBuffer Addr) (p : Numbered Addr), Tidy b ∧ Ahead b →
      p.1.toNat + 1 < 2 ^ 64 → KeepsAhead b p → Tidy (b.insert p).2 ∧ Ahead (b.insert p).2 :=
    fun b p h hp hgood => ⟨(tidy_insert h.1 hp).1, (ahead_insert_iff h.1 h.2 hp).mpr hgood⟩
  have hexact : ∀ (b : ReorderBuffer Addr) (p : Numbered Addr), Tidy b ∧ Ahead b →
      p.1.toNat + 1 < 2 ^ 64 → Disciplined (b.insert p).2 → KeepsAhead b p :=
    fun b p h hp hj => (ahead_insert_iff h.1 h.2 hp).mp hj.2
  rw [← forall_prefixes_iff_stepsMeet (fun b h => ⟨h.1.size_le, h.2⟩) hkeeps hexact
    ⟨htidy, hstart⟩ (stepsMeet_of_forall hps')]
  exact and_iff_right (releasedAll_increasing htidy hps').1

theorem disciplined_iff_in_order :
    StepsMeet (fun b p => (b.insert p).2) KeepsAhead (new 2 : ReorderBuffer Unit)
        [(1, [], ()), (2, [], ()), (3, [], ())]
      ∧ (releasedAll (new 2 : ReorderBuffer Unit) [(1, [], ()), (2, [], ()), (3, [], ())]).Pairwise
        (· < ·) := by
  have hmeets : StepsMeet (fun b p => (b.insert p).2) KeepsAhead (new 2 : ReorderBuffer Unit)
      [(1, [], ()), (2, [], ()), (3, [], ())] :=
    ⟨.inl rfl, .inl (by decide), .inl (by decide), trivial⟩
  exact ⟨hmeets, ((disciplined_iff (by decide) (by decide)).mpr hmeets).1⟩

theorem stale_and_deliverable_kept :
    ¬ Disciplined ([(1, [], ()), (1, [], ())].foldl (fun b p => (b.insert p).2)
        (new 2 : ReorderBuffer Unit))
      ∧ ¬ Disciplined ([(3, [], ()), (4, [], ()), (6, [], ())].foldl (fun b p => (b.insert p).2)
        (new 2 : ReorderBuffer Unit)) := by
  refine ⟨fun h => ?_, fun h => ?_⟩
  · exact absurd (h.2 1 (by decide)) (by decide)
  · exact absurd (h.2 4 (by decide)) (by decide)

end ReorderBuffer

end Velocity.Vctp
