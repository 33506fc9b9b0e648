import Mathlib.Data.List.MinMax
import Velocity.Lib.Keyed
import Velocity.Lib.LittleEndian
import Velocity.Lib.Run

namespace Velocity.Vctp

open Lib List

/-!
# The reorder buffer

Packets wait for the numbers before them; beyond `max_depth` the smallest is dropped.
-/

variable {Addr : Type}

abbrev Numbered (Addr : Type) := UInt64 × Bytes × Addr

structure ReorderBuffer (Addr : Type) where
  nextExpected : UInt64
  pending : AList (fun _ : UInt64 => Bytes × Addr)
  maxDepth : Nat

namespace ReorderBuffer

def new (maxDepth : Nat) : ReorderBuffer Addr := ⟨1, ∅, maxDepth⟩

def drain : Nat → ReorderBuffer Addr → List (Bytes × Addr) × ReorderBuffer Addr
  | 0, b => ([], b)
  | n + 1, b =>
    match b.pending.lookup b.nextExpected with
    | none => ([], b)
    | some entry =>
      let r := drain n { b with
        pending := b.pending.erase b.nextExpected
        nextExpected := b.nextExpected + 1 }
      (entry :: r.1, r.2)

variable (b : ReorderBuffer Addr)

def oldestKey : Option UInt64 := b.pending.keys.argmin UInt64.toNat

def evict : Nat → ReorderBuffer Addr → ReorderBuffer Addr
  | 0, b => b
  | n + 1, b =>
    if size b.pending > b.maxDepth then
      match b.oldestKey with
      | some oldest =>
        evict n { b with
          pending := b.pending.erase oldest
          nextExpected := if oldest ≥ b.nextExpected then oldest + 1 else b.nextExpected }
      | none => b
    else b

def accept (p : Numbered Addr) : List (Bytes × Addr) × ReorderBuffer Addr :=
  let b := { b with pending := b.pending.insert p.1 p.2 }
  drain (size b.pending) b

/-- Each turn takes a packet out, so as many as wait are enough. -/
def insert (p : Numbered Addr) : List (Bytes × Addr) × ReorderBuffer Addr :=
  if b.maxDepth = 0 then ([p.2], b)
  else
    let r := b.accept p
    (r.1, evict (size r.2.pending) r.2)

def insertAll : ReorderBuffer Addr → List (Numbered Addr) →
    List (Bytes × Addr) × ReorderBuffer Addr
  | b, [] => ([], b)
  | b, p :: rest => ((b.insert p).1 ++ (insertAll (b.insert p).2 rest).1,
      (insertAll (b.insert p).2 rest).2)

def waiting : List (Numbered Addr) :=
  b.pending.entries.map (fun entry => (entry.1, entry.2))

theorem length_waiting : b.waiting.length = size b.pending := by
  simp [waiting, size]

variable {b}

theorem lookup_of_mem_waiting {p : Numbered Addr} (h : p ∈ b.waiting) :
    b.pending.lookup p.1 = some p.2 := by
  obtain ⟨entry, hmem, rfl⟩ := mem_map.mp h
  exact AList.mem_lookup_iff.mpr hmem

/-! ### The two loops -/

theorem waiting_perm_erase {k : UInt64} {entry : Bytes × Addr}
    (hk : b.pending.lookup k = some entry) (next : UInt64) :
    b.waiting.Perm ((k, entry)
      :: waiting { b with pending := b.pending.erase k, nextExpected := next }) := by
  have := (entries_perm_erase hk).map (fun e => ((e.1, e.2) : Numbered Addr))
  simpa [waiting] using this

theorem add_one_add_ofNat (n : UInt64) (i : Nat) :
    n + 1 + UInt64.ofNat i = n + UInt64.ofNat (i + 1) := by
  rw [UInt64.ofNat_add, UInt64.add_comm (UInt64.ofNat i), UInt64.add_assoc]
  rfl

def pop (b : ReorderBuffer Addr) : ReorderBuffer Addr :=
  { b with pending := b.pending.erase b.nextExpected, nextExpected := b.nextExpected + 1 }

theorem drain_of_none (h : b.pending.lookup b.nextExpected = none)
    (n : Nat) : drain n b = ([], b) := by
  cases n with
  | zero => rfl
  | succ n => simp [drain, h]

theorem drain_of_some {entry : Bytes × Addr}
    (h : b.pending.lookup b.nextExpected = some entry) (n : Nat) :
    drain (n + 1) b = (entry :: (drain n b.pop).1, (drain n b.pop).2) := by
  simp [drain, h, pop]

theorem drain_spec :
    ∀ (n : Nat) (b : ReorderBuffer Addr), size b.pending ≤ n →
      ∃ released : List (Numbered Addr),
        (drain n b).1 = released.map Prod.snd
        ∧ released.map Prod.fst
            = (List.range released.length).map (fun i => b.nextExpected + UInt64.ofNat i)
        ∧ b.waiting.Perm (released ++ (drain n b).2.waiting)
        ∧ (drain n b).2.nextExpected = b.nextExpected + UInt64.ofNat released.length
        ∧ (drain n b).2.maxDepth = b.maxDepth
        ∧ (drain n b).2.pending.lookup (drain n b).2.nextExpected = none := by
  intro n
  induction n with
  | zero =>
    intro b hsize
    have hnone : b.pending.lookup b.nextExpected = none := by
      have hempty : b.pending.entries = [] := length_eq_zero_iff.mp (Nat.le_zero.mp hsize)
      show b.pending.entries.dlookup b.nextExpected = none
      rw [hempty]
      rfl
    exact ⟨[], rfl, rfl, List.Perm.refl _, by simp [drain], rfl, hnone⟩
  | succ n ih =>
    intro b hsize
    cases hl : b.pending.lookup b.nextExpected with
    | none =>
      rw [drain_of_none hl]
      exact ⟨[], rfl, rfl, List.Perm.refl _, by simp, rfl, hl⟩
    | some entry =>
      have hperm := waiting_perm_erase hl (b.nextExpected + 1)
      have hsmaller : size b.pop.pending ≤ n := by
        have := size_erase_add_one (m := b.pending) (k := b.nextExpected) (by simp [hl])
        simp only [pop]
        omega
      obtain ⟨released, hout, hnum, hplaced, hnext, hdepth, hstopped⟩ := ih b.pop hsmaller
      rw [drain_of_some hl]
      refine ⟨(b.nextExpected, entry) :: released, by simp [hout], ?_,
        hperm.trans (hplaced.cons _), ?_, hdepth, hstopped⟩
      · rw [map_cons, hnum, length_cons, range_succ_eq_map, map_cons,
          map_map]
        simp only [Function.comp_def]
        congr 1
        · simp
        · exact map_congr_left (fun i _ => add_one_add_ofNat b.nextExpected i)
      · rw [hnext, length_cons]
        exact add_one_add_ofNat b.nextExpected released.length

theorem exists_oldestKey (h : 0 < size b.pending) :
    ∃ oldest, b.oldestKey = some oldest ∧ b.pending.lookup oldest ≠ none
      ∧ ∀ k, b.pending.lookup k ≠ none → oldest ≤ k := by
  cases hk : b.oldestKey with
  | none =>
    have hnil : b.pending.keys = [] := argmin_eq_none.mp hk
    rw [size_eq_length_keys, hnil] at h
    simp at h
  | some oldest =>
    refine ⟨oldest, rfl, fun hnone => AList.lookup_eq_none.mp hnone (argmin_mem hk), ?_⟩
    intro k hheld
    have hmem : k ∈ b.pending.keys := by
      by_contra hnot
      exact hheld (AList.lookup_eq_none.mpr hnot)
    exact UInt64.le_iff_toNat_le.mpr (le_of_mem_argmin hmem hk)

theorem evict_of_full {oldest : UInt64}
    (hfull : size b.pending > b.maxDepth) (hold : b.oldestKey = some oldest) (n : Nat) :
    evict (n + 1) b = evict n { b with
      pending := b.pending.erase oldest
      nextExpected := if oldest ≥ b.nextExpected then oldest + 1 else b.nextExpected } := by
  rw [evict, if_pos hfull]
  simp only [hold]

theorem evict_spec (b : ReorderBuffer Addr) (n : Nat) :
    size (evict n b).pending ≤ size b.pending
      ∧ (size b.pending ≤ b.maxDepth → evict n b = b)
      ∧ (size b.pending > b.maxDepth → 0 < n → size (evict n b).pending < size b.pending) := by
  induction n generalizing b with
  | zero => exact ⟨Nat.le_refl _, fun _ => rfl, fun _ h => absurd h (by omega)⟩
  | succ n ih =>
    by_cases hfull : size b.pending > b.maxDepth
    · obtain ⟨oldest, hold, hheld, _⟩ := exists_oldestKey (b := b) (by omega)
      have hone := size_erase_add_one hheld
      rw [evict_of_full hfull hold]
      have hrest := (ih { b with
        pending := b.pending.erase oldest
        nextExpected := if oldest ≥ b.nextExpected then oldest + 1 else b.nextExpected }).1
      simp only at hrest
      refine ⟨by omega, fun hroom => absurd hroom (by omega), fun _ _ => by omega⟩
    · rw [evict, if_neg hfull]
      exact ⟨Nat.le_refl _, fun _ => rfl, fun h _ => absurd h hfull⟩

/-! ### One packet -/

/-- The number is free, and all that wait have room. -/
def Clean (b : ReorderBuffer Addr) (p : Numbered Addr) : Prop :=
  b.pending.lookup p.1 = none ∧ size (b.accept p).2.pending ≤ b.maxDepth

theorem accept_spec (b : ReorderBuffer Addr) (p : Numbered Addr) :
    ∃ released : List (Numbered Addr),
      (b.accept p).1 = released.map Prod.snd
      ∧ released.map Prod.fst
          = (List.range released.length).map (fun i => b.nextExpected + UInt64.ofNat i)
      ∧ (waiting { b with pending := b.pending.insert p.1 p.2 }).Perm
          (released ++ (b.accept p).2.waiting)
      ∧ (b.accept p).2.nextExpected = b.nextExpected + UInt64.ofNat released.length
      ∧ (b.accept p).2.maxDepth = b.maxDepth
      ∧ (b.accept p).2.pending.lookup (b.accept p).2.nextExpected = none :=
  drain_spec _ { b with pending := b.pending.insert p.1 p.2 } (Nat.le_refl _)

theorem insert_eq (hd : b.maxDepth ≠ 0) (p : Numbered Addr) :
    b.insert p = ((b.accept p).1, evict (size (b.accept p).2.pending) (b.accept p).2) := by
  rw [insert, if_neg hd]

theorem Clean.insert_eq {p : Numbered Addr} (h : b.Clean p)
    (hd : b.maxDepth ≠ 0) : b.insert p = b.accept p := by
  obtain ⟨_, _, _, _, _, hdepth, _⟩ := b.accept_spec p
  rw [ReorderBuffer.insert_eq hd, (evict_spec (b.accept p).2 _).2.1 (by rw [hdepth]; exact h.2)]

theorem maxDepth_evict (b : ReorderBuffer Addr) (n : Nat) : (evict n b).maxDepth = b.maxDepth := by
  induction n generalizing b with
  | zero => rfl
  | succ n ih =>
    rw [evict]
    split
    · cases b.oldestKey with
      | none => rfl
      | some oldest => exact ih _
    · rfl

@[simp] theorem maxDepth_insert (b : ReorderBuffer Addr) (p : Numbered Addr) :
    (b.insert p).2.maxDepth = b.maxDepth := by
  rw [insert]
  split
  · rfl
  · obtain ⟨_, _, _, _, _, hdepth, _⟩ := b.accept_spec p
    rw [maxDepth_evict, hdepth]

theorem length_insert_le (hd : b.maxDepth ≠ 0) (p : Numbered Addr) :
    (b.insert p).1.length + size (b.insert p).2.pending ≤ size b.pending + 1
      ∧ ((b.insert p).1.length + size (b.insert p).2.pending = size b.pending + 1 → b.Clean p) := by
  obtain ⟨released, hout, _, hperm, _, hdepth, _⟩ := b.accept_spec p
  have hlen := hperm.length_eq
  rw [length_append, length_waiting, length_waiting] at hlen
  have hins : size (b.pending.insert p.1 p.2) ≤ size b.pending + 1
      ∧ (b.pending.lookup p.1 ≠ none → size (b.pending.insert p.1 p.2) = size b.pending) := by
    have hsize := size_eq_lookup_add b.pending p.1
    rw [size_insert]
    cases hl : b.pending.lookup p.1 with
    | none =>
      rw [hl] at hsize
      simp at hsize
      exact ⟨by omega, fun h => absurd rfl h⟩
    | some entry =>
      rw [hl] at hsize
      simp at hsize
      exact ⟨by omega, fun _ => by omega⟩
  obtain ⟨hle, hroom, hdrop⟩ := evict_spec (b.accept p).2 (size (b.accept p).2.pending)
  rw [insert_eq hd, hout, length_map]
  simp only at hlen ⊢
  refine ⟨by omega, fun heq => ⟨?_, ?_⟩⟩
  · by_contra htaken
    have := hins.2 htaken
    omega
  · by_contra hfull
    have := hdrop (by omega) (by omega)
    omega

theorem length_insertAll_le :
    ∀ (ps : List (Numbered Addr)) (b : ReorderBuffer Addr), b.maxDepth ≠ 0 →
      (b.insertAll ps).1.length + size (b.insertAll ps).2.pending ≤ size b.pending + ps.length
        ∧ ((b.insertAll ps).1.length + size (b.insertAll ps).2.pending = size b.pending + ps.length
          → StepsMeet (fun b p => (b.insert p).2) Clean b ps)
  | [], b, _ => ⟨by simp [insertAll], fun _ => trivial⟩
  | p :: ps, b, hd => by
    obtain ⟨hfirst, hclean⟩ := length_insert_le hd p
    obtain ⟨hrest, hrun⟩ := length_insertAll_le ps (b.insert p).2 (by simpa using hd)
    simp only [insertAll, length_append, length_cons]
    exact ⟨by omega, fun heq => ⟨hclean (by omega), hrun (by omega)⟩⟩

end ReorderBuffer

end Velocity.Vctp
