import Velocity.Lib.WordBits

namespace Velocity.Vctp

open Lib List

/-!
# The VCTP replay window

`window_size` is not bounded by 64, and `1 << offset` counts modulo 64.

* `Exact`: the bits say what has been seen, up to a size of 64.
* `accepted_nodup_iff`: which sizes accept no number twice.
-/

structure VctpReplayWindow where
  highestSeq : UInt64
  windowMask : UInt64
  windowSize : UInt64
  deriving DecidableEq, Repr

namespace VctpReplayWindow

def new (windowSize : UInt64) : VctpReplayWindow :=
  { highestSeq := 0, windowMask := 0, windowSize := windowSize }

variable (w : VctpReplayWindow)

def checkAndRecord (seq : UInt64) : Bool × VctpReplayWindow :=
  if seq = 0 ∧ w.highestSeq = 0 ∧ w.windowMask = 0 then
    (true, { w with highestSeq := 0, windowMask := 1 })
  else if seq > w.highestSeq then
    let shift := seq - w.highestSeq
    let mask := if shift ≥ 64 then 1 else (w.windowMask <<< shift) ||| 1
    (true, { w with windowMask := mask, highestSeq := seq })
  else
    let offset := w.highestSeq - seq
    if offset ≥ w.windowSize then (false, w)
    else if w.windowMask &&& (1 <<< offset) ≠ 0 then (false, w)
    else (true, { w with windowMask := w.windowMask ||| (1 <<< offset) })

def accepted (w : VctpReplayWindow) : List UInt64 → List UInt64
  | [] => []
  | seq :: rest =>
    let r := w.checkAndRecord seq
    if r.1 then seq :: r.2.accepted rest else r.2.accepted rest

def bit (i : Nat) : Bool := w.windowMask.toBitVec.getLsbD i

@[simp] theorem accepted_nil : w.accepted [] = [] := rfl

@[simp] theorem accepted_cons (seq : UInt64) (rest : List UInt64) : w.accepted (seq :: rest)
      = if (w.checkAndRecord seq).1 then seq :: (w.checkAndRecord seq).2.accepted rest
        else (w.checkAndRecord seq).2.accepted rest := rfl

/-! ### Three ways in -/

variable {w} {w' : VctpReplayWindow} {seq : UInt64}

theorem checkAndRecord_true (h : w.checkAndRecord seq = (true, w')) :
    (seq = 0 ∧ w.highestSeq = 0 ∧ w.windowMask = 0 ∧ w' = { w with windowMask := 1 })
    ∨ (w.highestSeq < seq
        ∧ w' = { w with
            windowMask := if seq - w.highestSeq ≥ 64 then 1
              else (w.windowMask <<< (seq - w.highestSeq)) ||| 1
            highestSeq := seq })
    ∨ (seq ≤ w.highestSeq ∧ w.highestSeq - seq < w.windowSize
        ∧ w.windowMask &&& (1 <<< (w.highestSeq - seq)) = 0
        ∧ w' = { w with windowMask := w.windowMask ||| (1 <<< (w.highestSeq - seq)) }) := by
  unfold checkAndRecord at h
  split at h
  · next hfirst =>
    obtain ⟨hseq, hhigh, hmask⟩ := hfirst
    refine .inl ⟨hseq, hhigh, hmask, ?_⟩
    simp only [Prod.mk.injEq, true_and] at h
    rw [← h, hhigh]
  · split at h
    · next hhigher => exact .inr (.inl ⟨hhigher, by simpa using h.symm⟩)
    · next hhigher =>
      simp only at h
      split at h
      · simp at h
      · next hsize =>
        split at h
        · simp at h
        · next hbit =>
          refine .inr (.inr ⟨UInt64.not_lt.mp hhigher, UInt64.not_le.mp hsize, ?_, ?_⟩)
          · simpa using hbit
          · simpa using h.symm

theorem checkAndRecord_false (h : w.checkAndRecord seq = (false, w')) : w' = w := by
  unfold checkAndRecord at h
  split at h
  · simp at h
  · split at h
    · simp at h
    · simp only at h
      split at h
      · simpa using h.symm
      · split at h
        · simpa using h.symm
        · simp at h

theorem checkAndRecord_windowSize (w : VctpReplayWindow) (seq : UInt64) :
    (w.checkAndRecord seq).2.windowSize = w.windowSize := by
  rcases hr : w.checkAndRecord seq with ⟨ok, w'⟩
  cases ok with
  | false => rw [checkAndRecord_false hr]
  | true =>
    rcases checkAndRecord_true hr with ⟨_, _, _, rfl⟩ | ⟨_, rfl⟩ | ⟨_, _, _, rfl⟩ <;> rfl

/-! ### What the mask knows -/

/-- Accepted numbers are not above the highest, and have their bit. -/
structure Covers (w : VctpReplayWindow) (seen : List UInt64) : Prop where
  le_highest : ∀ s ∈ seen, s.toNat ≤ w.highestSeq.toNat
  bit_set : ∀ s ∈ seen, w.highestSeq.toNat - s.toNat < 64 →
    w.bit (w.highestSeq.toNat - s.toNat) = true
  highest_set : (w.highestSeq = 0 ∧ w.windowMask = 0 ∧ seen = []) ∨ w.bit 0 = true

theorem covers_new (windowSize : UInt64) : Covers (new windowSize) [] where
  le_highest := by simp
  bit_set := by simp
  highest_set := .inl ⟨rfl, rfl, rfl⟩

theorem mask_test (w : VctpReplayWindow) (offset : UInt64) :
    w.windowMask &&& (1 <<< offset) = 0 ↔ w.bit (offset.toNat % 64) = false := by
  have htest := and_one_shift_ne_zero (Nat.mod_lt offset.toNat (by decide : 0 < 64)) w.windowMask
  rw [one_shift_mod, bit, ← htest, bne_eq_false_iff_eq]

theorem bit_moved (w : VctpReplayWindow) (i : Nat) (hi : i < 64) :
    bit { w with
        windowMask := if seq - w.highestSeq ≥ 64 then 1
          else (w.windowMask <<< (seq - w.highestSeq)) ||| 1
        highestSeq := seq } i
      = (decide (i = 0) || (decide ((seq - w.highestSeq).toNat ≤ i)
          && w.bit (i - (seq - w.highestSeq).toNat))) := by
  have hone : ∀ j, (1 : UInt64).toBitVec.getLsbD j = decide (j = 0) := by
    intro j
    rw [UInt64.toBitVec_one, BitVec.getLsbD_one]
    simp
  unfold bit
  by_cases hfar : seq - w.highestSeq ≥ 64
  · have hge : ¬ (seq - w.highestSeq).toNat ≤ i := by
      have : 64 ≤ (seq - w.highestSeq).toNat := UInt64.le_iff_toNat_le.mp hfar
      omega
    simp only [if_pos hfar, hone, decide_eq_false hge, Bool.false_and, Bool.or_false]
  · have hlt : (seq - w.highestSeq).toNat < 64 := by
      have := UInt64.lt_iff_toNat_lt.mp (UInt64.not_le.mp hfar)
      exact this
    have hle : (!decide (i < (seq - w.highestSeq).toNat))
        = decide ((seq - w.highestSeq).toNat ≤ i) := by
      by_cases h : i < (seq - w.highestSeq).toNat
      · simp [h]
      · simp [h, Nat.le_of_not_lt h]
    simp only [if_neg hfar, UInt64.toBitVec_or, BitVec.getLsbD_or, hone, getLsbD_shiftLeft hlt,
      decide_eq_true hi, Bool.true_and, hle]
    rw [Bool.or_comm]

variable {seen : List UInt64}

theorem Covers.not_mem_late
    (hc : Covers w seen) (hsize : w.windowSize.toNat ≤ 65) (hle : seq ≤ w.highestSeq)
    (hwin : w.highestSeq - seq < w.windowSize)
    (hbit : w.windowMask &&& (1 <<< (w.highestSeq - seq)) = 0) :
    seq ∉ seen ∧ w.highestSeq.toNat - seq.toNat < 64 := by
  have hsub := UInt64.toNat_sub_of_le _ _ hle
  have hoff : (w.highestSeq - seq).toNat < w.windowSize.toNat := UInt64.lt_iff_toNat_lt.mp hwin
  have hclear := (w.mask_test _).mp hbit
  rw [hsub] at hclear hoff
  have hlt : w.highestSeq.toNat - seq.toNat < 64 := by
    by_contra hge
    -- past the mask, bit 0 is tested
    have h64 : w.highestSeq.toNat - seq.toNat = 64 := by omega
    rw [h64] at hclear
    rcases hc.highest_set with ⟨hzero, _, _⟩ | hset
    · rw [hzero] at h64
      simp at h64
    · simp [hset] at hclear
  refine ⟨fun hmem => ?_, hlt⟩
  rw [Nat.mod_eq_of_lt hlt, hc.bit_set seq hmem hlt] at hclear
  exact Bool.noConfusion hclear

theorem Covers.first (hc : Covers w seen) (hhigh : w.highestSeq = 0) (hmask : w.windowMask = 0) :
    0 ∉ seen ∧ Covers { w with windowMask := 1 } (0 :: seen) := by
  have hnil : seen = [] := by
    rcases hc.highest_set with ⟨_, _, hnil⟩ | hset
    · exact hnil
    · simp [bit, hmask] at hset
  subst hnil
  refine ⟨by simp, ⟨by simp, ?_, .inr (by simp [bit])⟩⟩
  intro s hs _
  obtain rfl : s = 0 := by simpa using hs
  simp [bit, hhigh]

theorem Covers.moved (hc : Covers w seen) (hhigher : seq > w.highestSeq) :
    seq ∉ seen ∧ Covers { w with
      windowMask := if seq - w.highestSeq ≥ 64 then 1
        else (w.windowMask <<< (seq - w.highestSeq)) ||| 1
      highestSeq := seq } (seq :: seen) := by
  have hlt : w.highestSeq.toNat < seq.toNat := UInt64.lt_iff_toNat_lt.mp hhigher
  have hsub : (seq - w.highestSeq).toNat = seq.toNat - w.highestSeq.toNat :=
    UInt64.toNat_sub_of_le _ _ (UInt64.le_of_lt hhigher)
  refine ⟨fun hmem => absurd (hc.le_highest seq hmem) (Nat.not_le.mpr hlt), ⟨?_, ?_, .inr ?_⟩⟩
  · intro s hs
    rcases mem_cons.mp hs with rfl | hs
    · exact Nat.le_refl _
    · exact Nat.le_trans (hc.le_highest s hs) (Nat.le_of_lt hlt)
  · intro s hs hnear
    simp only at hnear ⊢
    rw [bit_moved w _ hnear, hsub]
    rcases mem_cons.mp hs with rfl | hs
    · simp
    · have hs' := hc.le_highest s hs
      have hpos : seq.toNat - w.highestSeq.toNat ≤ seq.toNat - s.toNat := by omega
      have hback : seq.toNat - s.toNat - (seq.toNat - w.highestSeq.toNat)
          = w.highestSeq.toNat - s.toNat := by omega
      rw [hback, hc.bit_set s hs (by omega), decide_eq_true hpos]
      simp
  · rw [bit_moved w 0 (by decide)]
    simp

theorem Covers.late (hc : Covers w seen) (hle : seq ≤ w.highestSeq)
    (hlt : w.highestSeq.toNat - seq.toNat < 64) :
    Covers { w with windowMask := w.windowMask ||| (1 <<< (w.highestSeq - seq)) }
      (seq :: seen) := by
  have hsub := UInt64.toNat_sub_of_le _ _ hle
  have hset : ∀ i, bit { w with
      windowMask := w.windowMask ||| (1 <<< (w.highestSeq - seq)) } i
        = (w.bit i || decide (i = w.highestSeq.toNat - seq.toNat)) := by
    intro i
    rw [bit, one_shift_mod, hsub, Nat.mod_eq_of_lt hlt, getLsbD_or_one_shift hlt, bit]
  refine ⟨?_, ?_, .inr ?_⟩
  · intro s hs
    rcases mem_cons.mp hs with rfl | hs
    · exact UInt64.le_iff_toNat_le.mp hle
    · exact hc.le_highest s hs
  · intro s hs hnear
    rw [hset]
    rcases mem_cons.mp hs with rfl | hs
    · simp
    · simp [hc.bit_set s hs hnear]
  · rw [hset]
    rcases hc.highest_set with ⟨hzero, _, _⟩ | hbit0
    · simp [hzero]
    · simp [hbit0]

theorem Covers.checkAndRecord (hc : Covers w seen) (hsize : w.windowSize.toNat ≤ 65)
    (h : w.checkAndRecord seq = (true, w')) : seq ∉ seen ∧ Covers w' (seq :: seen) := by
  rcases checkAndRecord_true h with ⟨rfl, hhigh, hmask, rfl⟩ | ⟨hhigher, rfl⟩ | ⟨hle, hwin, hbit, rfl⟩
  · exact hc.first hhigh hmask
  · exact hc.moved hhigher
  · obtain ⟨hfresh, hlt⟩ := hc.not_mem_late hsize hle hwin hbit
    exact ⟨hfresh, hc.late hle hlt⟩

/-! ### Whole runs -/

theorem Covers.accepted_nodup {seqs : List UInt64} :
    ∀ {w : VctpReplayWindow} {seen : List UInt64}, Covers w seen → w.windowSize.toNat ≤ 65 →
      (w.accepted seqs).Nodup ∧ ∀ s ∈ w.accepted seqs, s ∉ seen := by
  induction seqs with
  | nil => intro w seen _ _; simp
  | cons seq rest ih =>
    intro w seen hc hsize
    have hsize' : (w.checkAndRecord seq).2.windowSize.toNat ≤ 65 := by
      rw [checkAndRecord_windowSize]; exact hsize
    rw [accepted_cons]
    rcases hr : w.checkAndRecord seq with ⟨ok, w'⟩
    rw [hr] at hsize'
    cases ok with
    | false =>
      rw [checkAndRecord_false hr]
      simpa using ih hc hsize
    | true =>
      obtain ⟨hfresh, hc'⟩ := hc.checkAndRecord hsize hr
      obtain ⟨hnodup, hnew⟩ := ih hc' hsize'
      simp only [if_true]
      refine ⟨nodup_cons.mpr ⟨fun hmem => hnew seq hmem mem_cons_self, hnodup⟩, ?_⟩
      intro s hs hseen
      rcases mem_cons.mp hs with rfl | hs
      · exact hfresh hseen
      · exact hnew s hs (mem_cons_of_mem _ hseen)

theorem accepted_again {windowSize : UInt64} (h : 65 < windowSize) :
    (new windowSize).accepted [1, 66, 1] = [1, 66, 1] := by
  have hin : ¬ (windowSize ≤ 65) := UInt64.not_le.mpr h
  have hthird : ({ highestSeq := 66, windowMask := 1, windowSize := windowSize } :
      VctpReplayWindow).checkAndRecord 1
        = (true, { highestSeq := 66, windowMask := 3, windowSize := windowSize }) := by
    have hclear : (1 : UInt64) &&& (1 <<< (65 : UInt64)) = 0 := by decide
    have hset : (1 : UInt64) ||| (1 <<< (65 : UInt64)) = 3 := by decide
    simp [VctpReplayWindow.checkAndRecord, hin, hclear, hset]
  have hsecond : ({ highestSeq := 1, windowMask := 1, windowSize := windowSize } :
      VctpReplayWindow).checkAndRecord 66
        = (true, { highestSeq := 66, windowMask := 1, windowSize := windowSize }) := by
    simp [VctpReplayWindow.checkAndRecord]
  have hfirst : (new windowSize).checkAndRecord 1
      = (true, { highestSeq := 1, windowMask := 1, windowSize := windowSize }) := by
    simp [VctpReplayWindow.checkAndRecord, new]
  simp only [accepted_cons, accepted_nil, hfirst, hsecond, hthird, if_true]

/-- **Replay protection** holds exactly for windows of at most 65 numbers. -/
theorem accepted_nodup_iff (windowSize : UInt64) :
    (∀ seqs, ((new windowSize).accepted seqs).Nodup) ↔ windowSize ≤ 65 := by
  constructor
  · intro hall
    by_contra hbig
    have h := hall [1, 66, 1]
    rw [accepted_again (UInt64.not_le.mp hbig)] at h
    exact absurd h (by decide)
  · intro hsmall seqs
    exact ((covers_new windowSize).accepted_nodup (UInt64.le_iff_toNat_le.mp hsmall)).1

theorem accepted_twice_128 : (new 128).accepted [10, 100, 10] = [10, 100, 10] := by decide

/-! ### What exactly is accepted -/

def recordAll (w : VctpReplayWindow) (seqs : List UInt64) : VctpReplayWindow :=
  seqs.foldl (fun w seq => (w.checkAndRecord seq).2) w

theorem recordAll_windowSize (seqs : List UInt64) (w : VctpReplayWindow) :
    (w.recordAll seqs).windowSize = w.windowSize := by
  induction seqs generalizing w with
  | nil => rfl
  | cons seq rest ih => exact (ih _).trans (w.checkAndRecord_windowSize seq)

/-- Also, every bit stands for an accepted number. -/
structure Exact (w : VctpReplayWindow) (seen : List UInt64) : Prop extends Covers w seen where
  seen_of_bit : ∀ i, i < 64 → w.bit i = true → ∃ s ∈ seen, s.toNat + i = w.highestSeq.toNat
  highest_mem : seen = [] ∨ w.highestSeq ∈ seen

theorem exact_new (windowSize : UInt64) : Exact (new windowSize) [] where
  toCovers := covers_new windowSize
  seen_of_bit := fun i _ hbit => by simp [bit, new] at hbit
  highest_mem := .inl rfl

theorem Exact.fresh_iff (he : Exact w seen) : seen = [] ↔ w.highestSeq = 0 ∧ w.windowMask = 0 := by
  constructor
  · rintro rfl
    rcases he.highest_set with ⟨hhigh, hmask, _⟩ | hbit
    · exact ⟨hhigh, hmask⟩
    · obtain ⟨s, hs, _⟩ := he.seen_of_bit 0 (by decide) hbit
      exact absurd hs (by simp)
  · rintro ⟨_, hmask⟩
    rcases he.highest_set with ⟨_, _, hnil⟩ | hbit
    · exact hnil
    · simp [bit, hmask] at hbit

theorem Exact.accept (he : Exact w seen) (hsize : w.windowSize.toNat ≤ 64)
    (h : w.checkAndRecord seq = (true, w')) : Exact w' (seq :: seen) := by
  have hcovers := (he.toCovers.checkAndRecord (by omega) h).2
  refine ⟨hcovers, ?_, ?_⟩
  · intro i hi hbit
    -- first, beyond the window, or inside it
    rcases checkAndRecord_true h with ⟨rfl, hhigh, _, rfl⟩ | ⟨hhigher, rfl⟩ | ⟨hle, hwin, _, rfl⟩
    · have hzero : i = 0 := by
        rw [bit, UInt64.toBitVec_one, BitVec.getLsbD_one] at hbit
        simpa using hbit
      exact ⟨0, mem_cons_self, by rw [hzero, hhigh]; rfl⟩
    · have hsub := UInt64.toNat_sub_of_le _ _ (UInt64.le_of_lt hhigher)
      have hlt := UInt64.lt_iff_toNat_lt.mp hhigher
      rw [bit_moved w i hi, Bool.or_eq_true, Bool.and_eq_true, decide_eq_true_iff,
        decide_eq_true_iff] at hbit
      rcases hbit with rfl | ⟨hfar, hold⟩
      · exact ⟨seq, mem_cons_self, rfl⟩
      · obtain ⟨s, hs, hsum⟩ := he.seen_of_bit _ (by omega) hold
        exact ⟨s, mem_cons_of_mem _ hs, by simp only; omega⟩
    · have hsub := UInt64.toNat_sub_of_le _ _ hle
      have hoff := UInt64.lt_iff_toNat_lt.mp hwin
      have hle' := UInt64.le_iff_toNat_le.mp hle
      have hlt : (w.highestSeq - seq).toNat < 64 := by omega
      rw [bit, one_shift_mod, Nat.mod_eq_of_lt hlt, getLsbD_or_one_shift hlt, Bool.or_eq_true,
        decide_eq_true_iff] at hbit
      rcases hbit with hold | rfl
      · obtain ⟨s, hs, hsum⟩ := he.seen_of_bit i hi hold
        exact ⟨s, mem_cons_of_mem _ hs, hsum⟩
      · exact ⟨seq, mem_cons_self, by simp only; omega⟩
  · refine .inr ?_
    rcases checkAndRecord_true h with ⟨rfl, hhigh, _, rfl⟩ | ⟨_, rfl⟩ | ⟨hle, _, _, rfl⟩
    · rw [hhigh]
      exact mem_cons_self
    · exact mem_cons_self
    · rcases he.highest_mem with rfl | hmem
      · obtain ⟨hhigh, _⟩ := he.fresh_iff.mp rfl
        have hseq : seq = 0 := by
          rw [hhigh] at hle
          exact UInt64.le_zero_iff.mp hle
        rw [hseq, hhigh]
        exact mem_cons_self
      · exact mem_cons_of_mem _ hmem

theorem Exact.recordAll {seqs : List UInt64} :
    ∀ {w : VctpReplayWindow} {seen : List UInt64}, Exact w seen → w.windowSize.toNat ≤ 64 →
      Exact (w.recordAll seqs) ((w.accepted seqs).reverse ++ seen) := by
  induction seqs with
  | nil => exact fun he _ => he
  | cons seq rest ih =>
    intro w seen he hsize
    have hsize' : (w.checkAndRecord seq).2.windowSize.toNat ≤ 64 := by
      rw [checkAndRecord_windowSize]
      exact hsize
    rw [accepted_cons]
    show Exact ((w.checkAndRecord seq).2.recordAll rest) _
    rcases hr : w.checkAndRecord seq with ⟨ok, w'⟩
    rw [hr] at hsize'
    cases ok with
    | false =>
      rw [checkAndRecord_false hr]
      exact ih he hsize
    | true =>
      have hnext := ih (he.accept hsize hr) hsize'
      simpa using hnext

theorem Exact.accepts_iff (he : Exact w seen) (hsize : w.windowSize.toNat ≤ 64) (seq : UInt64) :
    (w.checkAndRecord seq).1 = true
      ↔ seq ∉ seen ∧ (seen = [] ∨ w.highestSeq < seq ∨ w.highestSeq - seq < w.windowSize) := by
  constructor
  · intro hok
    have hr : w.checkAndRecord seq = (true, (w.checkAndRecord seq).2) := by rw [← hok]
    refine ⟨(he.toCovers.checkAndRecord (by omega) hr).1, ?_⟩
    rcases checkAndRecord_true hr with ⟨_, hhigh, hmask, _⟩ | ⟨hhigher, _⟩ | ⟨_, hwin, _, _⟩
    · exact .inl (he.fresh_iff.mpr ⟨hhigh, hmask⟩)
    · exact .inr (.inl hhigher)
    · exact .inr (.inr hwin)
  · rintro ⟨hfresh, hwhere⟩
    unfold checkAndRecord
    by_cases hfirst : seq = 0 ∧ w.highestSeq = 0 ∧ w.windowMask = 0
    · rw [if_pos hfirst]
    rw [if_neg hfirst]
    by_cases hhigher : seq > w.highestSeq
    · rw [if_pos hhigher]
    rw [if_neg hhigher]
    have hle : seq ≤ w.highestSeq := UInt64.not_lt.mp hhigher
    -- within the window, with its bit clear
    have hwin : w.highestSeq - seq < w.windowSize := by
      rcases hwhere with hnil | habove | hwin
      · obtain ⟨hhigh, hmask⟩ := he.fresh_iff.mp hnil
        rw [hhigh] at hle
        exact absurd ⟨UInt64.le_zero_iff.mp hle, hhigh, hmask⟩ hfirst
      · exact absurd habove hhigher
      · exact hwin
    have hoff := UInt64.lt_iff_toNat_lt.mp hwin
    have hsub := UInt64.toNat_sub_of_le _ _ hle
    have hle' := UInt64.le_iff_toNat_le.mp hle
    have hclear : w.windowMask &&& (1 <<< (w.highestSeq - seq)) = 0 := by
      rw [mask_test, Nat.mod_eq_of_lt (by omega)]
      cases hbit : w.bit (w.highestSeq - seq).toNat with
      | false => rfl
      | true =>
        obtain ⟨s, hs, hsum⟩ := he.seen_of_bit _ (by omega) hbit
        have hseq : s = seq := UInt64.toNat_inj.mp (by omega)
        exact absurd (hseq ▸ hs) hfresh
    simp only [if_neg (UInt64.not_le.mpr hwin), hclear, ne_eq, not_true_eq_false, if_false]

/-- **The replay window is exact** up to a size of 64. -/
theorem checkAndRecord_iff (windowSize : UInt64) (hsize : windowSize ≤ 64) (seqs : List UInt64)
    (seq : UInt64) :
    (((new windowSize).recordAll seqs).checkAndRecord seq).1 = true
      ↔ seq ∉ (new windowSize).accepted seqs
        ∧ ((new windowSize).accepted seqs = []
          ∨ ∃ highest ∈ (new windowSize).accepted seqs,
              (∀ s ∈ (new windowSize).accepted seqs, s ≤ highest)
              ∧ (highest < seq ∨ highest - seq < windowSize)) := by
  have hsize' : (new windowSize).windowSize.toNat ≤ 64 := UInt64.le_iff_toNat_le.mp hsize
  have he : Exact ((new windowSize).recordAll seqs)
      (((new windowSize).accepted seqs).reverse ++ []) := (exact_new windowSize).recordAll hsize'
  have hkept : ((new windowSize).recordAll seqs).windowSize = windowSize := recordAll_windowSize _ _
  rw [he.accepts_iff (by rw [hkept]; exact hsize') seq, hkept]
  have hmem : ∀ s, s ∈ ((new windowSize).accepted seqs).reverse ++ []
      ↔ s ∈ (new windowSize).accepted seqs := by simp
  have hnil : ((new windowSize).accepted seqs).reverse ++ [] = []
      ↔ (new windowSize).accepted seqs = [] := by simp
  have hbound : ∀ s ∈ (new windowSize).accepted seqs, s ≤ ((new windowSize).recordAll seqs).highestSeq :=
    fun s hs => UInt64.le_iff_toNat_le.mpr (he.le_highest s ((hmem s).mpr hs))
  rw [hmem, hnil]
  refine and_congr_right (fun _ => ⟨?_, ?_⟩)
  · rintro (hempty | hwhere)
    · exact .inl hempty
    · rcases he.highest_mem with hempty | hhighest
      · exact .inl (hnil.mp hempty)
      · exact .inr ⟨_, (hmem _).mp hhighest, hbound, hwhere⟩
  · rintro (hempty | ⟨highest, hin, hmax, hwhere⟩)
    · exact .inl hempty
    · rcases he.highest_mem with hempty | hhighest
      · exact .inl (hnil.mp hempty)
      · have hsame : highest = ((new windowSize).recordAll seqs).highestSeq :=
          UInt64.le_antisymm (hbound highest hin) (hmax _ ((hmem _).mp hhighest))
        exact .inr (hsame ▸ hwhere)

theorem checkAndRecord_iff_window_64 :
    ((new 64).accepted [0, 70, 7] = [0, 70, 7])
      ∧ (((new 64).recordAll [0, 70, 7]).checkAndRecord 6).1 = false
      ∧ (((new 64).recordAll [0, 70, 7]).checkAndRecord 8).1 = true := by
  have haccepted : (new 64).accepted [0, 70, 7] = [0, 70, 7] := by decide
  refine ⟨haccepted, ?_, (checkAndRecord_iff 64 (by decide) [0, 70, 7] 8).mpr ?_⟩
  · rw [← Bool.not_eq_true, checkAndRecord_iff 64 (by decide), haccepted]
    rintro ⟨-, hnil | ⟨highest, hin, hmax, hwhere⟩⟩
    · cases hnil
    · -- only 70 is the highest of the three
      have h70 := hmax 70 (by simp)
      simp only [mem_cons, not_mem_nil, or_false] at hin
      rcases hin with rfl | rfl | rfl
      · exact absurd h70 (by decide)
      · exact absurd hwhere (by decide)
      · exact absurd h70 (by decide)
  · rw [haccepted]
    exact ⟨by simp, .inr ⟨70, by simp, by simp, by decide⟩⟩

end VctpReplayWindow

end Velocity.Vctp
