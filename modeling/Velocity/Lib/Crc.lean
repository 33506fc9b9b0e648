import Mathlib.Logic.Function.Iterate
import Velocity.Lib.LittleEndian

namespace Velocity.Lib.Crc

/-!
# Reflected cyclic redundancy checks

A CRC whose polynomial `p`, of any width, is written with the low bit first.
-/

variable {w : Nat}

def shift (p c : BitVec w) : BitVec w :=
  if c.getLsbD 0 then (c >>> 1) ^^^ p else c >>> 1

def shifts (p : BitVec w) (n : Nat) (c : BitVec w) : BitVec w := (shift p)^[n] c

def feed (p c : BitVec w) (b : UInt8) : BitVec w := shifts p 8 (c ^^^ b.toBitVec.setWidth w)

def register (p c : BitVec w) (data : Bytes) : BitVec w := data.foldl (feed p) c

theorem shifts_succ (p : BitVec w) (n : Nat) (c : BitVec w) :
    shifts p (n + 1) c = shifts p n (shift p c) := rfl

variable (p c : BitVec w) (b : UInt8)

@[simp] theorem register_cons (data : Bytes) :
    register p c (b :: data) = register p (feed p c b) data := rfl

theorem register_append (xs ys : Bytes) :
    register p c (xs ++ ys) = register p (register p c xs) ys := List.foldl_append

/-! ### Linearity -/

private theorem xor_cancel (a b p : BitVec w) : a ^^^ b = (a ^^^ p) ^^^ (b ^^^ p) := by
  rw [BitVec.xor_assoc, BitVec.xor_comm b p, ← BitVec.xor_assoc p, BitVec.xor_self,
    BitVec.zero_xor]

theorem shift_xor (p a b : BitVec w) : shift p (a ^^^ b) = shift p a ^^^ shift p b := by
  unfold shift
  rw [BitVec.getLsbD_xor, BitVec.ushiftRight_xor_distrib]
  -- `p` is added once per low bit
  cases a.getLsbD 0 <;> cases b.getLsbD 0
  · rfl
  · exact BitVec.xor_assoc _ _ _
  · show (a >>> 1 ^^^ b >>> 1) ^^^ p = (a >>> 1 ^^^ p) ^^^ b >>> 1
    rw [BitVec.xor_assoc, BitVec.xor_comm (b >>> 1), BitVec.xor_assoc]
  · exact xor_cancel _ _ p

theorem shifts_xor (p : BitVec w) (n : Nat) (a b : BitVec w) :
    shifts p n (a ^^^ b) = shifts p n a ^^^ shifts p n b := by
  induction n generalizing a b with
  | zero => rfl
  | succ n ih => rw [shifts_succ, shift_xor, ih, shifts_succ, shifts_succ]

theorem feed_xor (p c d : BitVec w) (x y : UInt8) :
    feed p (c ^^^ d) (x ^^^ y) = feed p c x ^^^ feed p d y := by
  have hbytes : (x ^^^ y).toBitVec.setWidth w = x.toBitVec.setWidth w ^^^ y.toBitVec.setWidth w := by
    rw [UInt8.toBitVec_xor, BitVec.setWidth_xor]
  unfold feed
  rw [← shifts_xor, hbytes]
  congr 1
  ac_rfl

/-- **Linearity** in the string. -/
theorem register_xor (p : BitVec w) :
    ∀ {xs ys : Bytes} (c d : BitVec w), xs.length = ys.length →
      register p (c ^^^ d) (List.zipWith (· ^^^ ·) xs ys) = register p c xs ^^^ register p d ys
  | [], [], _, _, _ => rfl
  | x :: xs, y :: ys, c, d, hlen => by
    rw [List.zipWith_cons_cons, register_cons, feed_xor, register_cons, register_cons]
    exact register_xor p _ _ (Nat.succ.inj hlen)

/-! ### A byte at a time -/

theorem shifts_of_low_clear (p : BitVec w) :
    ∀ (n : Nat) {c : BitVec w}, (∀ i, i < n → c.getLsbD i = false) → shifts p n c = c >>> n
  | 0, _, _ => rfl
  | n + 1, c, hlow => by
    -- a zero falls out, so nothing is added
    have hshift : shift p c = c >>> 1 := by
      rw [shift, hlow 0 (by omega)]
      rfl
    have hlater : ∀ i, i < n → (c >>> 1).getLsbD i = false := by
      intro i hi
      rw [BitVec.getLsbD_ushiftRight]
      exact hlow (1 + i) (by omega)
    rw [shifts_succ, hshift, shifts_of_low_clear p n hlater, ← BitVec.shiftRight_add, Nat.add_comm]

theorem getLsbD_lowByte (i : Nat) :
    (BitVec.ofNat w 255).getLsbD i = (decide (i < w) && decide (i < 8)) := by
  rw [BitVec.getLsbD_ofNat, show 255 = 2 ^ 8 - 1 from rfl, Nat.testBit_two_pow_sub_one]

theorem setWidth_byte_shiftRight : b.toBitVec.setWidth w >>> 8 = 0#w := by
  apply BitVec.eq_of_getLsbD_eq
  intro i _
  rw [BitVec.getLsbD_ushiftRight, BitVec.getLsbD_setWidth, BitVec.getLsbD_of_ge _ _ (by omega),
    Bool.and_false, BitVec.getLsbD_zero]

/-- **The table.** Eight shifts are those of the low byte. -/
theorem shifts_eight : shifts p 8 c = shifts p 8 (c &&& BitVec.ofNat w 255) ^^^ (c >>> 8) := by
  -- the low byte, and a rest that only moves down
  have hsplit : c = (c &&& BitVec.ofNat w 255) ^^^ (c &&& ~~~BitVec.ofNat w 255) := by
    apply BitVec.eq_of_getLsbD_eq
    intro i hi
    simp only [BitVec.getLsbD_xor, BitVec.getLsbD_and, BitVec.getLsbD_not, hi, decide_true,
      Bool.true_and]
    cases c.getLsbD i <;> cases (BitVec.ofNat w 255).getLsbD i <;> rfl
  have hclear : ∀ i, i < 8 → (c &&& ~~~BitVec.ofNat w 255).getLsbD i = false := by
    intro i hi
    rw [BitVec.getLsbD_and, BitVec.getLsbD_not, getLsbD_lowByte]
    simp [hi]
  have hrest : (c &&& ~~~BitVec.ofNat w 255) >>> 8 = c >>> 8 := by
    apply BitVec.eq_of_getLsbD_eq
    intro i _
    rw [BitVec.getLsbD_ushiftRight, BitVec.getLsbD_ushiftRight, BitVec.getLsbD_and,
      BitVec.getLsbD_not, getLsbD_lowByte]
    by_cases h : 8 + i < w
    · simp [h]
    · simp [BitVec.getLsbD_of_ge c (8 + i) (by omega)]
  conv => lhs; rw [hsplit]
  rw [shifts_xor, shifts_of_low_clear p 8 hclear, hrest]

theorem feed_eq_table : feed p c b
      = shifts p 8 ((c ^^^ b.toBitVec.setWidth w) &&& BitVec.ofNat w 255) ^^^ (c >>> 8) := by
  rw [feed, shifts_eight, BitVec.ushiftRight_xor_distrib, setWidth_byte_shiftRight,
    BitVec.xor_zero]

/-! ### Bursts

A polynomial whose top bit is set loses nothing: the register before a shift can be read off the
one after it.  So two strings that end in the same register and differ in a window only differ
nowhere, if the window is no wider than the register. -/

def leWord (w : Nat) (bs : Bytes) : BitVec w := BitVec.ofNat w (leNat bs)

theorem leWord_inj {xs ys : Bytes} (hlen : xs.length = ys.length) (hfit : 8 * xs.length ≤ w)
    (h : leWord w xs = leWord w ys) : xs = ys := by
  have hbound : ∀ bs : Bytes, bs.length = xs.length → leNat bs < 2 ^ w := by
    intro bs hbs
    calc leNat bs < 256 ^ bs.length := leNat_lt bs
      _ = 2 ^ (8 * xs.length) := by rw [hbs, Nat.pow_mul]
      _ ≤ 2 ^ w := Nat.pow_le_pow_right (by decide) hfit
  have hnat : leNat xs = leNat ys := by
    have htoNat := congrArg BitVec.toNat h
    rwa [leWord, leWord, BitVec.toNat_ofNat, BitVec.toNat_ofNat, Nat.mod_eq_of_lt (hbound xs rfl),
      Nat.mod_eq_of_lt (hbound ys hlen.symm)] at htoNat
  rw [← leBytes_leNat xs, ← leBytes_leNat ys, hlen, hnat]

theorem leWord_cons (bs : Bytes) :
    leWord w (b :: bs) = b.toBitVec.setWidth w ^^^ (leWord w bs <<< 8) := by
  apply BitVec.eq_of_getLsbD_eq
  intro i hi
  have hnat : leNat (b :: bs) = 2 ^ 8 * leNat bs + b.toNat := by
    rw [leNat]
    omega
  rw [leWord, leWord, BitVec.getLsbD_xor, BitVec.getLsbD_setWidth, BitVec.getLsbD_shiftLeft,
    BitVec.getLsbD_ofNat, BitVec.getLsbD_ofNat, hnat,
    Nat.testBit_two_pow_mul_add _ (UInt8.toNat_lt b)]
  by_cases hlow : i < 8
  · -- below the eighth bit only the first byte shows
    simp only [hi, hlow, decide_true, Bool.true_and, if_true, Bool.not_true, Bool.and_false,
      Bool.false_and, Bool.xor_false]
    rfl
  · have hhigh : b.toBitVec.getLsbD i = false := BitVec.getLsbD_of_ge _ _ (by omega)
    have hrest : i - 8 < w := by omega
    simp only [hi, hlow, hhigh, hrest, decide_true, decide_false, Bool.true_and, if_false,
      Bool.not_false, Bool.false_xor]

theorem shifts_add (p : BitVec w) (m n : Nat) (c : BitVec w) :
    shifts p (m + n) c = shifts p m (shifts p n c) := Function.iterate_add_apply _ m n c

theorem shifts_shiftLeft (p : BitVec w) (bs : Bytes) (hfit : 8 * (bs.length + 1) ≤ w) :
    shifts p 8 (leWord w bs <<< 8) = leWord w bs := by
  have hclear : ∀ i, i < 8 → (leWord w bs <<< 8).getLsbD i = false := by
    intro i hi
    rw [BitVec.getLsbD_shiftLeft]
    simp [hi]
  rw [shifts_of_low_clear p 8 hclear]
  apply BitVec.eq_of_getLsbD_eq
  intro i hi
  rw [BitVec.getLsbD_ushiftRight, BitVec.getLsbD_shiftLeft]
  by_cases hroom : 8 + i < w
  · have hback : 8 + i - 8 = i := by omega
    simp [hroom, hback]
  · -- the word ends below the bits that the shift up has lost
    have hend : leNat bs < 2 ^ i := by
      calc leNat bs < 256 ^ bs.length := leNat_lt bs
        _ = 2 ^ (8 * bs.length) := by rw [Nat.pow_mul]
        _ ≤ 2 ^ i := Nat.pow_le_pow_right (by decide) (by omega)
    have hzero : (leWord w bs).getLsbD i = false := by
      rw [leWord, BitVec.getLsbD_ofNat, Nat.testBit_lt_two_pow hend, Bool.and_false]
    simp [hroom, hzero]

/-- A string no wider than the register is added before all its shifts. -/
theorem register_eq_shifts (p : BitVec w) :
    ∀ (bs : Bytes) (c : BitVec w), 8 * bs.length ≤ w →
      register p c bs = shifts p (8 * bs.length) (c ^^^ leWord w bs)
  | [], c, _ => by
    show c = c ^^^ leWord w []
    exact (BitVec.xor_zero).symm
  | b :: bs, c, hfit => by
    have hfit' : 8 * (bs.length + 1) ≤ w := hfit
    have hlater := register_eq_shifts p bs (feed p c b) (by omega)
    have hlen : 8 * (b :: bs).length = 8 * bs.length + 8 := by rw [List.length_cons]; omega
    -- later bytes go through the first one's shifts
    rw [register_cons, hlater, hlen, shifts_add, leWord_cons, ← BitVec.xor_assoc, shifts_xor p 8,
      shifts_shiftLeft p bs hfit', feed]

section Invertible

variable {p : BitVec w} (hp : p.getLsbD (w - 1) = true)
include hp

theorem eq_zero_of_shift_eq_zero {c : BitVec w} (h : shift p c = 0#w) : c = 0#w := by
  have hbits : ∀ i, (shift p c).getLsbD i = false := by
    intro i
    rw [h, BitVec.getLsbD_zero]
  unfold shift at hbits
  cases hlow : c.getLsbD 0 with
  | true =>
    -- the polynomial shows in the top bit
    have htop := hbits (w - 1)
    rw [hlow, if_pos rfl, BitVec.getLsbD_xor, BitVec.getLsbD_ushiftRight, hp,
      BitVec.getLsbD_of_ge c _ (by omega)] at htop
    cases htop
  | false =>
    apply BitVec.eq_of_getLsbD_eq
    intro i _
    rw [BitVec.getLsbD_zero]
    cases i with
    | zero => exact hlow
    | succ i =>
      have hbit := hbits i
      rwa [hlow, if_neg Bool.false_ne_true, BitVec.getLsbD_ushiftRight, Nat.add_comm] at hbit

theorem shift_injective : Function.Injective (shift p) := by
  intro a b hab
  have hzero : shift p (a ^^^ b) = 0#w := by rw [shift_xor, hab, BitVec.xor_self]
  exact BitVec.xor_eq_zero_iff.mp (eq_zero_of_shift_eq_zero hp hzero)

theorem shifts_injective (n : Nat) : Function.Injective (shifts p n) :=
  (shift_injective hp).iterate n

theorem register_injective (data : Bytes) : Function.Injective fun c => register p c data := by
  induction data with
  | nil => exact fun _ _ h => h
  | cons b data ih =>
    intro c d h
    have hfeed : feed p c b = feed p d b := ih h
    exact (BitVec.xor_left_inj _).mp (shifts_injective hp 8 hfeed)

/-- **Bursts** no wider than the register are seen. -/
theorem burst_eq {c : BitVec w} {pre xs ys post : Bytes} (hlen : xs.length = ys.length)
    (hfit : 8 * xs.length ≤ w)
    (h : register p c (pre ++ xs ++ post) = register p c (pre ++ ys ++ post)) : xs = ys := by
  simp only [register_append] at h
  have hwindow : register p (register p c pre) xs = register p (register p c pre) ys :=
    register_injective hp post h
  rw [register_eq_shifts p xs _ hfit, register_eq_shifts p ys _ (hlen ▸ hfit), hlen] at hwindow
  exact leWord_inj hlen hfit ((BitVec.xor_right_inj _).mp (shifts_injective hp _ hwindow))

end Invertible

end Velocity.Lib.Crc
