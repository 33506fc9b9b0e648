import Mathlib.Algebra.Group.Nat.Defs
import Mathlib.Data.List.Basic
import Mathlib.Tactic.Common

namespace Velocity.Lib

/-!
# Little-endian byte strings

`leBytes n x` writes the low `n` bytes of `x`; `leNat` reads them back.
-/

abbrev Bytes := List UInt8

def leBytes : Nat → Nat → Bytes
  | 0, _ => []
  | n + 1, x => UInt8.ofNat x :: leBytes n (x / 256)

def leNat : Bytes → Nat
  | [] => 0
  | b :: bs => b.toNat + 256 * leNat bs

@[simp] theorem length_leBytes (n x : Nat) : (leBytes n x).length = n := by
  induction n generalizing x with
  | zero => rfl
  | succ n ih => simp [leBytes, ih]

theorem leNat_leBytes (n x : Nat) : leNat (leBytes n x) = x % 256 ^ n := by
  induction n generalizing x with
  | zero => simp [leBytes, leNat, Nat.mod_one]
  | succ n ih =>
    have hlow : (UInt8.ofNat x).toNat = x % 256 := by simp
    simp only [leBytes, leNat, ih, hlow]
    rw [Nat.pow_succ', Nat.mod_mul]

theorem leBytes_leNat (bs : Bytes) : leBytes bs.length (leNat bs) = bs := by
  induction bs with
  | nil => rfl
  | cons b bs ih =>
    have hb : b.toNat < 256 := UInt8.toNat_lt b
    have hdiv : (b.toNat + 256 * leNat bs) / 256 = leNat bs := by omega
    have hhead : UInt8.ofNat (b.toNat + 256 * leNat bs) = b := by
      apply UInt8.toNat_inj.mp
      simp only [UInt8.toNat_ofNat']
      omega
    simp only [List.length_cons, leBytes, leNat, hdiv, hhead, ih]

theorem leNat_lt (bs : Bytes) : leNat bs < 256 ^ bs.length := by
  have h := leNat_leBytes bs.length (leNat bs)
  rw [leBytes_leNat] at h
  rw [h]
  exact Nat.mod_lt _ (Nat.pow_pos (by decide))

/-! ### The fixed-width codecs -/

def u32ToLeBytes (x : UInt32) : Bytes := leBytes 4 x.toNat

def u32FromLeBytes (bs : Bytes) : UInt32 := UInt32.ofNat (leNat bs)

def u64ToLeBytes (x : UInt64) : Bytes := leBytes 8 x.toNat

def u64FromLeBytes (bs : Bytes) : UInt64 := UInt64.ofNat (leNat bs)

@[simp] theorem length_u32ToLeBytes (x : UInt32) : (u32ToLeBytes x).length = 4 :=
  length_leBytes 4 _

@[simp] theorem length_u64ToLeBytes (x : UInt64) : (u64ToLeBytes x).length = 8 :=
  length_leBytes 8 _

@[simp] theorem u32FromLeBytes_toLeBytes (x : UInt32) : u32FromLeBytes (u32ToLeBytes x) = x := by
  have hx : x.toNat < 256 ^ 4 := x.toNat_lt
  rw [u32FromLeBytes, u32ToLeBytes, leNat_leBytes, Nat.mod_eq_of_lt hx, UInt32.ofNat_toNat]

@[simp] theorem u64FromLeBytes_toLeBytes (x : UInt64) : u64FromLeBytes (u64ToLeBytes x) = x := by
  have hx : x.toNat < 256 ^ 8 := x.toNat_lt
  rw [u64FromLeBytes, u64ToLeBytes, leNat_leBytes, Nat.mod_eq_of_lt hx, UInt64.ofNat_toNat]

theorem u32ToLeBytes_fromLeBytes {bs : Bytes} (h : bs.length = 4) :
    u32ToLeBytes (u32FromLeBytes bs) = bs := by
  have hlt : leNat bs < 2 ^ 32 := by have := leNat_lt bs; rw [h] at this; exact this
  rw [u32ToLeBytes, u32FromLeBytes, UInt32.toNat_ofNat_of_lt' hlt, ← h, leBytes_leNat]

theorem u64ToLeBytes_fromLeBytes {bs : Bytes} (h : bs.length = 8) :
    u64ToLeBytes (u64FromLeBytes bs) = bs := by
  have hlt : leNat bs < 2 ^ 64 := by have := leNat_lt bs; rw [h] at this; exact this
  rw [u64ToLeBytes, u64FromLeBytes, UInt64.toNat_ofNat_of_lt' hlt, ← h, leBytes_leNat]

theorem flatMap_u64ToLeBytes_inj :
    ∀ {xs ys : List UInt64}, xs.flatMap u64ToLeBytes = ys.flatMap u64ToLeBytes → xs = ys
  | [], [], _ => rfl
  | [], y :: ys, h => by
    have hlen := congrArg List.length h
    simp at hlen
    omega
  | x :: xs, [], h => by
    have hlen := congrArg List.length h
    simp at hlen
  | x :: xs, y :: ys, h => by
    rw [List.flatMap_cons, List.flatMap_cons] at h
    obtain ⟨hhead, htail⟩ := List.append_inj h (by simp)
    have hword : x = y := by
      rw [← u64FromLeBytes_toLeBytes x, hhead, u64FromLeBytes_toLeBytes]
    rw [hword, flatMap_u64ToLeBytes_inj htail]

end Velocity.Lib
