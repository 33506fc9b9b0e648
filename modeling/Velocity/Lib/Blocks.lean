import Velocity.Lib.LittleEndian

namespace Velocity.Lib

open List

/-!
# Length-prefixed blocks

Big-endian numbers, and byte strings behind their length in four bytes.
-/

def beBytes (n x : Nat) : Bytes := (leBytes n x).reverse

def beNat (bs : Bytes) : Nat := leNat bs.reverse

@[simp] theorem length_beBytes (n x : Nat) : (beBytes n x).length = n := by
  rw [beBytes, length_reverse, length_leBytes]

theorem beNat_beBytes {n x : Nat} (h : x < 256 ^ n) : beNat (beBytes n x) = x := by
  rw [beNat, beBytes, reverse_reverse, leNat_leBytes, Nat.mod_eq_of_lt h]

theorem beBytes_beNat (bs : Bytes) : beBytes bs.length (beNat bs) = bs := by
  have h := leBytes_leNat bs.reverse
  rw [length_reverse] at h
  rw [beBytes, beNat, h, reverse_reverse]

theorem beNat_lt (bs : Bytes) : beNat bs < 256 ^ bs.length := by
  have h := leNat_lt bs.reverse
  rwa [length_reverse] at h

def block (data : Bytes) : Bytes := beBytes 4 data.length ++ data

inductive BlockRead where
  | noLength
  | short
  | block (data rest : Bytes)

def readBlock (bytes : Bytes) : BlockRead :=
  if bytes.length < 4 then .noLength
  else if (bytes.drop 4).length < beNat (bytes.take 4) then .short
  else .block ((bytes.drop 4).take (beNat (bytes.take 4)))
    ((bytes.drop 4).drop (beNat (bytes.take 4)))

theorem readBlock_append {head : Bytes} (hhead : head.length = 4) (rest : Bytes) :
    readBlock (head ++ rest)
      = if rest.length < beNat head then .short
        else .block (rest.take (beNat head)) (rest.drop (beNat head)) := by
  rw [readBlock, if_neg (by simp [hhead]), drop_left' hhead, take_left' hhead]

theorem readBlock_cases (bytes : Bytes) :
    (bytes.length < 4 ∧ readBlock bytes = .noLength) ∨
      (∃ head rest, bytes = head ++ rest ∧ head.length = 4 ∧ rest.length < beNat head ∧
        readBlock bytes = .short) ∨
      ∃ data rest, bytes = block data ++ rest ∧ data.length < 2 ^ 32 ∧
        readBlock bytes = .block data rest := by
  by_cases hlength : bytes.length < 4
  · exact .inl ⟨hlength, if_pos hlength⟩
  · obtain ⟨head, rest, rfl, hhead⟩ : ∃ head rest, bytes = head ++ rest ∧ head.length = 4 :=
      ⟨bytes.take 4, bytes.drop 4, (take_append_drop 4 bytes).symm, by
        rw [length_take]
        omega⟩
    rw [readBlock_append hhead]
    by_cases hshort : rest.length < beNat head
    · exact .inr (.inl ⟨head, rest, rfl, hhead, hshort, if_pos hshort⟩)
    · have hdata : (rest.take (beNat head)).length = beNat head := by
        rw [length_take]
        omega
      refine .inr (.inr ⟨_, _, ?_, ?_, if_neg hshort⟩)
      · rw [block, hdata, ← hhead, beBytes_beNat, append_assoc, take_append_drop]
      · have hlt := beNat_lt head
        rw [hhead] at hlt
        rw [hdata]
        exact hlt

@[simp] theorem readBlock_block {data : Bytes} (h : data.length < 2 ^ 32) (rest : Bytes) :
    readBlock (block data ++ rest) = .block data rest := by
  rw [block, append_assoc, readBlock_append (length_beBytes 4 _), beNat_beBytes h,
    if_neg (by simp), take_left, drop_left]

end Velocity.Lib
