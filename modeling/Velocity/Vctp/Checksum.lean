import Mathlib.Data.List.Iterate
import Velocity.Lib.Crc
import Velocity.Vctp.Packet
import Velocity.Wal.Record

namespace Velocity.Vctp.Wire

open Lib Wire.VctpPacket

/-!
# The two CRC-32 loops

Both loops are the register of one reflected polynomial.
-/

def crc32Polynomial : BitVec 32 := 0xEDB88320#32

private theorem foldl_ignore {α : Type} (f : α → α) (c : α) (n : Nat) :
    (List.range n).foldl (fun c _ => f c) c = f^[n] c := by
  rw [List.foldl_const, List.length_range]

theorem and_one_ne_zero (c : UInt32) : c &&& 1 ≠ 0 ↔ c.toBitVec.getLsbD 0 = true := by
  have hnat : (c &&& 1).toNat = c.toNat % 2 := Nat.and_one_is_mod c.toNat
  have hbit : c.toBitVec.getLsbD 0 = decide (c.toNat % 2 = 1) := Nat.testBit_zero c.toNat
  rw [ne_eq, ← UInt32.toNat_inj, hnat, hbit, decide_eq_true_iff, UInt32.toNat_zero]
  omega

theorem toBitVec_checksumBit (c : UInt32) :
    (if c &&& 1 ≠ 0 then (c >>> 1) ^^^ (0xEDB88320 : UInt32) else c >>> 1).toBitVec
      = Crc.shift crc32Polynomial c.toBitVec := by
  unfold Crc.shift
  by_cases hbit : c.toBitVec.getLsbD 0 = true
  · rw [if_pos ((and_one_ne_zero c).mpr hbit), if_pos hbit, UInt32.toBitVec_xor,
      UInt32.toBitVec_shiftRight]
    rfl
  · rw [if_neg (fun h => hbit ((and_one_ne_zero c).mp h)), if_neg hbit,
      UInt32.toBitVec_shiftRight]
    rfl

theorem toBitVec_checksumBits (c : UInt32) :
    (checksumBits c).toBitVec = Crc.shifts crc32Polynomial 8 c.toBitVec := by
  have hsemi : Function.Semiconj UInt32.toBitVec _ (Crc.shift crc32Polynomial) := toBitVec_checksumBit
  rw [checksumBits, foldl_ignore]
  exact hsemi.iterate_right 8 c

theorem crc32TableEntry_eq (i : UInt32) : crc32TableEntry i = checksumBits i := by
  simp only [crc32TableEntry, checksumBits, UInt32.xor_comm]

theorem toBitVec_computeChecksum (header : VctpPacketHeader) (payload : Bytes) :
    (computeChecksum header payload).toBitVec
      = ~~~(Crc.register crc32Polynomial (BitVec.allOnes 32) (header.toBytes ++ payload)) := by
  have hbyte : ∀ (c : UInt32) (b : UInt8), Crc.feed crc32Polynomial c.toBitVec b
      = (checksumBits (c ^^^ b.toUInt32)).toBitVec := by
    intro c b
    rw [toBitVec_checksumBits, UInt32.toBitVec_xor]
    rfl
  rw [computeChecksum, UInt32.toBitVec_not, ← List.foldl_hom UInt32.toBitVec hbyte]
  rfl

theorem toBitVec_crc32Fast (data : Bytes) :
    (crc32Fast data).toBitVec
      = ~~~(Crc.register crc32Polynomial (BitVec.allOnes 32) data) := by
  have hbyte : ∀ (c : UInt32) (b : UInt8), Crc.feed crc32Polynomial c.toBitVec b
      = (makeCrc32Table (Fin.ofNat 256 ((c ^^^ b.toUInt32) &&& 0xFF).toNat)
          ^^^ (c >>> 8)).toBitVec := by
    intro c b
    -- the masked index is in the table
    have hlow : ((c ^^^ b.toUInt32) &&& 0xFF).toNat < 256 := by
      have hle := Nat.and_le_right (n := (c ^^^ b.toUInt32).toNat) (m := 255)
      have heq : ((c ^^^ b.toUInt32) &&& 0xFF).toNat = (c ^^^ b.toUInt32).toNat &&& 255 :=
        UInt32.toNat_and _ _
      omega
    have hindex : UInt32.ofNat (Fin.ofNat 256 ((c ^^^ b.toUInt32) &&& 0xFF).toNat).val
        = (c ^^^ b.toUInt32) &&& 0xFF := by
      rw [Fin.val_ofNat, Nat.mod_eq_of_lt hlow, UInt32.ofNat_toNat]
    rw [makeCrc32Table, hindex, crc32TableEntry_eq, UInt32.toBitVec_xor, toBitVec_checksumBits,
      Crc.feed_eq_table]
    rfl
  have hnot : ∀ x : UInt32, x ^^^ 0xFFFFFFFF = ~~~x := fun x => by
    rw [show (0xFFFFFFFF : UInt32) = -1 from rfl, UInt32.xor_neg_one]
  rw [crc32Fast, hnot, UInt32.toBitVec_not, ← List.foldl_hom UInt32.toBitVec hbyte]
  rfl

/-- **The two checksums agree** on the bytes of a header followed by a payload. -/
theorem computeChecksum_eq_crc32Fast (header : VctpPacketHeader) (payload : Bytes) :
    computeChecksum header payload = crc32Fast (header.toBytes ++ payload) := by
  apply UInt32.toBitVec_inj.mp
  rw [toBitVec_computeChecksum, toBitVec_crc32Fast]

end Velocity.Vctp.Wire
