import Velocity.Vctp.Checksum

namespace Velocity.Vctp.Wire

open Lib Wire.VctpPacket

/-!
# The XOR stream cipher

`encrypt_packet` leaves the checksum over the plain payload.
-/

structure VctpCipher where
  key : Vector UInt8 32
  nonce : UInt64

namespace VctpCipher

variable (c : VctpCipher)

def keystreamByte (sequence : UInt64) (i : Nat) : UInt8 :=
  let combinedNonce := c.nonce ^^^ sequence
  let keyIdx := i % 32
  let round := UInt64.ofNat (i / 32)
  have hkey : keyIdx < 32 := Nat.mod_lt i (by decide)
  c.key[keyIdx] ^^^
    ((combinedNonce * 0x9E3779B97F4A7C15 + round * 0x517CC1B727220A95)
      >>> UInt64.ofNat (keyIdx % 8 * 8)).toUInt8

def apply (data : Bytes) (sequence : UInt64) : Bytes :=
  data.mapIdx (fun i byte => byte ^^^ c.keystreamByte sequence i)

def encryptPacket (packet : VctpPacket) (sequence : UInt64) : VctpPacket :=
  -- `checksum` is still the one of the plain payload
  { packet with payload := c.apply packet.payload sequence }

def decryptPacket (packet : VctpPacket) (sequence : UInt64) : VctpPacket :=
  { packet with payload := c.apply packet.payload sequence }

def keystream (sequence : UInt64) (n : Nat) : Bytes :=
  (List.range n).map (c.keystreamByte sequence)

@[simp] theorem length_apply (data : Bytes) (sequence : UInt64) :
    (c.apply data sequence).length = data.length := List.length_mapIdx

theorem apply_eq_zipWith (data : Bytes) (sequence : UInt64) :
    c.apply data sequence = List.zipWith (· ^^^ ·) data (c.keystream sequence data.length) := by
  refine List.ext_getElem (by simp [keystream]) (fun i h₁ h₂ => ?_)
  simp [apply, keystream]

theorem apply_apply (data : Bytes) (sequence : UInt64) :
    c.apply (c.apply data sequence) sequence = data := by
  refine List.ext_getElem (by simp) (fun i h₁ h₂ => ?_)
  simp only [apply, List.getElem_mapIdx, UInt8.xor_assoc, UInt8.xor_self, UInt8.xor_zero]

/-! ### The checksum -/

/-- The keystream leaves the CRC register as it is. -/
def ChecksumBlind (sequence : UInt64) (n : Nat) : Prop :=
  Crc.register crc32Polynomial 0#32 (c.keystream sequence n) = 0#32

instance (c : VctpCipher) (sequence : UInt64) (n : Nat) : Decidable (c.ChecksumBlind sequence n) :=
  inferInstanceAs (Decidable (_ = _))

theorem computeChecksum_apply_iff (header : VctpPacketHeader) (payload : Bytes)
    (sequence : UInt64) :
    computeChecksum header (c.apply payload sequence)
        = computeChecksum header payload
      ↔ c.ChecksumBlind sequence payload.length := by
  have hlen : payload.length = (c.keystream sequence payload.length).length := by simp [keystream]
  -- the header is not encrypted
  have hlinear := Crc.register_xor crc32Polynomial
    (Crc.register crc32Polynomial (BitVec.allOnes 32) header.toBytes) 0#32 hlen
  rw [BitVec.xor_zero] at hlinear
  rw [← UInt32.toBitVec_inj, toBitVec_computeChecksum, toBitVec_computeChecksum, BitVec.not_inj,
    Crc.register_append, Crc.register_append, apply_eq_zipWith, hlinear, ChecksumBlind]
  constructor
  · intro heq
    exact (BitVec.xor_right_inj _).mp (heq.trans (BitVec.xor_zero).symm)
  · intro hzero
    rw [hzero, BitVec.xor_zero]

/-- The encrypted packet is accepted and decrypts. -/
def SurvivesWire (sequence : UInt64) (packet : VctpPacket) : Prop :=
  ∃ received, fromBytes (c.encryptPacket packet sequence).toBytes = some received
    ∧ (c.decryptPacket received sequence).payload = packet.payload

/-- **Encryption is survived** iff the keystream is invisible to the checksum. -/
theorem survivesWire_iff (c : VctpCipher) (sequence : UInt64) (header : VctpPacketHeader)
    (payload : Bytes) (hlen : payload.length = header.payloadLength.toNat) :
    c.SurvivesWire sequence (new header payload)
      ↔ header.isValid = true ∧ c.ChecksumBlind sequence payload.length := by
  have hparse := fromBytes_append
    (p := c.encryptPacket (new header payload) sequence)
    (by simpa [encryptPacket, new] using hlen) []
  rw [List.append_nil] at hparse
  have hsum : (c.encryptPacket (new header payload) sequence).verifyChecksum = true
      ↔ c.ChecksumBlind sequence payload.length := by
    rw [← c.computeChecksum_apply_iff header payload sequence]
    exact beq_iff_eq
  unfold SurvivesWire
  rw [hparse]
  constructor
  · rintro ⟨received, hreceived, _⟩
    split at hreceived
    · next hok => exact ⟨hok.1, hsum.mp hok.2⟩
    · exact absurd hreceived (by simp)
  · rintro ⟨hvalid, hblind⟩
    exact ⟨_, if_pos ⟨hvalid, hsum.mpr hblind⟩, c.apply_apply payload sequence⟩

/-- With the zero key and the nonce of the sequence number the keystream is zero. -/
theorem survivesWire_iff_zero_key :
    (VctpCipher.mk (Vector.replicate 32 0) 5).SurvivesWire 5
      (new (.new 5 0 0 3) [1, 2, 3]) :=
  (survivesWire_iff _ _ _ _ rfl).mpr ⟨rfl, by decide +kernel⟩

theorem refused_one_byte :
    ¬ (VctpCipher.mk (Vector.replicate 32 7) 0).SurvivesWire 0
    (new (.new 0 0 0 1) [1]) := by
  have hrefused : fromBytes ((VctpCipher.mk (Vector.replicate 32 7) 0).encryptPacket
      (new (.new 0 0 0 1) [1]) 0).toBytes = none := by decide +kernel
  rintro ⟨received, hreceived, _⟩
  rw [hrefused] at hreceived
  exact absurd hreceived (by simp)

end VctpCipher

end Velocity.Vctp.Wire
