import Velocity.Lib.LittleEndian

namespace Velocity.Vctp.Wire

open Lib List

/-!
# VCTP packets

A header of 28 bytes, the payload and a CRC-32 over both, little endian.
-/

def vctpHeaderSize : Nat := 28

def vctpMagic : UInt32 := 0x50544356

structure VctpPacketHeader where
  magic : UInt32
  sequenceNumber : UInt64
  workflowId : UInt64
  slabOffset : UInt32
  payloadLength : UInt32
  deriving DecidableEq, Repr

namespace VctpPacketHeader

def new (sequenceNumber workflowId : UInt64) (slabOffset payloadLength : UInt32) :
    VctpPacketHeader :=
  ⟨vctpMagic, sequenceNumber, workflowId, slabOffset, payloadLength⟩

def isValid (h : VctpPacketHeader) : Bool := h.magic == vctpMagic

def toBytes (h : VctpPacketHeader) : Bytes :=
  u32ToLeBytes h.magic ++ u64ToLeBytes h.sequenceNumber ++ u64ToLeBytes h.workflowId
    ++ u32ToLeBytes h.slabOffset ++ u32ToLeBytes h.payloadLength

def fromBytes (buf : Bytes) : Option VctpPacketHeader :=
  if buf.length < vctpHeaderSize then none
  else
    let magic := u32FromLeBytes (buf.take 4)
    if magic ≠ vctpMagic then none
    else some {
      magic := magic
      sequenceNumber := u64FromLeBytes ((buf.drop 4).take 8)
      workflowId := u64FromLeBytes ((buf.drop 12).take 8)
      slabOffset := u32FromLeBytes ((buf.drop 20).take 4)
      payloadLength := u32FromLeBytes ((buf.drop 24).take 4) }

@[simp] theorem length_toBytes (h : VctpPacketHeader) : h.toBytes.length = vctpHeaderSize := by
  simp [toBytes, vctpHeaderSize]

theorem fromBytes_append (h : VctpPacketHeader) (rest : Bytes) :
    fromBytes (h.toBytes ++ rest) = if h.isValid then some h else none := by
  have hlong : ¬ (h.toBytes ++ rest).length < vctpHeaderSize := by
    rw [length_append, length_toBytes]
    omega
  have hmagic : (h.toBytes ++ rest).take 4 = u32ToLeBytes h.magic := by
    simp [toBytes]
  have hseq : ((h.toBytes ++ rest).drop 4).take 8 = u64ToLeBytes h.sequenceNumber := by
    simp [toBytes]
  have hid : ((h.toBytes ++ rest).drop 12).take 8 = u64ToLeBytes h.workflowId := by
    simp [toBytes, drop_append, drop_eq_nil_of_le]
  have hslab : ((h.toBytes ++ rest).drop 20).take 4 = u32ToLeBytes h.slabOffset := by
    simp [toBytes, drop_append, drop_eq_nil_of_le]
  have hlen : ((h.toBytes ++ rest).drop 24).take 4 = u32ToLeBytes h.payloadLength := by
    simp [toBytes, drop_append, drop_eq_nil_of_le]
  rw [fromBytes, if_neg hlong, hmagic, hseq, hid, hslab, hlen]
  simp [isValid]

theorem toBytes_of_fromBytes {buf : Bytes} {h : VctpPacketHeader}
    (hparse : fromBytes buf = some h) :
    h.toBytes = buf.take vctpHeaderSize ∧ h.isValid = true ∧ vctpHeaderSize ≤ buf.length := by
  unfold fromBytes at hparse
  split at hparse
  · exact absurd hparse (by simp)
  · next hlong =>
    have hlen : vctpHeaderSize ≤ buf.length := Nat.le_of_not_lt hlong
    simp only at hparse
    split at hparse
    · exact absurd hparse (by simp)
    · next hmagic =>
      obtain rfl := Option.some.inj hparse
      refine ⟨?_, by simpa [isValid] using hmagic, hlen⟩
      unfold vctpHeaderSize at hlen
      -- the five fields are consecutive pieces of the buffer
      have hpiece : ∀ i n : Nat, i + n ≤ 28 → ((buf.drop i).take n).length = n := by
        intro i n hin
        rw [length_take, length_drop]
        omega
      simp only [toBytes]
      rw [u32ToLeBytes_fromLeBytes (by simpa using hpiece 0 4 (by decide)),
        u64ToLeBytes_fromLeBytes (hpiece 4 8 (by decide)),
        u64ToLeBytes_fromLeBytes (hpiece 12 8 (by decide)),
        u32ToLeBytes_fromLeBytes (hpiece 20 4 (by decide)),
        u32ToLeBytes_fromLeBytes (hpiece 24 4 (by decide)),
        ← take_add, ← take_add, ← take_add, ← take_add]
      rfl

end VctpPacketHeader

structure VctpPacket where
  header : VctpPacketHeader
  payload : Bytes
  checksum : UInt32
  deriving DecidableEq, Repr

namespace VctpPacket

def checksumBits (crc : UInt32) : UInt32 :=
  (List.range 8).foldl
    (fun (crc : UInt32) _ =>
      if crc &&& 1 ≠ 0 then (crc >>> 1) ^^^ (0xEDB88320 : UInt32) else crc >>> 1) crc

def computeChecksum (header : VctpPacketHeader) (payload : Bytes) : UInt32 :=
  ~~~((header.toBytes ++ payload).foldl (fun crc b => checksumBits (crc ^^^ b.toUInt32)) 0xFFFFFFFF)

def new (header : VctpPacketHeader) (payload : Bytes) : VctpPacket :=
  ⟨header, payload, computeChecksum header payload⟩

def toBytes (p : VctpPacket) : Bytes := p.header.toBytes ++ p.payload ++ u32ToLeBytes p.checksum

def verifyChecksum (p : VctpPacket) : Bool := computeChecksum p.header p.payload == p.checksum

def fromBytes (buf : Bytes) : Option VctpPacket :=
  if buf.length < vctpHeaderSize + 4 then none
  else do
    let header ← VctpPacketHeader.fromBytes buf
    let payloadEnd := vctpHeaderSize + header.payloadLength.toNat
    -- a longer buffer is accepted, and its rest is not looked at
    if buf.length < payloadEnd + 4 then none
    else
      let payload := (buf.take payloadEnd).drop vctpHeaderSize
      let checksum := u32FromLeBytes ((buf.drop payloadEnd).take 4)
      let packet : VctpPacket := ⟨header, payload, checksum⟩
      if packet.verifyChecksum then some packet else none

@[simp] theorem length_toBytes (p : VctpPacket) :
    p.toBytes.length = vctpHeaderSize + p.payload.length + 4 := by
  rw [toBytes, length_append, length_append, VctpPacketHeader.length_toBytes,
    length_u32ToLeBytes]

theorem fromBytes_append {p : VctpPacket} (hlen : p.payload.length = p.header.payloadLength.toNat)
    (rest : Bytes) :
    fromBytes (p.toBytes ++ rest)
      = if p.header.isValid ∧ p.verifyChecksum then some p else none := by
  have hbuf : p.toBytes ++ rest
      = p.header.toBytes ++ (p.payload ++ (u32ToLeBytes p.checksum ++ rest)) := by
    simp [toBytes]
  have hlong : (p.toBytes ++ rest).length
      = vctpHeaderSize + p.header.payloadLength.toNat + 4 + rest.length := by
    rw [length_append, length_toBytes, hlen]
  have hend : (p.header.toBytes ++ p.payload).length
      = vctpHeaderSize + p.header.payloadLength.toNat := by
    rw [length_append, VctpPacketHeader.length_toBytes, hlen]
  -- the slices that the parser takes
  have hpayload : ((p.toBytes ++ rest).take (vctpHeaderSize + p.header.payloadLength.toNat)).drop
      vctpHeaderSize = p.payload := by
    rw [hbuf, ← append_assoc, take_left' hend,
      drop_left' (VctpPacketHeader.length_toBytes _)]
  have hcheck : ((p.toBytes ++ rest).drop (vctpHeaderSize + p.header.payloadLength.toNat)).take 4
      = u32ToLeBytes p.checksum := by
    rw [hbuf, ← append_assoc, drop_left' hend, take_left' (length_u32ToLeBytes _)]
  have hheader : VctpPacketHeader.fromBytes (p.toBytes ++ rest)
      = if p.header.isValid then some p.header else none := by
    rw [hbuf, VctpPacketHeader.fromBytes_append]
  rw [fromBytes, if_neg (by omega), hheader]
  cases hv : p.header.isValid with
  | false => rfl
  | true =>
    simp only [if_true, Option.bind_eq_bind, Option.bind_some, hpayload, hcheck,
      u32FromLeBytes_toLeBytes, true_and]
    rw [if_neg (by omega)]

theorem toBytes_of_fromBytes {buf : Bytes} {p : VctpPacket} (h : fromBytes buf = some p) :
    p.toBytes = buf.take (vctpHeaderSize + p.header.payloadLength.toNat + 4) := by
  unfold fromBytes at h
  split at h
  · exact absurd h (by simp)
  · obtain ⟨header, hheader, h⟩ := Option.bind_eq_some_iff.mp h
    obtain ⟨hbytes, _, _⟩ := VctpPacketHeader.toBytes_of_fromBytes hheader
    simp only at h
    split at h
    · exact absurd h (by simp)
    · next hlong =>
      split at h
      · obtain rfl := Option.some.inj h
        have hfour : ((buf.drop (vctpHeaderSize + header.payloadLength.toNat)).take 4).length = 4 := by
          rw [length_take, length_drop]
          omega
        simp only [toBytes]
        rw [hbytes, u32ToLeBytes_fromLeBytes hfour, drop_take, Nat.add_sub_cancel_left,
          ← take_add, ← take_add]
      · exact absurd h (by simp)

/-- **The packet codec**, in both directions. -/
theorem codec :
    (∀ (header : VctpPacketHeader) (payload : Bytes), header.magic = vctpMagic →
      payload.length = header.payloadLength.toNat →
      fromBytes (new header payload).toBytes = some (new header payload))
    ∧ ∀ (buf : Bytes) (p : VctpPacket), fromBytes buf = some p → p.toBytes <+: buf := by
  constructor
  · intro header payload hmagic hlen
    have hvalid : (new header payload).header.isValid = true := by
      simpa [new, VctpPacketHeader.isValid] using hmagic
    have hsum : (new header payload).verifyChecksum = true := beq_self_eq_true _
    have hparse := fromBytes_append (p := new header payload) hlen []
    rw [append_nil, if_pos ⟨hvalid, hsum⟩] at hparse
    exact hparse
  · intro buf p h
    rw [toBytes_of_fromBytes h]
    exact take_prefix _ _

theorem codec_two_bytes :
    fromBytes (new (.new 1 2 3 2) [7, 8]).toBytes = some (new (.new 1 2 3 2) [7, 8])
      ∧ (new (.new 1 2 3 2) [7, 8]).toBytes <+: (new (.new 1 2 3 2) [7, 8]).toBytes ++ [9] :=
  ⟨codec.1 _ _ rfl rfl, codec.2 _ _ (by decide +kernel)⟩

end VctpPacket

end Velocity.Vctp.Wire
