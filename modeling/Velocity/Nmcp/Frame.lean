import Velocity.Embedded.Storage
import Velocity.Lib.LittleEndian

namespace Velocity.Nmcp

open Lib
open Embedded (Value)

/-!
# NMCP frames

The wire format of both transports: a header of 16 bytes and a JSON payload.
-/

def nmcpMagic : UInt32 := 0x50434D4E

def nmcpHeaderSize : Nat := 16

structure NmcpFrame where
  frameType : UInt32
  sequenceId : UInt32
  payload : Bytes
  deriving DecidableEq, Repr

structure NmcpRequestBody where
  workflowId : Option String := none
  signalName : Option String := none
  input : Option Value := none

class NmcpCodec where
  /-- `serde_json::from_slice` of a request body, or the text of its error. -/
  parseBody : Bytes → Except String NmcpRequestBody
  /-- `serde_json::to_vec`, which does not fail on a `Value`. -/
  toVec : Value → Bytes

namespace NmcpFrame

variable (frameType payloadLen sequenceId : UInt32) (f : NmcpFrame)

def toBytes : Bytes :=
  u32ToLeBytes nmcpMagic ++ u32ToLeBytes f.frameType
    ++ u32ToLeBytes (UInt32.ofNat f.payload.length) ++ u32ToLeBytes f.sequenceId ++ f.payload

def fromBytes (data : Bytes) : Option NmcpFrame :=
  if data.length < nmcpHeaderSize then none
  else if u32FromLeBytes (data.take 4) ≠ nmcpMagic then none
  else
    let frameType := u32FromLeBytes ((data.drop 4).take 4)
    let payloadLen := (u32FromLeBytes ((data.drop 8).take 4)).toNat
    let sequenceId := u32FromLeBytes ((data.drop 12).take 4)
    if data.length < nmcpHeaderSize + payloadLen then none
    else some ⟨frameType, sequenceId, (data.drop nmcpHeaderSize).take payloadLen⟩

def jsonResponse [NmcpCodec] (sequenceId : UInt32) (body : Value) : NmcpFrame :=
  ⟨0, sequenceId, NmcpCodec.toVec body⟩

def errorResponse [NmcpCodec] (sequenceId : UInt32) (status : UInt16) (message : String) :
    NmcpFrame :=
  jsonResponse sequenceId (.object [("success", .bool false), ("error", .string message),
    ("status", .number (.posInt status.toUInt64))])

/-! ### What is read back -/

def headerBytes (frameType payloadLen sequenceId : UInt32) : Bytes :=
  u32ToLeBytes nmcpMagic ++ u32ToLeBytes frameType ++ u32ToLeBytes payloadLen
    ++ u32ToLeBytes sequenceId

@[simp] theorem length_headerBytes :
    (headerBytes frameType payloadLen sequenceId).length = nmcpHeaderSize := by
  simp [headerBytes, nmcpHeaderSize]

theorem toBytes_eq :
    f.toBytes = headerBytes f.frameType (UInt32.ofNat f.payload.length) f.sequenceId
      ++ f.payload := rfl

@[simp] theorem length_toBytes : f.toBytes.length = nmcpHeaderSize + f.payload.length := by
  rw [toBytes_eq, List.length_append, length_headerBytes]

theorem fromBytes_header (body : Bytes) :
    fromBytes (headerBytes frameType payloadLen sequenceId ++ body)
      = if body.length < payloadLen.toNat then none
        else some ⟨frameType, sequenceId, body.take payloadLen.toNat⟩ := by
  have hmagic : (headerBytes frameType payloadLen sequenceId ++ body).take 4
      = u32ToLeBytes nmcpMagic := by
    simp [headerBytes]
  have htype : ((headerBytes frameType payloadLen sequenceId ++ body).drop 4).take 4
      = u32ToLeBytes frameType := by
    simp [headerBytes]
  have hlen : ((headerBytes frameType payloadLen sequenceId ++ body).drop 8).take 4
      = u32ToLeBytes payloadLen := by
    simp [headerBytes, List.drop_append, List.drop_eq_nil_of_le]
  have hseq : ((headerBytes frameType payloadLen sequenceId ++ body).drop 12).take 4
      = u32ToLeBytes sequenceId := by
    simp [headerBytes, List.drop_append, List.drop_eq_nil_of_le]
  have hbody : (headerBytes frameType payloadLen sequenceId ++ body).drop nmcpHeaderSize
      = body := by
    rw [List.drop_left' (length_headerBytes ..)]
  have hlong : ¬ nmcpHeaderSize + body.length < nmcpHeaderSize := by omega
  rw [fromBytes, hmagic, htype, hlen, hseq, hbody]
  simp [List.length_append, hlong]

theorem fromBytes_toBytes {f : NmcpFrame} (hf : f.payload.length < 2 ^ 32) :
    fromBytes f.toBytes = some f := by
  have hlen : (UInt32.ofNat f.payload.length).toNat = f.payload.length := by
    rw [UInt32.toNat_ofNat', Nat.mod_eq_of_lt hf]
  rw [toBytes_eq, fromBytes_header, hlen, if_neg (Nat.lt_irrefl _), List.take_length]

theorem fromBytes_take {f : NmcpFrame} (hf : f.payload.length < 2 ^ 32) {n : Nat}
    (hn : nmcpHeaderSize ≤ n) (hcut : n < f.toBytes.length) :
    fromBytes (f.toBytes.take n) = none := by
  have hlen : (UInt32.ofNat f.payload.length).toNat = f.payload.length := by
    rw [UInt32.toNat_ofNat', Nat.mod_eq_of_lt hf]
  rw [length_toBytes] at hcut
  rw [toBytes_eq, List.take_append, length_headerBytes,
    List.take_of_length_le (by rw [length_headerBytes]; exact hn), fromBytes_header, hlen, if_pos]
  rw [List.length_take]
  omega

end NmcpFrame

end Velocity.Nmcp
