import Velocity.Vctp.Cipher
import Velocity.Vctp.FragmentArrival

namespace Velocity.Vctp.Wire

open Lib List Wire.VctpPacket

/-!
# Datagrams of the transport

* `sendPacket`, `sendResponse`: the datagrams of a packet and of a response.
* `recvPackets`: the loop that reads datagrams, acknowledges packets and sorts out acknowledgements.
* `datagrams_fit_iff`: which responses UDP can carry.
* `recvPackets_sendResponse`: what a peer with the same key reads of a response.

Sockets, statistics and peers are left out; the retransmission tracker is a module of its own.
-/

def vctpAckMagic : UInt32 := 0x4B435656

structure VctpAck where
  magic : UInt32
  ackSequence : UInt64
  receiverWorkflowId : UInt64

namespace VctpAck

def new (ackSequence workflowId : UInt64) : VctpAck := ⟨vctpAckMagic, ackSequence, workflowId⟩

def fromBytes (buf : Bytes) : Option VctpAck :=
  if buf.length < 20 then none
  else
    let magic := u32FromLeBytes (buf.take 4)
    if magic ≠ vctpAckMagic then none
    else some ⟨magic, u64FromLeBytes ((buf.drop 4).take 8), u64FromLeBytes ((buf.drop 12).take 8)⟩

end VctpAck

structure VctpTransport where
  cipher : Option VctpCipher
  nextSequence : UInt64
  recvBufferSize : Nat := 65536

/-- What a call of `recv_packets` returns, and what it does besides. -/
structure Received where
  packets : List VctpPacket := []
  acksReceived : List VctpAck := []
  acksSent : List VctpAck := []
  checksumFailures : Nat := 0

/-- A packet is returned and acknowledged. -/
def Received.accept (received : Received) (packet : VctpPacket) : Received :=
  { received with
    packets := received.packets ++ [packet]
    acksSent := received.acksSent
      ++ [.new packet.header.sequenceNumber packet.header.workflowId] }

namespace VctpTransport

variable (t : VctpTransport)

def applyCipher (payload : Bytes) (sequence : UInt64) : Bytes :=
  match t.cipher with
  | some cipher => cipher.apply payload sequence
  | none => payload

def sendPacket (workflowId : UInt64) (slabOffset : UInt32) (payload : Bytes) :
    Bytes × VctpTransport :=
  let seq := t.nextSequence
  let header := VctpPacketHeader.new seq workflowId slabOffset (UInt32.ofNat payload.length)
  -- the checksum is over the encrypted payload
  let packet := new header (t.applyCipher payload seq)
  (packet.toBytes, { t with nextSequence := seq + 1 })

def recvDatagram (received : Received) (datagram : Bytes) : Received :=
  -- `recv_from` cuts off what the buffer cannot hold
  let buf := datagram.take t.recvBufferSize
  if buf.length < 20 then received
  else
    let ack :=
      if u32FromLeBytes (buf.take 4) = vctpAckMagic then VctpAck.fromBytes buf else none
    match ack with
    | some ack => { received with acksReceived := received.acksReceived ++ [ack] }
    | none =>
      match fromBytes buf with
      | some packet =>
        received.accept
          { packet with payload := t.applyCipher packet.payload packet.header.sequenceNumber }
      | none => { received with checksumFailures := received.checksumFailures + 1 }

def recvPackets (datagrams : List Bytes) : Received := datagrams.foldl t.recvDatagram {}

def sendPackets : VctpTransport → List (UInt32 × Bytes) → List Bytes × VctpTransport
  | t, [] => ([], t)
  | t, (slabOffset, payload) :: rest =>
    let (datagram, t) := t.sendPacket 0 slabOffset payload
    let (datagrams, t) := t.sendPackets rest
    (datagram :: datagrams, t)

def sendResponse (responseBytes : Bytes) : List Bytes × VctpTransport :=
  if responseBytes.length ≤ maxVctpPayload then t.sendPackets [(0, responseBytes)]
  else t.sendPackets (fragmentPackets responseBytes)

@[simp] theorem length_applyCipher (payload : Bytes) (sequence : UInt64) :
    (t.applyCipher payload sequence).length = payload.length := by
  unfold applyCipher
  cases t.cipher with
  | none => rfl
  | some cipher => exact cipher.length_apply payload sequence

theorem applyCipher_applyCipher (payload : Bytes) (sequence : UInt64) :
    t.applyCipher (t.applyCipher payload sequence) sequence = payload := by
  unfold applyCipher
  cases t.cipher with
  | none => rfl
  | some cipher => exact cipher.apply_apply payload sequence

/-! ### The length of datagrams -/

@[simp] theorem length_sendPacket (workflowId : UInt64) (slabOffset : UInt32) (payload : Bytes) :
    (t.sendPacket workflowId slabOffset payload).1.length = payload.length + 32 := by
  have hcipher := t.length_applyCipher payload t.nextSequence
  have hbytes := length_toBytes (new (VctpPacketHeader.new t.nextSequence
    workflowId slabOffset (UInt32.ofNat payload.length)) (t.applyCipher payload t.nextSequence))
  simp only [new, hcipher, vctpHeaderSize] at hbytes
  simp only [sendPacket, new, hbytes]
  omega

theorem length_sendPackets (payloads : List (UInt32 × Bytes)) (t : VctpTransport) :
    (t.sendPackets payloads).1.map List.length = payloads.map (fun p => p.2.length + 32) := by
  induction payloads generalizing t with
  | nil => rfl
  | cons p rest ih =>
    obtain ⟨slabOffset, payload⟩ := p
    simp only [sendPackets, map_cons, length_sendPacket, ih]

theorem length_sendResponse (responseBytes : Bytes) :
    (t.sendResponse responseBytes).1.map List.length
      = (fragmentPayload responseBytes).map (fun fragment => fragment.length + 32) := by
  unfold sendResponse
  split
  · next hsmall => rw [length_sendPackets, fragmentPayload, if_pos hsmall]; rfl
  · rw [length_sendPackets]
    refine ext_getElem (by simp [fragmentPackets]) (fun i h₁ h₂ => ?_)
    simp [fragmentPackets]

end VctpTransport

def maxUdpPayload : Nat := 65507

theorem fragments_length (payload : Bytes) :
    (∀ fragment ∈ fragmentPayload payload, fragment.length ≤ min payload.length maxVctpPayload)
      ∧ ∃ fragment ∈ fragmentPayload payload,
          fragment.length = min payload.length maxVctpPayload := by
  unfold fragmentPayload
  split
  · next hsmall => simp [Nat.min_eq_left hsmall]
  · next hlarge =>
    have hmin : min payload.length maxVctpPayload = maxVctpPayload := Nat.min_eq_right (by omega)
    rw [hmin]
    constructor
    · intro fragment hmem
      obtain ⟨i, _, rfl⟩ := mem_map.mp hmem
      exact length_take_le _ _
    · refine ⟨chunk maxVctpPayload payload 0, mem_map.mpr ⟨0, ?_, rfl⟩, ?_⟩
      · rw [mem_range]
        unfold maxVctpPayload at hlarge ⊢
        omega
      · rw [chunk, length_take, Nat.zero_mul, drop_zero]
        omega

namespace VctpTransport

/-- **Datagrams fit UDP** iff the response has at most 65475 bytes. -/
theorem datagrams_fit_iff (t : VctpTransport) (responseBytes : Bytes) :
    (∀ datagram ∈ (t.sendResponse responseBytes).1, datagram.length ≤ maxUdpPayload)
      ↔ responseBytes.length ≤ 65475 := by
  have hlengths : (∀ datagram ∈ (t.sendResponse responseBytes).1, datagram.length ≤ maxUdpPayload)
      ↔ ∀ fragment ∈ fragmentPayload responseBytes, fragment.length + 32 ≤ maxUdpPayload := by
    have hall := congrArg (fun l => ∀ n ∈ l, n ≤ maxUdpPayload) (t.length_sendResponse responseBytes)
    simpa only [forall_mem_map, eq_iff_iff] using hall
  -- it is enough to look at the longest fragment
  obtain ⟨hmost, longest, hmem, hlongest⟩ := fragments_length responseBytes
  rw [hlengths]
  unfold maxUdpPayload
  unfold maxVctpPayload at hmost hlongest
  constructor
  · intro hfit
    have := hfit longest hmem
    omega
  · intro hshort fragment hfragment
    have := hmost fragment hfragment
    omega

theorem datagram_too_long :
    ¬ ∀ datagram ∈ (VctpTransport.sendResponse ⟨none, 1, 65536⟩ (List.replicate 65476 0)).1,
      datagram.length ≤ maxUdpPayload := by
  intro hfit
  have hlengths := length_sendResponse ⟨none, 1, 65536⟩ (List.replicate 65476 0)
  have hone : fragmentPayload (List.replicate 65476 0) = [List.replicate 65476 0] := by
    rw [fragmentPayload, if_pos]
    rw [length_replicate]
    decide
  rw [hone, map_singleton, length_replicate] at hlengths
  have hall : ∀ n ∈ (sendResponse ⟨none, 1, 65536⟩ (List.replicate 65476 0)).1.map List.length,
      n ≤ maxUdpPayload := forall_mem_map.mpr hfit
  rw [hlengths] at hall
  exact absurd (hall 65508 (mem_singleton_self _)) (by decide)

theorem sendResponse_eq (t : VctpTransport) (responseBytes : Bytes) :
    ∃ payloads, t.sendResponse responseBytes = t.sendPackets payloads
      ∧ payloads.map (·.2) = fragmentPayload responseBytes
      ∧ (maxVctpPayload < responseBytes.length → payloads = fragmentPackets responseBytes) := by
  unfold sendResponse
  split
  · next hsmall => exact ⟨_, rfl, by rw [fragmentPayload, if_pos hsmall]; rfl, fun h => by omega⟩
  · refine ⟨_, rfl, ext_getElem (by simp [fragmentPackets]) fun i h₁ h₂ => ?_, fun _ => rfl⟩
    simp [fragmentPackets]

/-! ### Reading what was sent -/

theorem recvDatagram_sendPacket {t r : VctpTransport} (hcipher : r.cipher = t.cipher)
    (received : Received) (workflowId : UInt64) (slabOffset : UInt32) {payload : Bytes}
    (hlen : payload.length < 2 ^ 32) (hbuffer : payload.length + 32 ≤ r.recvBufferSize) :
    ∃ packet, r.recvDatagram received (t.sendPacket workflowId slabOffset payload).1
        = received.accept packet
      ∧ packet.payload = payload ∧ packet.header.sequenceNumber = t.nextSequence
      ∧ packet.header.slabOffset = slabOffset := by
  let header := VctpPacketHeader.new t.nextSequence workflowId slabOffset
    (UInt32.ofNat payload.length)
  have hfield : (t.applyCipher payload t.nextSequence).length = header.payloadLength.toNat := by
    rw [length_applyCipher]
    show payload.length = (UInt32.ofNat payload.length).toNat
    rw [UInt32.toNat_ofNat', Nat.mod_eq_of_lt hlen]
  have hparse := fromBytes_append
    (p := new header (t.applyCipher payload t.nextSequence)) hfield []
  have hok : (new header (t.applyCipher payload t.nextSequence)).verifyChecksum = true :=
    beq_self_eq_true _
  rw [append_nil, if_pos ⟨rfl, hok⟩] at hparse
  have hsame : r.applyCipher = t.applyCipher := by
    funext data sequence
    rw [applyCipher, applyCipher, hcipher]
  have hclear : r.applyCipher (t.applyCipher payload t.nextSequence) t.nextSequence = payload := by
    rw [hsame, applyCipher_applyCipher]
  refine ⟨{ new header (t.applyCipher payload t.nextSequence) with
    payload := r.applyCipher (t.applyCipher payload t.nextSequence) t.nextSequence },
    ?_, hclear, rfl, rfl⟩
  have hsize := t.length_sendPacket workflowId slabOffset payload
  -- the magic of a packet is not that of an acknowledgement
  have hmagic : u32FromLeBytes ((t.sendPacket workflowId slabOffset payload).1.take 4)
      ≠ vctpAckMagic := by
    have htake : (t.sendPacket workflowId slabOffset payload).1.take 4 = u32ToLeBytes vctpMagic := by
      simp [sendPacket, new, toBytes, VctpPacketHeader.toBytes,
        VctpPacketHeader.new]
    rw [htake, u32FromLeBytes_toLeBytes]
    decide
  have hread : fromBytes (t.sendPacket workflowId slabOffset payload).1
      = some (new header (t.applyCipher payload t.nextSequence)) := hparse
  simp only [recvDatagram, take_of_length_le (hsize ▸ hbuffer), hsize, if_neg hmagic, hread]
  exact if_neg (by omega)

theorem recvPackets_sendPackets {r : VctpTransport} (payloads : List (UInt32 × Bytes))
    (hlen : ∀ p ∈ payloads, p.2.length < 2 ^ 32)
    (hbuffer : ∀ p ∈ payloads, p.2.length + 32 ≤ r.recvBufferSize) {t : VctpTransport}
    (hcipher : r.cipher = t.cipher) (received : Received) :
    ∃ packets : List VctpPacket, (t.sendPackets payloads).1.foldl r.recvDatagram received
        = packets.foldl Received.accept received
      ∧ packets.map (fun p => (p.header.slabOffset, p.payload)) = payloads
      ∧ packets.map (·.header.sequenceNumber)
        = payloads.mapIdx fun i _ => t.nextSequence + UInt64.ofNat i := by
  induction payloads generalizing t received with
  | nil => exact ⟨[], rfl, rfl, rfl⟩
  | cons p rest ih =>
    obtain ⟨slabOffset, payload⟩ := p
    obtain ⟨hfirst, hrest⟩ := forall_mem_cons.mp hlen
    obtain ⟨hroom, hrooms⟩ := forall_mem_cons.mp hbuffer
    obtain ⟨packet, hrecv, hpayload, hseq, hoffset⟩ :=
      recvDatagram_sendPacket hcipher received 0 slabOffset hfirst hroom
    obtain ⟨packets, hrecvs, hpayloads, hseqs⟩ :=
      ih hrest hrooms (t := (t.sendPacket 0 slabOffset payload).2) hcipher
        (received.accept packet)
    refine ⟨packet :: packets, ?_, ?_, ?_⟩
    · rw [foldl_cons, ← hrecvs, ← hrecv]
      rfl
    · rw [map_cons, hpayloads, hoffset, hpayload]
    · rw [map_cons, hseqs, hseq, mapIdx_cons]
      congr 1
      · exact (UInt64.add_zero _).symm
      · refine mapIdx_eq_mapIdx_iff.mpr fun i _ => ?_
        show t.nextSequence + 1 + _ = _
        rw [UInt64.ofNat_add, UInt64.add_assoc, UInt64.add_comm 1]
        rfl

theorem foldl_accept (packets : List VctpPacket) (received : Received) :
    packets.foldl Received.accept received
      = { received with
          packets := received.packets ++ packets
          acksSent := received.acksSent
            ++ packets.map fun p => .new p.header.sequenceNumber p.header.workflowId } := by
  induction packets generalizing received with
  | nil => simp
  | cons packet packets ih => simp [ih, Received.accept]

/-- **Responses** are read back by a peer with the same key whose buffer holds the datagrams, and
    each datagram is acknowledged. -/
theorem recvPackets_sendResponse {t r : VctpTransport} (hcipher : r.cipher = t.cipher)
    (responseBytes : Bytes)
    (hbuffer : min responseBytes.length maxVctpPayload + 32 ≤ r.recvBufferSize) :
    let received := r.recvPackets (t.sendResponse responseBytes).1
    (received.packets.map (·.payload)).flatten = responseBytes
      ∧ received.packets.map (·.header.sequenceNumber)
        = (fragmentPayload responseBytes).mapIdx (fun i _ => t.nextSequence + UInt64.ofNat i)
      ∧ (maxVctpPayload < responseBytes.length →
        received.packets.map (fun p => (p.header.slabOffset, p.payload))
          = fragmentPackets responseBytes)
      ∧ received.acksSent.map (·.ackSequence)
        = received.packets.map (·.header.sequenceNumber)
      ∧ received.acksReceived.length = 0 ∧ received.checksumFailures = 0 := by
  obtain ⟨payloads, hsend, hpayloads, hlarge⟩ := t.sendResponse_eq responseBytes
  have hmost : ∀ p ∈ payloads, p.2.length ≤ min responseBytes.length maxVctpPayload :=
    fun p hp => (fragments_length responseBytes).1 _ (hpayloads ▸ mem_map_of_mem hp)
  obtain ⟨packets, hrecv, hback, hseq⟩ := recvPackets_sendPackets payloads
    (fun p hp => by have := hmost p hp; unfold maxVctpPayload at this; omega)
    (fun p hp => by have := hmost p hp; omega) hcipher {}
  intro received
  have hreceived : received = packets.foldl Received.accept {} := by
    rw [← hrecv, ← hsend]
    rfl
  rw [foldl_accept] at hreceived
  have hsame : packets.map (·.payload) = fragmentPayload responseBytes := by
    rw [← hpayloads, ← hback, map_map]
    rfl
  rw [hreceived]
  refine ⟨?_, ?_, fun h => hback.trans (hlarge h), ?_, rfl, rfl⟩
  · rw [nil_append, hsame, flatten_fragmentPayload]
  · rw [nil_append, hseq, ← hpayloads]
    exact ext_getElem (by simp) fun i h₁ h₂ => by simp
  · simp [VctpAck.new]

theorem recvPackets_three :
    let cipher : VctpCipher := ⟨.replicate 32 5, 9⟩
    ((VctpTransport.mk (some cipher) 1 65536).recvPackets
        (VctpTransport.sendResponse ⟨some cipher, 7, 65536⟩ (replicate 130959 7)).1).packets.map
        (fun p => (p.header.slabOffset, p.payload))
      = [(encodeFragmentMeta 0 3, replicate 65479 7), (encodeFragmentMeta 1 3, replicate 65479 7),
        (encodeFragmentMeta 2 3, [7])] := by
  intro cipher
  generalize hpayload : replicate 130959 (7 : UInt8) = payload
  have hlen : payload.length = 130959 := hpayload ▸ length_replicate
  have hread := recvPackets_sendResponse (t := ⟨some cipher, 7, 65536⟩)
    (r := ⟨some cipher, 1, 65536⟩) rfl payload (by rw [hlen]; decide)
  rw [hread.2.2.1 (by rw [hlen]; decide), ← hpayload]
  exact fragmentPackets_replicate

end VctpTransport

end Velocity.Vctp.Wire
