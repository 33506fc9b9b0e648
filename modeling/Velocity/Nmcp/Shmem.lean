import Velocity.Nmcp.Frame

namespace Velocity.Nmcp

open Lib

/-!
# Shared-memory calls

Client and server over one ring; every read and write of the memory is a step.
-/

/-! ### Memory -/

def ringSlots : Nat := 64

def maxReqPayload : Nat := 4096 - 13

def maxResPayload : Nat := 4096 - 13

def pollLimit : Nat := 100000

def slotEmpty : UInt8 := 0

def slotReqReady : UInt8 := 1

def slotProcessing : UInt8 := 2

def slotResReady : UInt8 := 3

def slotError : UInt8 := 4

structure Slot where
  state : UInt8
  len : UInt32
  seq : UInt64
  payload : Bytes

def Slot.writePayload (slot : Slot) (data : Bytes) : Slot :=
  { slot with payload := data ++ slot.payload.drop data.length }

/-- The read index that the server also writes is never read. -/
structure Shmem where
  writeIdx : UInt32
  slots : Nat → Slot

def Shmem.modify (m : Shmem) (k : Nat) (f : Slot → Slot) : Shmem :=
  { m with slots := Function.update m.slots k (f (m.slots k)) }

/-! ### The two processes -/

inductive ClientPc where
  | idle
  | readIdx
  | waitEmpty (idx polls : Nat)
  | writeSeq (idx : Nat)
  | writePayload (idx : Nat)
  | writeLen (idx : Nat)
  | markReady (idx : Nat)
  | advance (idx : Nat)
  | waitRes (idx polls : Nat)
  | readLen (idx : Nat)
  | readPayload (idx : Nat) (len : UInt32)
  | markEmpty (idx : Nat) (data : Bytes)
  | returned (result : Except String NmcpFrame)
  deriving DecidableEq

/-- `since` counts the requests dispatched before the call. -/
structure Client where
  nextSeq : UInt32
  request : NmcpFrame
  pc : ClientPc
  since : Nat

inductive ServerPc where
  | initIdx
  | initSlot (i : Nat)
  | waitReq
  | markProcessing
  | readSeq
  | readLen (seq : UInt64)
  | readPayload (seq : UInt64) (len : UInt32)
  | dispatch (seq : UInt64) (data : Bytes)
  | writeLen (seq : UInt64) (resp : Bytes)
  | writePayload (seq : UInt64) (resp : Bytes)
  | writeSeq (seq : UInt64)
  | markReady
  | markError
  | waitConsumed
  | stopped

structure Server where
  readIdx : Nat
  pc : ServerPc

/-- `log` lists the requests the router was given, with its responses. -/
structure ShmemSystem (ρ : Type) where
  mem : Shmem
  client : Client
  server : Server
  router : ρ
  log : List (NmcpFrame × NmcpFrame)

/-- A call begins, a process takes a step, or the server shuts down. -/
inductive ShmemEvent where
  | call (frameType : UInt32) (payload : Bytes)
  | client
  | server
  | stop

namespace ShmemSystem

variable {ρ : Type}

def start (mem : Shmem) (router : ρ) : ShmemSystem ρ where
  mem := mem
  client := ⟨1, ⟨0, 0, []⟩, .idle, 0⟩
  server := ⟨0, .initIdx⟩
  router := router
  log := []

variable (s : ShmemSystem ρ)

def slot (k : Nat) : Slot := s.mem.slots k

def clientTo (pc : ClientPc) : ShmemSystem ρ :=
  { s with client := { s.client with pc := pc } }

def clientWrites (k : Nat) (f : Slot → Slot) (pc : ClientPc) : ShmemSystem ρ :=
  { s.clientTo pc with mem := s.mem.modify k f }

def serverTo (pc : ServerPc) : ShmemSystem ρ :=
  { s with server := { s.server with pc := pc } }

def serverWrites (f : Slot → Slot) (pc : ServerPc) : ShmemSystem ρ :=
  { s.serverTo pc with mem := s.mem.modify s.server.readIdx f }

def nextSlot : ShmemSystem ρ :=
  { s with server := ⟨(s.server.readIdx + 1) % ringSlots, .waitReq⟩ }

def beginCall (frameType : UInt32) (payload : Bytes) : ShmemSystem ρ :=
  let request : NmcpFrame := ⟨frameType, s.client.nextSeq, payload⟩
  let size := request.toBytes.length
  let pc :=
    if size > maxReqPayload then
      .returned (.error s!"request too large: {size} > {maxReqPayload}")
    else .readIdx
  { s with client := ⟨s.client.nextSeq + 1, request, pc, s.log.length⟩ }

def clientStep : ShmemSystem ρ :=
  let bytes := s.client.request.toBytes
  match s.client.pc with
  | .idle | .returned _ => s
  | .readIdx => s.clientTo (.waitEmpty s.mem.writeIdx.toNat 0)
  | .waitEmpty idx polls =>
    if (s.slot idx).state = slotEmpty then s.clientTo (.writeSeq idx)
    else if polls + 1 < pollLimit then s.clientTo (.waitEmpty idx (polls + 1))
    -- the wait is over and the slot is taken all the same
    else s.clientTo (.writeSeq idx)
  | .writeSeq idx =>
    s.clientWrites idx (fun slot => { slot with seq := s.client.request.sequenceId.toUInt64 })
      (.writePayload idx)
  | .writePayload idx => s.clientWrites idx (·.writePayload bytes) (.writeLen idx)
  | .writeLen idx =>
    s.clientWrites idx (fun slot => { slot with len := UInt32.ofNat bytes.length })
      (.markReady idx)
  | .markReady idx =>
    s.clientWrites idx (fun slot => { slot with state := slotReqReady }) (.advance idx)
  | .advance idx =>
    { s.clientTo (.waitRes idx 0) with
      mem := { s.mem with writeIdx := UInt32.ofNat ((idx + 1) % ringSlots) } }
  | .waitRes idx polls =>
    if (s.slot idx).state = slotResReady then s.clientTo (.readLen idx)
    else if (s.slot idx).state = slotError then s.clientTo (.returned (.error "server error"))
    else if polls + 1 < pollLimit then s.clientTo (.waitRes idx (polls + 1))
    -- the wait is over and the slot is read all the same
    else s.clientTo (.readLen idx)
  | .readLen idx => s.clientTo (.readPayload idx (s.slot idx).len)
  | .readPayload idx len => s.clientTo (.markEmpty idx ((s.slot idx).payload.take len.toNat))
  | .markEmpty idx data =>
    s.clientWrites idx (fun slot => { slot with state := slotEmpty })
      (.returned (match NmcpFrame.fromBytes data with
        | some frame => .ok frame
        | none => .error "invalid response frame"))

variable [NmcpCodec]

/-- A request that does not parse is answered without the router. -/
def respond (dispatch : ρ → NmcpFrame → NmcpFrame × ρ) (s : ShmemSystem ρ) (seq : UInt64)
    (data : Bytes) : NmcpFrame × ρ × List (NmcpFrame × NmcpFrame) :=
  match NmcpFrame.fromBytes data with
  | some frame =>
    let r := dispatch s.router frame
    (r.1, r.2, s.log ++ [(frame, r.1)])
  | none => (.errorResponse seq.toUInt32 400 "invalid NMCP frame", s.router, s.log)

def serverStep (dispatch : ρ → NmcpFrame → NmcpFrame × ρ) (s : ShmemSystem ρ) :
    ShmemSystem ρ :=
  let slot := s.slot s.server.readIdx
  match s.server.pc with
  | .initIdx => { s.serverTo (.initSlot 0) with mem := { s.mem with writeIdx := 0 } }
  | .initSlot i =>
    let s := { s with mem := s.mem.modify i (fun slot => { slot with state := slotEmpty }) }
    if i + 1 < ringSlots then s.serverTo (.initSlot (i + 1)) else s.serverTo .waitReq
  | .waitReq => if slot.state = slotReqReady then s.serverTo .markProcessing else s
  | .markProcessing => s.serverWrites (fun slot => { slot with state := slotProcessing }) .readSeq
  | .readSeq => s.serverTo (.readLen slot.seq)
  | .readLen seq =>
    if slot.len.toNat > maxReqPayload then s.serverTo .markError
    else s.serverTo (.readPayload seq slot.len)
  | .readPayload seq len => s.serverTo (.dispatch seq (slot.payload.take len.toNat))
  | .dispatch seq data =>
    let r := s.respond dispatch seq data
    { s.serverTo (.writeLen seq r.1.toBytes) with router := r.2.1, log := r.2.2 }
  | .writeLen seq resp =>
    s.serverWrites (fun slot => { slot with len := UInt32.ofNat (min resp.length maxResPayload) })
      (.writePayload seq resp)
  | .writePayload seq resp =>
    s.serverWrites (·.writePayload (resp.take (min resp.length maxResPayload))) (.writeSeq seq)
  | .writeSeq seq => s.serverWrites (fun slot => { slot with seq := seq }) .markReady
  | .markReady =>
    s.serverWrites (fun slot => { slot with state := slotResReady }) .waitConsumed
  | .markError =>
    { s with mem := s.mem.modify s.server.readIdx (fun slot => { slot with state := slotError }) }
      |>.nextSlot
  | .waitConsumed => if slot.state = slotEmpty then s.nextSlot else s
  | .stopped => s

/-- A call begins only when the one before has returned. -/
def step (dispatch : ρ → NmcpFrame → NmcpFrame × ρ) (s : ShmemSystem ρ) :
    ShmemEvent → ShmemSystem ρ
  | .call frameType payload =>
    match s.client.pc with
    | .idle | .returned _ => s.beginCall frameType payload
    | _ => s
  | .client => s.clientStep
  | .server => s.serverStep dispatch
  | .stop =>
    match s.server.pc with
    | .waitReq | .waitConsumed => s.serverTo .stopped
    | _ => s

end ShmemSystem

end Velocity.Nmcp
