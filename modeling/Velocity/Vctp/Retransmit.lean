import Mathlib.Data.List.Nodup
import Velocity.Lib.LittleEndian
import Velocity.Lib.Run
import Velocity.Lib.WordBits

namespace Velocity.Vctp

open Lib List
open scoped List

/-!
# The retransmission tracker

The tracker, and beside it a ledger of what became of each number.

* `VctpRetransmitTracker`: sends, acknowledgements, retransmissions and expiry.
* `Accounted`: the ledger agrees with it; `retransmission_accounting` reads it off.
-/

structure PendingPacket where
  sequence : UInt64
  packetBytes : Bytes
  sendTime : UInt64
  retries : UInt32
  deriving DecidableEq

structure VctpRetransmitTracker where
  pending : List PendingPacket
  rttMs : UInt64
  maxRetries : UInt32
  rtoMultiplier : UInt32

namespace VctpRetransmitTracker

def new : VctpRetransmitTracker := ⟨[], 50, 5, 2⟩

variable (t : VctpRetransmitTracker)

def trackSend (sequence : UInt64) (packetBytes : Bytes) (nowMs : UInt64) : VctpRetransmitTracker :=
  { t with pending := t.pending ++ [⟨sequence, packetBytes, nowMs, 0⟩] }

def processAck (ackSequence nowMs : UInt64) : Option UInt64 × VctpRetransmitTracker :=
  match t.pending.find? (fun e => e.sequence == ackSequence) with
  | some e =>
    let rtt := saturatingSub nowMs e.sendTime
    -- `Vec::remove` takes the first entry with the number only
    (some rtt, { t with
      pending := t.pending.eraseP (fun e => e.sequence == ackSequence)
      rttMs := (t.rttMs * 7 + rtt) / 8 })
  | none => (none, t)

def isDue (nowMs : UInt64) (e : PendingPacket) : Bool :=
  let rto := t.rttMs * t.rtoMultiplier.toUInt64
  decide (saturatingSub nowMs e.sendTime > rto) && decide (e.retries < t.maxRetries)

def getRetransmissions (nowMs : UInt64) : List (UInt64 × Bytes) × VctpRetransmitTracker :=
  ((t.pending.filter (t.isDue nowMs)).map (fun e => (e.sequence, e.packetBytes)),
    { t with
      pending := t.pending.map (fun e =>
        if t.isDue nowMs e then { e with retries := e.retries + 1, sendTime := nowMs } else e) })

def removeExpired : List UInt64 × VctpRetransmitTracker :=
  ((t.pending.filter (fun e => decide (e.retries ≥ t.maxRetries))).map PendingPacket.sequence,
    { t with pending := t.pending.filter (fun e => !decide (e.retries ≥ t.maxRetries)) })

def pendingSeqs : List UInt64 := t.pending.map PendingPacket.sequence

end VctpRetransmitTracker

inductive TrackerCall where
  | trackSend (sequence : UInt64) (packetBytes : Bytes) (nowMs : UInt64)
  | processAck (ackSequence nowMs : UInt64)
  | getRetransmissions (nowMs : UInt64)
  | removeExpired

namespace TrackerCall

def nowMs : TrackerCall → UInt64
  | .trackSend _ _ now => now
  | .processAck _ now => now
  | .getRetransmissions now => now
  | .removeExpired => 0

end TrackerCall

/-- The tracker with the ledger of its calls. -/
structure Tracked where
  tracker : VctpRetransmitTracker
  sent : List UInt64
  acknowledged : List UInt64
  retransmitted : List UInt64
  expired : List UInt64

namespace Tracked

def start : Tracked := ⟨.new, [], [], [], []⟩

def returned (s : Tracked) : TrackerCall → List UInt64
  | .getRetransmissions now => (s.tracker.getRetransmissions now).1.map Prod.fst
  | _ => []

def step (s : Tracked) (call : TrackerCall) : Tracked :=
  match call with
  | .trackSend sequence packetBytes now =>
    { s with
      tracker := s.tracker.trackSend sequence packetBytes now
      sent := s.sent ++ [sequence] }
  | .processAck ackSequence now =>
    let r := s.tracker.processAck ackSequence now
    { s with
      tracker := r.2
      acknowledged := if r.1.isSome then s.acknowledged ++ [ackSequence] else s.acknowledged }
  | .getRetransmissions now =>
    { s with
      tracker := (s.tracker.getRetransmissions now).2
      retransmitted := s.retransmitted ++ s.returned (.getRetransmissions now) }
  | .removeExpired =>
    { s with
      tracker := s.tracker.removeExpired.2
      expired := s.expired ++ s.tracker.removeExpired.1 }

/-! ### One call -/

structure Accounted (s : Tracked) : Prop where
  distinct : s.sent.Nodup
  placed : (s.tracker.pendingSeqs ++ s.acknowledged ++ s.expired).Perm s.sent
  retries_eq : ∀ e ∈ s.tracker.pending, s.retransmitted.count e.sequence = e.retries.toNat
  retries_le : ∀ seq, s.retransmitted.count seq ≤ s.tracker.maxRetries.toNat
  unsent : ∀ seq, seq ∉ s.sent → s.retransmitted.count seq = 0

variable {s : Tracked}

variable {seq : UInt64}

variable {e : PendingPacket}

end Tracked

end Velocity.Vctp
