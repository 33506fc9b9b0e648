import Velocity.Vctp.Server

namespace Velocity.Vctp

open Lib

/-!
# Requests on the two paths

`process_request` answers with the method id as the sequence number.
-/

variable {Addr : Type}

inductive Outcome where
  | silent
  | rejected (response : VctpRpcResponse)
  | dispatched (response : VctpRpcResponse)

namespace Outcome

def response : Outcome → Option VctpRpcResponse
  | silent => none
  | rejected response | dispatched response => some response

def isDispatched : Outcome → Bool
  | dispatched _ => true
  | silent | rejected _ => false

end Outcome

namespace VctpRpcServer

variable [Sha256] [VctpCodec] [DecidableEq Addr]

variable (s : VctpRpcServer Addr)

/-- The response that turns the request away, if a check fails. -/
def checkSecurity (clock : Clock) (addr : Addr) (request : VctpRpcRequest) (sequence : UInt64) :
    Option VctpRpcResponse × VctpRpcServer Addr :=
  match s.checkRateLimit addr clock with
  | (.error status, s) => (some (.err sequence status "rate limit exceeded"), s)
  | (.ok (), s) =>
    match s.checkAuth request clock with
    | .error status => (some (.err sequence status "authentication required"), s)
    | .ok () =>
      match s.checkIdempotency request sequence with
      | (.error status, s) => (some (.err sequence status "duplicate idempotency key"), s)
      | (.ok (), s) => (none, s)

def dispatchInflight (clock : Clock) (sequence : UInt64)
    (request : VctpRpcRequest) : VctpRpcResponse × VctpRpcServer Addr :=
  let inflight := s.inflightCount
  let s := { s with inflightCount := inflight + 1 }
  let s :=
    if inflight ≥ UInt64.ofNat s.circuitConfig.maxInflight then s.tripCircuitOpen clock else s
  let r := s.dispatch sequence request
  (r.1, recordSuccess { r.2 with inflightCount := r.2.inflightCount - 1 })

def processRequest (clock : Clock) (payload : Bytes) (addr : Addr) : Outcome × VctpRpcServer Addr :=
  if s.draining then
    match VctpCodec.parseRequest payload with
    | .error _ => (.silent, s)
    | .ok request => (.rejected (.err request.method 503 "server draining"), s)
  else
    match VctpCodec.parseRequest payload with
    | .error e => (.rejected (.err 0 400 s!"invalid request: {e}"), s)
    | .ok request =>
      let seq := request.method
      match s.checkCircuit clock with
      | (.error status, s) => (.rejected (.err seq status "service overloaded"), s)
      | (.ok (), s) =>
        match s.checkSecurity clock addr request seq with
        | (some response, s) => (.rejected response, s)
        | (none, s) =>
          let r := s.dispatchInflight clock seq request
          (.dispatched r.1, r.2)

def processComplete (clock : Clock) (payload : Bytes) (addr : Addr)
    (sequence : UInt64) : Outcome × VctpRpcServer Addr :=
  match VctpCodec.parseRequest payload with
  | .error e => (.rejected (.err sequence 400 s!"invalid request: {e}"), s)
  | .ok request =>
    match s.checkSecurity clock addr request sequence with
    | (some response, s) => (.rejected response, s)
    | (none, s) =>
      let r := s.dispatch sequence request
      (.dispatched r.1, r.2)

def handleFragment (clock : Clock) (addr : Addr) (index total : UInt16)
    (packet : VctpPacket) : Outcome × VctpRpcServer Addr :=
  let r := collectFragment s.fragBuf addr index total packet.payload
  let s := { s with fragBuf := r.2 }
  match r.1 with
  | none => (.silent, s)
  | some payload => s.processComplete clock payload addr packet.sequenceNumber

/-- Fragments are answered at once, others when released. -/
def answer (clock : Clock) (addr : Addr) (packet : VctpPacket) : Outcome × VctpRpcServer Addr :=
  let fragment := decodeFragmentMeta packet.slabOffset
  if packet.isFragment then s.handleFragment clock addr fragment.1 fragment.2 packet
  else s.processRequest clock packet.payload addr

/-! ### Correlation -/

variable {s} {clock : Clock} {addr : Addr}

omit [Sha256] in
theorem sequence_checkSecurity {s' : VctpRpcServer Addr}
    {request : VctpRpcRequest} {seq : UInt64} {response : VctpRpcResponse}
    (h : s.checkSecurity clock addr request seq = (some response, s')) :
    response.sequence = seq := by
  unfold checkSecurity at h
  repeat' split at h
  all_goals simp only [Prod.mk.injEq, Option.some.injEq, reduceCtorEq, false_and] at h
  all_goals rw [← h.1, VctpRpcResponse.sequence_err]

theorem sequence_processComplete (s : VctpRpcServer Addr) (clock : Clock) (payload : Bytes)
    (addr : Addr) (seq : UInt64) :
    ∃ r, (s.processComplete clock payload addr seq).1.response = some r ∧ r.sequence = seq := by
  unfold processComplete
  split
  · exact ⟨_, rfl, rfl⟩
  · split
    · next hcheck => exact ⟨_, rfl, sequence_checkSecurity hcheck⟩
    · exact ⟨_, rfl, sequence_dispatch _ _ _⟩

theorem sequence_processRequest {payload : Bytes} {request : VctpRpcRequest}
    (hparse : VctpCodec.parseRequest payload = .ok request) (s : VctpRpcServer Addr)
    (clock : Clock) (addr : Addr) :
    ∃ r, (s.processRequest clock payload addr).1.response = some r
      ∧ r.sequence = request.method := by
  unfold processRequest
  simp only [hparse]
  split
  · exact ⟨_, rfl, rfl⟩
  · split
    · exact ⟨_, rfl, rfl⟩
    · split
      · next hcheck => exact ⟨_, rfl, sequence_checkSecurity hcheck⟩
      · exact ⟨_, rfl, sequence_dispatch _ _ _⟩

/-- A response has the sequence number of its packet. -/
def Correlated (s : VctpRpcServer Addr) (clock : Clock) (addr : Addr) (packet : VctpPacket) :
    Prop :=
  ∀ r, (s.answer clock addr packet).1.response = some r → r.sequence = packet.sequenceNumber

/-- A fragment, or numbered as `process_request` does. -/
def NumberStandsIn (s : VctpRpcServer Addr) (packet : VctpPacket) : Prop :=
  packet.isFragment = true ∨
    match VctpCodec.parseRequest packet.payload with
    | .ok request => request.method = packet.sequenceNumber
    | .error _ => s.draining = true ∨ packet.sequenceNumber = 0

theorem correlated_of_some {packet : VctpPacket} {r : VctpRpcResponse}
    (h : (s.answer clock addr packet).1.response = some r) :
    s.Correlated clock addr packet ↔ r.sequence = packet.sequenceNumber := by
  constructor
  · intro hcorr
    exact hcorr r h
  · intro hr r' hr'
    rw [h, Option.some.injEq] at hr'
    rw [← hr', hr]

theorem correlated_of_isFragment
    {packet : VctpPacket} (h : packet.isFragment = true) : s.Correlated clock addr packet := by
  intro r hr
  simp only [answer, h, if_true, handleFragment] at hr
  split at hr
  · simp [Outcome.response] at hr
  · obtain ⟨r', hr', hseq⟩ := sequence_processComplete _ clock _ addr packet.sequenceNumber
    rw [hr', Option.some.injEq] at hr
    rw [← hr, hseq]

/-- **Correlation** holds for fragments and for packets numbered as `process_request` numbers
    them. -/
theorem correlated_iff (addr : Addr) :
    (∀ (s : VctpRpcServer Addr) (clock : Clock) (packet : VctpPacket),
      s.Correlated clock addr packet ↔ s.NumberStandsIn packet)
    ∧ ∀ (s s' : VctpRpcServer Addr) (clock clock' : Clock) (packet packet' : VctpPacket)
        (r r' : VctpRpcResponse),
        s.NumberStandsIn packet → s'.NumberStandsIn packet' →
        packet.sequenceNumber ≠ packet'.sequenceNumber →
        (s.answer clock addr packet).1.response = some r →
        (s'.answer clock' addr packet').1.response = some r' → r.sequence ≠ r'.sequence := by
  have hiff : ∀ (s : VctpRpcServer Addr) (clock : Clock) (packet : VctpPacket),
      s.Correlated clock addr packet ↔ s.NumberStandsIn packet := by
    intro s clock packet
    unfold NumberStandsIn
    by_cases hfrag : packet.isFragment = true
    · simp [hfrag, correlated_of_isFragment hfrag]
    · have hanswer : s.answer clock addr packet = s.processRequest clock packet.payload addr :=
        if_neg hfrag
      cases hparse : VctpCodec.parseRequest packet.payload with
      | ok request =>
        obtain ⟨r, hr, hseq⟩ := sequence_processRequest hparse s clock addr
        rw [correlated_of_some (hanswer ▸ hr), hseq]
        simp [hfrag]
      | error e =>
        -- not answered while the server drains
        simp only [Correlated, hanswer, processRequest, hparse]
        by_cases hdrain : s.draining = true
        · simp [hdrain, Outcome.response]
        · simp [hdrain, hfrag, Outcome.response, eq_comm]
  refine ⟨hiff, ?_⟩
  intro s s' clock clock' packet packet' r r' h h' hne hr hr'
  rw [(hiff s clock packet).mpr h r hr, (hiff s' clock' packet').mpr h' r' hr']
  exact hne

end VctpRpcServer

def healthCheckJson : Bytes := utf8 "\x7b\"method\":500\x7d"

@[reducible] def healthCheckCodec : VctpCodec where
  parseRequest bytes :=
    if bytes = healthCheckJson then .ok { method := VctpMethods.healthCheck }
    else .error "expected value at line 1 column 1"
  parseClaims _ := none
  defaultHash _ := 0

theorem health_checks_share_sequence :
    letI := healthCheckCodec
    let s : VctpRpcServer Nat := .new (.new none .strict 0)
    [1, 2].map (fun n => (s.answer ⟨0, 0⟩ 7 ⟨n, 0, healthCheckJson⟩).1.response.map
      (·.sequence)) = [some 500, some 500] := by
  have hparse : healthCheckCodec.parseRequest healthCheckJson
      = .ok { method := VctpMethods.healthCheck } := if_pos rfl
  simp [VctpRpcServer.answer, VctpPacket.isFragment, decodeFragmentMeta,
    VctpRpcServer.processRequest, hparse]
  decide

end Velocity.Vctp
