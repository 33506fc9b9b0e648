import Velocity.Engine.Ops
import Velocity.Vctp.Delivery
import Velocity.Vctp.Envelope

namespace Velocity.Vctp

open Lib VctpMethods VctpRpcResponse

/-!
# The VCTP server

Checks and method handlers. Statistics, heartbeat and database adapter are left out.

* `VctpRpcServer`: workflow map, clients, circuit and the engine behind them.
* `dispatch`: the method handlers; every answer has the number of its request.
-/

variable {Addr : Type}

/-! ### State -/

structure VctpSecurityConfig where
  authRequired : Bool := false
  jwtSecret : Option String := none
  jwtIssuer : Option String := none
  jwtAudience : Option String := none
  apiKeys : List String := []
  rateLimitRps : UInt32 := 0
  rateLimitBurst : UInt32 := 0

structure ClientRateState where
  tokens : Float
  lastCheck : Nat

inductive VctpCircuitState where
  | closed
  | opened
  | halfOpen
  deriving DecidableEq, Repr

structure VctpCircuitConfig where
  maxInflight : Nat := 10000
  cooldownMs : UInt64 := 5000
  successThreshold : UInt32 := 3

structure VctpRpcServer (Addr : Type) where
  engine : WorkflowEngine
  workflowMap : AList (fun _ : String => UInt64)
  workflowCounter : UInt64
  namespaceCounter : UInt64
  fragBuf : FragBuf Addr
  security : VctpSecurityConfig
  rateState : Addr → Option ClientRateState
  idempotencyCache : String → Option UInt64
  circuitState : VctpCircuitState
  circuitConfig : VctpCircuitConfig
  circuitOpenedAt : Option Nat
  circuitHalfOpenSuccesses : UInt64
  inflightCount : UInt64
  reorderBuf : ReorderBuffer Addr
  draining : Bool

/-- Monotonic nanoseconds, and seconds since the epoch. -/
structure Clock where
  instant : Nat
  unixSecs : Int64

namespace VctpRpcServer

def withSecurity (engine : WorkflowEngine) (security : VctpSecurityConfig) :
    VctpRpcServer Addr where
  engine := engine
  workflowMap := ∅
  workflowCounter := 1
  namespaceCounter := 1
  fragBuf := fun _ => none
  security := security
  rateState := fun _ => none
  idempotencyCache := fun _ => none
  circuitState := .closed
  circuitConfig := {}
  circuitOpenedAt := none
  circuitHalfOpenSuccesses := 0
  inflightCount := 0
  reorderBuf := ReorderBuffer.new 64
  draining := false

def new (engine : WorkflowEngine) : VctpRpcServer Addr := withSecurity engine {}

variable (s : VctpRpcServer Addr) (seq : UInt64) (req : VctpRpcRequest)

def beginDrain : VctpRpcServer Addr := { s with draining := true }

/-! ### Security checks -/

def claimsAccepted (security : VctpSecurityConfig) (claims : JwtClaims) (now : Int64) : Bool :=
  !decide (claims.exp < now)
    && security.jwtIssuer.all (fun iss => claims.iss == some iss)
    && security.jwtAudience.all (fun aud => claims.aud == some aud)

def tokenAccepted [VctpCodec] (security : VctpSecurityConfig) (token secret : String)
    (now : Int64) : Bool :=
  match token.splitOn "." with
  | [header, payload, signature] =>
    if signature ≠ computeHmacSha256 (header ++ "." ++ payload) secret then false
    else
      match VctpCodec.parseClaims (base64UrlDecode payload) with
      | some claims => claimsAccepted security claims now
      | none => false
  | _ => false

def checkAuth [VctpCodec] (request : VctpRpcRequest) (clock : Clock) : Except UInt32 Unit :=
  if !s.security.authRequired then .ok ()
  else if request.method = healthCheck then .ok ()
  else
    match request.apiKey, request.authToken, s.security.jwtSecret with
    -- a key that is there and wrong is not made up for by a token
    | some key, _, _ => if s.security.apiKeys.any (· == key) then .ok () else .error 401
    | none, some token, some secret =>
      if tokenAccepted s.security token secret clock.unixSecs then .ok () else .error 401
    | none, _, _ => .error 401

def asSecsF64 (nanos : Nat) : Float :=
  (nanos / 1000000000).toFloat + (nanos % 1000000000).toFloat / 1000000000.0

def checkRateLimit [DecidableEq Addr] (addr : Addr) (clock : Clock) :
    Except UInt32 Unit × VctpRpcServer Addr :=
  if s.security.rateLimitRps = 0 then (.ok (), s)
  else
    let rps := s.security.rateLimitRps.toNat.toFloat
    let burst :=
      if s.security.rateLimitBurst > 0 then s.security.rateLimitBurst.toNat.toFloat else rps
    let state := (s.rateState addr).getD ⟨burst, clock.instant⟩
    let refilled := state.tokens + asSecsF64 (clock.instant - state.lastCheck) * rps
    let tokens := if refilled < burst then refilled else burst
    let put (tokens : Float) : VctpRpcServer Addr :=
      { s with rateState := Function.update s.rateState addr (some ⟨tokens, clock.instant⟩) }
    if tokens ≥ 1.0 then (.ok (), put (tokens - 1.0)) else (.error 429, put tokens)

def checkIdempotency (request : VctpRpcRequest) (sequence : UInt64) :
    Except UInt32 Unit × VctpRpcServer Addr :=
  match request.idempotencyKey with
  | none => (.ok (), s)
  | some key =>
    if (s.idempotencyCache key).isSome then (.error 409, s)
    else
      (.ok (),
        { s with idempotencyCache := Function.update s.idempotencyCache key (some sequence) })

/-! ### Circuit breaker -/

def cooledDown (clock : Clock) : Bool :=
  s.circuitOpenedAt.any (fun opened =>
    decide (UInt64.ofNat ((clock.instant - opened) / 1000000) ≥ s.circuitConfig.cooldownMs))

def checkCircuit (clock : Clock) : Except UInt32 Unit × VctpRpcServer Addr :=
  match s.circuitState with
  | .closed | .halfOpen => (.ok (), s)
  | .opened =>
    if s.cooledDown clock then
      (.ok (), { s with circuitState := .halfOpen, circuitHalfOpenSuccesses := 0 })
    else (.error 503, s)

def recordSuccess : VctpRpcServer Addr :=
  if s.circuitState = .halfOpen then
    let successes := s.circuitHalfOpenSuccesses + 1
    let s := { s with circuitHalfOpenSuccesses := successes }
    if successes ≥ s.circuitConfig.successThreshold.toUInt64 then
      { s with circuitState := .closed, circuitOpenedAt := none }
    else s
  else s

def tripCircuitOpen (clock : Clock) : VctpRpcServer Addr :=
  { s with circuitState := .opened, circuitOpenedAt := some clock.instant }

/-! ### Method handlers -/

def withWorkflow (workflowId : String) (found : UInt64 → VctpRpcResponse × VctpRpcServer Addr) :
    VctpRpcResponse × VctpRpcServer Addr :=
  match s.workflowMap.lookup workflowId with
  | none => (.err seq 404 "workflow not found", s)
  | some key => found key

theorem sequence_withWorkflow (workflowId : String)
    {found : UInt64 → VctpRpcResponse × VctpRpcServer Addr}
    (h : ∀ key, (found key).1.sequence = seq) :
    (s.withWorkflow seq workflowId found).1.sequence = seq := by
  unfold withWorkflow
  split
  · rfl
  · exact h _

def signalNameOf : String := req.signalName.getD "unknown"

def handleSignalWorkflow : VctpRpcResponse × VctpRpcServer Addr :=
  s.withWorkflow seq req.workflowId (fun key =>
    let signalId := lenAsU64 (signalNameOf req)
    (.ok seq,
      { s with engine := s.engine.signalWorkflow key signalId (req.payload.getD []) }))

theorem sequence_handleSignalWorkflow : (s.handleSignalWorkflow seq req).1.sequence = seq :=
  sequence_withWorkflow s seq _ (fun _ => rfl)

theorem sequence_ite {seq : UInt64} {c : Prop} [Decidable c]
    {a b : VctpRpcResponse × VctpRpcServer Addr} (ha : a.1.sequence = seq)
    (hb : b.1.sequence = seq) : (if c then a else b).1.sequence = seq := by
  split
  · exact ha
  · exact hb

section Handlers

variable [Sha256]

variable (s : VctpRpcServer Addr) (seq : UInt64) (req : VctpRpcRequest)

/-- The ids come from counters; that of namespaces moves with every start. -/
def beginStart : (String × UInt64) × VctpRpcServer Addr :=
  let unnamed := req.workflowId = ""
  let counter := s.workflowCounter
  let wfId := if unnamed then s!"wf-{counter}" else req.workflowId
  let wfIdNum := if unnamed then counter + 1 else counter
  let wfTypeId := lenAsU64 (req.workflowType.getD "Unknown")
  let totalSteps := req.totalSteps.getD 10
  let r := s.engine.startWorkflow wfIdNum wfTypeId s.namespaceCounter
    (lenAsU64 req.namespaceName) totalSteps none
  ((wfId, r.1), { s with
    engine := r.2
    workflowMap := s.workflowMap.insert wfId r.1
    workflowCounter := wfIdNum + 1
    namespaceCounter := s.namespaceCounter + 1 })

def runToCompletion (e : WorkflowEngine) (key : UInt64) : WorkflowEngine :=
  let total := e.getTotalSteps key
  let e := (List.range total.toNat).foldl (fun e step => e.persistStep key (UInt32.ofNat step)) e
  e.completeWorkflow key (some [])

def handleStartWorkflow : VctpRpcResponse × VctpRpcServer Addr :=
  let started := s.beginStart req
  let wfId := started.1.1
  let key := started.1.2
  (((ok seq).withWorkflow wfId s!"run-{key}").withStatus "COMPLETED",
    { started.2 with engine := runToCompletion started.2.engine key })

def handleQueryWorkflow : VctpRpcResponse × VctpRpcServer Addr :=
  s.withWorkflow seq req.workflowId (fun key =>
    ((ok seq).withStatus (statusToStr (s.engine.getStatus key)), s))

def handleCancelWorkflow : VctpRpcResponse × VctpRpcServer Addr :=
  s.withWorkflow seq req.workflowId (fun key =>
    (.ok seq, { s with engine := s.engine.cancelWorkflow key }))

def handleTerminateWorkflow : VctpRpcResponse × VctpRpcServer Addr :=
  s.withWorkflow seq req.workflowId (fun key =>
    (.ok seq, { s with engine := s.engine.terminateWorkflow key }))

def handleDescribeWorkflow : VctpRpcResponse × VctpRpcServer Addr :=
  s.withWorkflow seq req.workflowId (fun key =>
    (((ok seq).withWorkflow req.workflowId s!"run-{key}").withStatus
      (statusToStr (s.engine.getStatus key)), s))

def handleCompleteWorkflow : VctpRpcResponse × VctpRpcServer Addr :=
  s.withWorkflow seq req.workflowId (fun key =>
    (.ok seq, { s with engine := s.engine.completeWorkflow key req.payload }))

def handleUpdateWorkflow : VctpRpcResponse × VctpRpcServer Addr := (.ok seq, s)

def handleResetWorkflow : VctpRpcResponse × VctpRpcServer Addr :=
  let resetId := s.workflowCounter
  ((ok seq).withWorkflow req.workflowId s!"reset-{resetId}",
    { s with workflowCounter := s.workflowCounter + 1 })

def handleHealthCheck : VctpRpcResponse × VctpRpcServer Addr :=
  ((ok seq).withStatus "healthy", s)

def handleCountWorkflows : VctpRpcResponse × VctpRpcServer Addr :=
  ((ok seq).withCount (UInt64.ofNat (size s.workflowMap)), s)

def batchSignals (e : WorkflowEngine) (key signalId : UInt64) (template : Bytes)
    (count : UInt32) : WorkflowEngine :=
  (List.range count.toNat).foldl
    (fun e i => e.signalWorkflow key signalId (template ++ u32ToLeBytes (UInt32.ofNat i))) e

def handleBatchSignal : VctpRpcResponse × VctpRpcServer Addr :=
  s.withWorkflow seq req.workflowId (fun key =>
    let signalId := lenAsU64 (signalNameOf req)
    let count := req.signalCount.getD 1
    ((ok seq).withCount count.toUInt64,
      { s with engine := batchSignals s.engine key signalId (req.payload.getD []) count }))

def handleSignalWithStart : VctpRpcResponse × VctpRpcServer Addr :=
  let started := s.handleStartWorkflow seq req
  if started.1.status ≠ 0 then started else started.2.handleSignalWorkflow seq req

def handleRegisterNamespace : VctpRpcResponse × VctpRpcServer Addr :=
  ((ok seq).withStatus "REGISTERED",
    { s with namespaceCounter := s.namespaceCounter + 1 })

def handleDescribeNamespace : VctpRpcResponse × VctpRpcServer Addr :=
  (((ok seq).withWorkflow req.namespaceName "").withStatus "REGISTERED", s)

def dispatch (sequence : UInt64) (req : VctpRpcRequest) : VctpRpcResponse × VctpRpcServer Addr :=
  let method := req.method
  if method = startWorkflow then s.handleStartWorkflow sequence req
  else if method = signalWorkflow then s.handleSignalWorkflow sequence req
  else if method = queryWorkflow then s.handleQueryWorkflow sequence req
  else if method = cancelWorkflow then s.handleCancelWorkflow sequence req
  else if method = terminateWorkflow then s.handleTerminateWorkflow sequence req
  else if method = describeWorkflow then s.handleDescribeWorkflow sequence req
  else if method = completeWorkflow then s.handleCompleteWorkflow sequence req
  else if method = updateWorkflow then s.handleUpdateWorkflow sequence
  else if method = resetWorkflow then s.handleResetWorkflow sequence req
  else if method = healthCheck then s.handleHealthCheck sequence
  else if method = countWorkflows then s.handleCountWorkflows sequence
  else if method = batchSignal then s.handleBatchSignal sequence req
  else if method = signalWithStart then s.handleSignalWithStart sequence req
  else if method = registerNamespace then s.handleRegisterNamespace sequence
  else if method = describeNamespace then s.handleDescribeNamespace sequence req
  else (.err sequence 404 s!"unknown method: {method}", s)

theorem sequence_handleSignalWithStart : (s.handleSignalWithStart seq req).1.sequence = seq :=
  sequence_ite rfl (sequence_handleSignalWorkflow _ seq req)

theorem sequence_dispatch : (s.dispatch seq req).1.sequence = seq := by
  -- start, signal, query, cancel, terminate, describe and complete
  refine sequence_ite rfl (sequence_ite (sequence_handleSignalWorkflow s seq req) ?_)
  refine sequence_ite (sequence_withWorkflow s seq _ (fun _ => rfl)) ?_
  refine sequence_ite (sequence_withWorkflow s seq _ (fun _ => rfl)) ?_
  refine sequence_ite (sequence_withWorkflow s seq _ (fun _ => rfl)) ?_
  refine sequence_ite (sequence_withWorkflow s seq _ (fun _ => rfl)) ?_
  refine sequence_ite (sequence_withWorkflow s seq _ (fun _ => rfl)) ?_
  -- update, reset, health check and count
  refine sequence_ite rfl (sequence_ite rfl (sequence_ite rfl (sequence_ite rfl ?_)))
  -- batches, namespaces and an unknown method
  refine sequence_ite (sequence_withWorkflow s seq _ (fun _ => rfl)) ?_
  refine sequence_ite (sequence_handleSignalWithStart s seq req) ?_
  exact sequence_ite rfl (sequence_ite rfl rfl)

end Handlers

end VctpRpcServer

end Velocity.Vctp
