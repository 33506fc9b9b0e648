import Velocity.Engine.Isolation
import Velocity.Nmcp.Frame
import Velocity.Vctp.Server

namespace Velocity.Nmcp

open Lib
open Embedded (Value)
open Vctp

/-!
# Signals by name

The handlers pass the length of a signal's name as its id.
-/

/-! ### The NMCP routers -/

structure NmcpFrameRouter where
  engine : WorkflowEngine
  workflowMap : AList (fun _ : String => UInt64)

namespace NmcpFrameRouter

variable [NmcpCodec]

def signalled (sequenceId : UInt32) : NmcpFrame :=
  .jsonResponse sequenceId (.object [("success", .bool true)])

def handleSignalWith (notFound : NmcpFrame → String → NmcpFrame) (r : NmcpFrameRouter)
    (frame : NmcpFrame) : NmcpFrame × NmcpFrameRouter :=
  match NmcpCodec.parseBody frame.payload with
  | .error e => (.errorResponse frame.sequenceId 400 s!"invalid JSON: {e}", r)
  | .ok body =>
    match body.workflowId with
    | none => (.errorResponse frame.sequenceId 400 "missing workflow_id", r)
    | some wfId =>
      let signalId := lenAsU64 (body.signalName.getD "unknown")
      match r.workflowMap.lookup wfId with
      | none => (notFound frame wfId, r)
      | some key =>
        let data := NmcpCodec.toVec (body.input.getD .null)
        (signalled frame.sequenceId,
          { r with engine := r.engine.signalWorkflow key signalId data })

def handleSignal (r : NmcpFrameRouter) (frame : NmcpFrame) : NmcpFrame × NmcpFrameRouter :=
  r.handleSignalWith (fun _ wfId => .errorResponse 0 404 s!"workflow not found: {wfId}") frame

def handleSignalClassic (r : NmcpFrameRouter) (frame : NmcpFrame) :
    NmcpFrame × NmcpFrameRouter :=
  r.handleSignalWith (fun frame _ => .errorResponse frame.sequenceId 404 "workflow not found")
    frame

end NmcpFrameRouter

end Velocity.Nmcp

namespace Velocity.WorkflowEngine

open Lib

/-! ### Taking pending signals -/

def takeSignals (e : WorkflowEngine) (key signalNameId : UInt64) : Nat → List Bytes
  | 0 => []
  | n + 1 =>
    match e.takeSignal key signalNameId with
    | (none, _) => []
    | (some payload, e) => payload :: e.takeSignals key signalNameId n

variable (e : WorkflowEngine)

def queuedSignals (key signalNameId : UInt64) : List Bytes :=
  ((e.workflows.lookup key).map (·.signalBuffer.queued signalNameId)).getD []

theorem takeSignal_queued (key id : UInt64) :
    (e.takeSignal key id).1 = (e.queuedSignals key id).head?
      ∧ (e.takeSignal key id).2.queuedSignals key id = (e.queuedSignals key id).tail := by
  have hsnd : (e.takeSignal key id).2.workflows.lookup key
      = (e.workflows.lookup key).map (fun ctx => (ctx.takeSignal id).2) := by
    have := WorkflowContextPool.lookup_withMut e.workflows key none (·.takeSignal id) key
    rw [if_pos rfl] at this
    exact this
  have hfst : (e.takeSignal key id).1
      = (e.workflows.lookup key).elim none (fun ctx => (ctx.takeSignal id).1) :=
    WorkflowContextPool.withMut_fst e.workflows key none (·.takeSignal id)
  simp only [queuedSignals, hsnd, hfst]
  cases e.workflows.lookup key with
  | none => simp
  | some ctx =>
    have hpop := ctx.signalBuffer.popFront_queued id
    simpa [WorkflowContext.takeSignal] using hpop

theorem takeSignals_eq (key id : UInt64) (n : Nat) :
    e.takeSignals key id n = (e.queuedSignals key id).take n := by
  induction n generalizing e with
  | zero => rfl
  | succ n ih =>
    obtain ⟨hfst, hsnd⟩ := e.takeSignal_queued key id
    rw [takeSignals]
    rcases htake : e.takeSignal key id with ⟨payload, e'⟩
    rw [htake] at hfst hsnd
    simp only at hfst hsnd
    cases hq : e.queuedSignals key id with
    | nil =>
      rw [hq] at hfst
      subst hfst
      rfl
    | cons p rest =>
      rw [hq] at hfst hsnd
      subst hfst
      simp [ih, hsnd]

theorem queuedSignals_signalWorkflow_of_ne {n id : UInt64} (hid : id ≠ n)
    (k key : UInt64) (payload : Bytes) :
    (e.signalWorkflow k n payload).queuedSignals key id = e.queuedSignals key id := by
  have hlookup : (e.signalWorkflow k n payload).workflows.lookup key
      = if key = k then (e.workflows.lookup key).map (·.signalIfRunning n payload)
        else e.workflows.lookup key := by
    rw [workflows_signalWorkflow]
    exact WorkflowContextPool.lookup_modify e.workflows k (·.signalIfRunning n payload) key
  have hbuffer : ∀ ctx : WorkflowContext,
      (ctx.signalIfRunning n payload).signalBuffer.queued id = ctx.signalBuffer.queued id := by
    intro ctx
    unfold WorkflowContext.signalIfRunning
    split
    · rfl
    · exact ctx.signalBuffer.queued_push_of_ne hid payload
  unfold queuedSignals
  rw [hlookup]
  split
  · rw [Option.map_map]
    simp only [Function.comp_def, hbuffer]
  · rfl

theorem mem_queuedSignals_signalWorkflow {e : WorkflowEngine} {key : UInt64}
    {ctx : WorkflowContext} (hctx : e.workflows.lookup key = some ctx)
    (hrunning : ctx.status = .running) (id : UInt64) (payload : Bytes) :
    payload ∈ (e.signalWorkflow key id payload).queuedSignals key id := by
  have hlookup : (e.signalWorkflow key id payload).workflows.lookup key
      = some (ctx.signal id payload) := by
    rw [workflows_signalWorkflow]
    have := WorkflowContextPool.lookup_modify e.workflows key (·.signalIfRunning id payload) key
    rw [if_pos rfl, hctx, Option.map_some] at this
    rw [show ctx.signal id payload = ctx.signalIfRunning id payload by
      simp [WorkflowContext.signalIfRunning, hrunning]]
    exact this
  rw [queuedSignals, hlookup]
  exact ctx.signalBuffer.mem_queued_push id payload

end Velocity.WorkflowEngine

namespace Velocity.Nmcp

open Lib
open Vctp

/-! ### Deliveries by name -/

section Deliveries

variable [Sha256] [NmcpCodec]

/-- The signal handlers, for a request under a name. -/
inductive SignalsUnder (Addr : Type) (name : String) : WorkflowEngine → WorkflowEngine → Prop
  | signal (s : VctpRpcServer Addr) (seq : UInt64) (req : VctpRpcRequest)
      (hname : VctpRpcServer.signalNameOf req = name) :
      SignalsUnder Addr name s.engine (s.handleSignalWorkflow seq req).2.engine
  | batch (s : VctpRpcServer Addr) (seq : UInt64) (req : VctpRpcRequest)
      (hname : VctpRpcServer.signalNameOf req = name) :
      SignalsUnder Addr name s.engine (s.handleBatchSignal seq req).2.engine
  -- the signal goes to the engine that the start leaves
  | withStart (s : VctpRpcServer Addr) (seq : UInt64) (req : VctpRpcRequest)
      (hname : VctpRpcServer.signalNameOf req = name) :
      SignalsUnder Addr name (s.handleStartWorkflow seq req).2.engine
        (s.handleSignalWithStart seq req).2.engine
  | embedded (r : NmcpFrameRouter) {frame : NmcpFrame} {body : NmcpRequestBody}
      (hbody : NmcpCodec.parseBody frame.payload = .ok body)
      (hname : body.signalName.getD "unknown" = name) :
      SignalsUnder Addr name r.engine (r.handleSignal frame).2.engine
  | classic (r : NmcpFrameRouter) {frame : NmcpFrame} {body : NmcpRequestBody}
      (hbody : NmcpCodec.parseBody frame.payload = .ok body)
      (hname : body.signalName.getD "unknown" = name) :
      SignalsUnder Addr name r.engine (r.handleSignalClassic frame).2.engine

variable {Addr : Type}

def signalAll (e : WorkflowEngine) (key id : UInt64) (payloads : List Bytes) : WorkflowEngine :=
  payloads.foldl (fun e payload => e.signalWorkflow key id payload) e

omit [Sha256] [NmcpCodec] in
theorem exists_signals_handleSignalWorkflow (s : VctpRpcServer Addr) (seq : UInt64)
    (req : VctpRpcRequest) :
    ∃ key payloads, (s.handleSignalWorkflow seq req).2.engine
      = signalAll s.engine key (lenAsU64 (VctpRpcServer.signalNameOf req)) payloads := by
  unfold VctpRpcServer.handleSignalWorkflow VctpRpcServer.withWorkflow
  split
  · exact ⟨0, [], rfl⟩
  · next key _ => exact ⟨key, [req.payload.getD []], rfl⟩

omit [Sha256] [NmcpCodec] in
theorem exists_signals_handleBatchSignal (s : VctpRpcServer Addr) (seq : UInt64)
    (req : VctpRpcRequest) :
    ∃ key payloads, (s.handleBatchSignal seq req).2.engine
      = signalAll s.engine key (lenAsU64 (VctpRpcServer.signalNameOf req)) payloads := by
  unfold VctpRpcServer.handleBatchSignal VctpRpcServer.withWorkflow
  split
  · exact ⟨0, [], rfl⟩
  · next key _ =>
    refine ⟨key, (List.range (req.signalCount.getD 1).toNat).map
      (fun i => req.payload.getD [] ++ u32ToLeBytes (UInt32.ofNat i)), ?_⟩
    simp only [VctpRpcServer.batchSignals, signalAll, List.foldl_map]

omit [Sha256] in
theorem exists_signals_handleSignalWith (notFound : NmcpFrame → String → NmcpFrame)
    (r : NmcpFrameRouter) {frame : NmcpFrame} {body : NmcpRequestBody}
    (hbody : NmcpCodec.parseBody frame.payload = .ok body) :
    ∃ key payloads, (r.handleSignalWith notFound frame).2.engine
      = signalAll r.engine key (lenAsU64 (body.signalName.getD "unknown")) payloads := by
  simp only [NmcpFrameRouter.handleSignalWith, hbody]
  split
  · exact ⟨0, [], rfl⟩
  · split
    · exact ⟨0, [], rfl⟩
    · next key _ => exact ⟨key, [NmcpCodec.toVec (body.input.getD .null)], rfl⟩

theorem SignalsUnder.exists_signals {name : String} {e e' : WorkflowEngine}
    (h : SignalsUnder Addr name e e') :
    ∃ key payloads, e' = signalAll e key (lenAsU64 name) payloads := by
  cases h with
  | signal s seq req hname => exact hname ▸ exists_signals_handleSignalWorkflow s seq req
  | batch s seq req hname => exact hname ▸ exists_signals_handleBatchSignal s seq req
  | withStart s seq req hname => exact hname ▸ exists_signals_handleSignalWorkflow _ seq req
  | embedded r hbody hname | classic r hbody hname =>
    exact hname ▸ exists_signals_handleSignalWith _ r hbody

omit [Sha256] [NmcpCodec] in
theorem queuedSignals_signalAll_of_ne {n id : UInt64} (hid : id ≠ n) (k key : UInt64)
    (payloads : List Bytes) (e : WorkflowEngine) :
    (signalAll e k n payloads).queuedSignals key id = e.queuedSignals key id := by
  induction payloads generalizing e with
  | nil => rfl
  | cons payload rest ih =>
    rw [signalAll, List.foldl_cons]
    exact (ih _).trans (e.queuedSignals_signalWorkflow_of_ne hid k key payload)

omit [Sha256] [NmcpCodec] in
theorem lenAsU64_ne_iff (n₁ n₂ : String) :
    lenAsU64 n₂ ≠ lenAsU64 n₁ ↔ n₁.utf8ByteSize % 2 ^ 64 ≠ n₂.utf8ByteSize % 2 ^ 64 := by
  rw [lenAsU64, lenAsU64, Ne, ← UInt64.toNat_inj, UInt64.toNat_ofNat', UInt64.toNat_ofNat',
    eq_comm]

def starting (Addr : Type) : VctpRpcServer Addr :=
  ((VctpRpcServer.new (.new none .strict 0)).beginStart
    { method := VctpMethods.startWorkflow, workflowId := "order" }).2

def orderKey : UInt64 := WorkflowEngine.workflowKey 1 1

omit [NmcpCodec] in
theorem lookup_starting (Addr : Type) :
    ∃ ctx, (starting Addr).engine.workflows.lookup orderKey = some ctx
    ∧ ctx.status = .running ∧ ∀ id, ctx.signalBuffer.queued id = [] := by
  refine ⟨_, WorkflowEngine.lookup_startWorkflow WorkflowContextPool.wellFormed_new 1 _ 1 _ _ none
    (.inr WorkflowContextPool.freeList_new_ne_nil), rfl, fun id => ?_⟩
  exact SlotVec.queued_withCapacity _ id

def orderSignal (name : String) (payload : Bytes) : VctpRpcRequest :=
  { method := VctpMethods.signalWorkflow, workflowId := "order", signalName := some name,
    payload := some payload }

omit [NmcpCodec] in
theorem engine_orderSignal (name : String) (payload : Bytes) (seq : UInt64) :
    ((starting Addr).handleSignalWorkflow seq (orderSignal name payload)).2.engine
      = (starting Addr).engine.signalWorkflow orderKey (lenAsU64 name) payload := by
  have hmap : (starting Addr).workflowMap.lookup "order" = some orderKey := AList.lookup_insert _
  simp only [VctpRpcServer.handleSignalWorkflow, VctpRpcServer.withWorkflow, orderSignal, hmap]
  rfl

/-- **Names** are kept apart iff their lengths as a `u64` differ. -/
theorem names_apart_iff (Addr : Type) (n₁ n₂ : String) :
    (∀ e e', SignalsUnder Addr n₁ e e' → ∀ key count,
      e'.takeSignals key (lenAsU64 n₂) count = e.takeSignals key (lenAsU64 n₂) count)
    ↔ n₁.utf8ByteSize % 2 ^ 64 ≠ n₂.utf8ByteSize % 2 ^ 64 := by
  rw [← lenAsU64_ne_iff]
  constructor
  · intro hapart hsame
    obtain ⟨ctx, hctx, hrunning, hempty⟩ := lookup_starting Addr
    have hpending := WorkflowEngine.mem_queuedSignals_signalWorkflow hctx hrunning
      (lenAsU64 n₁) [1]
    have htakes := hapart _ _ (SignalsUnder.signal (starting Addr) 0
      (orderSignal n₁ [1]) rfl) orderKey
      ((starting Addr).engine.signalWorkflow orderKey (lenAsU64 n₁) [1]
        |>.queuedSignals orderKey (lenAsU64 n₁)).length
    rw [engine_orderSignal, hsame, WorkflowEngine.takeSignals_eq, WorkflowEngine.takeSignals_eq,
      List.take_length] at htakes
    have hnone : (starting Addr).engine.queuedSignals orderKey (lenAsU64 n₁) = [] := by
      rw [WorkflowEngine.queuedSignals, hctx]
      exact hempty _
    rw [htakes, hnone, List.take_nil] at hpending
    exact absurd hpending List.not_mem_nil
  · intro hne e e' h key count
    obtain ⟨k, payloads, rfl⟩ := h.exists_signals
    rw [WorkflowEngine.takeSignals_eq, WorkflowEngine.takeSignals_eq,
      queuedSignals_signalAll_of_ne hne]

end Deliveries

theorem pause_taken_as_abort :
    let e := (starting Nat).engine
    let e' := ((starting Nat).handleSignalWorkflow 101 (orderSignal "pause" [42])).2.engine
    (e.takeSignal orderKey (lenAsU64 "abort")).1 = none
      ∧ (e'.takeSignal orderKey (lenAsU64 "abort")).1 = some [42] := by
  decide +kernel

end Velocity.Nmcp
