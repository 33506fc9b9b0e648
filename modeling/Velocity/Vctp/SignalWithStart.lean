import Velocity.Nmcp.Signals

namespace Velocity.WorkflowEngine

open Lib WorkflowContextPool
open Vctp (VctpRpcServer)

/-!
# Signalling with a start

The server runs a started workflow to completion before it signals it.
-/

/-! ### Running to completion -/

/-- The workflow runs and the payload is pending. -/
def Holds (e : WorkflowEngine) (key signalId : UInt64) (payload : Bytes) : Prop :=
  e.getStatus key = .running ∧ payload ∈ e.queuedSignals key signalId

theorem getStatus_eq_running_iff {e : WorkflowEngine} {key : UInt64} :
    e.getStatus key = .running
      ↔ ∃ ctx, e.workflows.lookup key = some ctx ∧ ctx.status = .running := by
  constructor
  · intro hrunning
    cases h : e.workflows.lookup key with
    | none =>
      rw [getStatus_of_none h] at hrunning
      cases hrunning
    | some ctx => exact ⟨ctx, rfl, (getStatus_of_some h).symm.trans hrunning⟩
  · rintro ⟨ctx, hctx, hrunning⟩
    exact (getStatus_of_some hctx).trans hrunning

theorem getStatus_congr {e e' : WorkflowEngine} {key : UInt64}
    (h : e'.workflows.lookup key = e.workflows.lookup key) :
    e'.getStatus key = e.getStatus key := by
  rw [getStatus, getStatus, withCtx, withCtx, h]

theorem holds_signalWorkflow_iff (e : WorkflowEngine) (key id : UInt64) (payload : Bytes) :
    (e.signalWorkflow key id payload).Holds key id payload ↔ e.getStatus key = .running := by
  have hlookup : (e.signalWorkflow key id payload).workflows.lookup key
      = (e.workflows.lookup key).map (·.signalIfRunning id payload) := by
    rw [workflows_signalWorkflow]
    have := lookup_modify e.workflows key (·.signalIfRunning id payload) key
    rwa [if_pos rfl] at this
  have hstatus : ∀ ctx : WorkflowContext,
      (ctx.signalIfRunning id payload).status = ctx.status := by
    intro ctx
    unfold WorkflowContext.signalIfRunning
    split
    · rfl
    · rfl
  constructor
  · rintro ⟨hrunning, -⟩
    obtain ⟨ctx', hctx', hrunning⟩ := getStatus_eq_running_iff.mp hrunning
    rw [hlookup, Option.map_eq_some_iff] at hctx'
    obtain ⟨ctx, hctx, rfl⟩ := hctx'
    exact getStatus_eq_running_iff.mpr ⟨ctx, hctx, (hstatus ctx).symm.trans hrunning⟩
  · intro hrunning
    obtain ⟨ctx, hctx, hrunning⟩ := getStatus_eq_running_iff.mp hrunning
    refine ⟨getStatus_eq_running_iff.mpr ⟨ctx.signalIfRunning id payload, ?_, ?_⟩,
      mem_queuedSignals_signalWorkflow hctx hrunning id payload⟩
    · rw [hlookup, hctx, Option.map_some]
    · rw [hstatus, hrunning]

section Completion

variable [Sha256]

theorem lookup_persistSteps_of_ne {k key : UInt64} (hk : k ≠ key) (steps : List Nat)
    (e : WorkflowEngine) :
    (steps.foldl (fun e step => e.persistStep key (UInt32.ofNat step)) e).workflows.lookup k
      = e.workflows.lookup k := by
  induction steps generalizing e with
  | nil => rfl
  | cons step steps ih =>
    rw [List.foldl_cons, ih, persistStep, workflows_completeStep,
      lookup_modify, if_neg hk]

theorem lookup_runToCompletion_of_ne (e : WorkflowEngine) {k key : UInt64} (hk : k ≠ key) :
    (VctpRpcServer.runToCompletion e key).workflows.lookup k = e.workflows.lookup k := by
  rw [VctpRpcServer.runToCompletion, completeWorkflow, workflows_logEvent, workflows_update,
    lookup_modify, if_neg hk, lookup_persistSteps_of_ne hk]

theorem getStatus_runToCompletion (e : WorkflowEngine) (key : UInt64) :
    (VctpRpcServer.runToCompletion e key).getStatus key ≠ .running := by
  intro hrunning
  obtain ⟨ctx', hctx', hrunning⟩ := getStatus_eq_running_iff.mp hrunning
  rw [VctpRpcServer.runToCompletion, completeWorkflow, workflows_logEvent, workflows_update,
    lookup_modify, if_pos rfl, Option.map_eq_some_iff] at hctx'
  obtain ⟨ctx, -, rfl⟩ := hctx'
  cases hrunning

theorem lookup_startWorkflow_of_ne {e : WorkflowEngine} (he : e.workflows.WellFormed)
    (w t ns tq : UInt64) (total : UInt32) (input : Option Bytes) {k : UInt64}
    (hk : k ≠ workflowKey ns w) :
    (e.startWorkflow w t ns tq total input).2.workflows.lookup k = e.workflows.lookup k := by
  show (e.workflows.insert (workflowKey ns w) _).2.lookup k = _
  rw [he.lookup_insert, if_neg (fun h => hk h.1)]

/-- **The engine's own** signal-with-start delivers. -/
theorem signalWithStart_delivers {e : WorkflowEngine} (he : e.workflows.WellFormed)
    (w t ns tq : UInt64) (total : UInt32) (id : UInt64) (payload : Bytes)
    (hroom : (e.workflows.lookup (workflowKey ns w)).isSome ∨ e.workflows.freeList ≠ []) :
    (e.signalWithStart w t ns tq total id payload).2.Holds
      (workflowKey ns w) id payload := by
  unfold signalWithStart
  dsimp only
  split
  · next hrunning => exact (holds_signalWorkflow_iff e _ id payload).mpr hrunning
  · exact (holds_signalWorkflow_iff _ _ id payload).mpr (getStatus_eq_running_iff.mpr
      ⟨_, lookup_startWorkflow he w t ns tq total none hroom, rfl⟩)

end Completion

theorem signalWithStart_delivers_new :
    ((new none .strict 0).signalWithStart 1 2 3 4 5 6 [42]).2.Holds (workflowKey 3 1) 6 [42] :=
  signalWithStart_delivers WorkflowContextPool.wellFormed_new 1 2 3 4 5 6 [42]
    (.inr (by decide +kernel))

end Velocity.WorkflowEngine

namespace Velocity.Vctp.VctpRpcServer

open Lib

variable {Addr : Type}

/-! ### The handler -/

section Delivery

variable [Sha256]

/-- The payload is pending at a workflow that runs. -/
def Delivered (s : VctpRpcServer Addr) (req : VctpRpcRequest) : Prop :=
  ∃ key, s.workflowMap.lookup req.workflowId = some key
    ∧ s.engine.Holds key (lenAsU64 (signalNameOf req)) (req.payload.getD [])

variable (s : VctpRpcServer Addr)

variable (seq : UInt64) (req : VctpRpcRequest)

omit [Sha256] in
theorem delivered_handleSignalWorkflow_iff : ((s.handleSignalWorkflow seq req).1.status = 0 →
        (s.handleSignalWorkflow seq req).2.Delivered req)
      ↔ ∀ key, s.workflowMap.lookup req.workflowId = some key →
          s.engine.getStatus key = .running := by
  unfold handleSignalWorkflow withWorkflow
  cases hkey : s.workflowMap.lookup req.workflowId with
  | none =>
    refine iff_of_true (fun h404 => absurd h404 (by decide : (404 : UInt32) ≠ 0)) ?_
    intro key h
    cases h
  | some key =>
    constructor
    · intro hdelivers key' hkey'
      cases hkey'
      obtain ⟨found, hfound, hholds⟩ := hdelivers rfl
      cases hkey.symm.trans hfound
      exact (WorkflowEngine.holds_signalWorkflow_iff ..).mp hholds
    · intro hrunning _
      exact ⟨key, hkey, (WorkflowEngine.holds_signalWorkflow_iff ..).mpr (hrunning key rfl)⟩

theorem lookup_workflowMap_handleStartWorkflow :
    (s.handleStartWorkflow seq req).2.workflowMap.lookup req.workflowId
      = if req.workflowId = "" then s.workflowMap.lookup req.workflowId
        else some (WorkflowEngine.workflowKey s.namespaceCounter s.workflowCounter) := by
  by_cases hempty : req.workflowId = ""
  · have hid : (s.beginStart req).1.1 = s!"wf-{s.workflowCounter}" := by
      show (if req.workflowId = "" then s!"wf-{s.workflowCounter}" else req.workflowId) = _
      rw [if_pos hempty]
    have hne : ¬ req.workflowId = (s.beginStart req).1.1 := by
      rw [hid, hempty, ← String.toList_inj]
      show ¬ [] = ("wf-" ++ toString s.workflowCounter).toList
      rw [String.toList_append]
      exact List.cons_ne_nil _ _ ∘ Eq.symm
    show (s.workflowMap.insert (s.beginStart req).1.1 _).lookup req.workflowId = _
    rw [lookup_insert_eq_ite, if_neg hne, if_pos hempty]
  · have hid : (s.beginStart req).1 = (req.workflowId,
        WorkflowEngine.workflowKey s.namespaceCounter s.workflowCounter) := by
      simp only [beginStart, hempty, if_false]
      rfl
    show (s.workflowMap.insert (s.beginStart req).1.1 (s.beginStart req).1.2).lookup
      req.workflowId = _
    rw [hid, lookup_insert_eq_ite, if_pos rfl, if_neg hempty]

def startedKey (s : VctpRpcServer Addr) (req : VctpRpcRequest) : UInt64 :=
  WorkflowEngine.workflowKey s.namespaceCounter
    (if req.workflowId = "" then s.workflowCounter + 1 else s.workflowCounter)

theorem engine_handleStartWorkflow :
    ∃ w t tq total, s.startedKey req = WorkflowEngine.workflowKey s.namespaceCounter w
      ∧ (s.handleStartWorkflow seq req).2.engine
        = runToCompletion (s.engine.startWorkflow w t s.namespaceCounter tq total none).2
            (s.startedKey req) :=
  ⟨_, _, _, _, rfl, rfl⟩

theorem getStatus_handleStartWorkflow_self :
    (s.handleStartWorkflow seq req).2.engine.getStatus (s.startedKey req) ≠ .running := by
  obtain ⟨w, t, tq, total, -, hengine⟩ := s.engine_handleStartWorkflow seq req
  rw [hengine]
  exact WorkflowEngine.getStatus_runToCompletion _ _

theorem getStatus_handleStartWorkflow_of_ne {s : VctpRpcServer Addr}
    (hs : s.engine.workflows.WellFormed) (seq : UInt64) (req : VctpRpcRequest) {key : UInt64}
    (hkey : key ≠ s.startedKey req) :
    (s.handleStartWorkflow seq req).2.engine.getStatus key = s.engine.getStatus key := by
  obtain ⟨w, t, tq, total, hstarted, hengine⟩ := s.engine_handleStartWorkflow seq req
  apply WorkflowEngine.getStatus_congr
  rw [hengine, WorkflowEngine.lookup_runToCompletion_of_ne _ hkey,
    WorkflowEngine.lookup_startWorkflow_of_ne hs _ _ _ _ _ _ (hstarted ▸ hkey)]

/-- **Delivery** only of an empty id under which something runs. -/
theorem delivers_iff {s : VctpRpcServer Addr} (hs : s.engine.workflows.WellFormed)
    {req : VctpRpcRequest} (hmethod : req.method = VctpMethods.signalWithStart) (seq : UInt64) :
    ((s.dispatch seq req).1.status = 0 → (s.dispatch seq req).2.Delivered req)
      ↔ req.workflowId = "" ∧ ∀ key, s.workflowMap.lookup "" = some key →
          key ≠ WorkflowEngine.workflowKey s.namespaceCounter (s.workflowCounter + 1)
          ∧ s.engine.getStatus key = .running := by
  have hdispatch : s.dispatch seq req = (s.handleStartWorkflow seq req).2.handleSignalWorkflow
      seq req := by
    unfold dispatch
    rw [hmethod]
    rfl
  rw [hdispatch, delivered_handleSignalWorkflow_iff, lookup_workflowMap_handleStartWorkflow]
  by_cases hempty : req.workflowId = ""
  · have hstarted : s.startedKey req
        = WorkflowEngine.workflowKey s.namespaceCounter (s.workflowCounter + 1) := by
      rw [startedKey, if_pos hempty]
    rw [if_pos hempty, and_iff_right hempty, hempty, ← hstarted]
    refine forall_congr' fun key => imp_congr_right fun _ => ?_
    by_cases hkey : key = s.startedKey req
    · refine iff_of_false ?_ (fun h => h.1 hkey)
      rw [hkey]
      exact s.getStatus_handleStartWorkflow_self seq req
    · rw [getStatus_handleStartWorkflow_of_ne hs seq req hkey, and_iff_right hkey]
  · have hstarted : s.startedKey req
        = WorkflowEngine.workflowKey s.namespaceCounter s.workflowCounter := by
      rw [startedKey, if_neg hempty]
    rw [if_neg hempty, ← hstarted]
    refine iff_of_false (fun h => ?_) (fun h => hempty h.1)
    exact s.getStatus_handleStartWorkflow_self seq req (h _ rfl)

end Delivery

def startAndSignalOrder : VctpRpcRequest :=
  { method := VctpMethods.signalWithStart, workflowId := "order", signalName := some "pay",
    payload := some [42] }

def freshServer : VctpRpcServer Nat := .new (.new none .strict 0)

theorem delivers_iff_order :
    freshServer.engine.workflows.WellFormed
      ∧ startAndSignalOrder.method = VctpMethods.signalWithStart
      ∧ (((freshServer.dispatch 1 startAndSignalOrder).1.status = 0 →
            (freshServer.dispatch 1 startAndSignalOrder).2.Delivered startAndSignalOrder)
          ↔ startAndSignalOrder.workflowId = "" ∧
            ∀ key, freshServer.workflowMap.lookup "" = some key →
              key ≠ WorkflowEngine.workflowKey freshServer.namespaceCounter
                (freshServer.workflowCounter + 1)
              ∧ freshServer.engine.getStatus key = .running) :=
  ⟨WorkflowContextPool.wellFormed_new, rfl,
    delivers_iff WorkflowContextPool.wellFormed_new rfl 1⟩

theorem order_signal_dropped :
    let reply := freshServer.dispatch 1 startAndSignalOrder
    reply.1.status = 0
      ∧ ∃ key, reply.2.workflowMap.lookup "order" = some key
        ∧ reply.2.engine.getStatus key = .completed
        ∧ reply.2.engine.queuedSignals key (lenAsU64 "pay") = [] :=
  ⟨by decide +kernel, WorkflowEngine.workflowKey 1 1, by decide +kernel, by decide +kernel,
    by decide +kernel⟩

end Velocity.Vctp.VctpRpcServer
