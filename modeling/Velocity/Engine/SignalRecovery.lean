import Velocity.Engine.RunConditions

namespace Velocity

open Lib WorkflowEngine

/-!
# Recovery of pending signals

A replay brings consumed signals back and delivers rejected ones.
-/

def WorkflowEngine.pendingSignals (e : WorkflowEngine) (key signalNameId : UInt64) : List Bytes :=
  ((e.workflows.lookup key).bind (·.signalBuffer.get signalNameId)).getD []

def signalView (ctx : WorkflowContext) : WorkflowStatus × SlotVec Bytes :=
  (ctx.status, ctx.signalBuffer)

/-- Starting, signalling, closing, and the passing of time. -/
def EngineOp.IsSignalOp : EngineOp → Prop
  | .advanceClock _ | .startWorkflow .. | .signalWorkflow .. | .takeSignal .. => True
  | op => op.IsClosingOp

namespace WorkflowEngine

/-- No signal goes to a closed workflow, and none is taken. -/
def KeepsSignals (e : WorkflowEngine) : EngineOp → Prop
  | .signalWorkflow key _ _ => ∀ ctx ∈ e.workflows.lookup key, ctx.status = .running
  | .takeSignal key signalNameId =>
    ∀ ctx ∈ e.workflows.lookup key, ctx.signalBuffer.isEmptyAt signalNameId = true
  | _ => True

instance (e : WorkflowEngine) (op : EngineOp) : Decidable (e.KeepsSignals op) := by
  induction op using EngineOp.casesOn with
  | signalWorkflow key | takeSignal key =>
    exact inferInstanceAs (Decidable (∀ ctx ∈ e.workflows.lookup key, _ = _))
  | _ => exact instDecidableTrue

end WorkflowEngine

/-! ### The view of each update -/

theorem signalView_signal {c d : WorkflowContext} (h : signalView c = signalView d)
    (hrunning : c.status = .running) (n : UInt64) (p : Bytes) :
    signalView (c.signalIfRunning n p) = signalView (d.signal n p) := by
  obtain ⟨hstatus, hbuffer⟩ := by simpa only [signalView, Prod.mk.injEq] using h
  have htaken : c.signalIfRunning n p = c.signal n p := by
    unfold WorkflowContext.signalIfRunning
    exact if_neg (not_not.mpr hrunning)
  rw [htaken]
  simp only [signalView, WorkflowContext.signal, hstatus, hbuffer]

theorem takeSignal_of_isEmptyAt {c : WorkflowContext} {n : UInt64}
    (h : c.signalBuffer.isEmptyAt n = true) : (c.takeSignal n).2 = c := by
  unfold WorkflowContext.takeSignal
  rw [SlotVec.popFront_of_isEmptyAt h]

theorem EngineOp.IsSignalOp.startsOnly {op : EngineOp} (hop : op.IsSignalOp) : op.StartsOnly := by
  cases op <;> first | exact trivial | exact hop.elim

section Recovery

variable [Sha256]

theorem closesAlike_signalView :
    WorkflowEngine.ClosesAlike (fun c d => signalView c = signalView d) := by
  intro now now' u t hclose k c d h
  cases hclose <;> exact Prod.ext rfl (Prod.ext_iff.mp h).2

/-- **The moves of these operations mirror** on the signal queues. -/
theorem movesMirror_of_isSignalOp (now : Nat) {e : WorkflowEngine} {op : EngineOp}
    (hop : op.IsSignalOp) (hkeeps : e.KeepsSignals op) (habsent : e.StartsAbsent op) :
    MovesMirror (fun c d => signalView c = signalView d) now e.workflows (e.moves op) := by
  cases op with
  | advanceClock ms => trivial
  | startWorkflow w t ns tq total input =>
    exact ⟨mirrors_startMove (fun _ _ _ _ => rfl) (habsent _ rfl), trivial⟩
  | signalWorkflow k n p =>
    exact ⟨mirrors_signalMove (fun c _ hc hcd => signalView_signal hcd (hkeeps c hc) n p), trivial⟩
  | takeSignal k n =>
    -- only a take that finds nothing mirrors
    refine ⟨mirrors_silent (fun c d hc hcd => ?_), trivial⟩
    show signalView (c.takeSignal n).2 = signalView d
    rw [takeSignal_of_isEmptyAt (hkeeps c hc)]
    exact hcd
  | completeWorkflow | failWorkflow | cancelWorkflow | terminateWorkflow
  | applyParentClosePolicy | checkWorkflowTimeouts =>
    exact closesAlike_signalView.movesMirror now e hop
  | _ => exact hop.elim

/-! ### Recovery -/

/-- **Pending signals are recovered** in runs that signal running workflows and take nothing. -/
theorem recovered_pendingSignals (maxFileSize retainCount : Nat) (config : DurabilityConfig)
    (start now : Nat) (ops : List EngineOp) (hops : ∀ op ∈ ops, op.IsSignalOp)
    (honce : (ops.filterMap EngineOp.startedKey).Nodup) (hpayload : ∀ op ∈ ops, op.PayloadFits)
    (hkeeps : StepsMeet step WorkflowEngine.KeepsSignals
      (withWal maxFileSize retainCount config start) ops)
    (hretained : ((withWal maxFileSize retainCount config start).run
      ops).StartsRetained) (key signalNameId : UInt64) :
    let e := (withWal maxFileSize retainCount config start).run ops
    (e.recovered now).pendingSignals key signalNameId = e.pendingSignals key signalNameId := by
  intro e
  have hmeet : StepsMeet step (fun e op => op.IsSignalOp ∧ e.KeepsSignals op)
      (withWal maxFileSize retainCount config start) ops :=
    (stepsMeet_of_forall hops).and hkeeps
  have hrel := rel_recovered
    (fun _ _ hop => addsStarted_of_startsOnly hop.1.startsOnly)
    (fun _ _ hop => movesMirror_of_isSignalOp now hop.1 hop.2) honce hpayload hmeet hretained key
  show (((e.recovered now).workflows.lookup key).bind _).getD [] = _
  -- the queues are a function of the view
  have hview : ∀ x : Option WorkflowContext, x.bind (·.signalBuffer.get signalNameId)
      = (x.map signalView).bind (·.2.get signalNameId) := by
    intro x
    cases x <;> rfl
  rw [pendingSignals, hview, hview, map_eq_of_rel hrel]

end Recovery

theorem recovered_pendingSignals_start_signal :
    (sampleRun [.startWorkflow 1 1 0 1 1 none, .takeSignal 1 5, .signalWorkflow 1 5 [42]]
      |>.recovered 9).pendingSignals 1 5
    = (sampleRun [.startWorkflow 1 1 0 1 1 none, .takeSignal 1 5,
        .signalWorkflow 1 5 [42]]).pendingSignals 1 5 :=
  recovered_pendingSignals 1024 3 .strict 0 9
    [.startWorkflow 1 1 0 1 1 none, .takeSignal 1 5, .signalWorkflow 1 5 [42]]
    (by simp [EngineOp.IsSignalOp]) (by decide) (by simp [EngineOp.PayloadFits])
    (by decide +kernel) (by decide +kernel) 1 5

theorem recovered_pendingSignals_taken_rejected :
    ((sampleRun [.startWorkflow 1 1 0 1 1 none, .signalWorkflow 1 5 [42],
        .takeSignal 1 5]).pendingSignals 1 5 = []
      ∧ (sampleRun [.startWorkflow 1 1 0 1 1 none, .signalWorkflow 1 5 [42], .takeSignal 1 5]
          |>.recovered 9).pendingSignals 1 5 = [[42]])
    ∧ (sampleRun [.startWorkflow 1 1 0 1 1 none, .completeWorkflow 1 none,
        .signalWorkflow 1 5 [42]]).pendingSignals 1 5 = []
      ∧ (sampleRun [.startWorkflow 1 1 0 1 1 none, .completeWorkflow 1 none,
          .signalWorkflow 1 5 [42]] |>.recovered 9).pendingSignals 1 5 = [[42]] := by
  decide +kernel

end Velocity
