import Velocity.Engine.RunConditions

namespace Velocity

open Lib WorkflowEngine WorkflowContextPool WalManager

/-!
# Recovery of step state

A result of `2 ^ 32 - 4` bytes breaks its record and the recovery of every workflow.
-/

def stepView (ctx : WorkflowContext) : WorkflowStatus × Bitmask256 × UInt32 × SlotMap Bytes :=
  (ctx.status, ctx.slab.stepBitmask, ctx.slab.currentStep, ctx.stepResults)

/-- Starting, completing steps, signalling, closing, and the passing of time. -/
def EngineOp.IsStepOp : EngineOp → Prop
  | .advanceClock _ | .startWorkflow .. | .completeStep .. | .completeStepSync ..
  | .completeStepDurable .. | .signalWorkflow .. => True
  | op => op.IsClosingOp

/-- No rotated file has been deleted. -/
def WorkflowEngine.RotationsRetained (e : WorkflowEngine) : Prop :=
  ∀ w, e.wal = some w → w.rotations ≤ w.retainCount

theorem WorkflowEngine.RotationsRetained.startsRetained {e : WorkflowEngine}
    (h : e.RotationsRetained) : e.StartsRetained := by
  intro w hw r hr
  rw [SegmentedLog.dropped_eq_nil (h w hw)] at hr
  cases hr

/-! ### The view of each update -/

theorem stepView_signalIfRunning (c : WorkflowContext) (n : UInt64) (p : Bytes) :
    stepView (c.signalIfRunning n p) = stepView c := by
  unfold WorkflowContext.signalIfRunning
  split <;> rfl

theorem EngineOp.IsStepOp.startsOnly {op : EngineOp} (hop : op.IsStepOp) : op.StartsOnly := by
  cases op <;> first | exact trivial | exact hop.elim

section Recovery

variable [Sha256]

theorem closesAlike_stepView : WorkflowEngine.ClosesAlike (fun c d => stepView c = stepView d) := by
  intro now now' u t hclose k c d h
  cases hclose <;> exact Prod.ext rfl (Prod.ext_iff.mp h).2

theorem stepView_completeStep {c d : WorkflowContext} (h : stepView c = stepView d) (s : UInt32)
    (r : Bytes) : stepView (c.completeStep s r) = stepView (d.completeStep s r) := by
  obtain ⟨hstatus, hmask, hcurrent, hresults⟩ := by simpa only [stepView, Prod.mk.injEq] using h
  simp only [stepView, WorkflowContext.completeStep, SlabHeader.stepBitmask_markStepCompleted,
    SlabHeader.currentStep_markStepCompleted, hstatus, hmask, hcurrent, hresults]

/-- A relation that operations and the replay of their records keep. -/
structure StepAlike (R : WorkflowContext → WorkflowContext → Prop) : Prop where
  fresh : ∀ {w t ns tq total} key runId input now now',
    R (WorkflowEngine.startContext w runId t ns tq total input now)
      (replayContext key ⟨w, t, ns, tq, total⟩ now')
  completeStep : ∀ {c d} s r, R c d → R (c.completeStep s r) (d.completeStep s r)
  signal : ∀ {c d} n p, R c d → R (c.signalIfRunning n p) (d.signal n p)
  close : WorkflowEngine.ClosesAlike R

theorem stepAlike_stepView : StepAlike (fun c d => stepView c = stepView d) where
  fresh _ _ _ _ _ := rfl
  completeStep s r h := stepView_completeStep h s r
  -- a signal changes no step state, whether it was taken or not
  signal {c _} n p h := (stepView_signalIfRunning c n p).trans h
  close := closesAlike_stepView

variable {R : WorkflowContext → WorkflowContext → Prop}

theorem StepAlike.movesMirror (h : StepAlike R) (now : Nat) {e : WorkflowEngine} {op : EngineOp}
    (hop : op.IsStepOp) (habsent : e.StartsAbsent op) :
    MovesMirror R now e.workflows (e.moves op) := by
  cases op with
  | advanceClock ms => trivial
  | startWorkflow w t ns tq total input =>
    exact ⟨mirrors_startMove (fun key runId input now' => h.fresh key runId input now' now)
      (habsent _ rfl), trivial⟩
  | completeStep k s r | completeStepSync k s r | completeStepDurable k s r =>
    exact ⟨mirrors_completeStep (fun _ _ hcd => h.completeStep s r hcd), trivial⟩
  | signalWorkflow k n p =>
    exact ⟨mirrors_signalMove (fun _ _ _ hcd => h.signal n p hcd), trivial⟩
  | completeWorkflow | failWorkflow | cancelWorkflow | terminateWorkflow
  | applyParentClosePolicy | checkWorkflowTimeouts =>
    exact WorkflowEngine.ClosesAlike.movesMirror h.close now e hop
  | _ => exact hop.elim

/-! ### Recovery -/

theorem StepAlike.recovered (h : StepAlike R) (maxFileSize retainCount : Nat)
    (config : DurabilityConfig) (start now : Nat) {ops : List EngineOp}
    (hops : ∀ op ∈ ops, op.IsStepOp) (honce : (ops.filterMap EngineOp.startedKey).Nodup)
    (hpayload : ∀ op ∈ ops, op.PayloadFits)
    (hkept : ((WorkflowEngine.withWal maxFileSize retainCount config start).run
      ops).StartsRetained) (k : UInt64) :
    Option.Rel R
      (((WorkflowEngine.withWal maxFileSize retainCount config start).run ops).workflows.lookup k)
      ((((WorkflowEngine.withWal maxFileSize retainCount config start).run ops).recovered
        now).workflows.lookup k) := by
  have hmeet : StepsMeet WorkflowEngine.step (fun _ op => op.IsStepOp)
      (WorkflowEngine.withWal maxFileSize retainCount config start) ops := stepsMeet_of_forall hops
  exact rel_recovered
    (fun _ _ hop => addsStarted_of_startsOnly hop.startsOnly)
    (fun _ _ hop => h.movesMirror now hop) honce hpayload hmeet hkept k

/-- **Step state is recovered** in runs that start keys once, fit the log and lose nothing to
    rotation. -/
theorem recovered_stepView (maxFileSize retainCount : Nat) (config : DurabilityConfig)
    (start now : Nat) (ops : List EngineOp) (hops : ∀ op ∈ ops, op.IsStepOp)
    (honce : (ops.filterMap EngineOp.startedKey).Nodup) (hpayload : ∀ op ∈ ops, op.PayloadFits)
    (hrotated : ((WorkflowEngine.withWal maxFileSize retainCount config start).run
      ops).RotationsRetained) (k : UInt64) :
    let e := (WorkflowEngine.withWal maxFileSize retainCount config start).run ops
    ((e.recovered now).workflows.lookup k).map stepView = (e.workflows.lookup k).map stepView := by
  intro e
  have hrel := stepAlike_stepView.recovered maxFileSize retainCount config start now hops honce
    hpayload hrotated.startsRetained k
  exact (map_eq_of_rel hrel).symm

theorem wal_start_completeStep (e : WorkflowEngine) (w t ns tq : UInt64) (total : UInt32)
    (input : Option Bytes) (k : UInt64) (s : UInt32) (r : Bytes) :
    (e.run [.startWorkflow w t ns tq total input, .completeStep k s r]).wal
      = e.wal.map (fun m =>
          (m.append .workflowStarted (workflowKey ns w)
            (startData w t ns tq total)).append
            .stepCompleted k (stepData s r)) := by
  show ((e.startWorkflow w t ns tq total input).2.completeStep k s r).wal = _
  rw [wal_completeStep]
  show (e.wal.map _).map _ = _
  rw [Option.map_map]
  rfl

theorem recovered_of_replayAll_error {e : WorkflowEngine} {w : WalManager} {err : IoError}
    (hw : e.wal = some w) (h : w.reopen.replayAll = .error err) (now : Nat) :
    (e.recovered now).workflows = WorkflowContextPool.new := by
  have hwal : (e.restart now).wal = some w.reopen := by
    show e.wal.map reopen = _
    rw [hw]
    rfl
  simp only [WorkflowEngine.recovered, recoverFromWal, hwal, h]
  rfl

end Recovery

theorem recovered_stepView_start_completeStep :
    let e := (WorkflowEngine.withWal 1024 3 .strict 0).run
      [.startWorkflow 1 1 0 1 1 none, .completeStep 1 0 [42]]
    ((e.recovered 5).workflows.lookup 1).map stepView = (e.workflows.lookup 1).map stepView := by
  refine recovered_stepView 1024 3 .strict 0 5
    [.startWorkflow 1 1 0 1 1 none, .completeStep 1 0 [42]] ?_ (by decide) ?_ ?_ 1
  · simp [EngineOp.IsStepOp]
  · simp [EngineOp.PayloadFits]
  · intro w hw
    rw [wal_start_completeStep] at hw
    cases hw
    decide +kernel

/-! ### Too long a payload -/

/-- With the step index in front, a payload of `2 ^ 32` bytes. -/
def longResult : Bytes := List.replicate (2 ^ 32 - 4) 0

def longResultRecords : List WalRecord :=
  [WorkflowEngine.startRecord 1 1 0 1 1, WorkflowEngine.stepRecord 1 0 longResult]

theorem length_stepData_longResult : (stepData 0 longResult).length = 2 ^ 32 := by
  have hlength : (stepData 0 longResult).length = 4 + (2 ^ 32 - 4) := by
    rw [stepData, List.length_append, length_u32ToLeBytes, longResult,
      List.length_replicate]
  omega

theorem readWalRecords_longResult :
    readWalRecords (segmentFile longResultRecords) = .error ⟨.invalidData, "CRC mismatch"⟩ := by
  have hstart : WalRecord.decode (encodeAll longResultRecords)
      = .ok (some (startRecord 1 1 0 1 1,
          (stepRecord 1 0 longResult).encode ++ [])) :=
    WalRecord.decode_eq_some.mpr ⟨rfl, fits_startRecord 1 1 0 1 1⟩
  -- the step index is taken for the checksum
  have hstep : WalRecord.decode ((stepRecord 1 0 longResult).encode ++ [])
      = .error ⟨.invalidData, "CRC mismatch"⟩ :=
    have hdata : (stepRecord 1 0 longResult).data
        = u32ToLeBytes 0 ++ longResult := rfl
    WalRecord.decode_of_length_wrapped length_stepData_longResult hdata (length_u32ToLeBytes 0)
      (by decide +kernel) []
  rw [segmentFile, readWalRecords_header, readRecords_of_some hstart, readRecords_of_error hstep]
  rfl

def longResultWal : WalManager :=
  ((withRetention (fun _ => none) (2 ^ 33) 3).appendEvent .workflowStarted 1
    (WorkflowEngine.startData 1 1 0 1 1)).appendEvent .stepCompleted 1
      (WorkflowEngine.stepData 0 longResult)

theorem holds_longResultWal : longResultWal.Holds :=
  ((holds_withRetention (2 ^ 33) 3).appendEvent _ _ _).appendEvent _ _ _

theorem wal_longResult :
    ((WorkflowEngine.withWal (2 ^ 33) 3 .strict 0).run
      [.startWorkflow 1 1 0 1 1 none, .completeStep 1 0 longResult]).wal
      = some longResultWal := by
  have hfirst := (holds_withRetention (2 ^ 33) 3).appendEvent .workflowStarted 1
    (startData 1 1 0 1 1)
  -- both appends stay below the limit, so neither rotates
  have happend : (withRetention (fun _ => none) (2 ^ 33) 3).append .workflowStarted 1
        (startData 1 1 0 1 1)
      = (withRetention (fun _ => none) (2 ^ 33) 3).appendEvent .workflowStarted 1
        (startData 1 1 0 1 1) := by
    refine append_of_le ?_
    rw [hfirst.currentLen_eq]
    decide +kernel
  have hlong : longResultWal.currentLen ≤ 2 ^ 33 := by
    have hlog : longResultWal.log.current = longResultRecords := rfl
    have hstart : (startRecord 1 1 0 1 1).data.length = 36 := rfl
    have hstep : (stepRecord 1 0 longResult).data.length = 2 ^ 32 :=
      length_stepData_longResult
    rw [holds_longResultWal.currentLen_eq, hlog, longResultRecords, encodeAll_cons,
      encodeAll_cons, encodeAll_nil, List.length_append,
      List.length_append, WalRecord.length_encode, WalRecord.length_encode, hstart, hstep,
      List.length_nil]
    omega
  rw [wal_start_completeStep]
  show some (((withRetention (fun _ => none) (2 ^ 33) 3).append .workflowStarted 1
    (startData 1 1 0 1 1)).append .stepCompleted 1
      (stepData 0 longResult)) = some longResultWal
  rw [happend, append_of_le hlong]
  rfl

theorem replayAll_longResultWal :
    longResultWal.reopen.replayAll = .error ⟨.invalidData, "CRC mismatch"⟩ := by
  have hholds := holds_longResultWal.reopen
  have hnone : ∀ i, i < 3 → longResultWal.reopen.disk (.rotated (i + 1)) = none :=
    fun i hi => hholds.rotated i hi
  have hold : longResultWal.reopen.replayOld = .ok [] := by
    show replayRotated longResultWal.reopen.disk 3 = _
    simp [replayRotated, Disk.pathExists, hnone 0, hnone 1, hnone 2, bind, Except.bind]
  have hcurrent : longResultWal.reopen.replay = .error ⟨.invalidData, "CRC mismatch"⟩ := by
    rw [replay, Disk.readWalRecords, hholds.current]
    exact readWalRecords_longResult
  rw [replayAll, hold, hcurrent]
  rfl

/-- **One step result of `2 ^ 32 - 4` bytes and the log is unreadable.** -/
theorem recovered_empty_of_long_result :
    let e := (WorkflowEngine.withWal (2 ^ 33) 3 .strict 0).run
      [.startWorkflow 1 1 0 1 1 none, .completeStep 1 0 longResult]
    e.RotationsRetained ∧ (e.workflows.lookup 1).isSome
      ∧ (e.recovered 0).workflows.lookup 1 = none := by
  intro e
  refine ⟨?_, ?_, ?_⟩
  · intro w hw
    rw [wal_longResult] at hw
    cases hw
    exact Nat.zero_le 3
  -- the result itself is never unfolded
  · have hwf := wellFormed_new (α := WorkflowContext)
    rw [show e = ((WorkflowEngine.withWal (2 ^ 33) 3 .strict 0).step
        (.startWorkflow 1 1 0 1 1 none)).step (.completeStep 1 0 longResult) from rfl,
      step_workflows, step_workflows]
    show (((new.insert 1 _).2.modify 1 _).lookup 1).isSome
    rw [WorkflowContextPool.modify, WorkflowContextPool.lookup_withMut, if_pos rfl,
      hwf.lookup_insert, if_pos ⟨rfl, Or.inr freeList_new_ne_nil⟩]
    rfl
  · rw [recovered_of_replayAll_error wal_longResult replayAll_longResultWal]
    rfl

end Velocity
