import Velocity.Engine.Context
import Velocity.Lib.Run
import Velocity.Services.History

namespace Velocity

open Lib

/-!
# Replaying an event history

`ReplayEngine::replay` over at most `max_replay_events` events, without the cache.
-/

/-! ### What is rebuilt -/

inductive ReplayActivityStatus where
  | scheduled
  | started
  | completed
  | failed
  | timedOut
  deriving DecidableEq, Repr

structure ReplayActivityState where
  stepIndex : UInt32
  activityNameId : UInt64
  status : ReplayActivityStatus
  result : Option Bytes
  deriving DecidableEq, Repr

inductive ReplayTimerStatus where
  | started
  | fired
  | canceled
  deriving DecidableEq, Repr

structure ReplayTimerState where
  timerId : UInt64
  startedAtEventId : UInt64
  status : ReplayTimerStatus
  firedAtEventId : Option UInt64
  deriving DecidableEq, Repr

inductive ReplayChildStatus where
  | started
  | completed
  | failed
  deriving DecidableEq, Repr

structure ReplayChildState where
  childWorkflowKey : UInt64
  status : ReplayChildStatus
  result : Option Bytes
  deriving DecidableEq, Repr

structure ReplayResult where
  workflowKey : UInt64
  replayedToEventId : UInt64
  totalEvents : Nat
  eventsReplayed : Nat
  status : WorkflowStatus
  stepResults : AList (fun _ : UInt32 => Bytes)
  pendingSignals : AList (fun _ : UInt64 => List Bytes)
  activityStates : List ReplayActivityState
  timerStates : List ReplayTimerState
  childStates : List ReplayChildState
  determinismChecksum : UInt64
  success : Bool
  error : Option String

structure ReplayState where
  stepResults : AList (fun _ : UInt32 => Bytes)
  pendingSignals : AList (fun _ : UInt64 => List Bytes)
  activityStates : List ReplayActivityState
  timerStates : List ReplayTimerState
  childStates : List ReplayChildState
  status : WorkflowStatus
  eventsReplayed : Nat
  replayedToEventId : UInt64
  checksum : UInt64

def HistoryEventType.toU64 : HistoryEventType → UInt64
  | .workflowStarted => 1
  | .workflowCompleted => 2
  | .workflowFailed => 3
  | .workflowCanceled => 4
  | .workflowTerminated => 5
  | .workflowTimedOut => 6
  | .workflowContinuedAsNew => 7
  | .stepCompleted => 10
  | .activityScheduled => 20
  | .activityStarted => 21
  | .activityCompleted => 22
  | .activityFailed => 23
  | .activityTimedOut => 24
  | .signalReceived => 30
  | .updateReceived => 31
  | .queryReceived => 32
  | .timerStarted => 40
  | .timerFired => 41
  | .timerCanceled => 42
  | .childWorkflowStarted => 50
  | .childWorkflowCompleted => 51
  | .childWorkflowFailed => 52
  | .markerRecorded => 60
  | .workflowReset => 70

/-- `iter_mut().rev().find(..)` and a write to what was found. -/
def modifyLast {α : Type} (p : α → Bool) (f : α → α) : List α → List α
  | [] => []
  | a :: l =>
    if l.any p then a :: modifyLast p f l
    else if p a then f a :: l
    else a :: l

/-! ### One event -/

namespace ReplayState

def new : ReplayState where
  stepResults := ∅
  pendingSignals := ∅
  activityStates := []
  timerStates := []
  childStates := []
  status := .void
  eventsReplayed := 0
  replayedToEventId := 0
  checksum := 0xcbf29ce484222325

def mixChecksum (checksum : UInt64) (event : HistoryEvent) : UInt64 :=
  let mix (checksum x : UInt64) := (checksum ^^^ x) * 0x100000001b3
  mix (mix (mix checksum event.eventType.toU64) event.eventId) (UInt64.ofNat event.payload.length)

def payloadAfter (payload : Bytes) (n : Nat) : Option Bytes :=
  if payload.length > n then some (payload.drop n) else none

variable (st : ReplayState)

/-- The last activity scheduled for the step is rewritten. -/
def updateActivity (event : HistoryEvent)
    (f : ReplayActivityState → ReplayActivityState) : ReplayState :=
  if event.payload.length ≥ 4 then
    let stepIndex := u32FromLeBytes (event.payload.take 4)
    { st with activityStates := modifyLast (·.stepIndex = stepIndex) f st.activityStates }
  else st

def endTimer (event : HistoryEvent) (status : ReplayTimerStatus) : ReplayState :=
  if event.payload.length ≥ 8 then
    let timerId := u64FromLeBytes (event.payload.take 8)
    { st with
      timerStates := modifyLast (fun t => t.timerId = timerId ∧ t.status = .started)
        (fun t => { t with status := status, firedAtEventId := some event.eventId })
        st.timerStates }
  else st

def updateChild (event : HistoryEvent) (f : ReplayChildState → ReplayChildState) : ReplayState :=
  if event.payload.length ≥ 8 then
    let childKey := u64FromLeBytes (event.payload.take 8)
    { st with childStates := modifyLast (·.childWorkflowKey = childKey) f st.childStates }
  else st

def interpret (event : HistoryEvent) : ReplayState :=
  match event.eventType with
  | .workflowStarted => { st with status := .running }
  | .workflowCompleted => { st with status := .completed }
  | .workflowFailed => { st with status := .failed }
  | .workflowCanceled => { st with status := .canceled }
  | .workflowTerminated => { st with status := .terminated }
  | .workflowTimedOut => { st with status := .timedOut }
  | .workflowContinuedAsNew => { st with status := .continuedAsNew }
  | .stepCompleted =>
    if event.payload.length ≥ 4 then
      let stepIndex := u32FromLeBytes (event.payload.take 4)
      let result := (payloadAfter event.payload 4).getD []
      { st with stepResults := st.stepResults.insert stepIndex result }
    else st
  | .activityScheduled =>
    if event.payload.length ≥ 12 then
      let stepIndex := u32FromLeBytes (event.payload.take 4)
      let activityNameId := u64FromLeBytes ((event.payload.drop 4).take 8)
      { st with
        activityStates := st.activityStates ++ [⟨stepIndex, activityNameId, .scheduled, none⟩] }
    else st
  | .activityStarted => st.updateActivity event ({ · with status := .started })
  | .activityCompleted =>
    st.updateActivity event
      ({ · with status := .completed, result := payloadAfter event.payload 4 })
  | .activityFailed => st.updateActivity event ({ · with status := .failed })
  | .activityTimedOut => st.updateActivity event ({ · with status := .timedOut })
  | .signalReceived =>
    if event.payload.length ≥ 8 then
      let signalNameId := u64FromLeBytes (event.payload.take 8)
      let signalPayload := (payloadAfter event.payload 8).getD []
      let payloads := (st.pendingSignals.lookup signalNameId).getD []
      { st with
        pendingSignals := st.pendingSignals.insert signalNameId (payloads ++ [signalPayload]) }
    else st
  | .timerStarted =>
    if event.payload.length ≥ 8 then
      let timerId := u64FromLeBytes (event.payload.take 8)
      { st with timerStates := st.timerStates ++ [⟨timerId, event.eventId, .started, none⟩] }
    else st
  | .timerFired => st.endTimer event .fired
  | .timerCanceled => st.endTimer event .canceled
  | .childWorkflowStarted =>
    if event.payload.length ≥ 8 then
      let childKey := u64FromLeBytes (event.payload.take 8)
      { st with childStates := st.childStates ++ [⟨childKey, .started, none⟩] }
    else st
  | .childWorkflowCompleted =>
    st.updateChild event ({ · with status := .completed, result := payloadAfter event.payload 8 })
  | .childWorkflowFailed => st.updateChild event ({ · with status := .failed })
  -- these are counted and change nothing else
  | .updateReceived | .queryReceived | .markerRecorded | .workflowReset => st

def replayEvent (event : HistoryEvent) : ReplayState :=
  interpret
    { st with
      replayedToEventId := event.eventId
      eventsReplayed := st.eventsReplayed + 1
      checksum := mixChecksum st.checksum event }
    event

end ReplayState

def HistoryEventType.setsStatus : HistoryEventType → Option WorkflowStatus
  | .workflowStarted => some .running
  | .workflowCompleted => some .completed
  | .workflowFailed => some .failed
  | .workflowCanceled => some .canceled
  | .workflowTerminated => some .terminated
  | .workflowTimedOut => some .timedOut
  | .workflowContinuedAsNew => some .continuedAsNew
  | _ => none

namespace ReplayState

def SameCore (st st' : ReplayState) : Prop :=
  st'.eventsReplayed = st.eventsReplayed ∧ st'.status = st.status ∧ st'.stepResults = st.stepResults

variable (st : ReplayState)

variable (event : HistoryEvent)

theorem sameCore_updateActivity
    (f : ReplayActivityState → ReplayActivityState) : st.SameCore (st.updateActivity event f) := by
  unfold updateActivity
  split <;> exact ⟨rfl, rfl, rfl⟩

theorem sameCore_endTimer (status : ReplayTimerStatus) :
    st.SameCore (st.endTimer event status) := by
  unfold endTimer
  split <;> exact ⟨rfl, rfl, rfl⟩

theorem sameCore_updateChild
    (f : ReplayChildState → ReplayChildState) : st.SameCore (st.updateChild event f) := by
  unfold updateChild
  split <;> exact ⟨rfl, rfl, rfl⟩

theorem interpret_spec : (st.interpret event).eventsReplayed = st.eventsReplayed
    ∧ (st.interpret event).status = event.eventType.setsStatus.getD st.status
    ∧ (event.eventType ≠ .stepCompleted → (st.interpret event).stepResults = st.stepResults) := by
  have hcore : ∀ {st' : ReplayState} {P : Prop}, st.SameCore st' →
      st'.eventsReplayed = st.eventsReplayed ∧ st'.status = st.status
        ∧ (P → st'.stepResults = st.stepResults) :=
    fun h => ⟨h.1, h.2.1, fun _ => h.2.2⟩
  unfold interpret
  cases event.eventType with
  | stepCompleted =>
    simp only
    split <;> exact ⟨rfl, rfl, fun hne => absurd rfl hne⟩
  | activityScheduled | signalReceived | timerStarted | childWorkflowStarted =>
    simp only
    split <;> exact ⟨rfl, rfl, fun _ => rfl⟩
  | activityStarted | activityCompleted | activityFailed | activityTimedOut =>
    exact hcore (st.sameCore_updateActivity event _)
  | timerFired | timerCanceled => exact hcore (st.sameCore_endTimer event _)
  | childWorkflowCompleted | childWorkflowFailed =>
    exact hcore (st.sameCore_updateChild event _)
  | _ => exact ⟨rfl, rfl, fun _ => rfl⟩

theorem replayEvent_spec : (st.replayEvent event).eventsReplayed = st.eventsReplayed + 1
    ∧ (st.replayEvent event).status = event.eventType.setsStatus.getD st.status
    ∧ (event.eventType ≠ .stepCompleted → (st.replayEvent event).stepResults = st.stepResults) :=
  interpret_spec _ event

end ReplayState

/-! ### A history -/

structure ReplayEngine where
  maxReplayEvents : Nat

namespace ReplayEngine

def new : ReplayEngine := ⟨100000⟩

def replayLoop (r : ReplayEngine) (cutoff : UInt64) : ReplayState → List HistoryEvent → ReplayState
  | st, [] => st
  | st, event :: history =>
    if event.eventId > cutoff then st
    else if st.eventsReplayed ≥ r.maxReplayEvents then st
    else r.replayLoop cutoff (st.replayEvent event) history

def replay (r : ReplayEngine) (workflowKey : UInt64) (history : List HistoryEvent)
    (upToEventId : Option UInt64) : ReplayResult :=
  let cutoff := upToEventId.getD 0xFFFFFFFFFFFFFFFF
  let st := r.replayLoop cutoff ReplayState.new history
  { workflowKey := workflowKey
    replayedToEventId := st.replayedToEventId
    totalEvents := history.length
    eventsReplayed := st.eventsReplayed
    status := st.status
    stepResults := st.stepResults
    pendingSignals := st.pendingSignals
    activityStates := st.activityStates
    timerStates := st.timerStates
    childStates := st.childStates
    determinismChecksum := st.checksum
    success := true
    error := none }

variable (r : ReplayEngine)

theorem replayLoop_max (st : ReplayState) (history : List HistoryEvent) :
    r.replayLoop 0xFFFFFFFFFFFFFFFF st history
      = (history.take (r.maxReplayEvents - st.eventsReplayed)).foldl ReplayState.replayEvent st := by
  induction history generalizing st with
  | nil => simp [replayLoop]
  | cons event history ih =>
    have hcut : ¬ event.eventId > 0xFFFFFFFFFFFFFFFF := by
      have := event.eventId.toNat_lt
      rw [gt_iff_lt, UInt64.lt_iff_toNat_lt, show (0xFFFFFFFFFFFFFFFF : UInt64).toNat = 2 ^ 64 - 1
        from rfl]
      omega
    rw [replayLoop, if_neg hcut]
    by_cases hfull : st.eventsReplayed ≥ r.maxReplayEvents
    · rw [if_pos hfull, Nat.sub_eq_zero_of_le hfull]
      rfl
    · obtain ⟨left, hleft⟩ : ∃ left, r.maxReplayEvents - st.eventsReplayed = left + 1 :=
        ⟨r.maxReplayEvents - st.eventsReplayed - 1, by omega⟩
      have hnext : r.maxReplayEvents - (st.replayEvent event).eventsReplayed = left := by
        rw [(st.replayEvent_spec event).1]
        omega
      rw [if_neg hfull, ih, hnext, hleft]
      rfl

def replayed (r : ReplayEngine) (history : List HistoryEvent) : ReplayState :=
  (history.take r.maxReplayEvents).foldl ReplayState.replayEvent ReplayState.new

/-- **A whole replay** is the fold over as many events as the engine replays. -/
theorem replay_none (key : UInt64) (history : List HistoryEvent) :
    (r.replay key history none).status = (r.replayed history).status
    ∧ (r.replay key history none).stepResults = (r.replayed history).stepResults := by
  have hloop := r.replayLoop_max ReplayState.new history
  rw [show r.maxReplayEvents - ReplayState.new.eventsReplayed = r.maxReplayEvents from rfl] at hloop
  exact ⟨congrArg ReplayState.status hloop, congrArg ReplayState.stepResults hloop⟩

theorem replayed_concat (history : List HistoryEvent) (event : HistoryEvent) :
    r.replayed (history ++ [event])
      = if history.length < r.maxReplayEvents then (r.replayed history).replayEvent event
        else r.replayed history := by
  unfold replayed
  split
  · next hfits =>
    rw [List.take_of_length_le (by simp; omega), List.take_of_length_le (by omega),
      List.foldl_append]
    rfl
  · next hfull => rw [List.take_append_of_le_length (by omega)]

theorem stepResults_replayed {history : List HistoryEvent}
    (h : ∀ event ∈ history, event.eventType ≠ .stepCompleted) :
    (r.replayed history).stepResults = ∅ := by
  have hstep : ∀ (st : ReplayState) (event : HistoryEvent), st.stepResults = ∅ →
      event.eventType ≠ .stepCompleted → (st.replayEvent event).stepResults = ∅ :=
    fun st event hempty hother => ((st.replayEvent_spec event).2.2 hother).trans hempty
  exact foldl_invariant hstep _ ReplayState.new rfl
    (stepsMeet_of_forall (fun event hevent => h event (List.mem_of_mem_take hevent)))

end ReplayEngine

end Velocity
