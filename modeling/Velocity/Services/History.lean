import Mathlib.Data.List.AList
import Velocity.Lib.LittleEndian

namespace Velocity

open Lib

/-!
# Event histories

`HistoryStore`: a list of numbered events per workflow key.
-/

inductive HistoryEventType where
  | workflowStarted
  | workflowCompleted
  | workflowFailed
  | workflowCanceled
  | workflowTerminated
  | workflowTimedOut
  | workflowContinuedAsNew
  | stepCompleted
  | activityScheduled
  | activityStarted
  | activityCompleted
  | activityFailed
  | activityTimedOut
  | signalReceived
  | updateReceived
  | queryReceived
  | timerStarted
  | timerFired
  | timerCanceled
  | childWorkflowStarted
  | childWorkflowCompleted
  | childWorkflowFailed
  | markerRecorded
  | workflowReset
  deriving DecidableEq, Repr

structure HistoryEvent where
  eventId : UInt64
  eventType : HistoryEventType
  workflowKey : UInt64
  timestampMs : UInt64
  payload : Bytes
  attributes : AList (fun _ : String => String)

structure WorkflowHistory where
  events : List HistoryEvent
  nextEventId : UInt64

namespace WorkflowHistory

def new : WorkflowHistory := ⟨[], 1⟩

def append (history : WorkflowHistory) (eventType : HistoryEventType) (workflowKey : UInt64)
    (payload : Bytes) : UInt64 × WorkflowHistory :=
  let eventId := history.nextEventId
  (eventId,
    { events := history.events ++ [⟨eventId, eventType, workflowKey, 0, payload, ∅⟩]
      nextEventId := history.nextEventId + 1 })

end WorkflowHistory

structure HistoryStore where
  histories : AList (fun _ : UInt64 => WorkflowHistory)

namespace HistoryStore

def new : HistoryStore := ⟨∅⟩

variable (store : HistoryStore)

def recordEvent (workflowKey : UInt64) (eventType : HistoryEventType)
    (payload : Bytes) : UInt64 × HistoryStore :=
  let history := (store.histories.lookup workflowKey).getD WorkflowHistory.new
  let (eventId, history) := history.append eventType workflowKey payload
  (eventId, ⟨store.histories.insert workflowKey history⟩)

def getHistory (workflowKey : UInt64) : Option (List HistoryEvent) :=
  (store.histories.lookup workflowKey).map (·.events)

theorem getHistory_recordEvent (k : UInt64) (t : HistoryEventType) (payload : Bytes) :
    (store.recordEvent k t payload).2.getHistory k
      = some ((store.getHistory k).getD []
          ++ [⟨(store.recordEvent k t payload).1, t, k, 0, payload, ∅⟩]) := by
  simp only [recordEvent, getHistory, AList.lookup_insert, Option.map_some]
  cases store.histories.lookup k <;> rfl

theorem getHistory_recordEvent_of_ne {k k' : UInt64} (hk : k' ≠ k)
    (t : HistoryEventType) (payload : Bytes) :
    (store.recordEvent k t payload).2.getHistory k' = store.getHistory k' := by
  simp only [recordEvent, getHistory, AList.lookup_insert_ne hk]

end HistoryStore

end Velocity
