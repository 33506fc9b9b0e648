import Velocity.Nmcp.Signals

namespace Velocity.Nmcp

open Lib
open Embedded (Value)
open Vctp

/-!
# The embedded frame router

`NmcpFrameRouter` with all of its handlers; writes to the database are left out.
-/

/-! ### Frames and requests -/

namespace EmbeddedFrameTypes

def executeWorkflow : UInt32 := 70
def getWorkflow : UInt32 := 71
def signalWorkflow : UInt32 := 72
def queryWorkflow : UInt32 := 73
def completeWorkflow : UInt32 := 74
def listWorkflows : UInt32 := 75
def cancelWorkflow : UInt32 := 76
def healthCheck : UInt32 := 80
def engineStats : UInt32 := 81

end EmbeddedFrameTypes

structure EmbeddedRequestBody extends NmcpRequestBody where
  workflowType : Option String := none
  queryType : Option String := none

class EmbeddedCodec extends NmcpCodec where
  /-- `serde_json::from_slice` of a request body, or the text of its error. -/
  parseRequest : Bytes → Except String EmbeddedRequestBody
  parseBody_eq (payload : Bytes) :
    parseBody payload = (parseRequest payload).map (·.toNmcpRequestBody)

structure NmcpRouterStats where
  framesReceived : UInt64 := 0
  framesDispatched : UInt64 := 0
  errors : UInt64 := 0
  unknownTypes : UInt64 := 0
  deriving DecidableEq, Repr

def count (n : UInt64) : Value := .number (.posInt n)

def NmcpRouterStats.toValue (s : NmcpRouterStats) : Value :=
  .object [("frames_received", count s.framesReceived),
    ("frames_dispatched", count s.framesDispatched), ("errors", count s.errors),
    ("unknown_types", count s.unknownTypes)]

structure EmbeddedFrameRouter extends NmcpFrameRouter where
  workflowCounter : UInt64
  stats : NmcpRouterStats

namespace EmbeddedFrameRouter

def new (engine : WorkflowEngine) (workflowMap : AList (fun _ : String => UInt64))
    (workflowCounter : UInt64) : EmbeddedFrameRouter :=
  ⟨⟨engine, workflowMap⟩, workflowCounter, {}⟩

abbrev Reply := NmcpFrame × EmbeddedFrameRouter

/-! ### Handlers -/

section Handlers

variable [EmbeddedCodec]

variable (r : EmbeddedFrameRouter) (frame : NmcpFrame)

def parseBody : Except NmcpFrame EmbeddedRequestBody × EmbeddedFrameRouter :=
  match EmbeddedCodec.parseRequest frame.payload with
  | .ok body => (.ok body, r)
  | .error e =>
    (.error (.errorResponse frame.sequenceId 400 s!"invalid JSON: {e}"),
      { r with stats := { r.stats with errors := r.stats.errors + 1 } })

def lookupKey (workflowId : String) : Except NmcpFrame UInt64 :=
  match r.workflowMap.lookup workflowId with
  | some key => .ok key
  | none => .error (.errorResponse 0 404 s!"workflow not found: {workflowId}")

def forWorkflow
    (found : EmbeddedFrameRouter → EmbeddedRequestBody → String → UInt64 → Reply) : Reply :=
  match r.parseBody frame with
  | (.error resp, r) => (resp, r)
  | (.ok body, r) =>
    match body.workflowId with
    | none => (.errorResponse frame.sequenceId 400 "missing workflow_id", r)
    | some wfId =>
      match r.lookupKey wfId with
      | .error resp => (resp, r)
      | .ok key => found r body wfId key

def answer (sequenceId : UInt32) (data : Value) : NmcpFrame :=
  .jsonResponse sequenceId (.object [("success", .bool true), ("data", data)])

def handleGet : Reply :=
  r.forWorkflow frame (fun r _ wfId key =>
    (answer frame.sequenceId (.object [("workflowId", .string wfId),
      ("status", .string (statusToStr (r.engine.getStatus key))),
      ("totalSteps", count (r.engine.getTotalSteps key).toUInt64),
      ("completedSteps", count (r.engine.getCurrentStep key).toUInt64)]), r))

def handleSignal : Reply :=
  r.forWorkflow frame (fun r body _ key =>
    let signalId := lenAsU64 (body.signalName.getD "unknown")
    let data := NmcpCodec.toVec (body.input.getD .null)
    (NmcpFrameRouter.signalled frame.sequenceId,
      { r with engine := r.engine.signalWorkflow key signalId data }))

def queryResult (e : WorkflowEngine) (key : UInt64) (queryType : String) : Value :=
  if queryType = "status" then .object [("status", .string (statusToStr (e.getStatus key)))]
  else if queryType = "progress" then
    .object [("completed", count (e.getCurrentStep key).toUInt64),
      ("total", count (e.getTotalSteps key).toUInt64)]
  else .object [("error", .string "unknown query type")]

def handleQuery : Reply :=
  r.forWorkflow frame (fun r body _ key =>
    (answer frame.sequenceId (queryResult r.engine key (body.queryType.getD "")), r))

def handleComplete : Reply :=
  r.forWorkflow frame (fun r _ _ key =>
    (NmcpFrameRouter.signalled frame.sequenceId,
      { r with engine := r.engine.completeWorkflow key (some []) }))

def handleList : Reply :=
  let workflows := r.workflowMap.entries.map (fun entry =>
    .object [("workflowId", .string entry.1),
      ("status", .string (statusToStr (r.engine.getStatus entry.2))),
      ("completedSteps", count (r.engine.getCurrentStep entry.2).toUInt64),
      ("totalSteps", count (r.engine.getTotalSteps entry.2).toUInt64)])
  (.jsonResponse frame.sequenceId (.object [("success", .bool true), ("data", .array workflows),
    ("count", count (UInt64.ofNat workflows.length))]), r)

def handleHealth : Reply :=
  (answer frame.sequenceId (.object [("status", .string "ok"),
    ("engine", .string "velocity-embedded"), ("transport", .string "nmcp"),
    ("mode", .string "library+server")]), r)

def countStatus (status : WorkflowStatus) : Value :=
  count (UInt64.ofNat
    (r.workflowMap.entries.countP (fun entry => r.engine.getStatus entry.2 == status)))

def handleStats : Reply :=
  (answer frame.sequenceId (.object
    [("total_workflows", count (UInt64.ofNat r.workflowMap.entries.length)),
      ("running", r.countStatus .running), ("completed", r.countStatus .completed),
      ("failed", r.countStatus .failed), ("router", r.stats.toValue)]), r)

variable [Sha256]

def handleExecute : Reply :=
  match r.parseBody frame with
  | (.error resp, r) => (resp, r)
  | (.ok body, r) =>
    let counter := r.workflowCounter
    let wfId := body.workflowId.getD s!"emb-{counter}"
    let wfIdNum := if body.workflowId.isSome then counter else counter + 1
    let wfType := body.workflowType.getD "Unknown"
    let started := r.engine.startWorkflow wfIdNum (lenAsU64 wfType) 1 1 10 none
    let key := started.1
    (answer frame.sequenceId (.object [("workflowId", .string wfId),
      ("functionName", .string wfType), ("status", .string "COMPLETED"),
      ("mode", .string "embedded_nmcp")]),
      { r with
        engine := VctpRpcServer.runToCompletion started.2 key
        workflowMap := r.workflowMap.insert wfId key
        workflowCounter := wfIdNum + 1 })

def handleCancel : Reply :=
  r.forWorkflow frame (fun r _ _ key =>
    (NmcpFrameRouter.signalled frame.sequenceId, { r with engine := r.engine.cancelWorkflow key }))

def unknownType : Reply :=
  (.errorResponse frame.sequenceId 404 "unknown frame type",
    { r with stats := { r.stats with unknownTypes := r.stats.unknownTypes + 1 } })

def route : Reply :=
  if frame.frameType = EmbeddedFrameTypes.executeWorkflow then r.handleExecute frame
  else if frame.frameType = EmbeddedFrameTypes.getWorkflow then r.handleGet frame
  else if frame.frameType = EmbeddedFrameTypes.signalWorkflow then r.handleSignal frame
  else if frame.frameType = EmbeddedFrameTypes.queryWorkflow then r.handleQuery frame
  else if frame.frameType = EmbeddedFrameTypes.completeWorkflow then r.handleComplete frame
  else if frame.frameType = EmbeddedFrameTypes.listWorkflows then r.handleList frame
  else if frame.frameType = EmbeddedFrameTypes.cancelWorkflow then r.handleCancel frame
  else if frame.frameType = EmbeddedFrameTypes.healthCheck then r.handleHealth frame
  else if frame.frameType = EmbeddedFrameTypes.engineStats then r.handleStats frame
  else r.unknownType frame

def dispatch : Reply :=
  let r := { r with stats := { r.stats with framesReceived := r.stats.framesReceived + 1 } }
  let reply := r.route frame
  (reply.1, { reply.2 with
    stats := { reply.2.stats with framesDispatched := reply.2.stats.framesDispatched + 1 } })

end Handlers

/-! ### Sequence ids -/

section SequenceIds

variable [EmbeddedCodec]

variable (r : EmbeddedFrameRouter)

def NamesUnknown (r : EmbeddedFrameRouter) (frame : NmcpFrame) : Prop :=
  ∃ body wfId, EmbeddedCodec.parseRequest frame.payload = .ok body
    ∧ body.workflowId = some wfId ∧ r.workflowMap.lookup wfId = none

variable (frame : NmcpFrame)

theorem sequenceId_forWorkflow_iff
    {found : EmbeddedFrameRouter → EmbeddedRequestBody → String → UInt64 → Reply}
    (hfound : ∀ r body wfId key, (found r body wfId key).1.sequenceId = frame.sequenceId) :
    (r.forWorkflow frame found).1.sequenceId = frame.sequenceId
      ↔ (r.NamesUnknown frame → frame.sequenceId = 0) := by
  unfold forWorkflow parseBody NamesUnknown
  cases hparse : EmbeddedCodec.parseRequest frame.payload with
  | error e =>
    refine iff_of_true rfl ?_
    rintro ⟨body, wfId, hbody, -⟩
    cases hbody
  | ok body =>
    dsimp only
    cases hid : body.workflowId with
    | none =>
      refine iff_of_true rfl ?_
      rintro ⟨body', wfId, hbody, hid', -⟩
      cases hbody
      rw [hid] at hid'
      cases hid'
    | some wfId =>
      dsimp only [lookupKey]
      cases hkey : r.workflowMap.lookup wfId with
      | some key =>
        refine iff_of_true (hfound _ _ _ _) ?_
        rintro ⟨body', wfId', hbody, hid', hnone⟩
        cases hbody
        cases hid.symm.trans hid'
        rw [hkey] at hnone
        cases hnone
      | none =>
        constructor
        · intro hzero _
          exact hzero.symm
        · intro hzero
          exact (hzero ⟨body, wfId, rfl, hid, hkey⟩).symm

variable [Sha256]

theorem sequenceId_handleExecute : (r.handleExecute frame).1.sequenceId = frame.sequenceId := by
  unfold handleExecute parseBody
  cases EmbeddedCodec.parseRequest frame.payload with
  | error e | ok body => rfl

def forOneWorkflow : List UInt32 :=
  [EmbeddedFrameTypes.getWorkflow, EmbeddedFrameTypes.signalWorkflow,
    EmbeddedFrameTypes.queryWorkflow, EmbeddedFrameTypes.completeWorkflow,
    EmbeddedFrameTypes.cancelWorkflow]

/-- A frame for one workflow whose id is not registered. -/
def AsksForUnknown (r : EmbeddedFrameRouter) (frame : NmcpFrame) : Prop :=
  frame.frameType ∈ forOneWorkflow ∧ r.NamesUnknown frame

omit [Sha256] in
theorem sequenceId_forWorkflow_iff_asks {frame : NmcpFrame}
    (htype : frame.frameType ∈ forOneWorkflow)
    {found : EmbeddedFrameRouter → EmbeddedRequestBody → String → UInt64 → Reply}
    (hfound : ∀ r body wfId key, (found r body wfId key).1.sequenceId = frame.sequenceId) :
    (r.forWorkflow frame found).1.sequenceId = frame.sequenceId
      ↔ (r.AsksForUnknown frame → frame.sequenceId = 0) := by
  rw [sequenceId_forWorkflow_iff r frame hfound, AsksForUnknown, and_iff_right htype]

theorem sequenceId_route_iff : (r.route frame).1.sequenceId = frame.sequenceId
      ↔ (r.AsksForUnknown frame → frame.sequenceId = 0) := by
  have hother : frame.frameType ∉ forOneWorkflow →
      (r.AsksForUnknown frame → frame.sequenceId = 0) := fun h hasks => absurd hasks.1 h
  unfold route
  split_ifs with hexecute hget hsignal hquery hcomplete hlist hcancel hhealth hstats
  · exact iff_of_true (r.sequenceId_handleExecute frame) (hother (by rw [hexecute]; decide))
  · exact r.sequenceId_forWorkflow_iff_asks (by rw [hget]; decide) (fun _ _ _ _ => rfl)
  · exact r.sequenceId_forWorkflow_iff_asks (by rw [hsignal]; decide) (fun _ _ _ _ => rfl)
  · exact r.sequenceId_forWorkflow_iff_asks (by rw [hquery]; decide) (fun _ _ _ _ => rfl)
  · exact r.sequenceId_forWorkflow_iff_asks (by rw [hcomplete]; decide) (fun _ _ _ _ => rfl)
  · exact iff_of_true rfl (hother (by rw [hlist]; decide))
  · exact r.sequenceId_forWorkflow_iff_asks (by rw [hcancel]; decide) (fun _ _ _ _ => rfl)
  · exact iff_of_true rfl (hother (by rw [hhealth]; decide))
  · exact iff_of_true rfl (hother (by rw [hstats]; decide))
  · refine iff_of_true rfl (hother ?_)
    simp [forOneWorkflow, hget, hsignal, hquery, hcomplete, hcancel]

/-- **Correlation** fails exactly for a non-zero id that asks for a workflow outside the map. -/
theorem sequenceId_dispatch_iff (r : EmbeddedFrameRouter) (frame : NmcpFrame) :
    (r.dispatch frame).1.sequenceId = frame.sequenceId
      ↔ frame.sequenceId = 0 ∨ ¬ r.AsksForUnknown frame := by
  -- counting the frame leaves the map as it is
  have hroute := sequenceId_route_iff
    { r with stats := { r.stats with framesReceived := r.stats.framesReceived + 1 } } frame
  exact hroute.trans (imp_iff_not_or.trans or_comm)

end SequenceIds

def gonePayload : Bytes := "\x7b\"workflow_id\":\"gone\"\x7d".toUTF8.toList

@[reducible] def goneCodec : EmbeddedCodec where
  parseRequest payload :=
    if payload = gonePayload then .ok { workflowId := some "gone" }
    else .error "expected value at line 1 column 1"
  parseBody payload :=
    if payload = gonePayload then .ok { workflowId := some "gone" }
    else .error "expected value at line 1 column 1"
  toVec _ :=
    "\x7b\"error\":\"workflow not found: gone\",\"status\":404,\"success\":false\x7d".toUTF8.toList
  parseBody_eq payload := by
    split
    · rfl
    · rfl

theorem gone_answered_uncorrelated :
    letI := goneCodec
    ((new (.new none .strict 0) ∅ 1).dispatch
      ⟨EmbeddedFrameTypes.getWorkflow, 7, gonePayload⟩).1.sequenceId = 0 := by
  decide +kernel

end EmbeddedFrameRouter

end Velocity.Nmcp
