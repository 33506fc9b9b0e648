import Velocity.Embedded.Storage

namespace Velocity.Embedded

/-!
# Durable execution

`execute` and `DurableContext::run`. A handler is a tree of step calls; `W` is the world outside.

* `Handler.exec`: a handler run step by step against the journal.
* `EmbeddedEngine.execute`: the records before and after it.
-/

/-! ### Errors and handles -/

inductive EmbeddedError where
  | storage (msg : String)
  | serialization (msg : String)
  | execution (msg : String)
  | lockPoisoned
  | notFound (msg : String)
  deriving DecidableEq, Repr

def EmbeddedError.message : EmbeddedError → String
  | .storage msg => s!"Storage error: {msg}"
  | .serialization msg => s!"Serialization error: {msg}"
  | .execution msg => s!"Execution error: {msg}"
  | .lockPoisoned => "Lock poisoned"
  | .notFound msg => s!"Not found: {msg}"

inductive WorkflowStatus where
  | pending
  | running
  | completed
  | failed
  deriving DecidableEq, Repr

structure WorkflowHandle (R : Type) where
  workflowId : String
  status : WorkflowStatus
  result : Option R
  error : Option String
  deriving DecidableEq, Repr

namespace WorkflowHandle

variable {R : Type}

def completed (workflowId : String) (result : R) : WorkflowHandle R :=
  ⟨workflowId, .completed, some result, none⟩

def failed (workflowId error : String) : WorkflowHandle R :=
  ⟨workflowId, .failed, none, some error⟩

def running (workflowId : String) : WorkflowHandle R := ⟨workflowId, .running, none, none⟩

end WorkflowHandle

structure Serde (α : Type) where
  toValue : α → Except String Value
  fromValue : Value → Except String α

def u64Serde : Serde UInt64 where
  toValue n := .ok (.number (.posInt n))
  fromValue v :=
    match v.asU64 with
    | some n => .ok n
    | none => .error "invalid type: expected u64"

/-! ### The journal -/

structure JournalEntry where
  sequence : UInt64
  functionName : String
  input : Option Value
  output : Option Value
  error : Option String
  completed : Bool

namespace JournalEntry

def ofValue (v : Value) : JournalEntry where
  sequence := ((v.get "sequence").bind Value.asU64).getD 0
  functionName := ((v.get "function_name").bind Value.asStr).getD ""
  -- a stored null comes back as `some null`
  input := v.get "input"
  output := v.get "output"
  error := (v.get "error").bind Value.asStr
  completed := ((v.get "completed").bind Value.asBool).getD false

def step (sequence : UInt64) (stepName : String) (output : Value) : JournalEntry :=
  ⟨sequence, stepName, none, some output, none, true⟩

def stepValue (sequence : UInt64) (stepName : String) (output : Value) : Value :=
  .object [("sequence", .number (.posInt sequence)), ("function_name", .string stepName),
    ("input", .null), ("output", output), ("error", .null), ("completed", .bool true)]

end JournalEntry

/-! ### Engine and contexts -/

structure WorkflowRecord where
  workflowId : String
  functionName : String
  status : WorkflowStatus
  input : Option Value
  output : Option Value
  error : Option String

/-- A missing counter reads as zero. -/
structure EmbeddedEngine (σ : Type) where
  storage : σ
  workflows : String → Option WorkflowRecord
  sequenceCounters : String → UInt64

def EmbeddedEngine.withStorage {σ : Type} (storage : σ) : EmbeddedEngine σ :=
  ⟨storage, fun _ => none, fun _ => 0⟩

structure DurableContext where
  workflowId : String
  journal : List JournalEntry

def seqKey (workflowId stepName : String) : String := s!"{workflowId}:{stepName}"

def restoreCounter (workflowId : String) (counters : String → UInt64) (entry : JournalEntry) :
    String → UInt64 :=
  let key := seqKey workflowId entry.functionName
  if entry.sequence ≥ counters key then Function.update counters key (entry.sequence + 1)
  else counters

structure StepCall (O : Type) where
  stepName : String
  invoked : Bool
  result : Except EmbeddedError O
  stored : Option Value

section Execution

variable {σ W O I R : Type} [StorageBackend σ]

namespace DurableContext

def new (workflowId : String) (e : EmbeddedEngine σ) : DurableContext × EmbeddedEngine σ :=
  let stored := (StorageBackend.loadJournal e.storage workflowId).toOption.getD []
  let journal := stored.map JournalEntry.ofValue
  -- `run` will look past the journal
  (⟨workflowId, journal⟩,
    { e with sequenceCounters := journal.foldl (restoreCounter workflowId) e.sequenceCounters })

variable (ctx : DurableContext)

def cached (e : EmbeddedEngine σ) (stepName : String) (serde : Serde O) : Option O :=
  let seq := e.sequenceCounters (seqKey ctx.workflowId stepName)
  ((ctx.journal.find? (fun entry =>
      entry.sequence == seq && entry.functionName == stepName && entry.completed)).bind
    (·.output)).bind (fun v => (serde.fromValue v).toOption)

def saveEntry (e : EmbeddedEngine σ) (entry : Value) : EmbeddedEngine σ :=
  match StorageBackend.saveJournalEntry e.storage ctx.workflowId entry with
  | .ok storage => { e with storage := storage }
  | .error _ => e

def run (e : EmbeddedEngine σ) (stepName : String) (serde : Serde O)
    (handler : W → O × W) (world : W) : StepCall O × DurableContext × EmbeddedEngine σ × W :=
  match ctx.cached e stepName serde with
  -- the counter does not move on a hit
  | some result => (⟨stepName, false, .ok result, none⟩, ctx, e, world)
  | none =>
    let (result, world) := handler world
    match serde.toValue result with
    -- the handler has run, and nothing is journaled
    | .error msg => (⟨stepName, true, .error (.serialization msg), none⟩, ctx, e, world)
    | .ok output =>
      let key := seqKey ctx.workflowId stepName
      let seq := e.sequenceCounters key
      let e := { e with sequenceCounters := Function.update e.sequenceCounters key (seq + 1) }
      let ctx := { ctx with journal := ctx.journal ++ [JournalEntry.step seq stepName output] }
      let entry := JournalEntry.stepValue seq stepName output
      (⟨stepName, true, .ok result, some entry⟩, ctx, ctx.saveEntry e entry, world)

end DurableContext

/-! ### Handlers -/

inductive Handler (W O R : Type) where
  | done (result : Except EmbeddedError R)
  | run (stepName : String) (serde : Serde O) (handler : W → O × W)
      (next : Except EmbeddedError O → Handler W O R)

namespace Handler

def exec : Handler W O R → DurableContext → EmbeddedEngine σ → W →
    List (StepCall O) × Except EmbeddedError R × EmbeddedEngine σ × W
  | .done result, _, e, world => ([], result, e, world)
  | .run stepName serde handler next, ctx, e, world =>
    let (call, ctx, e, world) := ctx.run e stepName serde handler world
    let (calls, rest) := (next call.result).exec ctx e world
    (call :: calls, rest)

def execFor : Nat → Handler W O R → DurableContext → EmbeddedEngine σ → W →
    List (StepCall O) × EmbeddedEngine σ
  -- the crash falls between two calls
  | 0, _, _, e, _ | _ + 1, .done _, _, e, _ => ([], e)
  | k + 1, .run stepName serde handler next, ctx, e, world =>
    let (call, ctx, e, world) := ctx.run e stepName serde handler world
    let (calls, e) := (next call.result).execFor k ctx e world
    (call :: calls, e)

end Handler

/-! ### Executing a workflow -/

namespace EmbeddedEngine

variable (e : EmbeddedEngine σ)

def existing (workflowId : String) (outputSerde : Serde R) :
    Option (Except EmbeddedError (WorkflowHandle R)) :=
  match e.workflows workflowId with
  | none => none
  | some record =>
    match record.status with
    | .completed =>
      -- a completed record without an output is executed again
      record.output.map fun output =>
        match outputSerde.fromValue output with
        | .ok result => .ok (.completed workflowId result)
        | .error msg => .error (.serialization msg)
    | .failed => some (.ok (.failed workflowId (record.error.getD "")))
    | .pending | .running => some (.ok (.running workflowId))

/-- The part of `execute` before the handler. -/
def enter (workflowId functionName : String) (input : Value) : DurableContext × EmbeddedEngine σ :=
  let record := ⟨workflowId, functionName, .running, some input, none, none⟩
  -- the storage has no output yet; a failed save is ignored
  let e := { e with workflows := Function.update e.workflows workflowId (some record) }
  let e :=
    match StorageBackend.saveWorkflow e.storage workflowId functionName .null with
    | .ok storage => { e with storage := storage }
    | .error _ => e
  DurableContext.new workflowId e

def updateRecord (workflowId : String) (f : WorkflowRecord → WorkflowRecord) : EmbeddedEngine σ :=
  { e with workflows := Function.update e.workflows workflowId ((e.workflows workflowId).map f) }

def finish (workflowId functionName : String) (outputSerde : Serde R)
    (result : Except EmbeddedError R) :
    Except EmbeddedError (WorkflowHandle R) × EmbeddedEngine σ :=
  match result with
  | .ok output =>
    match outputSerde.toValue output with
    | .error msg => (.error (.serialization msg), e)
    | .ok value =>
      let e := e.updateRecord workflowId
        (fun record => { record with status := .completed, output := some value })
      match StorageBackend.saveWorkflow e.storage workflowId functionName value with
      | .ok storage => (.ok (.completed workflowId output), { e with storage := storage })
      -- the record stays completed although the caller gets an error
      | .error err =>
        let text := err.message
        (.error (.storage s!"Failed to persist workflow {workflowId}: {text}"), e)
  | .error err =>
    (.ok (.failed workflowId err.message),
      e.updateRecord workflowId
        (fun record => { record with status := .failed, error := some err.message }))

def execute (workflowId functionName : String) (input : I)
    (inputSerde : Serde I) (outputSerde : Serde R) (handler : I → Handler W O R) (world : W) :
    List (StepCall O) × Except EmbeddedError (WorkflowHandle R) × EmbeddedEngine σ × W :=
  match e.existing workflowId outputSerde with
  | some answer => ([], answer, e, world)
  | none =>
    match inputSerde.toValue input with
    | .error msg => ([], .error (.serialization msg), e, world)
    | .ok inputValue =>
      let (ctx, e) := e.enter workflowId functionName inputValue
      let (calls, result, e, world) := (handler input).exec ctx e world
      let (answer, e) := e.finish workflowId functionName outputSerde result
      (calls, answer, e, world)

def executeFor (k : Nat) (e : EmbeddedEngine σ) (workflowId functionName : String) (input : I)
    (inputSerde : Serde I) (outputSerde : Serde R) (handler : I → Handler W O R) (world : W) :
    List (StepCall O) × EmbeddedEngine σ :=
  match e.existing workflowId outputSerde with
  | some _ => ([], e)
  | none =>
    match inputSerde.toValue input with
    | .error _ => ([], e)
    | .ok inputValue =>
      let (ctx, e) := e.enter workflowId functionName inputValue
      (handler input).execFor k ctx e world

end EmbeddedEngine

end Execution

end Velocity.Embedded
