import Velocity.Lib.KeyLocks
import Velocity.Lib.Keyed
import Velocity.Lib.LittleEndian

namespace Velocity.Objects

open Lib

/-!
# Virtual objects

State, active invocation and queue of each entity, under one string.

* `VirtualObjectRuntime`: invocations, awakeables and the state of each object.
* `ObjectOp`: its calls, for runs.
-/

structure ObjectKey where
  objectType : String
  key : String
  deriving DecidableEq, Repr

def ObjectKey.fullKey (k : ObjectKey) : String := k.objectType ++ "/" ++ k.key

inductive HandlerState where
  | queued
  | running
  | suspended
  | completed
  | failed
  deriving DecidableEq, Repr

def HandlerState.debug : HandlerState → String
  | .queued => "Queued"
  | .running => "Running"
  | .suspended => "Suspended"
  | .completed => "Completed"
  | .failed => "Failed"

inductive HandlerKind where
  | workflow
  | service
  | shared
  deriving DecidableEq, Repr

structure HandlerDefinition where
  name : String
  handlerKind : HandlerKind
  inputSchema : Option String
  outputSchema : Option String
  deriving DecidableEq, Repr

structure HandlerInvocation where
  invocationId : UInt64
  target : ObjectKey
  handlerName : String
  state : HandlerState
  input : Bytes
  output : Option Bytes
  error : Option String
  idempotencyKey : Option String
  createdMs : UInt64
  completedMs : UInt64
  deriving DecidableEq, Repr

structure ObjectState where
  entries : AList (fun _ : String => Bytes)
  version : UInt64

structure Awakeable where
  id : String
  ownerInvocationId : UInt64
  ownerKey : ObjectKey
  resolved : Bool
  value : Option Bytes
  error : Option String
  deriving DecidableEq, Repr

inductive VirtualObjectError where
  | unknownObjectType (objectType : String)
  | unknownHandler (handler : String)
  | unknownInvocation (invocationId : UInt64)
  | unknownKey (fullKey : String)
  | unknownAwakeable (awakeableId : String)
  | alreadyResolved (awakeableId : String)
  | invalidStateTransition (message : String)
  deriving DecidableEq, Repr

structure VirtualObjectRuntime where
  objectTypes : AList (fun _ : String => List HandlerDefinition)
  keyState : AList (fun _ : String => ObjectState)
  invocations : AList (fun _ : UInt64 => HandlerInvocation)
  keyQueues : AList (fun _ : String => List UInt64)
  keyLocks : AList (fun _ : String => UInt64)
  awakeables : AList (fun _ : String => Awakeable)
  idempotencyMap : AList (fun _ : String => UInt64)
  nextInvocationId : UInt64

namespace VirtualObjectRuntime

def new : VirtualObjectRuntime := ⟨∅, ∅, ∅, ∅, ∅, ∅, ∅, 1⟩

variable (r : VirtualObjectRuntime)

def registerObjectType (typeName : String)
    (handlers : List HandlerDefinition) : VirtualObjectRuntime :=
  { r with objectTypes := r.objectTypes.insert typeName handlers }

def setState (invocationId : UInt64) (state : HandlerState) : VirtualObjectRuntime :=
  { r with
    invocations := modifyKey r.invocations invocationId (fun inv => { inv with state := state }) }

def tryDispatch (fullKey : String) : VirtualObjectRuntime :=
  if (r.keyLocks.lookup fullKey).isSome then r
  else
    match r.keyQueues.lookup fullKey with
    | some (invocationId :: rest) =>
      { r.setState invocationId .running with
        keyQueues := r.keyQueues.insert fullKey rest
        keyLocks := r.keyLocks.insert fullKey invocationId }
    | _ => r

def newInvocation (target : ObjectKey) (handlerName : String)
    (input : Bytes) (idempotencyKey : Option String) : HandlerInvocation where
  invocationId := r.nextInvocationId
  target := target
  handlerName := handlerName
  state := .queued
  input := input
  output := none
  error := none
  idempotencyKey := idempotencyKey
  createdMs := 0
  completedMs := 0

def enqueue (target : ObjectKey) (handlerName : String)
    (input : Bytes) (idempotencyKey : Option String) : VirtualObjectRuntime :=
  { r with
    nextInvocationId := r.nextInvocationId + 1
    idempotencyMap := match idempotencyKey with
      | some idk => r.idempotencyMap.insert idk r.nextInvocationId
      | none => r.idempotencyMap
    invocations := r.invocations.insert r.nextInvocationId
      (r.newInvocation target handlerName input idempotencyKey)
    keyState := match r.keyState.lookup target.fullKey with
      | some _ => r.keyState
      | none => r.keyState.insert target.fullKey ⟨∅, 0⟩
    keyQueues := r.keyQueues.insert target.fullKey
      ((r.keyQueues.lookup target.fullKey).getD [] ++ [r.nextInvocationId]) }

def invoke (objectType key handlerName : String) (input : Bytes) (idempotencyKey : Option String) :
    Except VirtualObjectError UInt64 × VirtualObjectRuntime :=
  match idempotencyKey.bind (fun idk => r.idempotencyMap.lookup idk) with
  | some existingId => (.ok existingId, r)
  | none =>
    match r.objectTypes.lookup objectType with
    | none => (.error (.unknownObjectType objectType), r)
    | some handlers =>
      match handlers.find? (fun h => h.name == handlerName) with
      | none => (.error (.unknownHandler (objectType ++ "/" ++ handlerName)), r)
      | some _ =>
        let target : ObjectKey := ⟨objectType, key⟩
        (.ok r.nextInvocationId,
          (r.enqueue target handlerName input idempotencyKey).tryDispatch target.fullKey)

def invokes (objectType handlerName : String) (idempotencyKey : Option String) : Bool :=
  (idempotencyKey.bind (fun idk => r.idempotencyMap.lookup idk)).isNone
    && (r.objectTypes.lookup objectType).any
      (fun handlers => (handlers.find? (fun h => h.name == handlerName)).isSome)

def stateGet (k : ObjectKey) (stateKey : String) : Option Bytes :=
  (r.keyState.lookup k.fullKey).bind (fun state => state.entries.lookup stateKey)

def stateKeys (k : ObjectKey) : List String :=
  match r.keyState.lookup k.fullKey with
  | some state => state.entries.keys
  | none => []

def isKeyBusy (k : ObjectKey) : Bool :=
  (r.keyLocks.lookup k.fullKey).isSome

def keyQueueDepth (k : ObjectKey) : Nat :=
  ((r.keyQueues.lookup k.fullKey).map List.length).getD 0

def changeState (k : ObjectKey)
    (f : AList (fun _ : String => Bytes) → AList (fun _ : String => Bytes)) :
    Except VirtualObjectError Unit × VirtualObjectRuntime :=
  match r.keyState.lookup k.fullKey with
  | none => (.error (.unknownKey k.fullKey), r)
  | some state =>
    (.ok (), { r with keyState := r.keyState.insert k.fullKey ⟨f state.entries, state.version + 1⟩ })

def stateSet (k : ObjectKey) (stateKey : String) (value : Bytes) :
    Except VirtualObjectError Unit × VirtualObjectRuntime :=
  r.changeState k (·.insert stateKey value)

def stateClear (k : ObjectKey) (stateKey : String) :
    Except VirtualObjectError Unit × VirtualObjectRuntime :=
  r.changeState k (·.erase stateKey)

/-- `complete_invocation` and `fail_invocation`; the key goes to the next. -/
def endInvocation (invocationId : UInt64) (f : HandlerInvocation → HandlerInvocation) :
    Except VirtualObjectError Unit × VirtualObjectRuntime :=
  match r.invocations.lookup invocationId with
  | none => (.error (.unknownInvocation invocationId), r)
  | some inv =>
    let fullKey := inv.target.fullKey
    (.ok (),
      { r with
        invocations := modifyKey r.invocations invocationId f
        keyLocks := r.keyLocks.erase fullKey }.tryDispatch fullKey)

def completeInvocation (invocationId : UInt64) (output : Bytes) :
    Except VirtualObjectError Unit × VirtualObjectRuntime :=
  r.endInvocation invocationId
    (fun inv => { inv with state := .completed, output := some output, completedMs := 0 })

def failInvocation (invocationId : UInt64) (error : String) :
    Except VirtualObjectError Unit × VirtualObjectRuntime :=
  r.endInvocation invocationId
    (fun inv => { inv with state := .failed, error := some error, completedMs := 0 })

def suspendInvocation (invocationId : UInt64) :
    Except VirtualObjectError Unit × VirtualObjectRuntime :=
  match r.invocations.lookup invocationId with
  | none => (.error (.unknownInvocation invocationId), r)
  | some _ => (.ok (), r.setState invocationId .suspended)

def resumeInvocation (invocationId : UInt64) :
    Except VirtualObjectError Unit × VirtualObjectRuntime :=
  match r.invocations.lookup invocationId with
  | none => (.error (.unknownInvocation invocationId), r)
  | some inv =>
    if inv.state ≠ .suspended then
      (.error (.invalidStateTransition ("Cannot resume invocation in state " ++ inv.state.debug)), r)
    else (.ok (), r.setState invocationId .running)

def createAwakeable (invocationId : UInt64) :
    Except VirtualObjectError String × VirtualObjectRuntime :=
  match r.invocations.lookup invocationId with
  | none => (.error (.unknownInvocation invocationId), r)
  | some inv =>
    let awakeableId := "awk_" ++ toString invocationId.toNat ++ "_" ++ toString (size r.awakeables)
    (.ok awakeableId,
      { r with
        awakeables := r.awakeables.insert awakeableId
          ⟨awakeableId, invocationId, inv.target, false, none, none⟩ })

def wake (ownerId : UInt64) : VirtualObjectRuntime :=
  match r.invocations.lookup ownerId with
  | some inv => if inv.state = .suspended then r.setState ownerId .running else r
  | none => r

/-- `resolve_awakeable` and `reject_awakeable`. -/
def settleAwakeable (awakeableId : String)
    (f : Awakeable → Awakeable) : Except VirtualObjectError UInt64 × VirtualObjectRuntime :=
  match r.awakeables.lookup awakeableId with
  | none => (.error (.unknownAwakeable awakeableId), r)
  | some awk =>
    if awk.resolved then (.error (.alreadyResolved awakeableId), r)
    else
      (.ok awk.ownerInvocationId,
        { r with awakeables := modifyKey r.awakeables awakeableId f }.wake awk.ownerInvocationId)

def resolveAwakeable (awakeableId : String) (value : Bytes) :
    Except VirtualObjectError UInt64 × VirtualObjectRuntime :=
  r.settleAwakeable awakeableId (fun awk => { awk with resolved := true, value := some value })

def rejectAwakeable (awakeableId : String) (error : String) :
    Except VirtualObjectError UInt64 × VirtualObjectRuntime :=
  r.settleAwakeable awakeableId (fun awk => { awk with resolved := true, error := some error })

end VirtualObjectRuntime

inductive ObjectOp where
  | registerObjectType (typeName : String) (handlers : List HandlerDefinition)
  | invoke (target : ObjectKey) (handlerName : String) (input : Bytes)
      (idempotencyKey : Option String)
  | stateSet (target : ObjectKey) (stateKey : String) (value : Bytes)
  | stateClear (target : ObjectKey) (stateKey : String)
  | completeInvocation (invocationId : UInt64) (output : Bytes)
  | failInvocation (invocationId : UInt64) (error : String)
  | suspendInvocation (invocationId : UInt64)
  | resumeInvocation (invocationId : UInt64)
  | createAwakeable (invocationId : UInt64)
  | resolveAwakeable (awakeableId : String) (value : Bytes)
  | rejectAwakeable (awakeableId : String) (error : String)

namespace VirtualObjectRuntime

def apply (r : VirtualObjectRuntime) : ObjectOp → VirtualObjectRuntime
  | .registerObjectType typeName handlers => r.registerObjectType typeName handlers
  | .invoke target handlerName input idempotencyKey =>
    (r.invoke target.objectType target.key handlerName input idempotencyKey).2
  | .stateSet target stateKey value => (r.stateSet target stateKey value).2
  | .stateClear target stateKey => (r.stateClear target stateKey).2
  | .completeInvocation invocationId output => (r.completeInvocation invocationId output).2
  | .failInvocation invocationId error => (r.failInvocation invocationId error).2
  | .suspendInvocation invocationId => (r.suspendInvocation invocationId).2
  | .resumeInvocation invocationId => (r.resumeInvocation invocationId).2
  | .createAwakeable invocationId => (r.createAwakeable invocationId).2
  | .resolveAwakeable awakeableId value => (r.resolveAwakeable awakeableId value).2
  | .rejectAwakeable awakeableId error => (r.rejectAwakeable awakeableId error).2

def run (r : VirtualObjectRuntime) (ops : List ObjectOp) : VirtualObjectRuntime :=
  ops.foldl apply r

end VirtualObjectRuntime

/-! ### Keyed locks -/

inductive Outcome where
  | completed
  | failed
  deriving DecidableEq, Repr

def HandlerState.phase : HandlerState → Phase Outcome
  | .queued => .waiting
  | .running => .running
  | .suspended => .suspended
  | .completed => .ended .completed
  | .failed => .ended .failed

namespace VirtualObjectRuntime

variable (r : VirtualObjectRuntime) (i : UInt64)

def locks : LockTable String UInt64 Outcome where
  holder k := r.keyLocks.lookup k
  queue k := (r.keyQueues.lookup k).getD []
  task i := (r.invocations.lookup i).map fun inv => (inv.target.fullKey, inv.state.phase)

def settleOp (awakeableId : String) : Option (LockOp String UInt64 Outcome) :=
  match r.awakeables.lookup awakeableId with
  | some awk => if awk.resolved then none else some (.resume awk.ownerInvocationId)
  | none => none

def lockOp : ObjectOp → Option (LockOp String UInt64 Outcome)
  | .invoke target handlerName _ idempotencyKey =>
    if r.invokes target.objectType handlerName idempotencyKey then
      some (.arrive r.nextInvocationId target.fullKey)
    else none
  | .completeInvocation invocationId _ => some (.finish invocationId .completed)
  | .failInvocation invocationId _ => some (.finish invocationId .failed)
  | .suspendInvocation invocationId => some (.suspend invocationId)
  | .resumeInvocation invocationId => some (.resume invocationId)
  | .resolveAwakeable awakeableId _ => r.settleOp awakeableId
  | .rejectAwakeable awakeableId _ => r.settleOp awakeableId
  | _ => none

variable {r}

theorem invoke_snd (target : ObjectKey) (handlerName : String) (input : Bytes)
    (idempotencyKey : Option String) :
    (r.invoke target.objectType target.key handlerName input idempotencyKey).2
      = if r.invokes target.objectType handlerName idempotencyKey then
          (r.enqueue target handlerName input idempotencyKey).tryDispatch target.fullKey
        else r := by
  rw [invoke, invokes]
  split
  · next existingId hold => simp [hold]
  · next hnew =>
    split
    · next htype => simp [htype]
    · next handlers htype =>
      split
      · next hhandler => simp [hnew, htype, hhandler]
      · next hhandler => simp [hnew, htype, hhandler]

def taskOf (inv : Option HandlerInvocation) : Option (String × Phase Outcome) :=
  inv.map fun inv => (inv.target.fullKey, inv.state.phase)

theorem locks_setState (state : HandlerState) :
    (r.setState i state).locks = r.locks.setPhase i state.phase := by
  refine LockTable.ext rfl rfl ((read_modifyKey taskOf r.invocations i _).trans ?_)
  congr 1
  simp [taskOf, locks, Function.comp_def]

theorem locks_tryDispatch (k : String) : (r.tryDispatch k).locks = r.locks.dispatch k := by
  rw [tryDispatch, LockTable.dispatch]
  cases hlock : r.keyLocks.lookup k with
  | some i => simp [locks, hlock]
  | none =>
    have hholder : r.locks.holder k = none := hlock
    rw [if_neg (by simp), hholder]
    cases hqueue : r.keyQueues.lookup k with
    | none => simp [locks, hqueue]
    | some queue =>
      have hq : r.locks.queue k = queue := by simp [locks, hqueue]
      rw [hq]
      cases queue with
      | nil => rfl
      | cons i rest =>
        have htask : (r.setState i .running).locks.task = (r.locks.setPhase i .running).task :=
          congrArg LockTable.task (locks_setState i .running)
        exact LockTable.ext (read_insert id r.keyLocks k i)
          (read_insert (·.getD []) r.keyQueues k rest) htask

theorem locks_enqueue (target : ObjectKey) (handlerName : String) (input : Bytes)
    (idempotencyKey : Option String) :
    (r.enqueue target handlerName input idempotencyKey).locks
      = r.locks.enqueue r.nextInvocationId target.fullKey :=
  LockTable.ext rfl (read_insert (·.getD []) r.keyQueues _ _) (read_insert taskOf r.invocations _ _)

theorem task_locks_of_lookup {i : UInt64} {inv : HandlerInvocation}
    (h : r.invocations.lookup i = some inv) :
    r.locks.task i = some (inv.target.fullKey, inv.state.phase) := by
  simp [locks, h]

theorem locks_endInvocation {f : HandlerInvocation → HandlerInvocation} {outcome : Outcome}
    (hf : ∀ inv, (f inv).target = inv.target ∧ (f inv).state.phase = .ended outcome) (i : UInt64) :
    (r.endInvocation i f).2.locks = r.locks.step (.finish i outcome) := by
  rw [endInvocation, LockTable.step]
  cases hinv : r.invocations.lookup i with
  | none => simp [locks, hinv]
  | some inv =>
    have htask := task_locks_of_lookup hinv
    rw [htask]
    simp only [locks_tryDispatch]
    congr 1
    refine LockTable.ext (read_erase id r.keyLocks _) rfl
      ((read_modifyKey taskOf r.invocations i f).trans ?_)
    rw [hinv]
    simp [LockTable.release, LockTable.setPhase, htask, taskOf, hf inv]
    rfl

theorem locks_wake : (r.wake i).locks = r.locks.step (.resume i) := by
  rw [wake, LockTable.step]
  cases hinv : r.invocations.lookup i with
  | none => simp [locks, hinv]
  | some inv =>
    rw [task_locks_of_lookup hinv]
    cases hstate : inv.state with
    | suspended => simp [hstate, HandlerState.phase, locks_setState]
    | _ => simp [hstate, HandlerState.phase]

theorem locks_settleAwakeable (awakeableId : String) (f : Awakeable → Awakeable) :
    (r.settleAwakeable awakeableId f).2.locks
      = (r.settleOp awakeableId).elim r.locks r.locks.step := by
  rw [settleAwakeable, settleOp]
  cases r.awakeables.lookup awakeableId with
  | none => rfl
  | some awk =>
    simp only
    split
    · rfl
    · exact locks_wake _

theorem resumeInvocation_snd : (r.resumeInvocation i).2 = r.wake i := by
  rw [resumeInvocation, wake]
  cases r.invocations.lookup i with
  | none => rfl
  | some inv => by_cases hstate : inv.state = .suspended <;> simp [hstate]

theorem locks_suspendInvocation : (r.suspendInvocation i).2.locks = r.locks.step (.suspend i) := by
  rw [suspendInvocation]
  cases hinv : r.invocations.lookup i with
  | some inv => exact locks_setState i .suspended
  | none =>
    have htask : r.locks.task i = none := by simp [locks, hinv]
    refine LockTable.ext rfl rfl (Eq.symm (Function.update_eq_self_iff.mpr ?_))
    rw [htask, Option.map_none]

theorem locks_apply (op : ObjectOp) :
    (r.apply op).locks = (r.lockOp op).elim r.locks r.locks.step := by
  cases op with
  | registerObjectType typeName handlers => rfl
  | invoke target handlerName input idempotencyKey =>
    rw [apply, invoke_snd, lockOp]
    split
    · rw [locks_tryDispatch, locks_enqueue]
      rfl
    · rfl
  | stateSet target stateKey value =>
    rw [apply, stateSet, changeState]
    split <;> rfl
  | stateClear target stateKey =>
    rw [apply, stateClear, changeState]
    split <;> rfl
  | completeInvocation i output =>
    show (r.endInvocation i _).2.locks = r.locks.step (.finish i .completed)
    exact locks_endInvocation (by exact fun _ => ⟨rfl, rfl⟩) i
  | failInvocation i error =>
    show (r.endInvocation i _).2.locks = r.locks.step (.finish i .failed)
    exact locks_endInvocation (by exact fun _ => ⟨rfl, rfl⟩) i
  | suspendInvocation i => exact locks_suspendInvocation i
  | resumeInvocation i =>
    rw [apply, resumeInvocation_snd]
    exact locks_wake i
  | createAwakeable i =>
    rw [apply, createAwakeable]
    split <;> rfl
  | resolveAwakeable awakeableId value | rejectAwakeable awakeableId error =>
    exact locks_settleAwakeable awakeableId _

end VirtualObjectRuntime

end Velocity.Objects
