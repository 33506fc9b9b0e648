import Velocity.Objects.Runtime

namespace Velocity.Objects

open Lib

/-!
# Idempotency keys

One map of keys serves all objects, and is asked before type and handler are checked.
-/

structure InvokeCall where
  objectType : String
  key : String
  handlerName : String
  input : Bytes
  idempotencyKey : Option String
  deriving DecidableEq, Repr

def InvokeCall.target (call : InvokeCall) : ObjectKey := ⟨call.objectType, call.key⟩

namespace VirtualObjectRuntime

variable (r : VirtualObjectRuntime)

def invokeCall (call : InvokeCall) : Except VirtualObjectError UInt64 × VirtualObjectRuntime :=
  r.invoke call.objectType call.key call.handlerName call.input call.idempotencyKey

def afterInvoke (call : InvokeCall) : VirtualObjectRuntime :=
  (r.invokeCall call).2

def calledFor (invocationId : UInt64) : Option (ObjectKey × String) :=
  (r.invocations.lookup invocationId).map (fun inv => (inv.target, inv.handlerName))

def Knows (objectType handlerName : String) : Prop :=
  ∃ handlers, r.objectTypes.lookup objectType = some handlers
    ∧ (handlers.find? (fun h => h.name == handlerName)).isSome = true

def existing (call : InvokeCall) : Option UInt64 :=
  call.idempotencyKey.bind (fun idk => r.idempotencyMap.lookup idk)

/-- An answered id is of this object and handler; unknown ones are refused. -/
structure StaysOnTarget (r : VirtualObjectRuntime) (call : InvokeCall) : Prop where
  stored : ∀ id, (r.invokeCall call).1 = .ok id →
    (r.invokeCall call).2.calledFor id = some (call.target, call.handlerName)
  refused : ¬ r.Knows call.objectType call.handlerName → ∃ e, (r.invokeCall call).1 = .error e

/-- A key used before was used for this object and handler. -/
def ReusesForSame (call : InvokeCall) : Prop :=
  ∀ id, r.existing call = some id → r.calledFor id = some (call.target, call.handlerName)

/-! ### One call -/

variable {r}

theorem invoke_cases (r : VirtualObjectRuntime) (call : InvokeCall) :
    (∃ id, r.existing call = some id ∧ r.invokeCall call = (.ok id, r))
      ∨ (r.existing call = none ∧ ¬ r.Knows call.objectType call.handlerName
        ∧ ∃ e, r.invokeCall call = (.error e, r))
      ∨ (r.existing call = none ∧ r.Knows call.objectType call.handlerName
        ∧ r.invokeCall call = (.ok r.nextInvocationId,
          (r.enqueue call.target call.handlerName call.input call.idempotencyKey).tryDispatch
            call.target.fullKey)) := by
  rw [invokeCall, invoke]
  cases hexisting : r.existing call with
  | some id =>
    rw [existing] at hexisting
    rw [hexisting]
    exact .inl ⟨id, rfl, rfl⟩
  | none =>
    rw [existing] at hexisting
    rw [hexisting]
    refine .inr ?_
    dsimp only
    cases htype : r.objectTypes.lookup call.objectType with
    | none =>
      refine .inl ⟨rfl, ?_, _, rfl⟩
      rintro ⟨handlers, hhandlers, -⟩
      rw [htype] at hhandlers
      cases hhandlers
    | some handlers =>
      dsimp only
      cases hhandler : handlers.find? (fun h => h.name == call.handlerName) with
      | none =>
        refine .inl ⟨rfl, ?_, _, rfl⟩
        rintro ⟨handlers', hhandlers, hsome⟩
        rw [htype] at hhandlers
        cases hhandlers
        rw [hhandler] at hsome
        cases hsome
      | some handler => exact .inr ⟨rfl, ⟨handlers, htype, by rw [hhandler]; rfl⟩, rfl⟩

theorem calledFor_tryDispatch (k : String) (id : UInt64) :
    (r.tryDispatch k).calledFor id = r.calledFor id := by
  rw [tryDispatch]
  split
  · rfl
  · split
    · next dispatched _ _ =>
      show ((modifyKey r.invocations dispatched _).lookup id).map _ = _
      rw [lookup_modifyKey, calledFor]
      split
      · next heq =>
        rw [heq, Option.map_map]
        rfl
      · rfl
    · rfl

theorem calledFor_enqueue (target : ObjectKey) (handlerName : String) (input : Bytes)
    (idempotencyKey : Option String) (id : UInt64) :
    (r.enqueue target handlerName input idempotencyKey).calledFor id
      = if id = r.nextInvocationId then some (target, handlerName) else r.calledFor id := by
  show ((r.invocations.insert r.nextInvocationId _).lookup id).map _ = _
  rw [lookup_insert_eq_ite]
  split
  · rfl
  · rfl

theorem objectTypes_tryDispatch (k : String) : (r.tryDispatch k).objectTypes = r.objectTypes := by
  rw [tryDispatch]
  split
  · rfl
  · split <;> rfl

theorem idempotencyMap_tryDispatch (k : String) :
    (r.tryDispatch k).idempotencyMap = r.idempotencyMap := by
  rw [tryDispatch]
  split
  · rfl
  · split <;> rfl

theorem lookup_idempotencyMap_enqueue (target : ObjectKey) (handlerName : String) (input : Bytes)
    (idempotencyKey : Option String) (idk : String) :
    (r.enqueue target handlerName input idempotencyKey).idempotencyMap.lookup idk
      = if idempotencyKey = some idk then some r.nextInvocationId
        else r.idempotencyMap.lookup idk := by
  cases idempotencyKey with
  | none => rfl
  | some used =>
    show (r.idempotencyMap.insert used r.nextInvocationId).lookup idk = _
    rw [lookup_insert_eq_ite]
    simp only [Option.some.injEq, eq_comm]

/-! ### Runs -/

/-- Every key and every id stands for a known invocation. -/
structure Grounded (r : VirtualObjectRuntime) : Prop where
  stored : ∀ idk id, r.idempotencyMap.lookup idk = some id → (r.calledFor id).isSome = true
  known : ∀ id target handlerName, r.calledFor id = some (target, handlerName) →
    r.Knows target.objectType handlerName

theorem Grounded.afterInvoke (h : r.Grounded) (call : InvokeCall) :
    (r.afterInvoke call).Grounded := by
  rw [VirtualObjectRuntime.afterInvoke]
  rcases invoke_cases r call with ⟨id, -, heq⟩ | ⟨-, -, e, heq⟩ | ⟨-, hknows, heq⟩
  · rw [heq]
    exact h
  · rw [heq]
    exact h
  · rw [heq]
    dsimp only
    constructor
    · intro idk id hid
      rw [calledFor_tryDispatch, calledFor_enqueue]
      rw [idempotencyMap_tryDispatch, lookup_idempotencyMap_enqueue] at hid
      split
      · rfl
      · next hne =>
        -- another id was there before
        split at hid
        · exact absurd (Option.some.inj hid).symm hne
        · exact h.stored idk id hid
    · intro id target handlerName hid
      rw [Knows, objectTypes_tryDispatch]
      rw [calledFor_tryDispatch, calledFor_enqueue] at hid
      split at hid
      · cases hid
        exact hknows
      · exact h.known id target handlerName hid

theorem grounded_of_no_invocations (types : AList fun _ : String => List HandlerDefinition) :
    ({ new with objectTypes := types } : VirtualObjectRuntime).Grounded where
  stored := fun _ _ h => (by cases h)
  known := fun _ _ _ h => (by cases h)

theorem Grounded.staysOnTarget_iff_reuses (h : r.Grounded) (call : InvokeCall) :
    r.StaysOnTarget call ↔ r.ReusesForSame call := by
  rcases invoke_cases r call with ⟨id, hexisting, heq⟩ | ⟨hexisting, hunknown, e, heq⟩
    | ⟨hexisting, hknows, heq⟩
  · constructor
    · intro hstays id' hid'
      cases hexisting.symm.trans hid'
      have hstored := hstays.stored id (by rw [heq])
      rw [heq] at hstored
      exact hstored
    · intro hsame
      have hcalled := hsame id hexisting
      refine ⟨fun id' hid' => ?_, fun hunknown => ?_⟩
      · rw [heq] at hid' ⊢
        cases hid'
        exact hcalled
      · exact absurd (h.known id call.target call.handlerName hcalled) hunknown
  · refine iff_of_true ⟨fun id hid => ?_, fun _ => ⟨e, by rw [heq]⟩⟩ (fun id hid => ?_)
    · rw [heq] at hid
      cases hid
    · rw [hexisting] at hid
      cases hid
  · refine iff_of_true ⟨fun id hid => ?_, fun hunknown => absurd hknows hunknown⟩ (fun id hid => ?_)
    · rw [heq] at hid ⊢
      cases hid
      dsimp only
      rw [calledFor_tryDispatch, calledFor_enqueue, if_pos rfl]
    · rw [hexisting] at hid
      cases hid

/-- **Idempotent calls stay on target** iff each key is used again for its first use only. -/
theorem staysOnTarget_iff (types : AList fun _ : String => List HandlerDefinition)
    (calls : List InvokeCall) :
    StepsMeet afterInvoke StaysOnTarget { new with objectTypes := types } calls
      ↔ StepsMeet afterInvoke ReusesForSame { new with objectTypes := types } calls := by
  have hkeeps : ∀ r call, Grounded r → True → ReusesForSame r call → (r.afterInvoke call).Grounded :=
    fun r call h _ _ => h.afterInvoke call
  have hexact : ∀ r call, Grounded r → True → (r.StaysOnTarget call ↔ r.ReusesForSame call) :=
    fun r call h _ => h.staysOnTarget_iff_reuses call
  exact stepsMeet_iff_stepsMeet hkeeps hexact (grounded_of_no_invocations types)
    (stepsMeet_of_forall fun _ _ => trivial)

theorem invoke_leaves_target :
    let r := VirtualObjectRuntime.new.registerObjectType "cart" [⟨"add", .workflow, none, none⟩]
    let first : InvokeCall := ⟨"cart", "alice", "add", [], some "k"⟩
    let second : InvokeCall := ⟨"cart", "bob", "add", [], some "k"⟩
    let third : InvokeCall := ⟨"order", "bob", "pay", [], some "k"⟩
    (r.invokeCall first).1 = .ok 1
      ∧ ((r.afterInvoke first).invokeCall second).1 = .ok 1
      ∧ ((r.afterInvoke first).invokeCall third).1 = .ok 1
      ∧ (r.afterInvoke first).calledFor 1 = some (⟨"cart", "alice"⟩, "add")
      ∧ ¬ (r.afterInvoke first).StaysOnTarget second
      ∧ ¬ (r.afterInvoke first).StaysOnTarget third := by
  refine ⟨by decide, by decide, by decide, by decide, fun h => ?_, fun h => ?_⟩
  · exact absurd (h.stored 1 (by decide)) (by decide)
  · exact absurd (h.stored 1 (by decide)) (by decide)

end VirtualObjectRuntime

end Velocity.Objects
