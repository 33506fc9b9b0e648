import Velocity.Embedded.Durable

namespace Velocity.Embedded

/-!
# Durable key-value state

`clear_state` leaves the storage alone, and `load_state` is never called.
-/

class StateStorage (σ : Type) extends StorageBackend σ where
  saveState (storage : σ) (workflowId key : String) (value : Value) : Except StorageError σ
  loadState (storage : σ) (workflowId key : String) : Except StorageError (Option Value)

/-- A storage whose saves succeed. -/
class LawfulState (σ : Type) [StateStorage σ] : Prop where
  loadState_saveState (storage : σ) (workflowId key : String) (value : Value) :
    ∃ storage', StateStorage.saveState storage workflowId key value = .ok storage'
      ∧ ∀ id k, StateStorage.loadState storage' id k
          = if id = workflowId ∧ k = key then .ok (some value)
            else StateStorage.loadState storage id k

structure InMemoryStateStorage extends InMemoryStorage where
  state : String → String → Option Value

def InMemoryStateStorage.new : InMemoryStateStorage := ⟨InMemoryStorage.new, fun _ _ => none⟩

instance : StateStorage InMemoryStateStorage where
  saveWorkflow storage workflowId functionName output :=
    (StorageBackend.saveWorkflow storage.toInMemoryStorage workflowId functionName output).map
      (fun s => { storage with toInMemoryStorage := s })
  saveJournalEntry storage workflowId entry :=
    (StorageBackend.saveJournalEntry storage.toInMemoryStorage workflowId entry).map
      (fun s => { storage with toInMemoryStorage := s })
  loadJournal storage workflowId :=
    StorageBackend.loadJournal storage.toInMemoryStorage workflowId
  saveState storage workflowId key value :=
    .ok { storage with
      state := Function.update storage.state workflowId
        (Function.update (storage.state workflowId) key (some value)) }
  loadState storage workflowId key := .ok (storage.state workflowId key)

instance : LawfulState InMemoryStateStorage where
  loadState_saveState storage workflowId key value := by
    refine ⟨_, rfl, fun id k => ?_⟩
    by_cases hid : id = workflowId
    · subst hid
      by_cases hk : k = key
      · subst hk
        simp [StateStorage.loadState]
      · simp [StateStorage.loadState, hk]
    · simp [StateStorage.loadState, hid]

open StateStorage

/-! ### Contexts with state -/

structure StateContext extends DurableContext where
  state : String → Option Value

inductive StateCall : Type 1 where
  | set {T : Type} (serde : Serde T) (key : String) (value : T)
  | clear (key : String)

section Calls

variable {σ T : Type} [StateStorage σ]

namespace StateContext

def new (workflowId : String) (e : EmbeddedEngine σ) : StateContext × EmbeddedEngine σ :=
  ({ (DurableContext.new workflowId e).1 with state := fun _ => none },
    (DurableContext.new workflowId e).2)

variable (ctx : StateContext)

def getState (serde : Serde T) (key : String) : Option T :=
  (ctx.state key).bind (fun v => (serde.fromValue v).toOption)

def setState (e : EmbeddedEngine σ) (serde : Serde T) (key : String)
    (value : T) : Except EmbeddedError Unit × StateContext × EmbeddedEngine σ :=
  match serde.toValue value with
  | .error msg => (.error (.serialization msg), ctx, e)
  | .ok json =>
    let ctx := { ctx with state := Function.update ctx.state key (some json) }
    match saveState e.storage ctx.workflowId key json with
    | .ok storage => (.ok (), ctx, { e with storage := storage })
    | .error _ => (.ok (), ctx, e)

def clearState (key : String) : Bool × StateContext :=
  ((ctx.state key).isSome, { ctx with state := Function.update ctx.state key none })

def call (p : StateContext × EmbeddedEngine σ) : StateCall → StateContext × EmbeddedEngine σ
  | .set serde key value => (p.1.setState p.2 serde key value).2
  | .clear key => ((p.1.clearState key).2, p.2)

end StateContext

/-- One life of a workflow, up to a crash. -/
def oneLife (workflowId : String) (storage : σ) (calls : List StateCall) : σ :=
  (calls.foldl StateContext.call
    (StateContext.new workflowId (EmbeddedEngine.withStorage storage))).2.storage

def afterLives (workflowId : String) (storage : σ) (lives : List (List StateCall)) : σ :=
  lives.foldl (oneLife workflowId) storage

/-! ### Set and not cleared -/

/-- A call as the workflow means it. -/
def heldStep (held : String → Option Value) : StateCall → String → Option Value
  | .set serde key value =>
    match serde.toValue value with
    | .ok json => Function.update held key (some json)
    | .error _ => held
  | .clear key => Function.update held key none

def heldBy (calls : List StateCall) : String → Option Value :=
  calls.foldl heldStep (fun _ => none)

def storedStep (stored : String → Option Value) : StateCall → String → Option Value
  | .set serde key value =>
    match serde.toValue value with
    | .ok json => Function.update stored key (some json)
    | .error _ => stored
  | .clear _ => stored

variable (p : StateContext × EmbeddedEngine σ)

theorem call_state (c : StateCall) : (StateContext.call p c).1.state = heldStep p.1.state c := by
  cases c with
  | clear key => rfl
  | set serde key value =>
    simp only [StateContext.call, StateContext.setState, heldStep]
    cases serde.toValue value with
    | error msg => rfl
    | ok json =>
      simp only
      split <;> rfl

theorem call_workflowId (c : StateCall) :
    (StateContext.call p c).1.workflowId = p.1.workflowId := by
  cases c with
  | clear key => rfl
  | set serde key value =>
    simp only [StateContext.call, StateContext.setState]
    cases serde.toValue value with
    | error msg => rfl
    | ok json =>
      simp only
      split <;> rfl

theorem state_foldl_call (calls : List StateCall) (p : StateContext × EmbeddedEngine σ) :
    (calls.foldl StateContext.call p).1.state = calls.foldl heldStep p.1.state := by
  induction calls generalizing p with
  | nil => rfl
  | cons c calls ih => rw [List.foldl_cons, ih, call_state, List.foldl_cons]

/-- **Durable state** is found again iff every key set has been cleared since. -/
theorem getState_new_iff (workflowId : String) (storage : σ) (lives : List (List StateCall)) :
    (∀ (T : Type) (serde : Serde T) (key : String),
      (StateContext.new workflowId
          (EmbeddedEngine.withStorage (afterLives workflowId storage lives))).1.getState serde key
        = (heldBy lives.flatten key).bind (fun v => (serde.fromValue v).toOption))
      ↔ ∀ key, heldBy lives.flatten key = none := by
  constructor
  · intro hall key
    -- read the value as it is stored
    have hkey := hall Value ⟨.ok, .ok⟩ key
    cases hheld : heldBy lives.flatten key with
    | none => rfl
    | some v =>
      rw [hheld] at hkey
      exact absurd hkey (by simp [StateContext.new, StateContext.getState, Except.toOption])
  · intro hnone T serde key
    rw [hnone key]
    rfl

/-! ### What the storage keeps -/

variable [LawfulState σ]

theorem loadState_call (c : StateCall) {stored : String → Option Value}
    (hp : ∀ key, loadState p.2.storage p.1.workflowId key = .ok (stored key))
    (key : String) :
    loadState (StateContext.call p c).2.storage p.1.workflowId key
      = .ok (storedStep stored c key) := by
  cases c with
  | clear k => exact hp key
  | set serde k value =>
    simp only [StateContext.call, StateContext.setState, storedStep]
    cases serde.toValue value with
    | error msg => exact hp key
    | ok json =>
      obtain ⟨storage', hsave, hload⟩ :=
        LawfulState.loadState_saveState p.2.storage p.1.workflowId k json
      simp only [hsave, hload, Function.update_apply]
      by_cases hk : key = k
      · simp [hk]
      · simp [hk, hp key]

theorem loadState_oneLife (workflowId : String) (storage : σ) (calls : List StateCall)
    {stored : String → Option Value}
    (hs : ∀ key, loadState storage workflowId key = .ok (stored key)) (key : String) :
    loadState (oneLife workflowId storage calls) workflowId key
      = .ok (calls.foldl storedStep stored key) := by
  suffices hcalls : ∀ (p : StateContext × EmbeddedEngine σ) (stored : String → Option Value),
      (∀ k, loadState p.2.storage p.1.workflowId k = .ok (stored k)) →
      loadState (calls.foldl StateContext.call p).2.storage p.1.workflowId key
        = .ok (calls.foldl storedStep stored key) by
    exact hcalls (StateContext.new workflowId (EmbeddedEngine.withStorage storage)) stored hs
  induction calls with
  | nil => exact fun p stored hp => hp key
  | cons c calls ih =>
    intro p stored hp
    have hnext := ih (StateContext.call p c) (storedStep stored c)
      (fun k => by rw [call_workflowId]; exact loadState_call p c hp k)
    rwa [call_workflowId] at hnext

/-- **Storage** holds what any life set last; clearing leaves it there. -/
theorem loadState_afterLives (workflowId : String) (lives : List (List StateCall)) :
    ∀ (storage : σ) {stored : String → Option Value},
      (∀ key, loadState storage workflowId key = .ok (stored key)) → ∀ key,
      loadState (afterLives workflowId storage lives) workflowId key
        = .ok (lives.flatten.foldl storedStep stored key) := by
  induction lives with
  | nil => exact fun _ _ hs key => hs key
  | cons calls lives ih =>
    intro storage stored hs key
    rw [List.flatten_cons, List.foldl_append]
    exact ih _ (fun k => loadState_oneLife workflowId storage calls hs k) key

end Calls

theorem loadState_afterLives_count :
    loadState (afterLives "wf-1" InMemoryStateStorage.new
        [[.set u64Serde "count" 1], [.set u64Serde "count" 2]]) "wf-1" "count"
      = .ok (some (.number (.posInt 2))) :=
  loadState_afterLives "wf-1" [[.set u64Serde "count" 1], [.set u64Serde "count" 2]]
    InMemoryStateStorage.new (fun _ => rfl) "count"

theorem state_lost :
    let storage := afterLives "wf-1" InMemoryStateStorage.new [[.set u64Serde "count" 1]]
    (heldBy [.set u64Serde "count" 1] "count").bind (·.asU64) = some 1
      ∧ (loadState storage "wf-1" "count").toOption.join.bind (·.asU64) = some 1
      ∧ (StateContext.new "wf-1" (EmbeddedEngine.withStorage storage)).1.getState u64Serde "count"
          = none := by
  decide

end Velocity.Embedded
