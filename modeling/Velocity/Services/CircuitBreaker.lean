import Velocity.Lib.Run

namespace Velocity

open Lib

/-!
# The circuit breaker

Admissions and successes to close are set independently. The totals are left out.
-/

inductive CircuitState where
  | closed
  | opened
  | halfOpen
  deriving DecidableEq, Repr

structure CircuitBreakerConfig where
  failureThreshold : Nat
  cooldownMs : Nat
  successThreshold : Nat
  halfOpenMaxRequests : Nat
  failureWindowMs : Nat
  deriving DecidableEq, Repr

def CircuitBreakerConfig.defaultConfig : CircuitBreakerConfig := ⟨5, 30000, 3, 3, 60000⟩

structure WorkflowCircuitBreaker where
  state : CircuitState
  config : CircuitBreakerConfig
  consecutiveFailures : Nat
  windowFailures : Nat
  halfOpenSuccesses : Nat
  halfOpenRequests : Nat
  openedAtMs : Nat
  failureTimestamps : List Nat
  deriving DecidableEq, Repr

namespace WorkflowCircuitBreaker

def new (config : CircuitBreakerConfig) : WorkflowCircuitBreaker :=
  ⟨.closed, config, 0, 0, 0, 0, 0, []⟩

variable (b : WorkflowCircuitBreaker)

def transitionTo (newState : CircuitState) (now : Nat) : WorkflowCircuitBreaker :=
  if b.state = newState then b
  else if newState = .opened then { b with state := newState, openedAtMs := now }
  else { b with state := newState }

def allowRequest (now : Nat) : Bool × WorkflowCircuitBreaker :=
  match b.state with
  | .closed => (true, b)
  | .opened =>
    if now ≥ (b.openedAtMs + b.config.cooldownMs) % UInt64.size then
      (true, { b.transitionTo .halfOpen now with halfOpenSuccesses := 0, halfOpenRequests := 1 })
    else (false, b)
  | .halfOpen =>
    if b.halfOpenRequests < b.config.halfOpenMaxRequests then
      (true, { b with halfOpenRequests := b.halfOpenRequests + 1 })
    else (false, b)

def recordSuccess (now : Nat) : WorkflowCircuitBreaker :=
  match b.state with
  | .closed => { b with consecutiveFailures := 0, windowFailures := 0, failureTimestamps := [] }
  | .halfOpen =>
    let b := { b with halfOpenSuccesses := b.halfOpenSuccesses + 1 }
    if b.halfOpenSuccesses ≥ b.config.successThreshold then
      { b.transitionTo .closed now with
        consecutiveFailures := 0, windowFailures := 0, failureTimestamps := [] }
    else b
  | .opened => b

def recordFailure (now : Nat) : WorkflowCircuitBreaker :=
  let failureTimestamps := (b.failureTimestamps ++ [now]).filter
    (· ≥ now - b.config.failureWindowMs)
  let b := { b with failureTimestamps := failureTimestamps }
  match b.state with
  | .closed =>
    let b := { b with
      consecutiveFailures := b.consecutiveFailures + 1
      windowFailures := b.failureTimestamps.length % UInt32.size }
    if b.consecutiveFailures ≥ b.config.failureThreshold
        ∨ b.windowFailures ≥ b.config.failureThreshold then b.transitionTo .opened now
    else b
  | .halfOpen => b.transitionTo .opened now
  | .opened => b

/-! ### Runs -/

inductive Call where
  | allowRequest (now : Nat)
  | recordSuccess (now : Nat)
  | recordFailure (now : Nat)

def step (s : WorkflowCircuitBreaker × Nat) : Call → WorkflowCircuitBreaker × Nat
  | .allowRequest now =>
    ((s.1.allowRequest now).2, if (s.1.allowRequest now).1 then s.2 + 1 else s.2)
  | .recordSuccess now => (s.1.recordSuccess now, s.2 - 1)
  | .recordFailure now => (s.1.recordFailure now, s.2 - 1)

def run (config : CircuitBreakerConfig) (calls : List Call) : WorkflowCircuitBreaker × Nat :=
  calls.foldl step (new config, 0)

def serve (now : Nat) : WorkflowCircuitBreaker :=
  if (b.allowRequest now).1 then (b.allowRequest now).2.recordSuccess now
  else (b.allowRequest now).2

def serves (times : Nat → Nat) : Nat → WorkflowCircuitBreaker → WorkflowCircuitBreaker
  | 0, b => b
  | n + 1, b => serves (fun i => times (i + 1)) n (b.serve (times 0))

/-- Whenever requests go on past the cooldown, the circuit closes. -/
def Recovers : Prop :=
  ∀ times : Nat → Nat, (∃ n, b.openedAtMs + b.config.cooldownMs ≤ times n) →
    ∃ n, (serves times n b).state = .closed

variable {b} {config : CircuitBreakerConfig}

/-! ### What a request does -/

theorem serve_halfOpen (now : Nat) (h : b.state = .halfOpen) :
    b.serve now = if b.halfOpenRequests < b.config.halfOpenMaxRequests then
      { b with halfOpenRequests := b.halfOpenRequests + 1 }.recordSuccess now else b := by
  simp only [serve, allowRequest, h]
  split <;> simp

theorem serve_opened (now : Nat) (h : b.state = .opened) :
    b.serve now = if now ≥ (b.openedAtMs + b.config.cooldownMs) % UInt64.size then
      { b with state := .halfOpen, halfOpenSuccesses := 0, halfOpenRequests := 1 }.recordSuccess now
      else b := by
  simp only [serve, allowRequest, h]
  split <;> simp [transitionTo, h]

theorem recordSuccess_halfOpen (now : Nat) (h : b.state = .halfOpen) :
    (b.recordSuccess now).config = b.config ∧ (
      b.config.successThreshold ≤ b.halfOpenSuccesses + 1 ∧ (b.recordSuccess now).state = .closed
      ∨ b.halfOpenSuccesses + 1 < b.config.successThreshold
        ∧ b.recordSuccess now = { b with halfOpenSuccesses := b.halfOpenSuccesses + 1 }) := by
  simp only [recordSuccess, h]
  split
  · next hle => exact ⟨by simp [transitionTo], .inl ⟨hle, by simp [transitionTo]⟩⟩
  · next hlt => exact ⟨rfl, .inr ⟨Nat.not_le.mp hlt, rfl⟩⟩

/-! ### Enough requests -/

structure Testing (b : WorkflowCircuitBreaker) : Prop where
  state : b.state = .halfOpen
  requests : b.halfOpenRequests ≤ b.halfOpenSuccesses
  successes : b.halfOpenSuccesses < b.config.successThreshold
  enough : b.config.successThreshold ≤ b.config.halfOpenMaxRequests

theorem Testing.closes (h : b.Testing) (times : Nat → Nat) :
    ∃ n, (serves times n b).state = .closed := by
  -- by induction on the number of successes that are missing
  induction hmissing : b.config.successThreshold - b.halfOpenSuccesses generalizing b times with
  | zero => exact absurd h.successes (by omega)
  | succ missing ih =>
    obtain ⟨hstate, hrequests, hsuccesses, henough⟩ := h
    have hserve := serve_halfOpen (times 0) hstate
    rw [if_pos (by omega)] at hserve
    obtain ⟨-, ⟨-, hclosed⟩ | ⟨hlt, hnext⟩⟩ := recordSuccess_halfOpen
      (b := { b with halfOpenRequests := b.halfOpenRequests + 1 }) (times 0) hstate
    · exact ⟨1, by rw [serves, hserve]; exact hclosed⟩
    · rw [← hserve] at hnext
      obtain ⟨n, hn⟩ := ih (b := b.serve (times 0))
        (by rw [hnext]; exact ⟨hstate, Nat.succ_le_succ hrequests, hlt, henough⟩)
        (fun i => times (i + 1)) (by rw [hnext]; dsimp only; omega)
      exact ⟨n + 1, hn⟩

theorem serve_due {now : Nat} (h : b.state = .opened)
    (henough : b.config.successThreshold ≤ b.config.halfOpenMaxRequests)
    (hdue : now ≥ (b.openedAtMs + b.config.cooldownMs) % UInt64.size) :
    (b.serve now).state = .closed ∨ (b.serve now).Testing := by
  rw [serve_opened now h, if_pos hdue]
  obtain ⟨-, ⟨-, hclosed⟩ | ⟨hlt, hnext⟩⟩ := recordSuccess_halfOpen
    (b := { b with state := .halfOpen, halfOpenSuccesses := 0, halfOpenRequests := 1 }) now rfl
  · exact .inl hclosed
  · rw [hnext]
    exact .inr ⟨rfl, Nat.le_refl 1, hlt, henough⟩

theorem recovers_of_opened (h : b.state = .opened)
    (henough : b.config.successThreshold ≤ b.config.halfOpenMaxRequests) : b.Recovers := by
  rintro times ⟨n, hn⟩
  have hfirst : ∀ times : Nat → Nat,
      times 0 ≥ (b.openedAtMs + b.config.cooldownMs) % UInt64.size →
        ∃ n, (serves times n b).state = .closed := by
    intro times hdue
    rcases serve_due h henough hdue with hclosed | htesting
    · exact ⟨1, hclosed⟩
    · obtain ⟨n, hn⟩ := htesting.closes fun i => times (i + 1)
      exact ⟨n + 1, hn⟩
  induction n generalizing times with
  | zero => exact hfirst times (Nat.le_trans (Nat.mod_le _ _) hn)
  | succ n ih =>
    by_cases hdue : times 0 ≥ (b.openedAtMs + b.config.cooldownMs) % UInt64.size
    · exact hfirst times hdue
    · obtain ⟨n, hclosed⟩ := ih (fun i => times (i + 1)) hn
      refine ⟨n + 1, ?_⟩
      rwa [serves, serve_opened (times 0) h, if_neg hdue]

/-- Half-open, a request without success is unrecorded. -/
structure Kept (config : CircuitBreakerConfig) (s : WorkflowCircuitBreaker × Nat) : Prop where
  same : s.1.config = config
  halfOpen : s.1.state = .halfOpen → s.1.halfOpenRequests ≤ s.1.halfOpenSuccesses + s.2
    ∧ s.1.halfOpenSuccesses < config.successThreshold

theorem Kept.step {s : WorkflowCircuitBreaker × Nat} (hpos : 1 ≤ config.successThreshold)
    (h : Kept config s) (call : Call) : Kept config (WorkflowCircuitBreaker.step s call) := by
  obtain ⟨hconfig, hhalf⟩ := h
  cases call with
  | allowRequest now =>
    cases hs : s.1.state <;> constructor <;>
      grind [WorkflowCircuitBreaker.step, allowRequest, transitionTo]
  | recordSuccess now =>
    cases hs : s.1.state <;> constructor <;>
      grind [WorkflowCircuitBreaker.step, recordSuccess, transitionTo]
  | recordFailure now =>
    cases hs : s.1.state <;> constructor <;>
      grind [WorkflowCircuitBreaker.step, recordFailure, transitionTo]

/-! ### Too few requests -/

structure Stuck (config : CircuitBreakerConfig) (b : WorkflowCircuitBreaker) : Prop where
  same : b.config = config
  state : b.state ≠ .closed
  successes : b.state = .halfOpen → b.halfOpenSuccesses ≤ b.halfOpenRequests
    ∧ b.halfOpenRequests ≤ config.halfOpenMaxRequests

theorem Stuck.serve (h : Stuck config b) (hpos : 1 ≤ config.halfOpenMaxRequests)
    (hfew : config.halfOpenMaxRequests < config.successThreshold) (now : Nat) :
    Stuck config (b.serve now) := by
  obtain ⟨rfl, hstate, hsuccesses⟩ := h
  have hrecord : ∀ b' : WorkflowCircuitBreaker, b'.config = b.config → b'.state = .halfOpen →
      b'.halfOpenSuccesses + 1 ≤ b'.halfOpenRequests →
      b'.halfOpenRequests ≤ b.config.halfOpenMaxRequests →
        Stuck b.config (b'.recordSuccess now) := by
    intro b' hconfig hhalf hle hmax
    obtain ⟨-, ⟨hclosed, -⟩ | ⟨-, hnext⟩⟩ := recordSuccess_halfOpen now hhalf
    · rw [hconfig] at hclosed
      omega
    · rw [hnext]
      exact ⟨hconfig, by simp [hhalf], fun _ => ⟨hle, hmax⟩⟩
  cases hs : b.state with
  | closed => exact absurd hs hstate
  | opened =>
    rw [serve_opened now hs]
    split
    · exact hrecord _ rfl rfl (Nat.le_refl 1) hpos
    · exact ⟨rfl, hstate, hsuccesses⟩
  | halfOpen =>
    rw [serve_halfOpen now hs]
    split
    · next hlt => exact hrecord _ rfl hs (Nat.succ_le_succ (hsuccesses hs).1) hlt
    · exact ⟨rfl, hstate, hsuccesses⟩

theorem Stuck.not_recovers (h : Stuck config b) (hpos : 1 ≤ config.halfOpenMaxRequests)
    (hfew : config.halfOpenMaxRequests < config.successThreshold) : ¬ b.Recovers := by
  intro hrecovers
  have hnever : ∀ (times : Nat → Nat) n b, Stuck config b →
      (serves times n b).state ≠ .closed := by
    intro times n
    induction n generalizing times with
    | zero => exact fun b hb => hb.state
    | succ n ih => exact fun b hb => ih _ _ (hb.serve hpos hfew _)
  obtain ⟨n, hclosed⟩ := hrecovers (fun _ => b.openedAtMs + b.config.cooldownMs) ⟨0, Nat.le_refl _⟩
  exact hnever _ n b h hclosed

theorem stuck_of_failures (config : CircuitBreakerConfig) :
    let s := run config (List.replicate (config.failureThreshold + 1) (.recordFailure 0))
    Stuck config s.1 ∧ s.2 = 0 := by
  have hfailures : ∀ n, let s := (List.replicate n (.recordFailure 0)).foldl step (new config, 0)
      s.1.config = config ∧ s.2 = 0 ∧ (s.1.state = .opened
        ∨ s.1.state = .closed ∧ s.1.consecutiveFailures = n
          ∧ (n = 0 ∨ n < config.failureThreshold)) := by
    intro n
    induction n with
    | zero => exact ⟨rfl, rfl, .inr ⟨rfl, rfl, .inl rfl⟩⟩
    | succ n ih =>
      rw [List.replicate_succ', List.foldl_append]
      grind [WorkflowCircuitBreaker.step, recordFailure, transitionTo]
  obtain ⟨hconfig, hout, hopened | ⟨-, -, hfew⟩⟩ := hfailures (config.failureThreshold + 1)
  · exact ⟨⟨hconfig, by simp [run, hopened], by simp [run, hopened]⟩, hout⟩
  · omega

/-- **Recovery** iff as many half-open requests are admitted as successes are needed. -/
theorem recovers_iff (config : CircuitBreakerConfig) (hs : 1 ≤ config.successThreshold)
    (hm : 1 ≤ config.halfOpenMaxRequests) :
    (∀ calls, (run config calls).2 = 0 → (run config calls).1.Recovers)
      ↔ config.successThreshold ≤ config.halfOpenMaxRequests := by
  constructor
  · intro h
    by_contra hfew
    obtain ⟨hstuck, hout⟩ := stuck_of_failures config
    exact hstuck.not_recovers hm (Nat.not_le.mp hfew) (h _ hout)
  · intro henough calls hout
    have hkept : Kept config (run config calls) :=
      foldl_invariant (fun _ call h (_ : True) => h.step hs call) calls _
        ⟨rfl, fun hstate => by cases hstate⟩ (stepsMeet_of_mem fun _ _ _ => trivial)
    generalize run config calls = s at hout hkept
    obtain ⟨rfl, hhalf⟩ := hkept
    cases hstate : s.1.state with
    | closed => exact fun _ _ => ⟨0, hstate⟩
    | opened => exact recovers_of_opened hstate henough
    | halfOpen =>
      obtain ⟨hrequests, hsuccesses⟩ := hhalf hstate
      rw [hout] at hrequests
      exact fun times _ => Testing.closes ⟨hstate, hrequests, hsuccesses, henough⟩ times

theorem recovers_defaultConfig :
    (run .defaultConfig (.replicate 5 (.recordFailure 0))).1.Recovers :=
  (recovers_iff .defaultConfig (by decide) (by decide)).mpr (by decide) _ (by decide)

theorem not_recovers_two_of_three :
    let s := run ⟨1, 30000, 3, 2, 60000⟩ [.recordFailure 0]
    s.2 = 0 ∧ ¬ s.1.Recovers := by
  have hstuck : Stuck ⟨1, 30000, 3, 2, 60000⟩ (run ⟨1, 30000, 3, 2, 60000⟩ [.recordFailure 0]).1 :=
    ⟨rfl, by decide, by decide⟩
  exact ⟨by decide, hstuck.not_recovers (by decide) (by decide)⟩

end WorkflowCircuitBreaker

end Velocity
