import Mathlib.Data.List.MinMax
import Mathlib.Data.List.Nodup
import Mathlib.Data.List.Perm.Basic
import Velocity.Lib.Run
import Velocity.Lib.WordBits

namespace Velocity

open Lib List

/-!
# Timers

Each step is one critical section or one reading of the clock.

* `TimerSystem`: callers, the loop and the callback, interleaved.
* `Timely`, `Sound`: the invariants behind `firesProperly_run`.
-/

/-! ### The engine -/

structure TimerEntry where
  fireAt : Nat
  workflowKey : UInt64
  timerId : UInt64
  deriving DecidableEq, Repr

structure TimerEngine where
  heap : List TimerEntry
  shutdown : Bool
  nextTimerId : UInt64
  onFire : Bool
  deriving DecidableEq, Repr

def peek (heap : List TimerEntry) : Option TimerEntry := heap.argmin TimerEntry.fireAt

/-- The length of the heap is enough turns (`popExpired_left`). -/
def popExpired (now : Nat) : Nat → List TimerEntry → List TimerEntry × List TimerEntry
  | 0, heap => ([], heap)
  | turns + 1, heap =>
    match peek heap with
    | none => ([], heap)
    | some entry =>
      if entry.fireAt ≤ now then
        let (fired, heap) := popExpired now turns (heap.erase entry)
        (entry :: fired, heap)
      else ([], heap)

namespace TimerEngine

def new : TimerEngine := ⟨[], false, 1, false⟩

variable (e : TimerEngine)

def setFireCallback : TimerEngine := { e with onFire := true }

def takeId : UInt64 × TimerEngine :=
  (e.nextTimerId, { e with nextTimerId := e.nextTimerId + 1 })

def push (entry : TimerEntry) : TimerEngine :=
  { e with heap := entry :: e.heap }

def schedule (workflowKey : UInt64) (delay now : Nat) : UInt64 × TimerEngine :=
  let (timerId, e) := e.takeId
  (timerId, e.push ⟨now + delay, workflowKey, timerId⟩)

def cancel (timerId : UInt64) : Bool × TimerEngine :=
  let before := e.heap.length
  let heap := e.heap.filter (fun entry => entry.timerId ≠ timerId)
  (heap.length < before, { e with heap := heap })

def collect (now : Nat) : List TimerEntry × TimerEngine :=
  let (fired, heap) := popExpired now e.heap.length e.heap
  (fired, { e with heap := heap })

def stop : TimerEngine := { e with shutdown := true }

end TimerEngine

open TimerEntry TimerEngine

/-! ### Popping -/

theorem popExpired_perm (now : Nat) :
    ∀ (turns : Nat) (heap : List TimerEntry),
      ((popExpired now turns heap).1 ++ (popExpired now turns heap).2).Perm heap
  | 0, heap => List.Perm.refl heap
  | turns + 1, heap => by
    rw [popExpired]
    cases hpeek : peek heap with
    | none => exact List.Perm.refl heap
    | some entry =>
      dsimp only
      split
      · have hmem : entry ∈ heap := argmin_mem hpeek
        exact ((popExpired_perm now turns (heap.erase entry)).cons entry).trans
          (perm_cons_erase hmem).symm
      · exact List.Perm.refl heap

theorem popExpired_due (now : Nat) :
    ∀ (turns : Nat) (heap : List TimerEntry), ∀ entry ∈ (popExpired now turns heap).1,
      entry.fireAt ≤ now
  | 0, _, entry, h => absurd h not_mem_nil
  | turns + 1, heap, entry, h => by
    rw [popExpired] at h
    cases hpeek : peek heap with
    | none =>
      rw [hpeek] at h
      cases h
    | some first =>
      rw [hpeek] at h
      dsimp only at h
      split at h
      · next hdue =>
        rcases mem_cons.mp h with rfl | hrest
        · exact hdue
        · exact popExpired_due now turns _ entry hrest
      · cases h

theorem popExpired_left (now : Nat) :
    ∀ (turns : Nat) (heap : List TimerEntry), heap.length ≤ turns →
      ∀ entry ∈ (popExpired now turns heap).2, now < entry.fireAt
  | 0, heap, hturns, entry, h => by
    rw [length_eq_zero_iff.mp (Nat.le_zero.mp hturns)] at h
    cases h
  | turns + 1, heap, hturns, entry, h => by
    rw [popExpired] at h
    cases hpeek : peek heap with
    | none =>
      rw [hpeek, argmin_eq_none.mp hpeek] at h
      cases h
    | some first =>
      rw [hpeek] at h
      dsimp only at h
      split at h
      · have hlen : (heap.erase first).length ≤ turns := by
          rw [length_erase_of_mem (argmin_mem hpeek)]
          omega
        exact popExpired_left now turns _ hlen entry h
      · next hlater =>
        -- the earliest has not expired, so none has
        have hfirst : first.fireAt ≤ entry.fireAt := le_of_mem_argmin h hpeek
        omega

/-! ### The system -/

inductive ScheduleCall where
  | numbered (timerId workflowKey : UInt64) (delay : Nat)
  | stamped (entry : TimerEntry)
  deriving DecidableEq, Repr

def ScheduleCall.timerId : ScheduleCall → UInt64
  | .numbered timerId _ _ => timerId
  | .stamped entry => entry.timerId

inductive TimerLoop where
  | waiting
  | collected (batch : List TimerEntry)
  | firing (batch : List TimerEntry)
  deriving DecidableEq, Repr

def TimerLoop.batch : TimerLoop → List TimerEntry
  | .waiting => []
  | .collected batch | .firing batch => batch

/-- The engine with clock, calls and loop, and what has happened. -/
structure TimerSystem where
  engine : TimerEngine
  clock : Nat
  calls : List ScheduleCall
  loop : TimerLoop
  taken : List UInt64
  scheduled : List TimerEntry
  called : List (TimerEntry × Nat)
  cancelled : List UInt64

inductive TimerStep where
  | tick (elapsed : Nat)
  | takeId (workflowKey : UInt64) (delay : Nat)
  | stamp (call : Nat)
  | push (call : Nat)
  | cancel (timerId : UInt64)
  | setFireCallback
  | collect
  | lockCallback
  | callback
  | shutdown
  deriving DecidableEq, Repr

def TimerStep.isTakeId : TimerStep → Bool
  | .takeId _ _ => true
  | _ => false

namespace TimerSystem

def start : TimerSystem := ⟨.new, 0, [], .waiting, [], [], [], []⟩

variable (s : TimerSystem)

def places : List UInt64 :=
  s.calls.map ScheduleCall.timerId ++ s.engine.heap.map timerId
    ++ s.loop.batch.map timerId ++ s.called.map (·.1.timerId) ++ s.cancelled

def step : TimerStep → TimerSystem
  | .tick elapsed => { s with clock := s.clock + elapsed }
  | .takeId workflowKey delay =>
    let (timerId, engine) := s.engine.takeId
    { s with
      engine := engine
      calls := .numbered timerId workflowKey delay :: s.calls
      taken := s.taken ++ [timerId] }
  | .stamp call =>
    match s.calls[call]? with
    | some (.numbered timerId workflowKey delay) =>
      { s with calls := s.calls.set call (.stamped ⟨s.clock + delay, workflowKey, timerId⟩) }
    | _ => s
  | .push call =>
    match s.calls[call]? with
    | some (.stamped entry) =>
      { s with
        engine := s.engine.push entry
        calls := s.calls.eraseIdx call
        scheduled := s.scheduled ++ [entry] }
    | _ => s
  | .cancel timerId =>
    let (found, engine) := s.engine.cancel timerId
    { s with
      engine := engine
      cancelled := if found then s.cancelled ++ [timerId] else s.cancelled }
  | .setFireCallback =>
    match s.loop with
    -- the loop holds the callback while it fires
    | .firing _ => s
    | _ => { s with engine := s.engine.setFireCallback }
  | .collect =>
    match s.loop with
    | .waiting =>
      if s.engine.shutdown then s
      else
        let (fired, engine) := s.engine.collect s.clock
        -- with nothing to fire the loop starts again
        { s with engine := engine, loop := if fired.isEmpty then .waiting else .collected fired }
    | _ => s
  | .lockCallback =>
    match s.loop with
    -- without a callback the batch is dropped
    | .collected batch => { s with loop := if s.engine.onFire then .firing batch else .waiting }
    | _ => s
  | .callback =>
    match s.loop with
    | .firing [] => { s with loop := .waiting }
    | .firing (entry :: batch) =>
      { s with loop := .firing batch, called := s.called ++ [(entry, s.clock)] }
    | _ => s
  | .shutdown => { s with engine := s.engine.stop }

def run (steps : List TimerStep) : TimerSystem := steps.foldl step start

theorem engine_schedule (workflowKey : UInt64) (delay : Nat) :
    ([.takeId workflowKey delay, .stamp 0, .push 0].foldl step s).engine
      = (s.engine.schedule workflowKey delay s.clock).2 := rfl

/-! ### Where the ids are -/

theorem step_counter (a : TimerStep) :
    (s.step a).engine.nextTimerId = (if a.isTakeId then s.engine.nextTimerId + 1
        else s.engine.nextTimerId)
      ∧ (s.step a).taken = (if a.isTakeId then s.taken ++ [s.engine.nextTimerId]
        else s.taken) := by
  cases a with
  | stamp call | push call | setFireCallback | lockCallback | callback =>
    simp only [TimerSystem.step]
    split <;> exact ⟨rfl, rfl⟩
  | collect =>
    simp only [TimerSystem.step]
    split
    · split <;> exact ⟨rfl, rfl⟩
    · exact ⟨rfl, rfl⟩
  | _ => exact ⟨rfl, rfl⟩

theorem count_places (id : UInt64) : s.places.count id
      = (s.calls.map ScheduleCall.timerId).count id
        + (s.engine.heap.map timerId).count id
        + (s.loop.batch.map timerId).count id
        + (s.called.map (·.1.timerId)).count id + s.cancelled.count id := by
  simp only [places, count_append]

theorem map_timerId_set {calls : List ScheduleCall} {i : Nat} {old new : ScheduleCall}
    (hold : calls[i]? = some old) (hid : new.timerId = old.timerId) :
    (calls.set i new).map ScheduleCall.timerId = calls.map ScheduleCall.timerId := by
  obtain ⟨hi, hget⟩ := List.getElem?_eq_some_iff.mp hold
  have hlen : i < (calls.map ScheduleCall.timerId).length := by rwa [length_map]
  have hsame : new.timerId = (calls.map ScheduleCall.timerId)[i] := by
    rw [getElem_map, hget, hid]
  rw [map_set, hsame, set_getElem_self]

theorem count_eraseIdx {calls : List ScheduleCall} {i : Nat} {call : ScheduleCall}
    (hcall : calls[i]? = some call) (id : UInt64) :
    (call.timerId :: (calls.eraseIdx i).map ScheduleCall.timerId).count id
      = (calls.map ScheduleCall.timerId).count id := by
  obtain ⟨hi, rfl⟩ := List.getElem?_eq_some_iff.mp hcall
  exact ((getElem_cons_eraseIdx_perm hi).map ScheduleCall.timerId).count_eq id

theorem count_cancel (e : TimerEngine) (timerId id : UInt64) :
    ((e.cancel timerId).2.heap.map TimerEntry.timerId).count id
      = if id = timerId then 0 else (e.heap.map TimerEntry.timerId).count id := by
  have hfilter : (e.cancel timerId).2.heap.map TimerEntry.timerId
      = (e.heap.map TimerEntry.timerId).filter (fun id => id ≠ timerId) := by
    rw [filter_map]
    rfl
  rw [hfilter]
  split
  · next heq =>
    refine count_eq_zero.mpr fun hmem => ?_
    have hne := (mem_filter.mp hmem).2
    exact (of_decide_eq_true hne) heq
  · next hne => exact count_filter (decide_eq_true hne)

variable {timerId : UInt64}

theorem count_pos_of_cancel {e : TimerEngine}
    (h : (e.cancel timerId).1 = true) : 0 < (e.heap.map TimerEntry.timerId).count timerId := by
  have hshorter : (e.heap.filter (fun entry => entry.timerId ≠ timerId)).length < e.heap.length :=
    of_decide_eq_true h
  obtain ⟨entry, hentry, hnot⟩ := length_filter_lt_length_iff_exists.mp hshorter
  have hid : entry.timerId = timerId := by simpa using hnot
  exact count_pos_iff.mpr (mem_map.mpr ⟨entry, hentry, hid⟩)

theorem count_collect (e : TimerEngine) (now : Nat) (id : UInt64) :
    ((e.collect now).1.map TimerEntry.timerId).count id
        + ((e.collect now).2.heap.map TimerEntry.timerId).count id
      = (e.heap.map TimerEntry.timerId).count id := by
  have hperm := (popExpired_perm now e.heap.length e.heap).map timerId
  rw [← hperm.count_eq id, map_append, count_append]
  rfl

theorem count_places_cancel (timerId id : UInt64) :
    (s.step (.cancel timerId)).places.count id ≤ s.places.count id := by
  rw [count_places, count_places]
  simp only [step]
  rw [count_cancel]
  by_cases hfound : (s.engine.cancel timerId).1 = true
  · have hpos := count_pos_of_cancel hfound
    rw [if_pos hfound, count_append, count_singleton]
    by_cases heq : id = timerId
    · subst heq
      simp only [if_true, BEq.rfl]
      omega
    · have hne : (timerId == id) = false := beq_eq_false_iff_ne.mpr (Ne.symm heq)
      rw [if_neg heq, hne, if_neg Bool.false_ne_true]
      exact Nat.le_refl _
  · rw [if_neg hfound]
    split <;> omega

theorem count_places_collect (id : UInt64) :
    (s.step .collect).places.count id = s.places.count id := by
  rw [count_places, count_places]
  simp only [step]
  split
  · next hloop =>
    split
    · rfl
    · have hmove := count_collect s.engine s.clock id
      have hbatch : (if (s.engine.collect s.clock).1.isEmpty then TimerLoop.waiting
          else .collected (s.engine.collect s.clock).1).batch = (s.engine.collect s.clock).1 := by
        split
        · next hempty => exact (isEmpty_iff.mp hempty).symm
        · rfl
      -- the loop had nothing in hand
      have hnone : TimerLoop.waiting.batch = [] := rfl
      dsimp only
      rw [hbatch, hloop, hnone, map_nil, count_nil]
      omega
  · rfl

/-- An id is in one place at most. -/
def Placed : Prop := ∀ id, s.places.count id ≤ s.taken.count id

variable {s}

theorem Placed.step (h : s.Placed) (a : TimerStep) : (s.step a).Placed := by
  intro id
  have hid := h id
  rw [count_places] at hid ⊢
  cases a with
  | tick elapsed => exact hid
  | takeId workflowKey delay =>
    simp only [TimerSystem.step, takeId, map_cons, count_cons,
      count_append, count_nil, ScheduleCall.timerId]
    omega
  | stamp call =>
    simp only [TimerSystem.step]
    split
    · next timerId workflowKey delay hcall =>
      have hcalls : (s.calls.set call
          (.stamped ⟨s.clock + delay, workflowKey, timerId⟩)).map ScheduleCall.timerId
            = s.calls.map ScheduleCall.timerId := map_timerId_set hcall rfl
      dsimp only
      rw [hcalls]
      exact hid
    · exact hid
  | push call =>
    simp only [TimerSystem.step]
    split
    · next entry hcall =>
      have herase := count_eraseIdx hcall id
      simp only [push, map_cons, count_cons, ScheduleCall.timerId]
        at herase ⊢
      omega
    · exact hid
  | cancel timerId =>
    have hcancel := s.count_places_cancel timerId id
    rw [count_places, count_places] at hcancel
    exact Nat.le_trans hcancel hid
  | setFireCallback =>
    simp only [TimerSystem.step]
    split <;> exact hid
  | collect =>
    have hcollect := s.count_places_collect id
    have htaken : (s.step .collect).taken = s.taken := (s.step_counter .collect).2
    rw [count_places, count_places] at hcollect
    rw [hcollect, htaken]
    exact hid
  | lockCallback =>
    simp only [TimerSystem.step]
    split
    · next batch hloop =>
      rw [hloop] at hid
      split
      · exact hid
      · -- the batch is dropped
        simp only [TimerLoop.batch, map_nil, count_nil] at hid ⊢
        omega
    · exact hid
  | callback =>
    simp only [TimerSystem.step]
    split
    · next hloop =>
      rw [hloop] at hid
      exact hid
    · next entry batch hloop =>
      rw [hloop] at hid
      simp only [TimerLoop.batch, map_cons, count_cons, map_append,
        count_append, map_nil, count_nil] at hid ⊢
      omega
    · exact hid
  | shutdown => exact hid

/-! ### Deadlines -/

/-- Batch and callbacks have scheduled timers that have expired. -/
structure Timely (s : TimerSystem) : Prop where
  heap : ∀ entry ∈ s.engine.heap, entry ∈ s.scheduled
  batch : ∀ entry ∈ s.loop.batch, entry ∈ s.scheduled ∧ entry.fireAt ≤ s.clock
  called : ∀ c ∈ s.called, c.1 ∈ s.scheduled ∧ c.1.fireAt ≤ c.2

theorem Timely.inHand (h : s.Timely) {loop : TimerLoop} (hloop : s.loop = loop) :
    ∀ entry ∈ loop.batch, entry ∈ s.scheduled ∧ entry.fireAt ≤ s.clock :=
  hloop ▸ h.batch

theorem Timely.collect (h : s.Timely) :
    (∀ entry ∈ (s.engine.collect s.clock).1, entry ∈ s.scheduled ∧ entry.fireAt ≤ s.clock)
      ∧ ∀ entry ∈ (s.engine.collect s.clock).2.heap, entry ∈ s.scheduled := by
  have hperm := popExpired_perm s.clock s.engine.heap.length s.engine.heap
  refine ⟨fun entry hentry => ⟨?_, popExpired_due _ _ _ entry hentry⟩, fun entry hentry => ?_⟩
  · exact h.heap entry (hperm.mem_iff.mp (mem_append_left _ hentry))
  · exact h.heap entry (hperm.mem_iff.mp (mem_append_right _ hentry))

theorem Timely.step (h : s.Timely) (a : TimerStep) : (s.step a).Timely := by
  cases a with
  | tick elapsed =>
    refine ⟨h.heap, fun entry hentry => ?_, h.called⟩
    obtain ⟨hmem, hdue⟩ := h.batch entry hentry
    exact ⟨hmem, Nat.le_trans hdue (Nat.le_add_right _ _)⟩
  | takeId workflowKey delay | shutdown => exact ⟨h.heap, h.batch, h.called⟩
  | stamp call =>
    simp only [TimerSystem.step]
    split
    · exact ⟨h.heap, h.batch, h.called⟩
    · exact h
  | push call =>
    simp only [TimerSystem.step]
    split
    · next entry _ =>
      -- one timer more is scheduled, and it is in the heap
      have hmore : ∀ {e : TimerEntry}, e ∈ s.scheduled → e ∈ s.scheduled ++ [entry] :=
        fun he => mem_append_left _ he
      refine ⟨fun e he => ?_, fun e he => ⟨hmore (h.batch e he).1, (h.batch e he).2⟩,
        fun c hc => ⟨hmore (h.called c hc).1, (h.called c hc).2⟩⟩
      rcases mem_cons.mp he with rfl | he
      · exact mem_append_right _ (mem_singleton_self _)
      · exact hmore (h.heap e he)
    · exact h
  | cancel timerId =>
    exact ⟨fun entry hentry => h.heap entry (mem_filter.mp hentry).1, h.batch, h.called⟩
  | setFireCallback =>
    simp only [TimerSystem.step]
    split
    · exact h
    · exact ⟨h.heap, h.batch, h.called⟩
  | collect =>
    simp only [TimerSystem.step]
    split
    · split
      · exact h
      · obtain ⟨hbatch, hheap⟩ := h.collect
        refine ⟨hheap, fun entry hentry => ?_, h.called⟩
        dsimp only at hentry
        split at hentry
        · cases hentry
        · exact hbatch entry hentry
    · exact h
  | lockCallback =>
    simp only [TimerSystem.step]
    split
    · next batch hloop =>
      refine ⟨h.heap, fun entry hentry => ?_, h.called⟩
      dsimp only at hentry
      split at hentry
      · exact h.inHand hloop entry hentry
      · cases hentry
    · exact h
  | callback =>
    simp only [TimerSystem.step]
    split
    · exact ⟨h.heap, fun _ hentry => (by cases hentry), h.called⟩
    · next entry batch hloop =>
      have hbatch := h.inHand hloop
      refine ⟨h.heap, fun e he => hbatch e (mem_cons_of_mem _ he), fun c hc => ?_⟩
      rcases mem_append.mp hc with hc | hc
      · exact h.called c hc
      · rw [mem_singleton.mp hc]
        exact hbatch entry mem_cons_self
    · exact h

/-! ### Ids -/

def Numbered (s : TimerSystem) : Prop :=
  s.engine.nextTimerId = UInt64.ofNat (s.taken.length + 1)
    ∧ s.taken = (List.range s.taken.length).map (fun i => UInt64.ofNat (i + 1))

theorem Numbered.step (h : s.Numbered) (a : TimerStep) : (s.step a).Numbered := by
  obtain ⟨hnext, htaken⟩ := h
  obtain ⟨hnext', htaken'⟩ := s.step_counter a
  rw [Numbered, hnext', htaken']
  split
  · rw [length_append, length_singleton, range_succ, map_append,
      map_singleton, ← htaken, hnext]
    exact ⟨by simp, rfl⟩
  · exact ⟨hnext, htaken⟩

structure Sound (s : TimerSystem) : Prop where
  placed : s.Placed
  timely : s.Timely
  numbered : s.Numbered

/-- Nothing is under way or pending between such calls. -/
structure Quiet (timerId : UInt64) (ids : List UInt64) (s : TimerSystem) : Prop where
  heap : s.engine.heap = []
  running : s.engine.shutdown = false
  next : s.engine.nextTimerId = timerId
  onFire : s.engine.onFire = true
  loop : s.loop = .waiting
  called : s.called.map (·.1.timerId) = ids

variable {ids : List UInt64}

end TimerSystem

end Velocity
