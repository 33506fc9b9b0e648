import Velocity.Lib.Keyed
import Velocity.Lib.Run

namespace Velocity

open Lib

/-!
# Cron schedules

Schedules with the minute each fires next. The expression is given parsed.
-/

/-! ### Expressions -/

structure CronExpression where
  minutes : List UInt8
  hours : List UInt8
  daysOfMonth : List UInt8
  months : List UInt8
  daysOfWeek : List UInt8
  deriving DecidableEq, Repr

structure CronComponents where
  minute : UInt8
  hour : UInt8
  dayOfMonth : UInt8
  month : UInt8
  dayOfWeek : UInt8
  deriving DecidableEq, Repr

/-- Months of 30 days, days of the month modulo 31. -/
def cronComponents (candidate : UInt64) : CronComponents where
  minute := (candidate % 60).toUInt8 % 60
  hour := ((candidate / 60) % 24).toUInt8 % 24
  -- `clamp(1, 31)`
  dayOfMonth := max 1 (min 31 (((candidate / (60 * 24)) % 31).toUInt8 + 1))
  month := ((candidate / (60 * 24 * 30)) % 12).toUInt8 + 1
  dayOfWeek := ((candidate / (60 * 24)) % 7).toUInt8

namespace CronExpression

def allows (expr : CronExpression) (candidate : UInt64) : Bool :=
  let c := cronComponents candidate
  expr.minutes.contains c.minute && expr.hours.contains c.hour
    && expr.daysOfMonth.contains c.dayOfMonth && expr.months.contains c.month
    && expr.daysOfWeek.contains c.dayOfWeek

def searchFrom (expr : CronExpression) (fallback : UInt64) : Nat → UInt64 → UInt64
  | 0, _ => fallback
  | n + 1, candidate =>
    if expr.allows candidate then candidate else expr.searchFrom fallback n (candidate + 1)

/-- An hour from now when there is none in `4 * 366` days. -/
def nextFireAfter (expr : CronExpression) (afterMinutes : UInt64) : UInt64 :=
  expr.searchFrom (afterMinutes + 60) (4 * 366 * 24 * 60) (afterMinutes + 1)

end CronExpression

/-! ### Schedules -/

structure CronEntry where
  scheduleId : UInt64
  cronExpr : CronExpression
  workflowTypeId : UInt64
  namespaceId : UInt64
  taskQueueHash : UInt64
  totalSteps : UInt32
  lastFireTime : UInt64
  nextFireTime : UInt64
  fireCount : UInt64
  paused : Bool
  deriving DecidableEq, Repr

structure CronFireEvent where
  scheduleId : UInt64
  workflowTypeId : UInt64
  namespaceId : UInt64
  taskQueueHash : UInt64
  totalSteps : UInt32
  fireNumber : UInt64
  deriving DecidableEq, Repr

namespace CronEntry

def due (entry : CronEntry) (currentTimeMinutes : UInt64) : Bool :=
  !entry.paused && entry.nextFireTime ≤ currentTimeMinutes

def fireEvent (entry : CronEntry) : CronFireEvent where
  scheduleId := entry.scheduleId
  workflowTypeId := entry.workflowTypeId
  namespaceId := entry.namespaceId
  taskQueueHash := entry.taskQueueHash
  totalSteps := entry.totalSteps
  fireNumber := entry.fireCount + 1

def advance (currentTimeMinutes : UInt64) (entry : CronEntry) : CronEntry :=
  if entry.due currentTimeMinutes then
    { entry with
      lastFireTime := entry.nextFireTime
      fireCount := entry.fireCount + 1
      nextFireTime := entry.cronExpr.nextFireAfter currentTimeMinutes }
  else entry

@[simp] theorem scheduleId_advance (currentTimeMinutes : UInt64) (entry : CronEntry) :
    (entry.advance currentTimeMinutes).scheduleId = entry.scheduleId := by
  unfold advance
  split <;> rfl

end CronEntry

/-- The order of the entries stands for that of the hash map. -/
structure CronScheduler where
  entries : AList fun _ : UInt64 => CronEntry
  nextId : UInt64

namespace CronScheduler

def new : CronScheduler := ⟨∅, 1⟩

variable (s : CronScheduler)

def registerExpr (expr : CronExpression)
    (workflowTypeId namespaceId taskQueueHash : UInt64) (totalSteps : UInt32)
    (currentTimeMinutes : UInt64) : UInt64 × CronScheduler :=
  let id := s.nextId
  let entry : CronEntry :=
    { scheduleId := id
      cronExpr := expr
      workflowTypeId := workflowTypeId
      namespaceId := namespaceId
      taskQueueHash := taskQueueHash
      totalSteps := totalSteps
      lastFireTime := 0
      nextFireTime := expr.nextFireAfter currentTimeMinutes
      fireCount := 0
      paused := false }
  (id, ⟨s.entries.insert id entry, s.nextId + 1⟩)

def unregister (scheduleId : UInt64) : Bool × CronScheduler :=
  ((s.entries.lookup scheduleId).isSome, { s with entries := s.entries.erase scheduleId })

def setPaused (scheduleId : UInt64) (paused : Bool) : Bool × CronScheduler :=
  ((s.entries.lookup scheduleId).isSome,
    { s with entries := modifyKey s.entries scheduleId (fun entry => { entry with paused }) })

def fires (currentTimeMinutes : UInt64) : List CronFireEvent :=
  ((s.entries.entries.map (·.2)).filter (·.due currentTimeMinutes)).map (·.fireEvent)

def advanceTo (currentTimeMinutes : UInt64) : List CronFireEvent × CronScheduler :=
  (s.fires currentTimeMinutes,
    { s with entries := mapValues (CronEntry.advance currentTimeMinutes) s.entries })

/-! ### One event per schedule -/

inductive Call where
  | register (expr : CronExpression) (workflowTypeId namespaceId taskQueueHash : UInt64)
      (totalSteps : UInt32) (currentTimeMinutes : UInt64)
  | unregister (scheduleId : UInt64)
  | setPaused (scheduleId : UInt64) (paused : Bool)
  | advanceTo (currentTimeMinutes : UInt64)

def step : Call → CronScheduler
  | .register expr workflowTypeId namespaceId taskQueueHash totalSteps currentTimeMinutes =>
    (s.registerExpr expr workflowTypeId namespaceId taskQueueHash totalSteps
      currentTimeMinutes).2
  | .unregister scheduleId => (s.unregister scheduleId).2
  | .setPaused scheduleId paused => (s.setPaused scheduleId paused).2
  | .advanceTo currentTimeMinutes => (s.advanceTo currentTimeMinutes).2

def Filed : Prop :=
  ∀ k entry, s.entries.lookup k = some entry → entry.scheduleId = k

theorem filed_new : new.Filed := by
  intro k entry h
  cases h

theorem filed_step {s : CronScheduler} (hs : s.Filed) (call : Call) : (s.step call).Filed := by
  intro k entry h
  cases call with
  | register expr t ns tq total minute =>
    change (s.entries.insert s.nextId _).lookup k = some entry at h
    rw [lookup_insert_eq_ite] at h
    split at h
    · next hk =>
      cases h
      exact hk.symm
    · exact hs k entry h
  | unregister id =>
    change (s.entries.erase id).lookup k = some entry at h
    rw [lookup_erase_eq_ite] at h
    split at h
    · cases h
    · exact hs k entry h
  | setPaused id paused =>
    change (modifyKey s.entries id _).lookup k = some entry at h
    rw [lookup_modifyKey] at h
    split at h
    · next hk =>
      obtain ⟨held, hheld, rfl⟩ := Option.map_eq_some_iff.mp h
      rw [hk]
      exact hs id held hheld
    · exact hs k entry h
  | advanceTo minute =>
    change (mapValues (CronEntry.advance minute) s.entries).lookup k = some entry at h
    rw [lookup_mapValues] at h
    obtain ⟨held, hheld, rfl⟩ := Option.map_eq_some_iff.mp h
    rw [CronEntry.scheduleId_advance]
    exact hs k held hheld

theorem Filed.nodup_fires {s : CronScheduler} (hs : s.Filed) (minute : UInt64) :
    ((s.fires minute).map (·.scheduleId)).Nodup := by
  -- the ids are the keys of the map
  have hids : (s.entries.entries.map (·.2)).map (·.scheduleId) = s.entries.keys := by
    rw [List.map_map]
    refine List.map_congr_left (fun stored hmem => ?_)
    exact hs stored.1 stored.2 (AList.mem_lookup_iff.mpr hmem)
  have hall : ((s.entries.entries.map (·.2)).map (·.scheduleId)).Nodup :=
    hids ▸ s.entries.nodupKeys
  rw [fires, List.map_map]
  exact hall.sublist (List.filter_sublist.map _)

/-- **Fires** of one minute are of different schedules. -/
theorem nodup_fired (calls : List Call) (minute : UInt64) :
    (((calls.foldl step new).fires minute).map (·.scheduleId)).Nodup := by
  have hkeeps : ∀ s call, Filed s → True → (s.step call).Filed :=
    fun s call hs _ => filed_step hs call
  have hfiled : (calls.foldl step new).Filed :=
    foldl_invariant hkeeps calls new filed_new (stepsMeet_of_mem (fun _ _ _ => trivial))
  exact hfiled.nodup_fires minute

end CronScheduler

end Velocity
