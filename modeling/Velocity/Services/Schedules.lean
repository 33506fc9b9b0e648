import Velocity.Services.Calendar

namespace Velocity

open Lib Lib.Gregorian

/-!
# Schedules

`ScheduleManager`. Ids, names, jitter and creation times are left out.

* `computeNextFire`: the scan of a day, and what it misses.
* `serializes_iff`: when at most one workflow of a schedule runs.
-/

/-! ### Calendar specifications -/

inductive OverlapPolicy where
  | skip
  | bufferOne
  | bufferAll
  | terminateOther
  | allowAll
  deriving DecidableEq, Repr

structure CalendarSpec where
  second : String
  minute : String
  hour : String
  dayOfMonth : String
  month : String
  dayOfWeek : String
  deriving DecidableEq, Repr

def parseU32 (text : List Char) : Option UInt32 := (parseUnsigned (2 ^ 32) text).map UInt32.ofNat

def matchesPart (part : List Char) (value min max : UInt32) : Bool :=
  if part.contains '/' then
    -- a part with a `/` has two segments at least
    match part.splitOn '/' with
    | first :: second :: _ =>
      let step := (parseU32 second).getD 1
      let start := if first = ['*'] then min else (parseU32 first).getD min
      step > 0 && value ≥ start && (value - start) % step == 0 && value ≤ max
    | _ => false
  else if part.contains '-' then
    match part.splitOn '-' with
    | first :: second :: _ =>
      let lo := (parseU32 first).getD min
      let hi := (parseU32 second).getD max
      value ≥ lo && value ≤ hi
    | _ => false
  else
    match parseU32 part with
    | some v => v == value
    | none => false

def matchesField (expr : String) (value min max : UInt32) : Bool :=
  if expr = "*" then true
  else (expr.toList.splitOn ',').any (fun part => matchesPart (trim part) value min max)

namespace CalendarSpec

def matchesComponents (spec : CalendarSpec) (second minute hour day month dow : UInt32) : Bool :=
  matchesField spec.second second 0 59 && matchesField spec.minute minute 0 59
    && matchesField spec.hour hour 0 23 && matchesField spec.dayOfMonth day 1 31
    && matchesField spec.month month 1 12 && matchesField spec.dayOfWeek dow 0 6

def matchesAt (spec : CalendarSpec) (secs : UInt64) : Bool :=
  let dt := epochSecsToComponents secs
  spec.matchesComponents dt.second dt.minute dt.hour dt.day dt.month dt.dow

end CalendarSpec

/-! ### The manager -/

inductive ScheduleState where
  | active
  | paused
  | completed
  | failed
  deriving DecidableEq, Repr

structure ScheduleEntry where
  calendarSpec : CalendarSpec
  overlapPolicy : OverlapPolicy
  state : ScheduleState
  /-- `0` stands for no limit. -/
  remainingActions : UInt64
  lastActionTimeMs : UInt64
  actionCount : UInt64
  runningWorkflowKeys : List UInt64
  deriving DecidableEq, Repr

structure ScheduleAction where
  actionId : UInt64
  scheduleId : UInt64
  workflowKey : UInt64
  startedAtMs : UInt64
  completedAtMs : Option UInt64
  success : Bool
  deriving DecidableEq, Repr

structure ScheduleManager where
  schedules : AList fun _ : UInt64 => ScheduleEntry
  actions : List ScheduleAction
  nextId : UInt64
  nextActionId : UInt64

def OverlapPolicy.admitted (policy : OverlapPolicy) (running : List UInt64) :
    Option (List UInt64) :=
  match policy with
  | .skip => if !running.isEmpty then none else some running
  | .terminateOther => some []
  | .bufferOne => some running
  | .bufferAll => some running
  | .allowAll => some running

def ScheduleEntry.tryFire (entry : ScheduleEntry)
    (workflowKey now : UInt64) : Bool × ScheduleEntry :=
  if entry.state ≠ .active then (false, entry)
  else if entry.remainingActions > 0 ∧ entry.actionCount ≥ entry.remainingActions then
    (false, { entry with state := .completed })
  else
    match entry.overlapPolicy.admitted entry.runningWorkflowKeys with
    | none => (false, entry)
    | some running =>
      (true,
        { entry with
          runningWorkflowKeys := running ++ [workflowKey]
          lastActionTimeMs := now
          actionCount := entry.actionCount + 1 })

namespace ScheduleManager

def new : ScheduleManager := ⟨∅, [], 1, 1⟩

variable (m : ScheduleManager)

def createSchedule (spec : CalendarSpec) (overlap : OverlapPolicy) : UInt64 × ScheduleManager :=
  (m.nextId,
    { m with
      schedules := m.schedules.insert m.nextId ⟨spec, overlap, .active, 0, 0, 0, []⟩
      nextId := m.nextId + 1 })

def computeNextFire (scheduleId afterMs : UInt64) : Option UInt64 :=
  match m.schedules.lookup scheduleId with
  | none => none
  | some entry =>
    let startSecs := afterMs / 1000
    (firstFrom entry.calendarSpec.matchesAt 86400 (startSecs + 1)).map (· * 1000)

def tryFire (m : ScheduleManager) (scheduleId workflowKey now : UInt64) :
    Option UInt64 × ScheduleManager :=
  match m.schedules.lookup scheduleId with
  | none => (none, m)
  | some entry =>
    let (started, entry) := entry.tryFire workflowKey now
    let m := { m with schedules := m.schedules.insert scheduleId entry }
    if started then
      (some m.nextActionId,
        { m with
          actions := m.actions ++ [⟨m.nextActionId, scheduleId, workflowKey, now, none, false⟩]
          nextActionId := m.nextActionId + 1 })
    else (none, m)

def modifyFirst (test : ScheduleAction → Bool) (f : ScheduleAction → ScheduleAction) :
    List ScheduleAction → List ScheduleAction
  | [] => []
  | a :: as => if test a then f a :: as else a :: modifyFirst test f as

def completeAction (scheduleId workflowKey : UInt64) (success : Bool)
    (now : UInt64) : ScheduleManager :=
  { m with
    schedules := modifyKey m.schedules scheduleId (fun entry =>
      { entry with runningWorkflowKeys := entry.runningWorkflowKeys.filter (· ≠ workflowKey) })
    actions := modifyFirst
      (fun a => a.scheduleId = scheduleId && a.workflowKey = workflowKey && a.completedAtMs.isNone)
      (fun a => { a with completedAtMs := some now, success := success }) m.actions }

def runningCount (scheduleId : UInt64) : Nat :=
  ((m.schedules.lookup scheduleId).map (·.runningWorkflowKeys.length)).getD 0

/-! ### The next time -/

/-- The earliest later second, or none if there is none. -/
structure MissesNothing (spec : CalendarSpec) (afterMs : UInt64) (found : Option UInt64) : Prop where
  earliest : ∀ r, found = some r →
    ∃ secs, IsNext spec.matchesAt (afterMs / 1000) secs ∧ r.toNat = 1000 * secs.toNat
  never : found = none → ∀ secs, afterMs / 1000 < secs → spec.matchesAt secs = false

/-- The time is one of the 24 hours after `afterMs`. -/
def WithinDay (afterMs secs : UInt64) : Prop :=
  afterMs / 1000 < secs ∧ secs.toNat ≤ (afterMs / 1000).toNat + 86400

instance (afterMs secs : UInt64) : Decidable (WithinDay afterMs secs) :=
  inferInstanceAs (Decidable (_ ∧ _))

theorem toNat_add_day_lt (afterMs : UInt64) : (afterMs / 1000).toNat + 86400 < 2 ^ 64 := by
  have hstart : (afterMs / 1000).toNat = afterMs.toNat / 1000 := UInt64.toNat_div ..
  have hbound := afterMs.toNat_lt
  omega

section NextFire

variable {m : ScheduleManager} {scheduleId afterMs : UInt64} {entry : ScheduleEntry}

theorem computeNextFire_eq_some_iff (hentry : m.schedules.lookup scheduleId = some entry)
    {r : UInt64} :
    m.computeNextFire scheduleId afterMs = some r
      ↔ ∃ secs, IsNext entry.calendarSpec.matchesAt (afterMs / 1000) secs
          ∧ WithinDay afterMs secs ∧ secs * 1000 = r := by
  rw [computeNextFire, hentry]
  dsimp only
  rw [Option.map_eq_some_iff]
  refine exists_congr (fun secs => ?_)
  rw [firstFrom_eq_some_iff (toNat_add_day_lt afterMs), and_assoc]
  exact and_congr_right fun hnext => and_congr_left fun _ => (and_iff_right hnext.above).symm

theorem computeNextFire_eq_none_iff (hentry : m.schedules.lookup scheduleId = some entry) :
    m.computeNextFire scheduleId afterMs = none
      ↔ ∀ secs, WithinDay afterMs secs → entry.calendarSpec.matchesAt secs = false := by
  rw [computeNextFire, hentry]
  dsimp only
  rw [Option.map_eq_none_iff, firstFrom_eq_none_iff (toNat_add_day_lt afterMs)]
  exact forall_congr' fun secs => and_imp.symm

theorem toNat_milliseconds (secs : UInt64) :
    (secs * 1000).toNat = 1000 * secs.toNat ↔ 1000 * secs.toNat < 2 ^ 64 := by
  have hmul : (secs * 1000).toNat = secs.toNat * 1000 % 2 ^ 64 := UInt64.toNat_mul ..
  omega

/-- **The next fire** is found iff it is within a day, or there is none. -/
theorem missesNothing_iff (hentry : m.schedules.lookup scheduleId = some entry) :
    MissesNothing entry.calendarSpec afterMs (m.computeNextFire scheduleId afterMs)
      ↔ (∃ secs, WithinDay afterMs secs ∧ 1000 * secs.toNat < 2 ^ 64
          ∧ entry.calendarSpec.matchesAt secs = true)
        ∨ ∀ secs, afterMs / 1000 < secs → entry.calendarSpec.matchesAt secs = false := by
  constructor
  · intro h
    cases hfound : m.computeNextFire scheduleId afterMs with
    | none => exact .inr (h.never hfound)
    | some r =>
      obtain ⟨secs, hnext, hday, rfl⟩ := (computeNextFire_eq_some_iff hentry).mp hfound
      obtain ⟨secs', hnext', hms⟩ := h.earliest _ hfound
      rw [← hnext.unique hnext'] at hms
      exact .inl ⟨secs, hday, (toNat_milliseconds secs).mp hms, hnext.isMatch⟩
  · rintro (⟨secs, hday, hfits, hmatch⟩ | hnever)
    · refine ⟨fun r hr => ?_, fun hnone => ?_⟩
      · obtain ⟨first, hnext, -, rfl⟩ := (computeNextFire_eq_some_iff hentry).mp hr
        have hfirst := UInt64.le_iff_toNat_le.mp (hnext.least secs hday.1 hmatch)
        exact ⟨first, hnext, (toNat_milliseconds first).mpr (by omega)⟩
      · have hno := (computeNextFire_eq_none_iff hentry).mp hnone secs hday
        exact absurd (hmatch.symm.trans hno) (by decide)
    · refine ⟨fun r hr => ?_, fun _ => hnever⟩
      obtain ⟨first, hnext, -, -⟩ := (computeNextFire_eq_some_iff hentry).mp hr
      exact absurd (hnext.isMatch.symm.trans (hnever first hnext.above)) (by decide)

end NextFire

theorem missesNothing_hourly :
    let spec : CalendarSpec := ⟨"0", "0", "*", "*", "*", "*"⟩
    MissesNothing spec 0 ((new.createSchedule spec .skip).2.computeNextFire 1 0) := by
  intro spec
  have hentry : (new.createSchedule spec .skip).2.schedules.lookup 1
      = some ⟨spec, .skip, .active, 0, 0, 0, []⟩ := by decide
  exact (missesNothing_iff hentry).mpr (.inl ⟨3600, by decide, by decide, by decide +kernel⟩)

/-- **The next time of a schedule** is the earliest match, if it comes within 24 hours. -/
theorem computeNextFire_withinDay (m : ScheduleManager) (scheduleId afterMs : UInt64)
    (entry : ScheduleEntry) (hentry : m.schedules.lookup scheduleId = some entry) :
    (∀ r, m.computeNextFire scheduleId afterMs = some r →
        ∃ secs, IsNext entry.calendarSpec.matchesAt (afterMs / 1000) secs
          ∧ WithinDay afterMs secs
          ∧ (1000 * secs.toNat < 2 ^ 64 → r.toNat = 1000 * secs.toNat))
      ∧ (m.computeNextFire scheduleId afterMs = none
        ↔ ∀ secs, WithinDay afterMs secs → entry.calendarSpec.matchesAt secs = false) := by
  refine ⟨fun r hr => ?_, computeNextFire_eq_none_iff hentry⟩
  obtain ⟨secs, hnext, hday, rfl⟩ := (computeNextFire_eq_some_iff hentry).mp hr
  exact ⟨secs, hnext, hday, (toNat_milliseconds secs).mpr⟩

theorem computeNextFire_hourly :
    let spec : CalendarSpec := ⟨"0", "0", "*", "*", "*", "*"⟩
    let m := (new.createSchedule spec .skip).2
    m.schedules.lookup 1 = some ⟨spec, .skip, .active, 0, 0, 0, []⟩
      ∧ m.computeNextFire 1 0 ≠ none := by
  intro spec m
  have hentry : m.schedules.lookup 1 = some ⟨spec, .skip, .active, 0, 0, 0, []⟩ := by decide
  refine ⟨hentry, fun hnone => ?_⟩
  have hno := (computeNextFire_withinDay m 1 0 _ hentry).2.mp hnone 3600 (by decide)
  have hmatch : spec.matchesAt 3600 = true := by decide +kernel
  exact absurd (hmatch.symm.trans hno) (by decide)

theorem matchesAt_eq_false_of_day {spec : CalendarSpec} {secs : UInt64}
    (h : matchesField spec.dayOfMonth (epochSecsToComponents secs).day 1 31 = false) :
    spec.matchesAt secs = false := by
  rw [CalendarSpec.matchesAt, CalendarSpec.matchesComponents, h]
  simp

theorem computeNextFire_misses :
    let spec : CalendarSpec := ⟨"0", "0", "0", "1", "*", "*"⟩
    let m := (new.createSchedule spec .skip).2
    m.computeNextFire 1 86400000 = none ∧ spec.matchesAt 2678400 = true
      ∧ ¬ MissesNothing spec 86400000 (m.computeNextFire 1 86400000)
      ∧ (new.createSchedule ⟨"*", "*", "*", "*", "*", "*"⟩ .skip).2.computeNextFire 1
          18446744073709551615 = some 384 := by
  intro spec m
  have hentry : m.schedules.lookup 1 = some ⟨spec, .skip, .active, 0, 0, 0, []⟩ := by decide
  have hanswer : m.computeNextFire 1 86400000 = none := by
    refine (computeNextFire_eq_none_iff hentry).mpr (fun secs hwithin => ?_)
    have hstart : ((86400000 : UInt64) / 1000).toNat = 86400 := by decide
    have habove := UInt64.lt_iff_toNat_lt.mp hwithin.1
    have hupto := hwithin.2
    obtain ⟨-, -, -, hday, -⟩ := epochSecsToComponents_toNat secs
    apply matchesAt_eq_false_of_day
    -- the 24 hours lie on the second and the third of January
    have hdays : secs.toNat / 86400 = 1 ∨ secs.toNat / 86400 = 2 := by omega
    rcases hdays with hdays | hdays
    · have hsecond : (epochSecsToComponents secs).day = 2 := by
        rw [← UInt32.toNat_inj, hday, hdays]
        decide
      rw [hsecond]
      decide
    · have hthird : (epochSecsToComponents secs).day = 3 := by
        rw [← UInt32.toNat_inj, hday, hdays]
        decide
      rw [hthird]
      decide
  have hmatch : spec.matchesAt 2678400 = true := by decide +kernel
  refine ⟨hanswer, hmatch, fun h => ?_, by decide⟩
  exact absurd (hmatch.symm.trans (h.never hanswer 2678400 (by decide))) (by decide)

end ScheduleManager

/-! ### Overlaps -/

namespace ScheduleEntry

variable (entry : ScheduleEntry)

def MayFire : Prop :=
  entry.state = .active
    ∧ ¬ (entry.remainingActions > 0 ∧ entry.actionCount ≥ entry.remainingActions)

def Buffers : Prop :=
  entry.overlapPolicy = .bufferOne ∨ entry.overlapPolicy = .bufferAll

instance (entry : ScheduleEntry) : Decidable entry.MayFire := inferInstanceAs (Decidable (_ ∧ _))

instance (entry : ScheduleEntry) : Decidable entry.Buffers := inferInstanceAs (Decidable (_ ∨ _))

/-- The policy lets at most one workflow run. -/
structure Serial (entry : ScheduleEntry) : Prop where
  policy : entry.overlapPolicy ≠ .allowAll
  running : entry.runningWorkflowKeys.length ≤ 1

theorem overlapPolicy_tryFire (workflowKey now : UInt64) :
    (entry.tryFire workflowKey now).2.overlapPolicy = entry.overlapPolicy := by
  rw [tryFire]
  split
  · rfl
  · split
    · rfl
    · split <;> rfl

theorem runningWorkflowKeys_of_not_mayFire {entry : ScheduleEntry} (h : ¬ entry.MayFire)
    (workflowKey now : UInt64) :
    (entry.tryFire workflowKey now).2.runningWorkflowKeys = entry.runningWorkflowKeys := by
  rw [tryFire]
  split
  · rfl
  · next hactive =>
    rw [if_pos (not_not.mp (fun hno => h ⟨not_not.mp hactive, hno⟩))]

theorem tryFire_of_mayFire {entry : ScheduleEntry} (h : entry.MayFire) (workflowKey now : UInt64) :
    (entry.tryFire workflowKey now).2.runningWorkflowKeys
      = ((entry.overlapPolicy.admitted entry.runningWorkflowKeys).map (· ++ [workflowKey])).getD
        entry.runningWorkflowKeys := by
  rw [tryFire, if_neg (not_not.mpr h.1), if_neg h.2]
  cases entry.overlapPolicy.admitted entry.runningWorkflowKeys <;> rfl

theorem running_tryFire_iff {entry : ScheduleEntry} (h : entry.Serial) (workflowKey now : UInt64) :
    (entry.tryFire workflowKey now).2.runningWorkflowKeys.length ≤ 1
      ↔ (entry.MayFire → entry.Buffers → entry.runningWorkflowKeys = []) := by
  by_cases hmay : entry.MayFire
  · rw [tryFire_of_mayFire hmay, Buffers]
    simp only [hmay, true_imp_iff]
    have hrunning := h.running
    cases hpolicy : entry.overlapPolicy with
    | skip =>
      refine iff_of_true ?_ (by simp)
      cases hkeys : entry.runningWorkflowKeys with
      | nil => exact Nat.le_refl 1
      | cons key keys =>
        rw [hkeys] at hrunning
        exact hrunning
    | terminateOther => exact iff_of_true (Nat.le_refl 1) (by simp)
    | allowAll => exact absurd hpolicy h.policy
    | bufferOne | bufferAll => simp [OverlapPolicy.admitted]
  · rw [runningWorkflowKeys_of_not_mayFire hmay]
    exact iff_of_true h.running (fun hfire => absurd hfire hmay)

end ScheduleEntry

namespace ScheduleManager

inductive Call where
  | tryFire (scheduleId workflowKey now : UInt64)
  | completeAction (scheduleId workflowKey : UInt64) (success : Bool) (now : UInt64)
  deriving DecidableEq, Repr

variable (m : ScheduleManager) (scheduleId workflowKey now k : UInt64)

def step : Call → ScheduleManager
  | .tryFire scheduleId workflowKey now => (m.tryFire scheduleId workflowKey now).2
  | .completeAction scheduleId workflowKey success now =>
    m.completeAction scheduleId workflowKey success now

/-- A buffering schedule fires only when nothing runs. -/
def FiresAlone (id : UInt64) (m : ScheduleManager) : Call → Prop
  | .tryFire scheduleId _ _ => scheduleId = id → ∀ entry, m.schedules.lookup id = some entry →
    entry.MayFire → entry.Buffers → entry.runningWorkflowKeys = []
  | .completeAction .. => True

theorem lookup_tryFire : (m.tryFire scheduleId workflowKey now).2.schedules.lookup k
      = if k = scheduleId then
          (m.schedules.lookup scheduleId).map (fun entry => (entry.tryFire workflowKey now).2)
        else m.schedules.lookup k := by
  rw [tryFire]
  cases hentry : m.schedules.lookup scheduleId with
  | none =>
    dsimp only
    split
    · next hk => rw [hk, hentry, Option.map_none]
    · rfl
  | some entry =>
    dsimp only
    split <;> exact lookup_insert_eq_ite ..

theorem lookup_completeAction (success : Bool) :
    (m.completeAction scheduleId workflowKey success now).schedules.lookup k
      = if k = scheduleId then
          (m.schedules.lookup scheduleId).map (fun entry => { entry with
            runningWorkflowKeys := entry.runningWorkflowKeys.filter (· ≠ workflowKey) })
        else m.schedules.lookup k :=
  lookup_modifyKey ..

def SerialAt (id : UInt64) (m : ScheduleManager) : Prop :=
  ∃ entry, m.schedules.lookup id = some entry ∧ entry.Serial

theorem runningCount_eq {m : ScheduleManager} {id : UInt64} {entry : ScheduleEntry}
    (h : m.schedules.lookup id = some entry) :
    m.runningCount id = entry.runningWorkflowKeys.length := by
  rw [runningCount, h]
  rfl

theorem SerialAt.step {id : UInt64} {m : ScheduleManager} (h : m.SerialAt id) (call : Call) :
    ∃ entry, (m.step call).schedules.lookup id = some entry
      ∧ entry.overlapPolicy ≠ .allowAll
      ∧ (entry.runningWorkflowKeys.length ≤ 1 ↔ FiresAlone id m call) := by
  obtain ⟨entry, hentry, hserial⟩ := h
  cases call with
  | tryFire scheduleId workflowKey now =>
    rw [ScheduleManager.step, lookup_tryFire, FiresAlone]
    by_cases hid : id = scheduleId
    · subst hid
      rw [if_pos rfl, hentry]
      refine ⟨_, rfl, ?_, ?_⟩
      · rw [ScheduleEntry.overlapPolicy_tryFire]
        exact hserial.policy
      · rw [ScheduleEntry.running_tryFire_iff hserial]
        simp
    · rw [if_neg hid]
      exact ⟨entry, hentry, hserial.policy,
        iff_of_true hserial.running (fun heq => absurd heq.symm hid)⟩
  | completeAction scheduleId workflowKey success now =>
    rw [ScheduleManager.step, lookup_completeAction, FiresAlone]
    by_cases hid : id = scheduleId
    · subst hid
      rw [if_pos rfl, hentry]
      refine ⟨_, rfl, hserial.policy, iff_of_true ?_ trivial⟩
      exact Nat.le_trans (List.length_filter_le ..) hserial.running
    · rw [if_neg hid]
      exact ⟨entry, hentry, hserial.policy, iff_of_true hserial.running trivial⟩

/-- **Policies serialize** iff no schedule fires while it buffers and one is running. -/
theorem serializes_iff (m : ScheduleManager) (id : UInt64) (entry : ScheduleEntry)
    (hentry : m.schedules.lookup id = some entry) (hserial : entry.Serial) (calls : List Call) :
    (∀ past, past <+: calls → (past.foldl step m).runningCount id ≤ 1)
      ↔ StepsMeet step (FiresAlone id) m calls := by
  have hcount : ∀ m, SerialAt id m → m.runningCount id ≤ 1 := by
    rintro m ⟨entry, hentry, hserial⟩
    rw [runningCount_eq hentry]
    exact hserial.running
  have hkeeps : ∀ m call, SerialAt id m → True → FiresAlone id m call → SerialAt id (m.step call) := by
    intro m call h _ halone
    obtain ⟨after, hafter, hpolicy, hiff⟩ := h.step call
    exact ⟨after, hafter, hpolicy, hiff.mpr halone⟩
  have hexact : ∀ m call, SerialAt id m → True → (m.step call).runningCount id ≤ 1 →
      FiresAlone id m call := by
    intro m call h _ hle
    obtain ⟨after, hafter, -, hiff⟩ := h.step call
    exact hiff.mp (runningCount_eq hafter ▸ hle)
  exact forall_prefixes_iff_stepsMeet hcount hkeeps hexact ⟨entry, hentry, hserial⟩
    (stepsMeet_of_forall fun _ _ => trivial)

theorem serializes_in_turn :
    let m := (new.createSchedule ⟨"0", "0", "*", "*", "*", "*"⟩ .bufferOne).2
    let calls := [Call.tryFire 1 7 0, .completeAction 1 7 true 1, .tryFire 1 8 2]
    ∀ past, past <+: calls → (past.foldl step m).runningCount 1 ≤ 1 := by
  intro m calls
  have hfirst : m.schedules.lookup 1
      = some ⟨⟨"0", "0", "*", "*", "*", "*"⟩, .bufferOne, .active, 0, 0, 0, []⟩ := by decide
  have hsecond : ((m.step (.tryFire 1 7 0)).step (.completeAction 1 7 true 1)).schedules.lookup 1
      = some ⟨⟨"0", "0", "*", "*", "*", "*"⟩, .bufferOne, .active, 0, 0, 1, []⟩ := by decide
  refine (serializes_iff m 1 _ hfirst ⟨by decide, by decide⟩ calls).mpr ⟨?_, trivial, ?_, trivial⟩
  · intro _ entry hentry _ _
    cases hfirst.symm.trans hentry
    rfl
  · intro _ entry hentry _ _
    cases hsecond.symm.trans hentry
    rfl

theorem not_serializes :
    let spec : CalendarSpec := ⟨"0", "0", "*", "*", "*", "*"⟩
    let calls := [Call.tryFire 1 7 0, .tryFire 1 8 1]
    (calls.foldl step (new.createSchedule spec .bufferOne).2).runningCount 1 = 2
      ∧ (calls.foldl step (new.createSchedule spec .bufferAll).2).runningCount 1 = 2 := by
  refine ⟨by decide, by decide⟩

end ScheduleManager

end Velocity
