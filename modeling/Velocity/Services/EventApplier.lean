import Mathlib.Data.List.Nodup
import Mathlib.Data.Set.Basic
import Velocity.Lib.LittleEndian
import Velocity.Lib.Run

namespace Velocity

open Lib List Function

/-!
# Applying the events of activities

`EventApplier` takes the first activity in a fitting state, not the one the event names.

* `Meaning`: what the events say of each activity.
* `agrees_iff_unambiguous`: when the applier says the same, in every order of its map.
-/

inductive AppliedActivityState where
  | scheduled
  | started
  | completed
  | failed
  | timedOut
  | canceled
  deriving DecidableEq, Repr

structure AppliedActivity where
  activityId : String
  activityType : String
  taskQueue : String
  state : AppliedActivityState
  attempt : UInt32
  result : Option Bytes
  failureReason : Option String
  deriving DecidableEq, Repr

inductive ActivityChange where
  | started (attempt : UInt32)
  | completed (result : Bytes)
  | failed (reason : String)
  | timedOut
  | canceled
  deriving DecidableEq, Repr

inductive ActivityEvent where
  | scheduled (activityId activityType taskQueue : String)
  | changed (activityId : String) (change : ActivityChange)
  deriving DecidableEq, Repr

namespace ActivityChange

def picks : ActivityChange → AppliedActivity → Bool
  -- `find_activity_by_event` takes any
  | started _, _ => true
  | completed _, act | failed _, act | timedOut, act => act.state == .started
  | canceled, act => act.state == .started || act.state == .scheduled

def update : ActivityChange → AppliedActivity → AppliedActivity
  | started attempt, act => { act with state := .started, attempt := attempt }
  | completed result, act => { act with state := .completed, result := some result }
  | failed reason, act => { act with state := .failed, failureReason := some reason }
  | timedOut, act => { act with state := .timedOut }
  | canceled, act => { act with state := .canceled }

theorem activityId_update (c : ActivityChange) (act : AppliedActivity) :
    (c.update act).activityId = act.activityId := by
  cases c <;> rfl

end ActivityChange

/-! ### The applier -/

abbrev Activities := List AppliedActivity

namespace Activities

def get (l : Activities) (id : String) : Option AppliedActivity := l.find? (·.activityId == id)

def modifyFirst (p : AppliedActivity → Bool) (f : AppliedActivity → AppliedActivity) :
    Activities → Activities
  | [] => []
  | act :: l => if p act then f act :: l else act :: modifyFirst p f l

def apply (l : Activities) : ActivityEvent → Activities
  | .scheduled id activityType taskQueue =>
    ⟨id, activityType, taskQueue, .scheduled, 0, none, none⟩ :: l.filter (·.activityId != id)
  | .changed _ change => modifyFirst change.picks change.update l

def isPending (act : AppliedActivity) : Bool := act.state == .scheduled || act.state == .started

def pendingActivities (l : Activities) : List String := (l.filter isPending).map (·.activityId)

end Activities

abbrev Meaning := String → Option AppliedActivity

def Meaning.step (m : Meaning) : ActivityEvent → Meaning
  | .scheduled id activityType taskQueue =>
    update m id (some ⟨id, activityType, taskQueue, .scheduled, 0, none, none⟩)
  | .changed id change => update m id ((m id).map change.update)

/-- Every activity is as the events that refer to it say. -/
structure Activities.Agrees (m : Meaning) (l : Activities) : Prop where
  get : ∀ id, l.get id = m id
  pending : ∀ id, id ∈ l.pendingActivities ↔ ∃ act ∈ m id, Activities.isPending act = true

def applyAll (s : Meaning × Set Activities) (e : ActivityEvent) : Meaning × Set Activities :=
  (s.1.step e, fun l => ∃ before ∈ s.2, ∃ order, order.Perm before ∧ l = Activities.apply order e)

abbrev noEvents : Meaning × Set Activities := (fun _ => none, {[]})

/-- A start or close event is for a scheduled activity. -/
def Names (s : Meaning × Set Activities) : ActivityEvent → Prop
  | .scheduled .. => True
  | .changed id _ => (s.1 id).isSome = true

/-- The applier can take no other activity, or it makes no difference. -/
def Unambiguous (s : Meaning × Set Activities) : ActivityEvent → Prop
  | .scheduled .. => True
  | .changed id change =>
    ∀ act ∈ s.1 id, (change.picks act = true ∨ change.update act = act)
      ∧ ∀ other, s.1 other.activityId = some other → other.activityId ≠ id →
        change.picks other = true → change.update other = other ∧ change.update act = act

namespace Activities

/-! ### Maps and meanings -/

structure Represents (m : Meaning) (l : Activities) : Prop where
  nodup : (l.map (·.activityId)).Nodup
  mem : ∀ id act, m id = some act ↔ act ∈ l ∧ act.activityId = id

variable {m : Meaning} {l : Activities}

theorem Represents.perm {order : Activities} (h : Represents m l) (horder : order.Perm l) :
    Represents m order :=
  ⟨(horder.map _).nodup_iff.mpr h.nodup, fun id act => by rw [horder.mem_iff, h.mem]⟩

theorem Represents.get (h : Represents m l) (id : String) : l.get id = m id := by
  cases hm : m id with
  | none =>
    refine find?_eq_none.mpr fun act hact hid => ?_
    rw [(h.mem id act).mpr ⟨hact, by simpa using hid⟩] at hm
    cases hm
  | some act =>
    obtain ⟨hact, hid⟩ := (h.mem id act).mp hm
    cases hfind : l.get id with
    | none => exact absurd (beq_iff_eq.mpr hid) (find?_eq_none.mp hfind act hact)
    | some found =>
      have hfound := find?_some hfind
      rw [← hm, (h.mem id found).mpr ⟨mem_of_find?_eq_some hfind, by simpa using hfound⟩]

theorem Represents.agrees (h : Represents m l) : Agrees m l where
  get := h.get
  pending id := by
    simp only [pendingActivities, mem_map, mem_filter, Option.mem_def, h.mem]
    exact ⟨fun ⟨act, ⟨hact, hp⟩, hid⟩ => ⟨act, ⟨hact, hid⟩, hp⟩,
      fun ⟨act, ⟨hact, hid⟩, hp⟩ => ⟨act, ⟨hact, hp⟩, hid⟩⟩

theorem Represents.schedule (h : Represents m l) (act : AppliedActivity) :
    Represents (update m act.activityId (some act))
      (act :: l.filter (·.activityId != act.activityId)) := by
  refine ⟨?_, fun id x => ?_⟩
  · rw [map_cons, nodup_cons]
    refine ⟨?_, h.nodup.sublist (filter_sublist.map _)⟩
    simp
  · by_cases hid : id = act.activityId
    · subst hid
      grind
    · rw [update_of_ne hid, h.mem]
      grind

theorem Represents.replace {pre post : Activities} {act act' : AppliedActivity}
    (h : Represents m (pre ++ act :: post)) (hid : act'.activityId = act.activityId) :
    Represents (update m act.activityId (some act')) (pre ++ act' :: post) := by
  have hnodup := h.nodup
  simp only [map_append, map_cons, nodup_middle, nodup_cons, mem_append, mem_map, not_or] at hnodup
  refine ⟨?_, fun id x => ?_⟩
  · simpa [hid] using h.nodup
  · by_cases hx : id = act.activityId
    · subst hx
      grind
    · rw [update_of_ne hx, h.mem]
      grind

theorem modifyFirst_cases (p : AppliedActivity → Bool) (f : AppliedActivity → AppliedActivity)
    (l : Activities) :
    (∀ act ∈ l, p act = false) ∧ modifyFirst p f l = l
      ∨ ∃ pre act post, l = pre ++ act :: post ∧ p act = true
        ∧ modifyFirst p f l = pre ++ f act :: post := by
  induction l with
  | nil => exact .inl ⟨by simp, rfl⟩
  | cons act l ih =>
    rw [modifyFirst]
    by_cases hp : p act = true
    · exact .inr ⟨[], act, l, rfl, hp, if_pos hp⟩
    · rw [if_neg hp]
      rcases ih with ⟨hnone, hsame⟩ | ⟨pre, x, post, rfl, hx, hmod⟩
      · exact .inl ⟨by simpa [hp] using hnone, by rw [hsame]⟩
      · exact .inr ⟨act :: pre, x, post, rfl, hx, by rw [hmod, cons_append]⟩

theorem Represents.modify (h : Represents m l) (c : ActivityChange) :
    (∀ act, m act.activityId = some act → c.picks act = false)
        ∧ Represents m (modifyFirst c.picks c.update l)
      ∨ ∃ act, m act.activityId = some act ∧ c.picks act = true
        ∧ Represents (update m act.activityId (some (c.update act)))
          (modifyFirst c.picks c.update l) := by
  rcases modifyFirst_cases c.picks c.update l with
    ⟨hnone, hsame⟩ | ⟨pre, act, post, rfl, hact, hmod⟩
  · exact .inl ⟨fun act hact => hnone act ((h.mem _ _).mp hact).1, hsame.symm ▸ h⟩
  · refine .inr ⟨act, (h.mem _ _).mpr ⟨by simp, rfl⟩, hact, ?_⟩
    rw [hmod]
    exact h.replace (c.activityId_update act)

theorem Represents.exists_order (h : Represents m l) {c : ActivityChange} {act : AppliedActivity}
    (hact : m act.activityId = some act) (hpicks : c.picks act = true) :
    ∃ order : Activities, order.Perm l
      ∧ Represents (update m act.activityId (some (c.update act)))
        (modifyFirst c.picks c.update order) := by
  have hperm := (perm_cons_erase ((h.mem _ _).mp hact).1).symm
  have hfirst : Represents m ([] ++ act :: l.erase act) := h.perm hperm
  refine ⟨act :: l.erase act, hperm, ?_⟩
  rw [modifyFirst, if_pos hpicks]
  exact hfirst.replace (c.activityId_update act)

end Activities

open Activities

structure Determined (s : Meaning × Set Activities) : Prop where
  reached : s.2.Nonempty
  represents : ∀ l ∈ s.2, Represents s.1 l

theorem determined_applyAll {s : Meaning × Set Activities} {e : ActivityEvent} (h : Determined s)
    (hnames : Names s e) (he : Unambiguous s e) : Determined (applyAll s e) := by
  refine ⟨?_, ?_⟩
  · obtain ⟨l, hl⟩ := h.reached
    exact ⟨_, l, hl, l, .refl l, rfl⟩
  rintro _ ⟨l, hl, order, horder, rfl⟩
  have hrep := (h.represents l hl).perm horder
  cases e with
  | scheduled id activityType taskQueue =>
    exact hrep.schedule ⟨id, activityType, taskQueue, .scheduled, 0, none, none⟩
  | changed id change =>
    obtain ⟨act, hact⟩ := Option.isSome_iff_exists.mp hnames
    obtain ⟨hown, hothers⟩ := he act hact
    obtain rfl := ((hrep.mem id act).mp hact).2
    have hsame : change.update act = act → s.1.step (.changed act.activityId change) = s.1 := by
      intro hupdate
      rw [Meaning.step, hact, Option.map_some, hupdate, ← hact, update_eq_self]
    show Represents (s.1.step (.changed act.activityId change)) (modifyFirst _ _ order)
    rcases hrep.modify change with ⟨hnone, hmod⟩ | ⟨taken, htaken, hpicks, hmod⟩
    · rwa [hsame (hown.resolve_left (by simp [hnone act hact]))]
    · by_cases hid : taken.activityId = act.activityId
      · obtain rfl : taken = act := Option.some.inj (htaken.symm.trans (hid ▸ hact))
        rwa [Meaning.step, hact]
      · obtain ⟨hother, hupdate⟩ := hothers taken htaken hid hpicks
        rwa [hother, ← htaken, update_eq_self, ← hsame hupdate] at hmod

theorem unambiguous_of_agrees {s : Meaning × Set Activities} {e : ActivityEvent} (h : Determined s)
    (hagrees : ∀ l ∈ (applyAll s e).2, Agrees (applyAll s e).1 l) : Unambiguous s e := by
  cases e with
  | scheduled => trivial
  | changed id change =>
    obtain ⟨l, hl⟩ := h.reached
    have hrep := h.represents l hl
    intro act hact
    obtain rfl := ((hrep.mem id act).mp hact).2
    -- as a meaning, it is that of the event
    have hmeaning : ∀ {m : Meaning} {order : Activities}, order.Perm l →
        Represents m (modifyFirst change.picks change.update order) →
          m = update s.1 act.activityId (some (change.update act)) := by
      intro m order horder hm
      funext id
      rw [← hm.get id]
      refine ((hagrees _ ⟨l, hl, order, horder, rfl⟩).get id).trans ?_
      rw [applyAll, Meaning.step, hact, Option.map_some]
    have hothers : ∀ other, s.1 other.activityId = some other →
        other.activityId ≠ act.activityId → ∀ {order : Activities}, order.Perm l →
        Represents (update s.1 other.activityId (some (change.update other)))
            (modifyFirst change.picks change.update order) →
          change.update other = other ∧ change.update act = act := by
      intro other hother hne order horder hm
      have hsame := hmeaning horder hm
      have hat := congrFun hsame other.activityId
      have hown := congrFun hsame act.activityId
      rw [update_self, update_of_ne hne, hother] at hat
      rw [update_self, update_of_ne hne.symm, hact] at hown
      exact ⟨Option.some.inj hat, (Option.some.inj hown).symm⟩
    refine ⟨?_, fun other hother hne hpicks => ?_⟩
    · rcases hrep.modify change with ⟨-, hmod⟩ | ⟨taken, htaken, hpicks, hmod⟩
      · have hown := congrFun (hmeaning (.refl l) hmod) act.activityId
        rw [update_self, hact] at hown
        exact .inr (Option.some.inj hown).symm
      · by_cases hid : taken.activityId = act.activityId
        · obtain rfl : taken = act := Option.some.inj (htaken.symm.trans (hid ▸ hact))
          exact .inl hpicks
        · exact .inr (hothers taken htaken hid (.refl l) hmod).2
    · obtain ⟨order, horder, hm⟩ := hrep.exists_order hother hpicks
      exact hothers other hother hne horder hm

/-- **Own activities** are right in all orders iff no other one fits an event. -/
theorem agrees_iff_unambiguous (events : List ActivityEvent)
    (hnames : StepsMeet applyAll Names noEvents events) :
    (∀ ps, ps <+: events → ∀ l ∈ (ps.foldl applyAll noEvents).2,
        Agrees (ps.foldl applyAll noEvents).1 l)
      ↔ StepsMeet applyAll Unambiguous noEvents events := by
  refine forall_prefixes_iff_stepsMeet (I := Determined)
    (fun s h l hl => (h.represents l hl).agrees)
    (fun s e h hnames he => determined_applyAll h hnames he)
    (fun s e h _ hagrees => unambiguous_of_agrees h hagrees) ?_ hnames
  refine ⟨⟨[], rfl⟩, ?_⟩
  rintro _ rfl
  exact ⟨by simp, by simp⟩

theorem agrees_two :
    let events : List ActivityEvent := [.scheduled "a" "t" "q", .changed "a" (.started 1),
      .scheduled "b" "t" "q", .changed "a" (.completed [9])]
    ∀ l ∈ (events.foldl applyAll noEvents).2,
      l.get "a" = some ⟨"a", "t", "q", .completed, 1, some [9], none⟩
        ∧ l.get "b" = some ⟨"b", "t", "q", .scheduled, 0, none, none⟩ := by
  intro events l hl
  have hstarted : Unambiguous (applyAll noEvents (.scheduled "a" "t" "q"))
      (.changed "a" (.started 1)) := by
    refine fun act _ => ⟨.inl rfl, fun other hother hne => ?_⟩
    simp [applyAll, Meaning.step, hne] at hother
  -- the other activity is scheduled, and only a started one is taken
  have hcompleted : Unambiguous
      ((events.take 3).foldl applyAll noEvents) (.changed "a" (.completed [9])) := by
    intro act hact
    cases hact
    refine ⟨.inl rfl, fun other hother hne hpicks => ?_⟩
    by_cases hb : other.activityId = "b"
    · rw [hb] at hother
      cases hother
      cases hpicks
    · simp [events, applyAll, Meaning.step, hne, hb] at hother
  have hall := ((agrees_iff_unambiguous events ⟨trivial, rfl, trivial, rfl, trivial⟩).mpr
    ⟨trivial, hstarted, trivial, hcompleted, trivial⟩ _ (prefix_refl _) l hl).get
  exact ⟨hall "a", hall "b"⟩

theorem get_ne_second :
    let events := [.scheduled "a" "t" "q", .scheduled "b" "t" "q", .changed "a" (.started 1)]
    ∃ l ∈ (events.foldl applyAll noEvents).2, l.get "a" ≠ (events.foldl applyAll noEvents).1 "a" :=
  ⟨_, ⟨_, ⟨_, ⟨_, rfl, _, .refl _, rfl⟩, _, .refl _, rfl⟩, _, .refl _, rfl⟩, by decide +kernel⟩

end Velocity
