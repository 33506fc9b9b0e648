import Velocity.Lib.LittleEndian
import Velocity.Lib.Run
import Mathlib.Order.Nat

namespace Velocity

open Lib List

/-!
# History compaction

Events go through four levels, of which each stands for those before it.

* `Grouping.squash`: the loop of the first two passes.
* `Survives`: which payloads a pass keeps; `keepsPayloads_iff` along a run.
-/

inductive CompactionLevel where
  | l0
  | l1
  | l2
  | l3

inductive CompactableEventType where
  | workflowStarted
  | activityTaskScheduled
  | activityTaskStarted
  | activityTaskCompleted
  | activityTaskFailed
  | timerStarted
  | timerFired
  | timerCanceled
  | signalReceived
  | workflowTaskScheduled
  | workflowTaskStarted
  | workflowTaskCompleted
  | activityCompacted
  | stepCompacted
  | terminalState
  deriving DecidableEq

def CompactableEventType.isActivity : CompactableEventType → Bool
  | .activityTaskScheduled | .activityTaskStarted | .activityTaskCompleted
  | .activityTaskFailed => true
  | _ => false

structure CompactableEvent where
  eventId : Nat
  workflowKey : UInt64
  eventType : CompactableEventType
  level : CompactionLevel
  timestampMs : Nat
  payload : Bytes
  mergedRange : Option (Nat × Nat)

def CompactableEvent.withLevel (e : CompactableEvent) (level : CompactionLevel) :
    CompactableEvent :=
  { e with level := level }

structure CompactionConfig where
  l0Threshold : Nat
  l1Threshold : Nat
  l2Threshold : Nat
  l3AuditTrailCount : Nat

structure CompactedHistory where
  l0 : List CompactableEvent
  l1 : List CompactableEvent
  l2 : List CompactableEvent
  l3 : List CompactableEvent

def CompactedHistory.retained (h : CompactedHistory) : List CompactableEvent :=
  h.l0 ++ h.l1 ++ h.l2 ++ h.l3

/-- `next_event_id` is a `u64`; natural numbers are the same for fewer than `2 ^ 64` events. -/
structure HistoryCompactor where
  config : CompactionConfig
  histories : UInt64 → Option CompactedHistory
  nextEventId : Nat

open CompactedHistory

/-! ### Squashing groups -/

/-- A loop that squashes groups of events. -/
structure Grouping where
  opens : CompactableEventType → Bool
  continues : CompactableEventType → Bool
  closes : CompactableEventType → Bool
  level : CompactionLevel
  mergedType : CompactableEventType
  payload : CompactableEvent → Bytes

def Grouping.merged (g : Grouping) (id : Nat) (first last : CompactableEvent) : CompactableEvent :=
  ⟨id, first.workflowKey, g.mergedType, g.level, last.timestampMs, g.payload last,
    some (first.eventId, last.eventId)⟩

def Grouping.squash (g : Grouping) :
    Nat → Option (CompactableEvent × CompactableEvent) → List CompactableEvent →
      List CompactableEvent × Nat
  | id, none, [] => ([], id)
  | id, some (first, last), [] => ([g.merged id first last], id + 1)
  | id, none, e :: rest =>
    if g.opens e.eventType then g.squash id (some (e, e)) rest
    else (e.withLevel g.level :: (g.squash id none rest).1, (g.squash id none rest).2)
  | id, some (first, last), e :: rest =>
    if g.continues e.eventType then
      if g.closes e.eventType then
        (g.merged id first e :: (g.squash (id + 1) none rest).1, (g.squash (id + 1) none rest).2)
      else g.squash id (some (first, e)) rest
    else
      (g.merged id first last :: e.withLevel g.level :: (g.squash (id + 1) none rest).1,
        (g.squash (id + 1) none rest).2)

def activityGroups : Grouping :=
  ⟨(·.isActivity), (·.isActivity), fun _ => false, .l1, .activityCompacted, (·.payload)⟩

def stepGroups : Grouping :=
  ⟨(· == .workflowTaskScheduled), fun _ => true, (· == .workflowTaskCompleted), .l2,
    .stepCompacted, fun _ => []⟩

/-! ### The compactor -/

abbrev Compacting := CompactedHistory × Nat

namespace Compacting

variable (config : CompactionConfig) (s : Compacting)

def compactL0ToL1 : Compacting :=
  if s.1.l0.length ≥ config.l0Threshold then
    ({ s.1 with l0 := [], l1 := s.1.l1 ++ (activityGroups.squash s.2 none s.1.l0).1 },
      (activityGroups.squash s.2 none s.1.l0).2)
  else s

def compactL1ToL2 : Compacting :=
  if s.1.l1.length ≥ config.l1Threshold then
    ({ s.1 with l1 := [], l2 := s.1.l2 ++ (stepGroups.squash s.2 none s.1.l1).1 },
      (stepGroups.squash s.2 none s.1.l1).2)
  else s

def audit : List CompactableEvent :=
  s.1.l2.drop (s.1.l2.length - config.l3AuditTrailCount)

def terminal (first last : CompactableEvent) : CompactableEvent :=
  ⟨s.2, last.workflowKey, .terminalState, .l3, last.timestampMs, [],
    some (first.eventId, last.eventId)⟩

def Trims : Prop :=
  s.1.l2.length ≥ config.l2Threshold ∧ s.1.l2.length > config.l3AuditTrailCount

def compactL2ToL3 : Compacting :=
  if s.1.l2.length ≥ config.l2Threshold then
    match s.1.l2 with
    | [] => s
    | first :: rest =>
      if (first :: rest).length > config.l3AuditTrailCount then
        ({ s.1 with
            l2 := []
            l3 := s.1.l3 ++ first :: s.terminal first (rest.getLastD first)
              :: (s.audit config).map (·.withLevel .l3) }, s.2 + 1)
      else ({ s.1 with l2 := [], l3 := s.1.l3 ++ (first :: rest).map (·.withLevel .l3) }, s.2)
  else s

def compact : Compacting :=
  ((s.compactL0ToL1 config).compactL1ToL2 config).compactL2ToL3 config

end Compacting

namespace HistoryCompactor

variable (c : HistoryCompactor) (key : UInt64)

def new (config : CompactionConfig) : HistoryCompactor := ⟨config, fun _ => none, 1⟩

def newEvent (eventType : CompactableEventType) (payload : Bytes) : CompactableEvent :=
  ⟨c.nextEventId, key, eventType, .l0, 0, payload, none⟩

def appendEvent (eventType : CompactableEventType) (payload : Bytes) : HistoryCompactor :=
  let h := (c.histories key).getD ⟨[], [], [], []⟩
  { c with
    histories := Function.update c.histories key
      (some { h with l0 := h.l0 ++ [c.newEvent key eventType payload] })
    nextEventId := c.nextEventId + 1 }

def compactWorkflow : HistoryCompactor :=
  match c.histories key with
  | none => c
  | some h =>
    let s := Compacting.compact c.config (h, c.nextEventId)
    { c with histories := Function.update c.histories key (some s.1), nextEventId := s.2 }

end HistoryCompactor

inductive CompactorOp where
  | append (key : UInt64) (eventType : CompactableEventType) (payload : Bytes)
  | compact (key : UInt64)

structure CompactorRun where
  compactor : HistoryCompactor
  appended : List CompactableEvent

namespace CompactorRun

def step (s : CompactorRun) : CompactorOp → CompactorRun
  | .append key eventType payload =>
    ⟨s.compactor.appendEvent key eventType payload,
      s.compactor.newEvent key eventType payload :: s.appended⟩
  | .compact key => ⟨s.compactor.compactWorkflow key, s.appended⟩

def start (config : CompactionConfig) : CompactorRun := ⟨.new config, []⟩

def current (s : CompactorRun) (key : UInt64) : Compacting :=
  ((s.compactor.histories key).getD ⟨[], [], [], []⟩, s.compactor.nextEventId)

end CompactorRun

/-! ### What the steps do -/

theorem Grouping.le_squash_snd (g : Grouping) (o : Option (CompactableEvent × CompactableEvent))
    (l : List CompactableEvent) (id : Nat) : id ≤ (g.squash id o l).2 := by
  fun_induction g.squash id o l <;> grind

namespace Compacting

variable (config : CompactionConfig) (s : Compacting)

theorem le_compact : s.2 ≤ (s.compact config).2 := by
  have hfirst : s.2 ≤ (s.compactL0ToL1 config).2 := by
    grind [compactL0ToL1, Grouping.le_squash_snd]
  have hsecond : ∀ t : Compacting, t.2 ≤ (t.compactL1ToL2 config).2 := by
    grind [compactL1ToL2, Grouping.le_squash_snd]
  have hthird : ∀ t : Compacting, t.2 ≤ (t.compactL2ToL3 config).2 := by grind [compactL2ToL3]
  exact hfirst.trans ((hsecond _).trans (hthird _))

theorem compactL2ToL3_cases :
    ((s.compactL2ToL3 config = s ∨ s.compactL2ToL3 config
        = ({ s.1 with l2 := [], l3 := s.1.l3 ++ s.1.l2.map (·.withLevel .l3) }, s.2))
      ∧ ¬ s.Trims config) ∨ s.Trims config ∧ ∃ first rest, s.1.l2 = first :: rest
        ∧ s.compactL2ToL3 config = ({ s.1 with
            l2 := []
            l3 := s.1.l3 ++ first :: s.terminal first (rest.getLastD first)
              :: (s.audit config).map (·.withLevel .l3) }, s.2 + 1) := by
  rw [compactL2ToL3, Trims]
  cases hl2 : s.1.l2 with
  | nil => simp
  | cons first rest => grind

end Compacting

namespace CompactorRun

open Compacting HistoryCompactor

variable (s : CompactorRun) (key k : UInt64)

theorem current_append (eventType : CompactableEventType) (payload : Bytes) :
    (s.step (.append key eventType payload)).current k
      = (if key = k then { (s.current k).1 with
          l0 := (s.current k).1.l0 ++ [s.compactor.newEvent key eventType payload] }
        else (s.current k).1, s.compactor.nextEventId + 1) := by
  split
  · next hkey => simp [current, step, appendEvent, hkey]
  · next hkey => simp [current, step, appendEvent, Function.update_of_ne (Ne.symm hkey)]

theorem current_compact_cases :
    (key = k ∧ (s.current k).1 = ⟨[], [], [], []⟩ ∧ s.step (.compact key) = s)
      ∨ (key = k ∧ (s.step (.compact key)).current k = compact s.compactor.config (s.current k))
      ∨ key ≠ k ∧ ((s.step (.compact key)).current k).1 = (s.current k).1
        ∧ (s.current k).2 ≤ ((s.step (.compact key)).current k).2 := by
  cases hh : s.compactor.histories key with
  | none =>
    have hsame : s.step (.compact key) = s := by simp [step, compactWorkflow, hh]
    rw [hsame]
    by_cases hkey : key = k
    · exact .inl ⟨hkey, by simp [current, ← hkey, hh], rfl⟩
    · exact .inr (.inr ⟨hkey, rfl, le_rfl⟩)
  | some h =>
    by_cases hkey : key = k
    · subst hkey
      exact .inr (.inl ⟨rfl, by simp [step, compactWorkflow, current, hh]⟩)
    · refine .inr (.inr ⟨hkey, ?_, ?_⟩)
      · simp [step, compactWorkflow, current, hh, Function.update_of_ne (Ne.symm hkey)]
      · simpa [step, compactWorkflow, current, hh] using
          le_compact s.compactor.config (h, s.compactor.nextEventId)

end CompactorRun

/-! ### Payloads -/

def lasting : List CompactableEvent → List CompactableEvent
  | [] => []
  | e :: rest =>
    if e.eventType.isActivity && rest.head?.any (·.eventType.isActivity) then lasting rest
    else e :: lasting rest

def outsideSteps : Bool → List CompactableEvent → List CompactableEvent
  | _, [] => []
  | false, e :: rest =>
    if stepGroups.opens e.eventType then outsideSteps true rest else e :: outsideSteps false rest
  | true, e :: rest => outsideSteps (!stepGroups.closes e.eventType) rest

theorem map_payload_squash_activity (id : Nat) {o : Option (CompactableEvent × CompactableEvent)}
    {l : List CompactableEvent} (ho : ∀ x ∈ o, x.2.eventType.isActivity) :
    (activityGroups.squash id o l).1.map (·.payload)
      = (lasting (o.toList.map Prod.snd ++ l)).map (·.payload) := by
  fun_induction activityGroups.squash id o l <;>
    simp_all [lasting, activityGroups, Grouping.merged, CompactableEvent.withLevel]

theorem mem_payload_squash_step (id : Nat) {o : Option (CompactableEvent × CompactableEvent)}
    {l : List CompactableEvent} {p : Bytes} :
    p ∈ (stepGroups.squash id o l).1.map (·.payload)
      ↔ p ∈ (outsideSteps o.isSome l).map (·.payload)
        ∨ p = [] ∧ (o.isSome ∨ ∃ e ∈ l, stepGroups.opens e.eventType) := by
  fun_induction stepGroups.squash id o l <;>
    simp_all [outsideSteps, stepGroups, Grouping.merged, CompactableEvent.withLevel] <;> grind

theorem outsideSteps_subset (b : Bool) (l : List CompactableEvent) : outsideSteps b l ⊆ l := by
  fun_induction outsideSteps b l <;> grind

namespace Compacting

variable {config : CompactionConfig} {s : Compacting} {p : Bytes}

def payloads (s : Compacting) : List Bytes := s.1.retained.map (·.payload)

def KeptInL1 (config : CompactionConfig) (s : Compacting) (p : Bytes) : Prop :=
  s.1.l0.length ≥ config.l0Threshold →
    p ∈ (lasting s.1.l0 ++ s.1.l1 ++ s.1.l2 ++ s.1.l3).map (·.payload)

def KeptInL2 (config : CompactionConfig) (s : Compacting) (p : Bytes) : Prop :=
  s.1.l1.length ≥ config.l1Threshold →
    p ∈ (s.1.l0 ++ outsideSteps false s.1.l1 ++ s.1.l2 ++ s.1.l3).map (·.payload)

def KeptInL3 (config : CompactionConfig) (s : Compacting) (p : Bytes) : Prop :=
  s.Trims config →
    p ∈ (s.1.l0 ++ s.1.l1 ++ s.1.l3 ++ s.1.l2.head?.toList ++ s.audit config).map (·.payload)

def Squashes (config : CompactionConfig) (s : Compacting) : Prop :=
  s.1.l1.length ≥ config.l1Threshold ∧ ∃ e ∈ s.1.l1, stepGroups.opens e.eventType

theorem mem_payloads_compactL0ToL1 (hp : p ∈ s.payloads) :
    p ∈ (s.compactL0ToL1 config).payloads ↔ KeptInL1 config s p := by
  rw [compactL0ToL1, KeptInL1]
  split
  · next h =>
    have hsquash := map_payload_squash_activity s.2 (o := none) (l := s.1.l0) (by simp)
    simp only [payloads, retained, map_append, hsquash, mem_append, map_nil]
    grind
  · next h => exact ⟨fun _ hlen => absurd hlen h, fun _ => hp⟩

theorem mem_payloads_compactL1ToL2 : p ∈ (s.compactL1ToL2 config).payloads
    ↔ (p ∈ s.payloads ∧ KeptInL2 config s p) ∨ p = [] ∧ Squashes config s := by
  rw [compactL1ToL2, KeptInL2, Squashes]
  have hsub := map_subset (·.payload) (outsideSteps_subset false s.1.l1)
  split
  · next h =>
    have hsquash := mem_payload_squash_step s.2 (o := none) (l := s.1.l1) (p := p)
    simp only [payloads, retained, map_append, mem_append, map_nil, hsquash]
    grind
  · next h => grind

theorem mem_payloads_compactL2ToL3 : p ∈ (s.compactL2ToL3 config).payloads
    ↔ (p ∈ s.payloads ∧ KeptInL3 config s p) ∨ p = [] ∧ s.Trims config := by
  have hlevel : ∀ l : List CompactableEvent,
    (l.map (·.withLevel .l3)).map (·.payload) = l.map (·.payload) := fun l => map_map
  have haudit : (s.audit config).map (·.payload) ⊆ s.1.l2.map (·.payload) :=
    map_subset _ (drop_subset _ _)
  rw [KeptInL3]
  obtain ⟨hsame | hmoved, hnot⟩ | ⟨htrims, first, rest, hl2, htrimmed⟩ :=
    compactL2ToL3_cases config s
  · grind
  · simp only [hmoved, payloads, retained, map_append, mem_append, hlevel]
    grind
  · rw [hl2] at haudit ⊢
    simp only [htrimmed, payloads, retained, hl2, map_append, mem_append, hlevel,
      map_cons, mem_cons, terminal]
    grind

/-- Read off the state before the pass, whose levels become those of `s₁` and `s₂`. -/
def Survives (config : CompactionConfig) (s : Compacting) (p : Bytes) : Prop :=
  let s₁ := s.compactL0ToL1 config
  let s₂ := s₁.compactL1ToL2 config
  (KeptInL1 config s p ∧ KeptInL2 config s₁ p ∨ p = [] ∧ Squashes config s₁)
      ∧ KeptInL3 config s₂ p
    ∨ p = [] ∧ s₂.Trims config

theorem mem_payloads_compact (hp : p ∈ s.payloads) :
    p ∈ (s.compact config).payloads ↔ Survives config s p := by
  rw [compact, mem_payloads_compactL2ToL3, mem_payloads_compactL1ToL2,
    mem_payloads_compactL0ToL1 hp, Survives]

end Compacting

namespace CompactorRun

open Compacting

def Needed (k : UInt64) (e : CompactableEvent) : Prop :=
  e.workflowKey = k ∧ (e.eventType = .signalReceived ∨ e.eventType = .activityTaskCompleted)

/-- Every needed payload is that of a retained event. -/
def KeepsPayloads (k : UInt64) (s : CompactorRun) : Prop :=
  ∀ e ∈ s.appended, Needed k e → e.payload ∈ (s.current k).payloads

/-- Every needed payload survives the pass. -/
def CompactsGently (k : UInt64) (s : CompactorRun) : CompactorOp → Prop
  | .append _ _ _ => True
  | .compact key => key = k →
    ∀ e ∈ s.appended, Needed k e → Survives s.compactor.config (s.current k) e.payload

variable {s : CompactorRun} {k : UInt64}

theorem KeepsPayloads.append (h : KeepsPayloads k s) (key : UInt64)
    (eventType : CompactableEventType) (payload : Bytes) :
    KeepsPayloads k (s.step (.append key eventType payload)) := by
  rw [KeepsPayloads, current_append]
  split
  · refine forall_mem_cons.mpr ⟨fun _ => ?_, fun e he hneeded => ?_⟩
    · simp [payloads, retained, HistoryCompactor.newEvent]
    · have hold := h e he hneeded
      simp only [payloads, retained, map_append, mem_append] at hold ⊢
      tauto
  · next hkey => exact forall_mem_cons.mpr ⟨fun hneeded => absurd hneeded.1 hkey, h⟩

theorem KeepsPayloads.compact_iff (h : KeepsPayloads k s) (key : UInt64) :
    KeepsPayloads k (s.step (.compact key)) ↔ CompactsGently k s (.compact key) := by
  rw [KeepsPayloads, CompactsGently]
  obtain ⟨-, hempty, hsame⟩ | ⟨hkey, hcompact⟩ | ⟨hkey, hhistory, -⟩ :=
    current_compact_cases s key k
  · refine ⟨fun _ _ e he hneeded => ?_, fun _ => hsame.symm ▸ h⟩
    exact absurd (h e he hneeded) (by simp [payloads, hempty, retained])
  · rw [hcompact, forall_prop_of_true hkey]
    exact forall₃_congr fun e he hneeded => mem_payloads_compact (h e he hneeded)
  · refine ⟨fun _ heq => absurd heq hkey, fun _ => ?_⟩
    rw [payloads, hhistory]
    exact h

/-- **Payloads** are retained iff they survive every compaction. -/
theorem keepsPayloads_iff (config : CompactionConfig) (k : UInt64) (ops : List CompactorOp) :
    (∀ ps, ps <+: ops → KeepsPayloads k (ps.foldl step (start config)))
      ↔ StepsMeet step (CompactsGently k) (start config) ops := by
  refine forall_prefixes_iff_stepsMeet (I := KeepsPayloads k) (fun _ h => h)
    (fun s op h _ hgood => ?_) (fun s op h _ hcov => ?_) (by simp [KeepsPayloads, start])
    (stepsMeet_of_mem fun _ _ _ => trivial)
  · cases op with
    | append key eventType payload => exact h.append key eventType payload
    | compact key => exact (h.compact_iff key).mpr hgood
  · cases op with
    | append key eventType payload => trivial
    | compact key => exact (h.compact_iff key).mp hcov

theorem not_keepsPayloads_adjacent :
    ¬ KeepsPayloads 7 ([CompactorOp.append 7 .activityTaskCompleted [1],
      .append 7 .activityTaskCompleted [2], .compact 7].foldl step (start ⟨1, 9, 9, 9⟩)) := by
  intro h
  have hlost := h ⟨1, 7, .activityTaskCompleted, .l0, 0, [1], none⟩ (.tail _ (.head _))
    ⟨rfl, .inr rfl⟩
  exact absurd hlost (by decide)

end CompactorRun

end Velocity
