import Velocity.Services.VisibilityAgreement
import Velocity.Services.VisibilityQuery

namespace Velocity

open Lib List VisibilityIndex

/-!
# What a visibility query returns

With no index, `execute` filters six of the eight statuses.
-/

namespace VisibilityIndex

/-- Only keys that are not registered are registered. -/
def RegistersNew (index : VisibilityIndex) : VisibilityOp → Prop
  | .register info => index.executions.lookup info.workflowKey = none
  | _ => True

variable {index : VisibilityIndex}

theorem Listed.apply (h : index.Listed) {op : VisibilityOp} (hop : index.RegistersNew op) :
    (index.apply op).Listed := by
  cases op with
  | register info => exact h.register hop
  | updateStatus k newStatus closeTimeMs => exact h.updateStatus k newStatus closeTimeMs
  | remove k => exact h.remove k

theorem listed_run {ops : List VisibilityOp}
    (hops : StepsMeet VisibilityIndex.apply RegistersNew VisibilityIndex.new ops) :
    (ops.foldl VisibilityIndex.apply VisibilityIndex.new).Listed :=
  foldl_invariant (fun _ _ h hop => h.apply hop) ops _ kept_new.toListed hops

end VisibilityIndex

namespace VisibilityQuery

section Exactness

variable [UnicodeCase] {index : VisibilityIndex}

/-- An equality on namespace, type or a status that is one. -/
def PicksIndex (condition : QueryCondition) : Prop :=
  condition.op = .eq ∧ (condition.field = .namespaceName ∨ condition.field = .workflowType
    ∨ (condition.field = .status ∨ condition.field = .executionStatus)
      ∧ (parseStatus condition.value).isSome)

theorem candidates_eq_none_iff (condition : QueryCondition) :
    candidates index condition = none ↔ ¬ PicksIndex condition := by
  rw [candidates, PicksIndex]
  split
  · next heq =>
    cases hfield : condition.field with
    | status | executionStatus => simp [heq, Option.eq_none_iff_forall_ne_some]
    | namespaceName | workflowType => simp [heq]
    | taskQueue | workflowId | searchAttribute key => simp
  · next hne => simp [hne]

variable [FloatText]

def satisfies (query : VisibilityQuery) (info : WorkflowExecutionInfo) : Bool :=
  query.conditions.all (matchesCondition info)

/-- The query returns each satisfying execution once. -/
def Exact (query : VisibilityQuery) (index : VisibilityIndex) : Prop :=
  (query.execute index).Perm (index.executionsWith query.satisfies)

omit [UnicodeCase] [FloatText] in
theorem idOf_toString (n : UInt64) : idOf (toString n) = n := by
  have hread : parseUnsigned (2 ^ 64) (toString n).toList = some n.toNat :=
    parseUnsigned_toString n.toNat_lt
  rw [idOf, hread, Option.getD_some, UInt64.ofNat_toNat]

theorem exists_perm_candidates (h : index.Listed) {condition : QueryCondition}
    {l : List WorkflowExecutionInfo} (hl : candidates index condition = some l) :
    ∃ p, l.Perm (index.executionsWith p)
      ∧ ∀ info, matchesCondition info condition = true → p info = true := by
  rw [candidates] at hl
  split at hl
  · next heq =>
    cases hfield : condition.field with
    | status | executionStatus =>
      rw [hfield] at hl
      obtain ⟨s, hs, rfl⟩ := Option.map_eq_some_iff.mp hl
      refine ⟨(·.status = s), (slot_agrees h.status s (by simp)).1, ?_⟩
      intro info hinfo
      simpa [matchesCondition, fieldMatches, heq, hfield, hs] using hinfo
    | namespaceName =>
      rw [hfield] at hl
      cases hl
      refine ⟨(·.namespaceId = idOf condition.value),
        (slot_agrees h.namespaceId _ (by simp)).1, ?_⟩
      intro info hinfo
      have hvalue : toString info.namespaceId = condition.value := by
        simpa [matchesCondition, fieldMatches, heq, hfield] using hinfo
      simp [← hvalue, idOf_toString]
    | workflowType =>
      rw [hfield] at hl
      cases hl
      refine ⟨(·.workflowTypeId = idOf condition.value),
        (slot_agrees h.workflowType _ (by simp)).1, ?_⟩
      intro info hinfo
      have hvalue : toString info.workflowTypeId = condition.value := by
        simpa [matchesCondition, fieldMatches, heq, hfield] using hinfo
      simp [← hvalue, idOf_toString]
    | taskQueue | workflowId | searchAttribute key =>
      rw [hfield] at hl
      cases hl
  · cases hl

theorem execute_eq_filter {query : VisibilityQuery} (hlimit : query.limit = none)
    (hoffset : query.offset = none) (index : VisibilityIndex) :
    query.execute index = (query.getInitialSet index).filter query.satisfies := by
  have hfilter : ∀ (conditions : List QueryCondition) (l : List WorkflowExecutionInfo),
      conditions.foldl (fun results condition => results.filter (matchesCondition · condition)) l
        = l.filter (fun info => conditions.all (matchesCondition info)) := by
    intro conditions
    induction conditions with
    | nil => simp
    | cons condition conditions ih =>
      intro l
      rw [foldl_cons, ih, filter_filter]
      exact filter_congr fun info _ => Bool.and_comm ..
  simp only [execute, hlimit, hoffset]
  exact hfilter query.conditions (query.getInitialSet index)

omit [UnicodeCase] [FloatText] in
theorem perm_filter_executionsWith {l : List WorkflowExecutionInfo}
    {p : WorkflowExecutionInfo → Bool} (hl : l.Perm (index.executionsWith p))
    (q : WorkflowExecutionInfo → Bool) :
    (l.filter q).Perm (index.executionsWith fun info => q info && p info) := by
  refine (hl.filter q).trans (List.Perm.of_eq ?_)
  rw [executionsWith, filter_filter]
  rfl

theorem execute_perm (h : index.Listed) {query : VisibilityQuery} (hlimit : query.limit = none)
    (hoffset : query.offset = none) (hpicks : ∃ c ∈ query.conditions, PicksIndex c) :
    query.Exact index := by
  rw [Exact, execute_eq_filter hlimit hoffset, getInitialSet]
  cases hfind : query.conditions.findSome? (candidates index) with
  | none =>
    obtain ⟨c, hc, hpick⟩ := hpicks
    exact absurd hpick ((candidates_eq_none_iff c).mp (findSome?_eq_none_iff.mp hfind c hc))
  | some l =>
    obtain ⟨c, hc, hl⟩ := exists_of_findSome?_eq_some hfind
    obtain ⟨p, hperm, hp⟩ := exists_perm_candidates h hl
    refine (perm_filter_executionsWith hperm query.satisfies).trans (List.Perm.of_eq ?_)
    refine filter_congr fun info _ => ?_
    cases hsat : query.satisfies info with
    | false => rfl
    | true => exact hp info (all_eq_true.mp hsat c hc)

theorem exact_fallback_iff (h : index.Listed) {query : VisibilityQuery}
    (hlimit : query.limit = none) (hoffset : query.offset = none)
    (hpicks : ¬ ∃ c ∈ query.conditions, PicksIndex c) :
    query.Exact index ↔ ∀ info ∈ values index.executions, query.satisfies info = true →
      info.status ≠ .timedOut ∧ info.status ≠ .void := by
  have hnone : query.conditions.findSome? (candidates index) = none :=
    findSome?_eq_none_iff.mpr fun c hc =>
      (candidates_eq_none_iff c).mpr fun hpick => hpicks ⟨c, hc, hpick⟩
  have hfallback : (fallbackStatuses.flatMap index.listByStatus).Perm
      (index.executionsWith fun info => decide (info.status ∈ fallbackStatuses)) :=
    Inverts.listing_flatMap h.status (by decide) (by simp)
  have hstatus : ∀ s : WorkflowStatus,
      s ∈ fallbackStatuses ↔ s ≠ .timedOut ∧ s ≠ .void := by
    intro s
    cases s <;> decide
  rw [Exact, execute_eq_filter hlimit hoffset, getInitialSet, hnone, Option.getD_none]
  have hperm := perm_filter_executionsWith hfallback query.satisfies
  constructor
  · intro hexact info hinfo hsat
    have hmem : info ∈ index.executionsWith query.satisfies :=
      mem_filter.mpr ⟨hinfo, hsat⟩
    have hlisted := (mem_filter.mp (hperm.mem_iff.mp (hexact.mem_iff.mpr hmem))).2
    exact (hstatus _).mp (by simpa [hsat] using hlisted)
  · intro hall
    refine hperm.trans (List.Perm.of_eq ?_)
    refine filter_congr fun info hinfo => ?_
    cases hsat : query.satisfies info with
    | false => rfl
    | true => simp [(hstatus _).mpr (hall info hinfo hsat)]

/-- **Exactness** when a condition picks an index or no match has timed out or is void. -/
theorem execute_exact_iff {ops : List VisibilityOp}
    (hops : StepsMeet VisibilityIndex.apply VisibilityIndex.RegistersNew VisibilityIndex.new ops)
    {query : VisibilityQuery} (hlimit : query.limit = none) (hoffset : query.offset = none) :
    query.Exact (ops.foldl VisibilityIndex.apply VisibilityIndex.new)
      ↔ (∃ c ∈ query.conditions, PicksIndex c)
        ∨ ∀ info ∈ values (ops.foldl VisibilityIndex.apply VisibilityIndex.new).executions,
            query.satisfies info = true → info.status ≠ .timedOut ∧ info.status ≠ .void := by
  have hlisted := VisibilityIndex.listed_run hops
  by_cases hpicks : ∃ c ∈ query.conditions, PicksIndex c
  · exact iff_of_true (execute_perm hlisted hlimit hoffset hpicks) (.inl hpicks)
  · rw [exact_fallback_iff hlisted hlimit hoffset hpicks, or_iff_right hpicks]

end Exactness

def timingOut : List VisibilityOp :=
  [.register (runOf 1 100), .updateStatus 7 .timedOut (some 500)]

def workflowSeven : VisibilityQuery := { conditions := [⟨.workflowId, .eq, "7"⟩] }

@[reducible] def noFloats : FloatText := ⟨fun _ => ""⟩

theorem registersNew_timingOut :
    StepsMeet VisibilityIndex.apply VisibilityIndex.RegistersNew VisibilityIndex.new timingOut :=
  ⟨rfl, trivial, trivial⟩

theorem execute_exact_iff_timingOut :
    letI := latinCase
    letI := noFloats
    StepsMeet VisibilityIndex.apply VisibilityIndex.RegistersNew VisibilityIndex.new timingOut
      ∧ (workflowSeven.Exact (timingOut.foldl VisibilityIndex.apply VisibilityIndex.new)
        ↔ (∃ c ∈ workflowSeven.conditions, PicksIndex c)
          ∨ ∀ info ∈ values (timingOut.foldl VisibilityIndex.apply VisibilityIndex.new).executions,
              workflowSeven.satisfies info = true →
                info.status ≠ .timedOut ∧ info.status ≠ .void) :=
  letI := latinCase
  letI := noFloats
  ⟨registersNew_timingOut, execute_exact_iff registersNew_timingOut rfl rfl⟩

theorem timedOut_not_returned :
    letI := latinCase
    letI := noFloats
    let index := timingOut.foldl VisibilityIndex.apply VisibilityIndex.new
    parse "WorkflowId = '7'".toList = some (.ok workflowSeven)
      ∧ (index.executionsWith workflowSeven.satisfies).map (·.workflowKey) = [7]
      ∧ (workflowSeven.execute index).map (·.workflowKey) = [] :=
  ⟨by rfl, by decide +kernel, by decide +kernel⟩

end VisibilityQuery

end Velocity
