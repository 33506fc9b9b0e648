import Velocity.Lib.Run
import Velocity.Lib.SecondaryIndex
import Velocity.Services.Visibility

namespace Velocity

open Lib List VisibilityIndex

/-!
# Visibility indexes and executions

The five indexes are kept by hand in three functions.
-/

inductive VisibilityOp where
  | register (info : WorkflowExecutionInfo)
  | updateStatus (workflowKey : UInt64) (newStatus : WorkflowStatus) (closeTimeMs : Option UInt64)
  | remove (workflowKey : UInt64)

namespace VisibilityIndex

variable (index : VisibilityIndex)

def apply : VisibilityOp → VisibilityIndex
  | .register info => index.register info
  | .updateStatus workflowKey newStatus closeTimeMs =>
    index.updateStatus workflowKey newStatus closeTimeMs
  | .remove workflowKey => index.remove workflowKey

def executionsWith (p : WorkflowExecutionInfo → Bool) : List WorkflowExecutionInfo :=
  (values index.executions).filter p

/-- Every list is exact, and every count its length. -/
structure Agrees (index : VisibilityIndex) : Prop where
  status : ∀ s, (index.listByStatus s).Perm (index.executionsWith (·.status = s))
    ∧ index.countByStatus s = (index.executionsWith (·.status = s)).length
  namespaceId : ∀ n, (index.listByNamespace n).Perm (index.executionsWith (·.namespaceId = n))
    ∧ index.countByNamespace n = (index.executionsWith (·.namespaceId = n)).length
  workflowType : ∀ t, (index.listByType t).Perm (index.executionsWith (·.workflowTypeId = t))
    ∧ index.countByType t = (index.executionsWith (·.workflowTypeId = t)).length
  startTime : ∀ startMs endMs, startMs ≤ endMs → ∃ l, index.listByTimeRange startMs endMs = some l
    ∧ l.Perm (index.executionsWith fun info => startMs ≤ info.startTimeMs
      ∧ info.startTimeMs ≤ endMs)
  closeTime : ∀ startMs endMs, startMs ≤ endMs →
    ∃ l, index.listByCloseTimeRange startMs endMs = some l
      ∧ l.Perm (index.executionsWith fun info =>
        info.closeTimeMs.any fun t => startMs ≤ t ∧ t ≤ endMs)

/-- New keys are registered, and only open executions updated. -/
def OnOpen : VisibilityOp → Prop
  | .register info => index.executions.lookup info.workflowKey = none
  | .updateStatus workflowKey _ _ => ∀ info, index.executions.lookup workflowKey = some info →
    info.closeTimeMs = none
  | .remove _ => True

def tag {α : Type} (attr : WorkflowExecutionInfo → Option α) (k : UInt64) : Option α :=
  (index.executions.lookup k).bind attr

def OwnKeys : Prop :=
  ∀ k info, index.executions.lookup k = some info → info.workflowKey = k

/-- Three indexes invert their attributes; times may be stale. -/
structure Listed (index : VisibilityIndex) : Prop where
  keys : index.OwnKeys
  status : Inverts index.byStatus (index.tag fun info => some info.status)
  namespaceId : Inverts index.byNamespace (index.tag fun info => some info.namespaceId)
  workflowType : Inverts index.byType (index.tag fun info => some info.workflowTypeId)

/-- All five do. -/
structure Kept (index : VisibilityIndex) : Prop extends Listed index where
  startTime : Inverts index.byStartTime (index.tag fun info => some info.startTimeMs)
  closeTime : Inverts index.byCloseTime (index.tag fun info => info.closeTimeMs)

variable {index}

/-! ### Lists and counts -/

theorem mem_timesBetween {startMs endMs t : UInt64} (h : startMs ≤ endMs) :
    t ∈ timesBetween startMs endMs ↔ startMs ≤ t ∧ t ≤ endMs := by
  have hle := UInt64.le_iff_toNat_le.mp h
  simp only [timesBetween, mem_map, mem_range'_1, UInt64.le_iff_toNat_le]
  constructor
  · rintro ⟨n, ⟨hlo, hhi⟩, rfl⟩
    have hn : n < 2 ^ 64 := by
      have := endMs.toNat_lt
      omega
    rw [UInt64.toNat_ofNat_of_lt' hn]
    omega
  · rintro ⟨hlo, hhi⟩
    exact ⟨t.toNat, ⟨hlo, by omega⟩, UInt64.ofNat_toNat⟩

theorem nodup_timesBetween (startMs endMs : UInt64) (h : startMs ≤ endMs) :
    (timesBetween startMs endMs).Nodup := by
  have hle := UInt64.le_iff_toNat_le.mp h
  refine List.Nodup.map_on ?_ (nodup_range' ..)
  intro m hm n hn heq
  have hbound := endMs.toNat_lt
  rw [mem_range'_1] at hm hn
  have hm64 : m < 2 ^ 64 := by omega
  have hn64 : n < 2 ^ 64 := by omega
  have hnat := congrArg UInt64.toNat heq
  rwa [UInt64.toNat_ofNat_of_lt' hm64, UInt64.toNat_ofNat_of_lt' hn64] at hnat

variable {p : WorkflowExecutionInfo → Bool}

theorem slot_agrees {α : Type} {slots : α → List UInt64} {attr : WorkflowExecutionInfo → Option α}
    (h : Inverts slots (index.tag attr)) (a : α) (hp : ∀ info, p info = true ↔ attr info = some a) :
    (index.listKeys (slots a)).Perm (index.executionsWith p)
      ∧ (slots a).length = (index.executionsWith p).length := by
  have hperm : (index.listKeys (slots a)).Perm (index.executionsWith p) := Inverts.listing h a hp
  exact ⟨hperm, (Inverts.length_listing h a).symm.trans hperm.length_eq⟩

theorem range_agrees {slots : UInt64 → List UInt64} {attr : WorkflowExecutionInfo → Option UInt64}
    (h : Inverts slots (index.tag attr)) {hasEntry : Bool} {startMs endMs : UInt64} (hle : startMs ≤ endMs)
    (hp : ∀ info, p info = true ↔ ∃ t, (startMs ≤ t ∧ t ≤ endMs) ∧ attr info = some t) :
    ∃ l, index.listRange slots hasEntry startMs endMs = some l ∧ l.Perm (index.executionsWith p) := by
  refine ⟨_, if_neg (UInt64.not_lt.mpr hle), ?_⟩
  refine Inverts.listing_flatMap h (nodup_timesBetween startMs endMs hle) fun info => ?_
  simp only [hp, mem_timesBetween hle]

/-- **Lists and counts are right** while the indexes are kept. -/
theorem Kept.agrees (h : index.Kept) : index.Agrees where
  status s := slot_agrees h.status s (by simp)
  namespaceId n := slot_agrees h.namespaceId n (by simp)
  workflowType t := slot_agrees h.workflowType t (by simp)
  startTime startMs endMs hle := range_agrees h.startTime hle (by simp)
  closeTime startMs endMs hle := range_agrees h.closeTime hle (by
    intro info
    cases info.closeTimeMs <;> simp)

/-! ### Calls in order -/

theorem kept_new : new.Kept where
  keys := by simp [OwnKeys, new]
  status _ := ⟨nodup_nil, by simp [new, tag]⟩
  namespaceId _ := ⟨nodup_nil, by simp [new, tag]⟩
  workflowType _ := ⟨nodup_nil, by simp [new, tag]⟩
  startTime _ := ⟨nodup_nil, by simp [new, tag]⟩
  closeTime _ := ⟨nodup_nil, by simp [new, tag]⟩

section Tags

variable {α : Type} (attr : WorkflowExecutionInfo → Option α)

theorem tag_register (info : WorkflowExecutionInfo) :
    (index.register info).tag attr
      = Function.update (index.tag attr) info.workflowKey (attr info) :=
  read_insert (·.bind attr) index.executions info.workflowKey info

theorem tag_remove {k : UInt64} {info : WorkflowExecutionInfo}
    (hk : index.executions.lookup k = some info) :
    (index.remove k).tag attr = Function.update (index.tag attr) k none := by
  rw [remove, hk]
  exact read_erase (·.bind attr) index.executions k

theorem tag_updateStatus {k : UInt64} {info : WorkflowExecutionInfo}
    (hk : index.executions.lookup k = some info) (newStatus : WorkflowStatus)
    (closeTimeMs : Option UInt64) :
    (index.updateStatus k newStatus closeTimeMs).tag attr
      = Function.update (index.tag attr) k
          (attr { info with status := newStatus, closeTimeMs := closeTimeMs }) := by
  simp only [updateStatus, hk]
  refine (read_modifyKey (·.bind attr) index.executions k _).trans ?_
  rw [hk]
  rfl

end Tags

theorem OwnKeys.apply (h : index.OwnKeys) (op : VisibilityOp) : (index.apply op).OwnKeys := by
  intro k info hk
  cases op with
  | register info' =>
    rw [VisibilityIndex.apply, VisibilityIndex.register, lookup_insert_eq_ite] at hk
    split at hk
    · next heq =>
      cases hk
      exact heq.symm
    · exact h k info hk
  | updateStatus k' newStatus closeTimeMs =>
    rw [VisibilityIndex.apply, updateStatus.eq_def] at hk
    split at hk
    · exact h k info hk
    · next info' hk' =>
      simp only [lookup_modifyKey, hk', Option.map_some] at hk
      split at hk
      · next heq =>
        cases hk
        exact (h k' info' hk').trans heq.symm
      · exact h k info hk
  | remove k' =>
    rw [VisibilityIndex.apply, remove.eq_def] at hk
    split at hk
    · exact h k info hk
    · rw [lookup_erase_eq_ite] at hk
      split at hk
      · cases hk
      · exact h k info hk

variable {k : UInt64}

theorem tag_of_none {α : Type} (attr : WorkflowExecutionInfo → Option α)
    (hk : index.executions.lookup k = none) : index.tag attr k = none := by
  rw [tag, hk, Option.bind_none]

variable {info : WorkflowExecutionInfo}

theorem tag_of_some {α : Type} (attr : WorkflowExecutionInfo → Option α)
    (hk : index.executions.lookup k = some info) :
    index.tag attr k = attr info := by
  rw [tag, hk, Option.bind_some]

theorem tag_updateStatus_of_eq {α : Type} [DecidableEq α] (attr : WorkflowExecutionInfo → Option α)
    (hk : index.executions.lookup k = some info) (newStatus : WorkflowStatus)
    (closeTimeMs : Option UInt64)
    (hattr : attr { info with status := newStatus, closeTimeMs := closeTimeMs } = attr info) :
    (index.updateStatus k newStatus closeTimeMs).tag attr = index.tag attr := by
  rw [tag_updateStatus attr hk, hattr, ← tag_of_some attr hk, Function.update_eq_self]

theorem Listed.register (h : index.Listed)
    (hnew : index.executions.lookup info.workflowKey = none) : (index.register info).Listed := by
  refine ⟨h.keys.apply (.register info), ?_, ?_, ?_⟩
  · rw [tag_register]
    exact h.status.push (tag_of_none _ hnew) info.status
  · rw [tag_register]
    exact h.namespaceId.push (tag_of_none _ hnew) info.namespaceId
  · rw [tag_register]
    exact h.workflowType.push (tag_of_none _ hnew) info.workflowTypeId

theorem Listed.updateStatus (h : index.Listed) (k : UInt64) (newStatus : WorkflowStatus)
    (closeTimeMs : Option UInt64) : (index.updateStatus k newStatus closeTimeMs).Listed := by
  cases hk : index.executions.lookup k with
  | none => simpa only [VisibilityIndex.updateStatus, hk] using h
  | some info =>
    refine ⟨h.keys.apply (.updateStatus k newStatus closeTimeMs), ?_, ?_, ?_⟩
    · rw [tag_updateStatus _ hk]
      simp only [VisibilityIndex.updateStatus, hk]
      exact h.status.move (tag_of_some _ hk) newStatus
    · rw [tag_updateStatus_of_eq _ hk newStatus closeTimeMs rfl]
      simpa only [VisibilityIndex.updateStatus, hk] using h.namespaceId
    · rw [tag_updateStatus_of_eq _ hk newStatus closeTimeMs rfl]
      simpa only [VisibilityIndex.updateStatus, hk] using h.workflowType

theorem Listed.remove (h : index.Listed) (k : UInt64) : (index.remove k).Listed := by
  cases hk : index.executions.lookup k with
  | none => simpa only [VisibilityIndex.remove, hk] using h
  | some info =>
    refine ⟨h.keys.apply (.remove k), ?_, ?_, ?_⟩
    all_goals
      rw [tag_remove _ hk]
      simp only [VisibilityIndex.remove, hk]
    · exact h.status.drop (tag_of_some _ hk)
    · exact h.namespaceId.drop (tag_of_some _ hk)
    · exact h.workflowType.drop (tag_of_some _ hk)

theorem Kept.register (h : index.Kept)
    (hnew : index.executions.lookup info.workflowKey = none) : (index.register info).Kept := by
  have hlisted := h.toListed.register hnew
  refine ⟨hlisted, ?_, ?_⟩
  · rw [tag_register]
    exact h.startTime.push (tag_of_none _ hnew) info.startTimeMs
  · rw [tag_register]
    have hpush := h.closeTime.push_option (tag_of_none _ hnew) info.closeTimeMs
    simp only [VisibilityIndex.register]
    cases hclose : info.closeTimeMs <;> rw [hclose] at hpush <;> exact hpush

theorem Kept.updateStatus (h : index.Kept)
    (hopen : ∀ info, index.executions.lookup k = some info → info.closeTimeMs = none)
    (newStatus : WorkflowStatus) (closeTimeMs : Option UInt64) :
    (index.updateStatus k newStatus closeTimeMs).Kept := by
  have hlisted := h.toListed.updateStatus k newStatus closeTimeMs
  cases hk : index.executions.lookup k with
  | none => simpa only [VisibilityIndex.updateStatus, hk] using h
  | some info =>
    refine ⟨hlisted, ?_, ?_⟩
    · rw [tag_updateStatus_of_eq _ hk newStatus closeTimeMs rfl]
      simpa only [VisibilityIndex.updateStatus, hk] using h.startTime
    · rw [tag_updateStatus _ hk]
      have hpush := h.closeTime.push_option ((tag_of_some _ hk).trans (hopen info hk)) closeTimeMs
      simp only [VisibilityIndex.updateStatus, hk]
      cases closeTimeMs <;> exact hpush

theorem Kept.remove (h : index.Kept) (k : UInt64) : (index.remove k).Kept := by
  have hlisted := h.toListed.remove k
  cases hk : index.executions.lookup k with
  | none => simpa only [VisibilityIndex.remove, hk] using h
  | some info =>
    refine ⟨hlisted, ?_, ?_⟩
    all_goals
      rw [tag_remove _ hk]
      simp only [VisibilityIndex.remove, hk]
    · exact h.startTime.drop (tag_of_some _ hk)
    · have hdrop := h.closeTime.drop_option (tag_of_some _ hk)
      cases hclose : info.closeTimeMs <;> rw [hclose] at hdrop <;> exact hdrop

theorem Kept.apply (h : index.Kept) {op : VisibilityOp} (hop : index.OnOpen op) :
    (index.apply op).Kept := by
  cases op with
  | register info => exact h.register hop
  | updateStatus k newStatus closeTimeMs => exact h.updateStatus hop newStatus closeTimeMs
  | remove k => exact h.remove k

/-! ### The other calls -/

theorem not_perm_of_stale (hkeys : index.OwnKeys) {α : Type} [DecidableEq α]
    {slots : α → List UInt64} (attr : WorkflowExecutionInfo → Option α) {a : α}
    (hk : index.executions.lookup k = some info)
    (hstale : k ∈ slots a) (hp : ∀ info, p info = true → attr info = some a) :
    ¬ (index.listKeys ((match attr info with | some b => pushSlot slots b k | none => slots)
        a)).Perm (index.executionsWith p) := by
  intro hperm
  have hmem : info ∈ index.listKeys (slots a) := mem_filterMap.mpr ⟨k, hstale, hk⟩
  have hnodup := hperm.nodup_iff.mpr ((nodup_values hkeys).filter p)
  have hattr : info ∈ index.executionsWith p → attr info = some a :=
    fun hin => hp info (mem_filter.mp hin).2
  by_cases hsame : attr info = some a
  · rw [hsame] at hnodup
    simp only [pushSlot, Function.update_self, listKeys, filterMap_append] at hnodup
    refine (nodup_append.mp hnodup).2.2 info hmem info ?_ rfl
    simp [hk]
  · refine hsame (hattr (hperm.mem_iff.mp ?_))
    cases hb : attr info with
    | none => exact hmem
    | some b =>
      have hab : a ≠ b := fun hab => hsame (by rw [hb, hab])
      simp only [pushSlot, Function.update_of_ne hab]
      exact hmem

theorem Kept.new_of_agrees (h : index.Kept) (hagrees : (index.register info).Agrees) :
    index.executions.lookup info.workflowKey = none := by
  by_contra hold
  obtain ⟨old, hold⟩ := Option.ne_none_iff_exists'.mp hold
  have hstale : info.workflowKey ∈ index.byNamespace old.namespaceId :=
    ((h.namespaceId _).2 _).mpr (by rw [tag, hold, Option.bind_some])
  have hkeys : (index.register info).OwnKeys := h.keys.apply (.register info)
  exact not_perm_of_stale hkeys (fun info => some info.namespaceId)
    (lookup_executions_register index info) hstale (by simp)
    (hagrees.namespaceId old.namespaceId).1

theorem listRange_self (slots : UInt64 → List UInt64) (hasEntry : Bool) (t : UInt64) :
    index.listRange slots hasEntry t t = some (index.listKeys (slots t)) := by
  rw [listRange, if_neg (UInt64.lt_irrefl t), timesBetween]
  simp

theorem Kept.open_of_agrees (h : index.Kept) {newStatus : WorkflowStatus}
    {closeTimeMs : Option UInt64} (hagrees : (index.updateStatus k newStatus closeTimeMs).Agrees)
    (hk : index.executions.lookup k = some info) : info.closeTimeMs = none := by
  by_contra hclosed
  obtain ⟨t, ht⟩ := Option.ne_none_iff_exists'.mp hclosed
  have hstale : k ∈ index.byCloseTime t :=
    ((h.closeTime _).2 _).mpr (by rw [tag, hk, Option.bind_some, ht])
  have hk' : (index.updateStatus k newStatus closeTimeMs).executions.lookup k
      = some { info with status := newStatus, closeTimeMs := closeTimeMs } := by
    simp only [VisibilityIndex.updateStatus, hk, lookup_modifyKey_self, Option.map_some]
  have hkeys : (index.updateStatus k newStatus closeTimeMs).OwnKeys :=
    h.keys.apply (.updateStatus k newStatus closeTimeMs)
  have hlisting := not_perm_of_stale hkeys (fun info => info.closeTimeMs) hk' hstale
    (p := fun info => info.closeTimeMs.any fun t' => t ≤ t' ∧ t' ≤ t) (by
      intro info' hp
      cases hclose : info'.closeTimeMs with
      | none => simp [hclose] at hp
      | some t' =>
        obtain ⟨hle, hge⟩ : t ≤ t' ∧ t' ≤ t := by simpa [hclose] using hp
        rw [UInt64.le_antisymm hle hge])
  obtain ⟨l, hl, hperm⟩ := hagrees.closeTime t t UInt64.le_rfl
  rw [listByCloseTimeRange, listRange_self] at hl
  cases hl
  have hslots : (index.updateStatus k newStatus closeTimeMs).byCloseTime
      = match closeTimeMs with
        | some closeTime => pushKey index.byCloseTime closeTime k
        | none => index.byCloseTime := by
    cases closeTimeMs <;> simp only [VisibilityIndex.updateStatus, hk]
  rw [hslots] at hperm
  cases closeTimeMs <;> exact hlisting hperm

theorem Kept.onOpen_of_agrees (h : index.Kept) {op : VisibilityOp}
    (hagrees : (index.apply op).Agrees) : index.OnOpen op := by
  cases op with
  | register info => exact h.new_of_agrees hagrees
  | updateStatus k newStatus closeTimeMs => exact fun info hk => h.open_of_agrees hagrees hk
  | remove k => trivial

end VisibilityIndex

/-- **Indexes agree** iff only new keys are registered and only open executions change status. -/
theorem agrees_iff (ops : List VisibilityOp) :
    (∀ ps, ps <+: ops → (ps.foldl apply new).Agrees)
      ↔ StepsMeet apply VisibilityIndex.OnOpen new ops :=
  forall_prefixes_iff_stepsMeet (I := VisibilityIndex.Kept) (fun _ h => h.agrees)
    (fun _ _ h _ hop => h.apply hop) (fun _ _ h _ hagrees => h.onOpen_of_agrees hagrees)
    kept_new (stepsMeet_of_mem fun _ _ _ => trivial)

def runOf (runId startTimeMs : UInt64) : WorkflowExecutionInfo where
  workflowKey := 7
  workflowId := 7
  runId := runId
  workflowTypeId := 10
  namespaceId := 1
  status := .running
  startTimeMs := startTimeMs
  closeTimeMs := none
  taskQueueHash := 0
  searchAttributes := ∅
  memo := ∅

theorem restarted_listed_twice :
    let index := (new.register (runOf 1 100)).register (runOf 2 200)
    (values index.executions).map (·.runId) = [2]
      ∧ (index.listByStatus .running).map (·.runId) = [2, 2] ∧ index.countByStatus .running = 2
      ∧ (index.listByTimeRange 100 100).map (·.map (·.startTimeMs)) = some [200] := by
  decide +kernel

end Velocity
