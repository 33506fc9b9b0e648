import Velocity.Engine.Context
import Velocity.Services.EventSerialization

namespace Velocity

open Lib List

/-!
# Cold storage

The format of archived workflows. An absent payload is written as the length 0.
-/

structure ColdStorageRecord where
  workflowKey : UInt64
  workflowId : UInt64
  runId : UInt64
  workflowTypeId : UInt64
  namespaceId : UInt64
  status : WorkflowStatus
  inputData : Option Bytes
  resultData : Option Bytes
  stepResults : Finmap fun _ : UInt32 => Bytes
  eventHistory : List (UInt64 × Bytes)
  archivedAtMs : UInt64

def WorkflowStatus.toU8 : WorkflowStatus → UInt8
  | .void => 0
  | .running => 1
  | .completed => 2
  | .failed => 3
  | .canceled => 4
  | .terminated => 5
  | .continuedAsNew => 6
  | .timedOut => 7

def WorkflowStatus.ofU8 : UInt8 → WorkflowStatus
  | 1 => .running
  | 2 => .completed
  | 3 => .failed
  | 4 => .canceled
  | 5 => .terminated
  | 6 => .continuedAsNew
  | 7 => .timedOut
  | _ => .void

@[simp] theorem WorkflowStatus.ofU8_toU8 (s : WorkflowStatus) : ofU8 s.toU8 = s := by
  cases s <;> rfl

namespace ColdStorage

/-! ### Writing -/

def magic : Bytes := [0x56, 0x45, 0x4c, 0x43]

def writeOptBytes : Option Bytes → Bytes
  | some d => u32ToLeBytes (UInt32.ofNat d.length) ++ d
  | none => u32ToLeBytes 0

def stepBytes (entry : Sigma fun _ : UInt32 => Bytes) : Bytes :=
  u32ToLeBytes entry.1 ++ writeOptBytes (some entry.2)

def eventBytes (event : UInt64 × Bytes) : Bytes :=
  u64ToLeBytes event.1 ++ writeOptBytes (some event.2)

def serializeRecord (r : ColdStorageRecord) (steps : AList fun _ : UInt32 => Bytes) : Bytes :=
  magic ++ 1 :: (u64ToLeBytes r.workflowKey ++ u64ToLeBytes r.workflowId ++ u64ToLeBytes r.runId
    ++ u64ToLeBytes r.workflowTypeId ++ u64ToLeBytes r.namespaceId ++ r.status.toU8
    :: (u64ToLeBytes r.archivedAtMs ++ writeOptBytes r.inputData ++ writeOptBytes r.resultData
    ++ u32ToLeBytes (UInt32.ofNat steps.entries.length) ++ steps.entries.flatMap stepBytes
    ++ u32ToLeBytes (UInt32.ofNat r.eventHistory.length) ++ r.eventHistory.flatMap eventBytes))

/-! ### Reading -/

def readU64 (data : Bytes) : UInt64 × Bytes := (u64FromLeBytes (data.take 8), data.drop 8)

def readOptBytes (data : Bytes) : Option Bytes × Bytes :=
  if data.length < 4 then (none, data)
  else
    let len := (u32FromLeBytes (data.take 4)).toNat
    let data := data.drop 4
    if len = 0 ∨ data.length < len then (none, data) else (some (data.take len), data.drop len)

def readSteps : Nat → Finmap (fun _ : UInt32 => Bytes) → Bytes →
    Finmap (fun _ : UInt32 => Bytes) × Bytes
  | 0, steps, data => (steps, data)
  | n + 1, steps, data =>
    if data.length < 4 then (steps, data)
    else
      let (stepData, rest) := readOptBytes (data.drop 4)
      readSteps n (stepData.elim steps (steps.insert (u32FromLeBytes (data.take 4)))) rest

def readEvents : Nat → Bytes → List (UInt64 × Bytes)
  | 0, _ => []
  | n + 1, data =>
    if data.length < 8 then []
    else
      let (payload, rest) := readOptBytes (data.drop 8)
      (u64FromLeBytes (data.take 8), payload.getD []) :: readEvents n rest

def deserializeRecord (data : Bytes) : Option (Option ColdStorageRecord) :=
  if data.length < 53 then some none
  else if data.take 4 ≠ magic then some none
  else if data.length < 54 then none
  else
    let (workflowKey, data) := readU64 (data.drop 5)
    let (workflowId, data) := readU64 data
    let (runId, data) := readU64 data
    let (workflowTypeId, data) := readU64 data
    let (namespaceId, data) := readU64 data
    let status := WorkflowStatus.ofU8 (data.headD 0)
    let (archivedAtMs, data) := readU64 data.tail
    let (inputData, data) := readOptBytes data
    let (resultData, data) := readOptBytes data
    let (stepResults, data) :=
      if data.length < 4 then (∅, data)
      else readSteps (u32FromLeBytes (data.take 4)).toNat ∅ (data.drop 4)
    let eventHistory :=
      if data.length < 4 then []
      else readEvents (u32FromLeBytes (data.take 4)).toNat (data.drop 4)
    some (some ⟨workflowKey, workflowId, runId, workflowTypeId, namespaceId, status, inputData,
      resultData, stepResults, eventHistory, archivedAtMs⟩)

/-! ### What is read back -/

@[simp] theorem readU64_append (x : UInt64) (rest : Bytes) :
    readU64 (u64ToLeBytes x ++ rest) = (x, rest) := by
  rw [readU64, take_left' (length_u64ToLeBytes x), drop_left' (length_u64ToLeBytes x),
    u64FromLeBytes_toLeBytes]

theorem readOptBytes_append {d : Option Bytes} (hfits : ∀ p ∈ d, p.length < 2 ^ 32)
    (rest : Bytes) :
    readOptBytes (writeOptBytes d ++ rest) = (d.filter (· ≠ []), rest) := by
  cases d with
  | none => simp [readOptBytes, writeOptBytes]
  | some p =>
    have hlength : (UInt32.ofNat p.length).toNat = p.length :=
      UInt32.toNat_ofNat_of_lt' (hfits p rfl)
    rw [readOptBytes, writeOptBytes, append_assoc, if_neg (by simp),
      take_left' (length_u32ToLeBytes _), drop_left' (length_u32ToLeBytes _),
      u32FromLeBytes_toLeBytes, hlength]
    by_cases hp : p = []
    · simp [hp, Option.filter]
    · simp [hp, Option.filter]

def insertStep (m : Finmap fun _ : UInt32 => Bytes) (e : Sigma fun _ : UInt32 => Bytes) :
    Finmap fun _ : UInt32 => Bytes :=
  if e.2 ≠ [] then m.insert e.1 e.2 else m

theorem readSteps_append {entries : List (Sigma fun _ : UInt32 => Bytes)}
    (hfits : ∀ e ∈ entries, e.2.length < 2 ^ 32) {n : Nat} (hn : n ≤ entries.length)
    (m : Finmap fun _ : UInt32 => Bytes) (rest : Bytes) :
    readSteps n m (entries.flatMap stepBytes ++ rest)
      = ((entries.take n).foldl insertStep m, (entries.drop n).flatMap stepBytes ++ rest) := by
  induction n generalizing entries m with
  | zero => rfl
  | succ n ih =>
    obtain ⟨e, entries, rfl⟩ := exists_cons_of_length_pos (Nat.zero_lt_of_lt hn)
    obtain ⟨he, hfits⟩ := forall_mem_cons.mp hfits
    rw [readSteps, flatMap_cons, stepBytes, append_assoc, append_assoc, if_neg (by simp),
      take_left' (length_u32ToLeBytes _), drop_left' (length_u32ToLeBytes _),
      u32FromLeBytes_toLeBytes, readOptBytes_append (by simpa using he)]
    simp only [ih hfits (Nat.le_of_succ_le_succ hn), take_succ_cons, foldl_cons, drop_succ_cons]
    congr 2
    by_cases hempty : e.2 = []
    · simp [insertStep, hempty, Option.filter]
    · simp [insertStep, hempty, Option.filter]

theorem readEvents_append {events : List (UInt64 × Bytes)}
    (hfits : ∀ e ∈ events, e.2.length < 2 ^ 32) {n : Nat} (hn : n ≤ events.length) :
    readEvents n (events.flatMap eventBytes) = events.take n := by
  induction n generalizing events with
  | zero => rfl
  | succ n ih =>
    obtain ⟨e, events, rfl⟩ := exists_cons_of_length_pos (Nat.zero_lt_of_lt hn)
    obtain ⟨he, hfits⟩ := forall_mem_cons.mp hfits
    rw [readEvents, flatMap_cons, eventBytes, append_assoc, if_neg (by simp),
      take_left' (length_u64ToLeBytes _), drop_left' (length_u64ToLeBytes _),
      u64FromLeBytes_toLeBytes, readOptBytes_append (by simpa using he)]
    simp only [ih hfits (Nat.le_of_succ_le_succ hn), take_succ_cons]
    congr 2
    by_cases hempty : e.2 = []
    · simp [hempty, Option.filter]
    · simp [hempty, Option.filter]

theorem foldl_insertStep_eq_iff (steps : AList fun _ : UInt32 => Bytes) {n : Nat}
    (hn : n ≤ steps.entries.length) :
    (steps.entries.take n).foldl insertStep ∅ = steps.toFinmap
      ↔ n = steps.entries.length ∧ ∀ e ∈ steps.entries, e.2 ≠ [] := by
  have hfilter : ∀ l : List (Sigma fun _ : UInt32 => Bytes), l.foldl insertStep ∅
      = (l.filter (·.2 ≠ [])).foldl (fun m e => m.insert e.1 e.2) ∅ := by
    intro l
    simp only [foldl_filter, decide_eq_true_eq]
    rfl
  rw [hfilter]
  constructor
  · intro heq
    have hsub : ∀ e ∈ steps.entries, e ∈ (steps.entries.take n).filter (·.2 ≠ []) := by
      intro e he
      have hnodup : ((steps.entries.take n).filter (·.2 ≠ [])).NodupKeys :=
        steps.nodupKeys.sublist (filter_sublist.trans (take_sublist _ _))
      have hlookup := congrArg (Finmap.lookup e.1) heq
      rw [lookup_foldl_insert hnodup, Finmap.lookup_empty, Option.or_none] at hlookup
      exact of_mem_dlookup (hlookup.trans (AList.mem_lookup_iff.mpr he))
    have hle := (subperm_of_subset steps.nodupKeys.nodup fun e he =>
      mem_of_mem_filter (hsub e he)).length_le
    rw [length_take] at hle
    exact ⟨by omega, fun e he => of_decide_eq_true (mem_filter.mp (hsub e he)).2⟩
  · rintro ⟨rfl, hempty⟩
    rw [take_length, filter_eq_self.mpr (by simpa using hempty), foldl_insert_entries]

/-- Every payload fits a `u32` length field. -/
def PayloadsFit (r : ColdStorageRecord) (steps : AList fun _ : UInt32 => Bytes) : Prop :=
  (∀ p ∈ r.inputData, p.length < 2 ^ 32) ∧ (∀ p ∈ r.resultData, p.length < 2 ^ 32)
    ∧ (∀ e ∈ steps.entries, e.2.length < 2 ^ 32) ∧ ∀ e ∈ r.eventHistory, e.2.length < 2 ^ 32

theorem deserializeRecord_serializeRecord {r : ColdStorageRecord}
    {steps : AList fun _ : UInt32 => Bytes} (hfits : PayloadsFit r steps) :
    ∃ events, deserializeRecord (serializeRecord r steps) = some (some { r with
        inputData := r.inputData.filter (· ≠ [])
        resultData := r.resultData.filter (· ≠ [])
        stepResults := (steps.entries.take (steps.entries.length % 2 ^ 32)).foldl insertStep ∅
        eventHistory := events })
      ∧ (steps.entries.length % 2 ^ 32 = steps.entries.length →
        events = r.eventHistory.take (r.eventHistory.length % 2 ^ 32)) := by
  obtain ⟨hinput, hresult, hsteps, hevents⟩ := hfits
  have hlength : 54 ≤ (serializeRecord r steps).length := by
    simp [serializeRecord, magic]
    omega
  have hmagic : (serializeRecord r steps).take 4 = magic := rfl
  have hcount : ∀ n, (UInt32.ofNat n).toNat = n % 2 ^ 32 := fun n => UInt32.toNat_ofNat'
  have hdrop : (serializeRecord r steps).drop 5
      = u64ToLeBytes r.workflowKey ++ (u64ToLeBytes r.workflowId ++ (u64ToLeBytes r.runId
        ++ (u64ToLeBytes r.workflowTypeId ++ (u64ToLeBytes r.namespaceId ++ (r.status.toU8
        :: (u64ToLeBytes r.archivedAtMs ++ (writeOptBytes r.inputData ++ (writeOptBytes r.resultData
        ++ (u32ToLeBytes (UInt32.ofNat steps.entries.length) ++ (steps.entries.flatMap stepBytes
        ++ (u32ToLeBytes (UInt32.ofNat r.eventHistory.length)
        ++ r.eventHistory.flatMap eventBytes))))))))))) := by
    simp [serializeRecord, magic]
  rw [deserializeRecord, if_neg (by omega), if_neg (not_not.mpr hmagic), if_neg (by omega), hdrop]
  simp only [readU64_append, readOptBytes_append hinput, readOptBytes_append hresult, headD_cons,
    tail_cons, WorkflowStatus.ofU8_toU8, take_left' (length_u32ToLeBytes _), length_append,
    drop_left' (length_u32ToLeBytes _), u32FromLeBytes_toLeBytes, length_u32ToLeBytes, hcount,
    readSteps_append hsteps (Nat.mod_le _ _)]
  rw [if_neg (by omega)]
  refine ⟨_, rfl, fun hall => ?_⟩
  rw [hall, drop_length, flatMap_nil, nil_append, if_neg (by simp),
    take_left' (length_u32ToLeBytes _), drop_left' (length_u32ToLeBytes _),
    u32FromLeBytes_toLeBytes, hcount, readEvents_append hevents (Nat.mod_le _ _)]

/-- **A record is read back** iff nothing present is empty and the counts fit 32 bits. -/
theorem restores_iff {r : ColdStorageRecord} {steps : AList fun _ : UInt32 => Bytes}
    (hsteps : steps.toFinmap = r.stepResults) (hfits : PayloadsFit r steps) :
    deserializeRecord (serializeRecord r steps) = some (some r)
      ↔ r.inputData ≠ some [] ∧ r.resultData ≠ some [] ∧ (∀ e ∈ steps.entries, e.2 ≠ [])
        ∧ steps.entries.length < 2 ^ 32 ∧ r.eventHistory.length < 2 ^ 32 := by
  obtain ⟨events, hread, hevents⟩ := deserializeRecord_serializeRecord hfits
  have hmod : ∀ n : Nat, n % 2 ^ 32 = n ↔ n < 2 ^ 32 := fun n => Nat.mod_eq_iff_lt (by decide)
  have hpresent : ∀ d : Option Bytes, d.filter (· ≠ []) = d ↔ d ≠ some [] := by
    intro d
    cases d with
    | none => simp
    | some p => simp [Option.filter]
  have hmap := foldl_insertStep_eq_iff steps (Nat.mod_le _ (2 ^ 32))
  rw [hsteps, hmod] at hmap
  rw [hread, Option.some_inj, Option.some_inj, ← hpresent, ← hpresent]
  constructor
  · intro heq
    obtain ⟨hlt, hempty⟩ := hmap.mp (congrArg ColdStorageRecord.stepResults heq)
    have htake := congrArg ColdStorageRecord.eventHistory heq
    dsimp only at htake
    rw [hevents ((hmod _).mpr hlt), take_eq_self_iff] at htake
    exact ⟨congrArg ColdStorageRecord.inputData heq, congrArg ColdStorageRecord.resultData heq,
      hempty, hlt, (hmod _).mp (Nat.le_antisymm (Nat.mod_le _ _) htake)⟩
  · rintro ⟨hinput, hresult, hempty, hlt, hcount⟩
    rw [hevents ((hmod _).mpr hlt), (hmod _).mpr hcount, take_length, hinput, hresult,
      hmap.mpr ⟨hlt, hempty⟩]

def sampleRecord (inputData : Option Bytes) (steps : AList fun _ : UInt32 => Bytes) :
    ColdStorageRecord :=
  ⟨7, 7, 1, 2, 3, .completed, inputData, none, steps.toFinmap, [(5, [])], 1000⟩

theorem restores_iff_sample :
    deserializeRecord (serializeRecord (sampleRecord (some [1]) ∅) ∅)
      = some (some (sampleRecord (some [1]) ∅)) :=
  (restores_iff rfl (by simp [PayloadsFit, sampleRecord])).mpr (by simp [sampleRecord])

theorem not_restored_empty :
    deserializeRecord (serializeRecord (sampleRecord (some []) (AList.singleton 4 []))
        (AList.singleton 4 [])) = some (some (sampleRecord none ∅))
      ∧ sampleRecord none ∅ ≠ sampleRecord (some []) (AList.singleton 4 []) :=
  ⟨rfl, fun h => Option.some_ne_none _ (congrArg ColdStorageRecord.inputData h).symm⟩

end ColdStorage

end Velocity
