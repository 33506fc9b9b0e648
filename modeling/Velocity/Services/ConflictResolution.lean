import Velocity.Lib.WordBits
import Velocity.Services.VersionBranches

namespace Velocity

open Lib List

/-!
# Conflict resolution

`resolve` compares the last items, and no way to a merge asks for the others.
-/

namespace VersionHistory

/-! ### Equal last versions -/

variable (items : List VersionHistoryItem) (last : VersionHistoryItem)

theorem currentVersion_concat : currentVersion ⟨items ++ [last]⟩ = last.failoverVersion := by
  simp [currentVersion]

theorem currentEventId_concat : currentEventId ⟨items ++ [last]⟩ = last.eventId := by
  simp [currentEventId]

theorem runsOf_concat :
    runsOf (items ++ [last]) = runsOf items ++ [(last.failoverVersion, last.eventId.toNat)] :=
  map_append

theorem runsOf_injective : Function.Injective runsOf := by
  apply map_injective_iff.mpr
  rintro ⟨v, e⟩ ⟨v', e'⟩ heq
  obtain ⟨hversion, hid⟩ := Prod.mk.inj heq
  exact congrArg₂ VersionHistoryItem.mk hversion (UInt64.toNat_inj.mp hid)

namespace IncreasingFrom

variable {start : UInt64} {items : List VersionHistoryItem} {last : VersionHistoryItem}

theorem lt_last (h : IncreasingFrom start (items ++ [last])) {item : VersionHistoryItem}
    (hmem : item ∈ items) : item.failoverVersion < last.failoverVersion := by
  have hversions := h.versions
  rw [map_append, pairwise_append] at hversions
  exact hversions.2.2 _ (mem_map_of_mem hmem) _ mem_cons_self

theorem start_lt_last (h : IncreasingFrom start (items ++ [last])) : start < last.eventId := by
  apply rel_of_pairwise_cons h.eventIds
  rw [map_append]
  exact mem_append_right _ mem_cons_self

theorem last_not_mem (h : IncreasingFrom start (items ++ [last])) :
    last.failoverVersion ∉ (runsOf items).map Prod.fst := by
  rw [runsOf, map_map]
  intro hmem
  obtain ⟨item, hitem, heq⟩ := mem_map.mp hmem
  have heq : item.failoverVersion = last.failoverVersion := heq
  exact UInt64.lt_irrefl _ (heq ▸ h.lt_last hitem)

end IncreasingFrom

theorem events_prefix_iff {a b : VersionHistory} (ha : a.IsBranch) (hb : b.IsBranch) :
    a.events <+: b.events ↔ Within (runsOf a.items) (runsOf b.items) :=
  expand_prefix_iff ha.proper hb.proper

theorem prefix_iff_of_last {as bs : List VersionHistoryItem} {a b : VersionHistoryItem}
    (ha : IsBranch ⟨as ++ [a]⟩) (hb : IsBranch ⟨bs ++ [b]⟩)
    (hversion : a.failoverVersion = b.failoverVersion) (hle : a.eventId ≤ b.eventId) :
    (events ⟨as ++ [a]⟩ <+: events ⟨bs ++ [b]⟩ ∨ events ⟨bs ++ [b]⟩ <+: events ⟨as ++ [a]⟩)
      ↔ as = bs := by
  rw [events_prefix_iff ha hb, events_prefix_iff hb ha, runsOf_concat, runsOf_concat, hversion]
  constructor
  · rintro (hwithin | hwithin)
    · exact runsOf_injective (hwithin.eq_of_concat hb.last_not_mem)
    · exact (runsOf_injective (hwithin.eq_of_concat (hversion ▸ ha.last_not_mem))).symm
  · rintro rfl
    exact .inl (within_concat _ _ (UInt64.le_iff_toNat_le.mp hle))

theorem prefix_iff_of_currentVersion_eq {a b : VersionHistory} (ha : a.IsBranch) (hb : b.IsBranch)
    (hversion : a.currentVersion = b.currentVersion) (hle : a.currentEventId ≤ b.currentEventId) :
    (a.events <+: b.events ∨ b.events <+: a.events) ↔ a.items.dropLast = b.items.dropLast := by
  obtain ⟨as⟩ := a
  obtain ⟨bs⟩ := b
  rcases eq_nil_or_concat as with rfl | ⟨as, a, rfl⟩
  · refine iff_of_true (.inl nil_prefix) ?_
    rcases eq_nil_or_concat bs with rfl | ⟨bs, b, rfl⟩
    · rfl
    · -- a last version of `0` has no smaller one before it
      rw [concat_eq_append, currentVersion_concat] at hversion
      rw [concat_eq_append] at hb
      have hzero : b.failoverVersion = 0 := hversion.symm
      have hnone : bs = [] := eq_nil_iff_forall_not_mem.mpr
        (fun item hmem => UInt64.not_lt_zero (hzero ▸ hb.lt_last hmem))
      rw [concat_eq_append, hnone]
      rfl
  · rw [concat_eq_append] at ha hversion hle ⊢
    rw [currentVersion_concat] at hversion
    rw [currentEventId_concat] at hle
    rcases eq_nil_or_concat bs with rfl | ⟨bs, b, rfl⟩
    · exact absurd (UInt64.lt_of_lt_of_le ha.start_lt_last hle) (UInt64.lt_irrefl 0)
    · rw [concat_eq_append] at hb hversion hle ⊢
      rw [currentVersion_concat] at hversion
      rw [currentEventId_concat] at hle
      rw [prefix_iff_of_last ha hb hversion hle, dropLast_concat, dropLast_concat]

end VersionHistory

/-! ### The resolver -/

inductive ConflictResolution where
  | keepLocal
  | acceptRemote
  | merge
  | unresolvable
  deriving DecidableEq, Repr

structure ReplicationConflict where
  workflowKey : UInt64
  localClusterId : UInt64
  remoteClusterId : UInt64
  localVersion : UInt64
  remoteVersion : UInt64
  localEventId : UInt64
  remoteEventId : UInt64
  resolution : ConflictResolution
  detectedAtMs : UInt64
  deriving DecidableEq, Repr

structure ConflictResolver where
  versionStore : VersionHistoryStore
  localClusterId : UInt64
  conflicts : List ReplicationConflict

namespace ConflictResolver

def new (versionStore : VersionHistoryStore) (localClusterId : UInt64) : ConflictResolver :=
  ⟨versionStore, localClusterId, []⟩

def resolution (localHistory remoteHistory : VersionHistory) : ConflictResolution :=
  let localVersion := localHistory.currentVersion
  let localEventId := localHistory.currentEventId
  let remoteVersion := remoteHistory.currentVersion
  let remoteEventId := remoteHistory.currentEventId
  if remoteVersion > localVersion then .acceptRemote
  else if remoteVersion < localVersion then .keepLocal
  else if remoteEventId > localEventId then
    if remoteEventId = localEventId + 1 ∨ remoteHistory.contains localHistory then .merge
    else .unresolvable
  else if remoteEventId = localEventId then .merge
  else .keepLocal

variable (r : ConflictResolver)

def resolve (task : ReplicationTask) (remoteVersionHistory : VersionHistory) :
    ConflictResolution × ConflictResolver :=
  let (localHistory, versionStore) := r.versionStore.getOrCreate task.workflowKey
  let resolution := resolution localHistory remoteVersionHistory
  if resolution ≠ .merge then
    (resolution,
      { r with
        versionStore := versionStore
        conflicts := r.conflicts ++ [{
          workflowKey := task.workflowKey
          localClusterId := r.localClusterId
          remoteClusterId := task.sourceClusterId
          localVersion := localHistory.currentVersion
          remoteVersion := remoteVersionHistory.currentVersion
          localEventId := localHistory.currentEventId
          remoteEventId := remoteVersionHistory.currentEventId
          resolution := resolution
          detectedAtMs := 0 }] })
  else (resolution, { r with versionStore := versionStore })

def localHistory (task : ReplicationTask) : VersionHistory :=
  (r.versionStore.getOrCreate task.workflowKey).1

theorem resolve_fst (task : ReplicationTask) (remote : VersionHistory) :
    (r.resolve task remote).1 = resolution (r.localHistory task) remote := by
  rw [resolve, localHistory]
  dsimp only
  split <;> rfl

/-- One version, the remote not behind, nor far ahead. -/
structure TipsMerge (localHistory remoteHistory : VersionHistory) : Prop where
  version : localHistory.currentVersion = remoteHistory.currentVersion
  notBehind : localHistory.currentEventId ≤ remoteHistory.currentEventId
  sequential : remoteHistory.currentEventId.toNat ≤ localHistory.currentEventId.toNat + 1
    ∨ remoteHistory.contains localHistory = true

theorem resolution_eq_merge_iff (localHistory remoteHistory : VersionHistory) :
    resolution localHistory remoteHistory = .merge ↔ TipsMerge localHistory remoteHistory := by
  rw [resolution]
  split
  · next hgt => exact iff_of_false (by decide) (fun h => UInt64.lt_irrefl _ (h.version ▸ hgt))
  · next hgt =>
    split
    · next hlt => exact iff_of_false (by decide) (fun h => UInt64.lt_irrefl _ (h.version ▸ hlt))
    · next hlt =>
      have hversion : localHistory.currentVersion = remoteHistory.currentVersion :=
        UInt64.le_antisymm (UInt64.not_lt.mp hlt) (UInt64.not_lt.mp hgt)
      split
      · next hahead =>
        have hsucc : remoteHistory.currentEventId = localHistory.currentEventId + 1
            ↔ remoteHistory.currentEventId.toNat ≤ localHistory.currentEventId.toNat + 1 := by
          have hlt := UInt64.lt_iff_toNat_lt.mp hahead
          have hbound := remoteHistory.currentEventId.toNat_lt
          rw [← UInt64.toNat_inj, toNat_add_one_of_lt (Nat.lt_of_le_of_lt hlt hbound)]
          omega
        split
        · next h =>
          exact iff_of_true rfl ⟨hversion, UInt64.le_of_lt hahead, h.imp_left hsucc.mp⟩
        · next h =>
          exact iff_of_false (by decide) (fun hm => h (hm.sequential.imp_left hsucc.mpr))
      · next hahead =>
        split
        · next heq =>
          exact iff_of_true rfl ⟨hversion, heq ▸ UInt64.le_refl _, .inl (heq ▸ Nat.le_succ _)⟩
        · next hne =>
          refine iff_of_false (by decide) (fun hm => hne ?_)
          exact UInt64.le_antisymm (UInt64.not_lt.mp hahead) hm.notBehind

/-- **Merging is safe** iff merged tips come with equal items before the last. -/
theorem resolve_merge_safe_iff (r : ConflictResolver) (task : ReplicationTask)
    (remote : VersionHistory) (hlocal : (r.localHistory task).IsBranch)
    (hremote : remote.IsBranch) :
    ((r.resolve task remote).1 = .merge →
        (r.localHistory task).events <+: remote.events
          ∨ remote.events <+: (r.localHistory task).events)
      ↔ (TipsMerge (r.localHistory task) remote →
          (r.localHistory task).items.dropLast = remote.items.dropLast) := by
  rw [resolve_fst, resolution_eq_merge_iff]
  refine forall_congr' (fun htips => ?_)
  exact VersionHistory.prefix_iff_of_currentVersion_eq hlocal hremote htips.version htips.notBehind

theorem resolve_merges_continued :
    let r := new ((VersionHistoryStore.new.recordEvent 7 1 5).recordEvent 7 2 8) 1
    let task : ReplicationTask := ⟨1, 2, 1, 7, 0, [], 2, .syncHistory, 9, 10, 0⟩
    (r.resolve task ⟨[⟨1, 5⟩, ⟨2, 10⟩]⟩).1 = .merge
      ∧ ((r.localHistory task).events <+: VersionHistory.events ⟨[⟨1, 5⟩, ⟨2, 10⟩]⟩
        ∨ VersionHistory.events ⟨[⟨1, 5⟩, ⟨2, 10⟩]⟩ <+: (r.localHistory task).events) := by
  refine ⟨by decide, ?_⟩
  refine (resolve_merge_safe_iff _ _ _ ⟨?_, ?_⟩ ⟨?_, ?_⟩).mpr (fun _ => ?_) ?_ <;> decide

theorem resolve_merges_diverged :
    let r := new ((VersionHistoryStore.new.recordEvent 7 1 3).recordEvent 7 2 8) 1
    let task : ReplicationTask := ⟨1, 2, 1, 7, 0, [], 2, .syncHistory, 8, 8, 0⟩
    let remote : VersionHistory := ⟨[⟨1, 5⟩, ⟨2, 8⟩]⟩
    (r.localHistory task).IsBranch ∧ remote.IsBranch
      ∧ (r.resolve task remote).1 = .merge ∧ (r.resolve task remote).2.conflicts = []
      ∧ (r.localHistory task).events = [1, 1, 1, 2, 2, 2, 2, 2]
      ∧ remote.events = [1, 1, 1, 1, 1, 2, 2, 2]
      ∧ ¬ ((r.localHistory task).events <+: remote.events
        ∨ remote.events <+: (r.localHistory task).events) := by
  refine ⟨⟨?_, ?_⟩, ⟨?_, ?_⟩, ?_, ?_, ?_, ?_, ?_⟩ <;> decide

end ConflictResolver

end Velocity
