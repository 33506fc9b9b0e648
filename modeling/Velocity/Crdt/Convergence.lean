import Velocity.Crdt.AwSet

namespace Velocity.Crdt

open Lib

/-!
# Convergence of the add-wins set

A merge never looks at the remote tombstones.
-/

namespace AWORSet

variable {s : AWORSet}

def arrives (s : AWORSet) (o : AworSetEntry) : Bool :=
  o.occupied && (s.dotOf o.key).isNone && !s.tombstones.contains o.dot

/-- The merge finds a slot for every entry that comes in. -/
def HasRoom (s other : AWORSet) : Prop :=
  s.elementCount + other.elements.countP s.arrives ≤ aworsetCapacity

instance (s other : AWORSet) : Decidable (s.HasRoom other) :=
  inferInstanceAs (Decidable (_ ≤ _))

theorem arrives_iff {o : AworSetEntry} :
    s.arrives o = true ↔ o.occupied = true ∧ s.dotOf o.key = none ∧ o.dot ∉ s.tombstones := by
  simp [arrives, and_assoc]

theorem isSome_dotOf_takeEntry (h : s.WellFormed) {o : AworSetEntry}
    (hroom : s.arrives o = true → s.elementCount < aworsetCapacity) (k : UInt64) :
    ((s.takeEntry o).dotOf k).isSome = true
      ↔ (s.dotOf k).isSome = true
        ∨ o.occupied = true ∧ o.key = k ∧ o.dot ∉ s.tombstones := by
  rcases takeEntry_cases (s := s) o with
    ⟨i, -, hi, htake⟩ | ⟨s', hocc, hnew, hlive, hfill, htake⟩ | ⟨hsame, htake⟩
  · -- the key is there already, whatever its dot becomes
    have hthere : (s.dotOf o.key).isSome = true := by
      rw [← Option.ne_none_iff_isSome]
      exact fun hnone => by simp [slotOf_eq_none_iff.mpr hnone] at hi
    rw [htake, dotOf_setDot hi]
    split
    · next hk => simp [hk, hthere]
    · next hk => simp [Ne.symm hk]
  · rw [htake, dotOf_fillSlot hfill hnew]
    split
    · next hk => simp [hk, hocc, hlive]
    · next hk => simp [Ne.symm hk]
  · rw [htake]
    refine ⟨.inl, ?_⟩
    rintro (hthere | ⟨hocc, -, hlive⟩)
    · exact hthere
    · obtain ⟨hnew, hfull⟩ := hsame hocc
      have hfits := h.fillSlot_isSome (hroom (arrives_iff.mpr ⟨hocc, hnew, hlive⟩)) o.key o.dot
      simp [hfull hlive] at hfits

theorem room_takeEntry (o : AworSetEntry) (entries : List AworSetEntry) :
    (s.takeEntry o).elementCount + entries.countP (s.takeEntry o).arrives
      ≤ s.elementCount + (o :: entries).countP s.arrives := by
  rcases takeEntry_cases (s := s) o with
    ⟨i, -, hi, htake⟩ | ⟨s', hocc, hnew, hlive, hfill, htake⟩ | ⟨-, htake⟩
  · have hmono : entries.countP (s.takeEntry o).arrives ≤ entries.countP s.arrives := by
      refine List.countP_mono_left fun o' _ harr => ?_
      obtain ⟨hocc', hnew', hlive'⟩ := arrives_iff.mp harr
      rw [htake, dotOf_setDot hi] at hnew'
      refine arrives_iff.mpr ⟨hocc', ?_, by simpa using hlive'⟩
      split at hnew'
      · next hk => simpa [hk] using hnew'
      · exact hnew'
    have hcount : (s.takeEntry o).elementCount = s.elementCount := by rw [htake, elementCount_setDot]
    have := List.countP_cons (p := s.arrives) (a := o) (l := entries)
    omega
  · have hmono : entries.countP (s.takeEntry o).arrives ≤ entries.countP s.arrives := by
      refine List.countP_mono_left fun o' _ harr => ?_
      obtain ⟨hocc', hnew', hlive'⟩ := arrives_iff.mp harr
      rw [htake, dotOf_fillSlot hfill hnew] at hnew'
      refine arrives_iff.mpr ⟨hocc', ?_, by simpa using hlive'⟩
      split at hnew'
      · cases hnew'
      · exact hnew'
    have hcount : (s.takeEntry o).elementCount = s.elementCount + 1 := by
      obtain ⟨pre, e, post, -, -, rfl⟩ := fillSlot_cases hfill
      rw [htake]
    have hcons : (o :: entries).countP s.arrives = entries.countP s.arrives + 1 :=
      List.countP_cons_of_pos (arrives_iff.mpr ⟨hocc, hnew, hlive⟩)
    omega
  · rw [htake]
    have := List.countP_cons (p := s.arrives) (a := o) (l := entries)
    omega

theorem isSome_dotOf_foldl_takeEntry (entries : List AworSetEntry) {s : AWORSet}
    (h : s.WellFormed) (hroom : s.elementCount + entries.countP s.arrives ≤ aworsetCapacity)
    (k : UInt64) :
    ((entries.foldl takeEntry s).dotOf k).isSome = true
      ↔ (s.dotOf k).isSome = true
        ∨ ∃ o ∈ entries, o.occupied = true ∧ o.key = k ∧ o.dot ∉ s.tombstones := by
  induction entries generalizing s with
  | nil => simp
  | cons o entries ih =>
    have hfirst : s.arrives o = true → s.elementCount < aworsetCapacity := by
      intro harr
      rw [List.countP_cons_of_pos harr] at hroom
      omega
    rw [List.foldl_cons, ih (h.takeEntry o) (Nat.le_trans (room_takeEntry o entries) hroom),
      isSome_dotOf_takeEntry h hfirst, tombstones_takeEntry, or_assoc]
    simp only [List.exists_mem_cons_iff]

/-- **The keys of a merge**: its own, and the remote ones that it has not removed. -/
theorem mem_keys_merge {other : AWORSet} (h : s.WellFormed) (hother : other.WellFormed)
    (hroom : s.HasRoom other) (k : UInt64) :
    k ∈ (s.merge other).keys
      ↔ k ∈ s.keys ∨ ∃ d, other.dotOf k = some d ∧ d ∉ s.tombstones := by
  rw [mem_keys_iff, mem_keys_iff, dotOf_merge, isSome_dotOf_foldl_takeEntry _ h hroom]
  refine or_congr_right ⟨?_, ?_⟩
  · rintro ⟨o, ho, hocc, rfl, hlive⟩
    exact ⟨o.dot, hother.dotOf_of_mem ho hocc, hlive⟩
  · rintro ⟨d, hd, hlive⟩
    obtain ⟨o, ho, hocc, hkey, rfl⟩ := exists_mem_of_dotOf hd
    exact ⟨o, ho, hocc, hkey, hlive⟩

/-- What only `s` holds has no tombstone in `other`. -/
def KeptBy (s other : AWORSet) : Prop :=
  ∀ k d, s.dotOf k = some d → other.dotOf k = none → d ∉ other.tombstones

theorem keptBy_iff {other : AWORSet} (h : s.WellFormed) (hother : other.WellFormed)
    (hroom : other.HasRoom s) : s.KeptBy other ↔ ∀ k ∈ s.keys, k ∈ (other.merge s).keys := by
  simp only [mem_keys_merge hother h hroom, mem_keys_iff]
  constructor
  · intro hkept k hk
    obtain ⟨d, hd⟩ := Option.isSome_iff_exists.mp hk
    cases hlocal : other.dotOf k with
    | some _ => exact .inl rfl
    | none => exact .inr ⟨d, hd, hkept k d hd hlocal⟩
  · intro hmerged k d hd hlocal
    obtain hthere | ⟨d', hd', hlive⟩ := hmerged k (by simp [hd])
    · simp [hlocal] at hthere
    · cases hd.symm.trans hd'
      exact hlive

theorem mem_keys_of_merge {other : AWORSet} (h : s.WellFormed) (hother : other.WellFormed)
    (hroom : s.HasRoom other) {k : UInt64} (hk : k ∈ (s.merge other).keys) :
    k ∈ s.keys ∨ k ∈ other.keys := by
  obtain hk | ⟨d, hd, -⟩ := (mem_keys_merge h hother hroom k).mp hk
  · exact .inl hk
  · exact .inr ((mem_keys_iff k).mpr (by simp [hd]))

theorem WellFormed.merges_agree {other : AWORSet} (h : s.WellFormed) (hother : other.WellFormed)
    (hroom : s.HasRoom other) (hroom' : other.HasRoom s) :
    (∀ k, k ∈ (s.merge other).keys ↔ k ∈ (other.merge s).keys)
      ↔ s.KeptBy other ∧ other.KeptBy s := by
  rw [keptBy_iff h hother hroom', keptBy_iff hother h hroom]
  constructor
  · intro hagree
    exact ⟨fun k hk => (hagree k).mp ((mem_keys_merge h hother hroom k).mpr (.inl hk)),
      fun k hk => (hagree k).mpr ((mem_keys_merge hother h hroom' k).mpr (.inl hk))⟩
  · rintro ⟨hkept, hkept'⟩ k
    constructor
    · intro hk
      rcases mem_keys_of_merge h hother hroom hk with hk | hk
      · exact hkept k hk
      · exact (mem_keys_merge hother h hroom' k).mpr (.inl hk)
    · intro hk
      rcases mem_keys_of_merge hother h hroom' hk with hk | hk
      · exact hkept' k hk
      · exact (mem_keys_merge h hother hroom k).mpr (.inl hk)

end AWORSet

variable {ι : Type*} [DecidableEq ι]

/-- **Convergence.** Two replicas merge alike iff neither removed what only the other still
    holds. -/
theorem merges_agree_iff (ids : ι → UInt16) (ops : List (ReplicaOp ι SetOp)) (i j : ι)
    (hroom : (replica ids ops i).HasRoom (replica ids ops j))
    (hroom' : (replica ids ops j).HasRoom (replica ids ops i)) :
    (∀ k, k ∈ ((replica ids ops i).merge (replica ids ops j)).keys
        ↔ k ∈ ((replica ids ops j).merge (replica ids ops i)).keys)
      ↔ (replica ids ops i).KeptBy (replica ids ops j)
        ∧ (replica ids ops j).KeptBy (replica ids ops i) :=
  (wellFormed_replica ids ops i).merges_agree (wellFormed_replica ids ops j) hroom hroom'

theorem merges_agree_iff_onePerReplica :
    (∀ k, k ∈ ((replica pairIds onePerReplica 0).merge (replica pairIds onePerReplica 1)).keys
        ↔ k ∈ ((replica pairIds onePerReplica 1).merge (replica pairIds onePerReplica 0)).keys)
      ↔ (replica pairIds onePerReplica 0).KeptBy (replica pairIds onePerReplica 1)
        ∧ (replica pairIds onePerReplica 1).KeptBy (replica pairIds onePerReplica 0) :=
  merges_agree_iff pairIds onePerReplica 0 1 (by decide +kernel) (by decide +kernel)

theorem removal_not_merged :
    ((replica pairIds removedRemotely 0).merge (replica pairIds removedRemotely 1)).keys = [7]
      ∧ ((replica pairIds removedRemotely 1).merge (replica pairIds removedRemotely 0)).keys
        = [] := by
  decide +kernel

end Velocity.Crdt
