import Velocity.Lib.RunLength
import Velocity.Services.Cluster

namespace Velocity

open Lib List

/-!
# Version histories as branches

A version history `[(v₁, e₁), …]` is a run-length encoding of its events' versions.
-/

namespace VersionHistory

/-! ### The two comparisons -/

def contains (h other : VersionHistory) : Bool :=
  if other.items.isEmpty then true
  else if h.items.length < other.items.length then false
  else
    (h.items.zip other.items).all
      (fun (s, o) => !(s.failoverVersion != o.failoverVersion || s.eventId < o.eventId))

def earlier (a b : UInt64) : UInt64 := if a ≤ b then a else b

def divergenceFrom (divergence : UInt64) :
    List VersionHistoryItem → List VersionHistoryItem → UInt64
  | a :: as, b :: bs =>
    if a.failoverVersion = b.failoverVersion then divergenceFrom (earlier a.eventId b.eventId) as bs
    else divergence
  | _, _ => divergence

def findDivergencePoint (h other : VersionHistory) : UInt64 :=
  divergenceFrom 0 h.items other.items

/-! ### Event sequences -/

def runsOf (items : List VersionHistoryItem) : List (UInt64 × Nat) :=
  items.map (fun item => (item.failoverVersion, item.eventId.toNat))

/-- The version of every event, in order. -/
def events (h : VersionHistory) : List UInt64 := expand 0 (runsOf h.items)

structure IncreasingFrom (start : UInt64) (items : List VersionHistoryItem) : Prop where
  versions : (items.map (·.failoverVersion)).Pairwise (· < ·)
  eventIds : (start :: items.map (·.eventId)).Pairwise (· < ·)

/-- Versions and event ids rise. -/
def IsBranch (h : VersionHistory) : Prop := IncreasingFrom 0 h.items

def NextAgree : List VersionHistoryItem → List VersionHistoryItem → Prop
  | a :: _, b :: _ => a.failoverVersion = b.failoverVersion
  | _, _ => False

/-- Items of one version that both continue have one event id. -/
def Aligned : List VersionHistoryItem → List VersionHistoryItem → Prop
  | a :: as, b :: bs =>
    a.failoverVersion = b.failoverVersion →
    (NextAgree as bs → a.eventId = b.eventId) ∧ Aligned as bs
  | _, _ => True

namespace IncreasingFrom

variable {start : UInt64} {item : VersionHistoryItem} {items : List VersionHistoryItem}

theorem start_lt (h : IncreasingFrom start (item :: items)) : start < item.eventId :=
  rel_of_pairwise_cons h.eventIds mem_cons_self

theorem tail (h : IncreasingFrom start (item :: items)) : IncreasingFrom item.eventId items :=
  ⟨h.versions.of_cons, h.eventIds.of_cons⟩

theorem anti (h : IncreasingFrom start items) {from' : UInt64} (hle : from' ≤ start) :
    IncreasingFrom from' items := by
  refine ⟨h.versions, pairwise_cons.mpr ⟨fun id hid => ?_, h.eventIds.of_cons⟩⟩
  exact UInt64.lt_of_le_of_lt hle (rel_of_pairwise_cons h.eventIds hid)

theorem proper (h : IncreasingFrom start items) : Proper start.toNat (runsOf items) := by
  induction items generalizing start with
  | nil => trivial
  | cons item items ih =>
    refine ⟨UInt64.lt_iff_toNat_lt.mp h.start_lt, ?_, ih h.tail⟩
    cases items with
    | nil => simp
    | cons next items =>
      have hlt : item.failoverVersion < next.failoverVersion :=
        rel_of_pairwise_cons h.versions mem_cons_self
      intro heq
      have heq : next.failoverVersion = item.failoverVersion := Option.some.inj heq
      exact UInt64.lt_irrefl _ (heq ▸ hlt)

end IncreasingFrom

/-! ### `contains` -/

@[simp] theorem contains_nil_right (as : List VersionHistoryItem) : contains ⟨as⟩ ⟨[]⟩ = true := rfl

@[simp] theorem contains_nil_left (b : VersionHistoryItem) (bs : List VersionHistoryItem) :
    contains ⟨[]⟩ ⟨b :: bs⟩ = false := by
  simp [contains]

theorem item_passes_iff (a b : VersionHistoryItem) :
    (!(a.failoverVersion != b.failoverVersion || decide (a.eventId < b.eventId))) = true
      ↔ a.failoverVersion = b.failoverVersion ∧ b.eventId ≤ a.eventId := by
  simp

theorem contains_cons (a b : VersionHistoryItem) (as bs : List VersionHistoryItem) :
    contains ⟨a :: as⟩ ⟨b :: bs⟩ = true
      ↔ a.failoverVersion = b.failoverVersion ∧ b.eventId ≤ a.eventId
        ∧ contains ⟨as⟩ ⟨bs⟩ = true := by
  have hempty : ¬ (b :: bs).isEmpty = true := Bool.false_ne_true
  rw [contains, if_neg hempty]
  by_cases hlen : as.length < bs.length
  · -- too short before and after the first item
    have hlonger : (a :: as).length < (b :: bs).length := Nat.succ_lt_succ hlen
    have hbs : ¬ bs.isEmpty = true := by
      rw [isEmpty_iff_length_eq_zero]
      omega
    rw [if_pos hlonger, contains, if_neg hbs, if_pos hlen]
    simp only [Bool.false_eq_true, and_false]
  · have hlonger : ¬ (a :: as).length < (b :: bs).length := fun h => hlen (Nat.lt_of_succ_lt_succ h)
    rw [if_neg hlonger, zip_cons_cons, all_cons, Bool.and_eq_true, item_passes_iff,
      and_assoc, contains, if_neg hlen]
    cases bs with
    | nil => rw [zip_nil_right]; exact Iff.rfl
    | cons b' bs => exact Iff.rfl

variable {as bs : List VersionHistoryItem}

theorem contains_iff_of_not_nextAgree (h : ¬ NextAgree as bs) :
    contains ⟨as⟩ ⟨bs⟩ = true ↔ bs = [] := by
  cases bs with
  | nil => simp
  | cons b bs =>
    cases as with
    | nil => simp
    | cons a as =>
      rw [contains_cons]
      exact iff_of_false (fun hcontains => h hcontains.1) (cons_ne_nil b bs)

theorem contains_iff_within (h : Aligned as bs) :
    contains ⟨as⟩ ⟨bs⟩ = true ↔ Within (runsOf bs) (runsOf as) := by
  induction as generalizing bs with
  | nil =>
    cases bs with
    | nil => exact iff_of_true rfl trivial
    | cons b bs => exact iff_of_false (by simp) id
  | cons a as ih =>
    cases bs with
    | nil => exact iff_of_true rfl trivial
    | cons b bs =>
      show _ ↔ b.failoverVersion = a.failoverVersion
        ∧ (b.eventId.toNat = a.eventId.toNat ∧ Within (runsOf bs) (runsOf as)
          ∨ b.eventId.toNat < a.eventId.toNat ∧ runsOf bs = [])
      rw [contains_cons, UInt64.le_iff_toNat_le, runsOf, map_eq_nil_iff, ← runsOf]
      by_cases hversion : a.failoverVersion = b.failoverVersion
      · obtain ⟨hnext, haligned⟩ := h hversion
        rcases Nat.lt_trichotomy b.eventId.toNat a.eventId.toNat with hlt | heq | hgt
        · -- the item of `b` ends first: nothing may follow it
          have hno : ¬ NextAgree as bs := fun hagree => by
            rw [hnext hagree] at hlt
            exact Nat.lt_irrefl _ hlt
          rw [contains_iff_of_not_nextAgree hno]
          simp [hversion, hlt, Nat.ne_of_lt hlt, Nat.le_of_lt hlt]
        · rw [ih haligned]
          simp [hversion, heq]
        · simp [hversion, Nat.not_le.mpr hgt, Nat.ne_of_gt hgt, Nat.lt_asymm hgt]
      · exact iff_of_false (fun hc => hversion hc.1) (fun hc => hversion hc.1.symm)

/-! ### `find_divergence_point` -/

@[simp] theorem earlier_self (a : UInt64) : earlier a a = a := ite_self a

theorem toNat_earlier (a b : UInt64) : (earlier a b).toNat = min a.toNat b.toNat := by
  rw [earlier]
  split
  · next h => rw [Nat.min_eq_left (UInt64.le_iff_toNat_le.mp h)]
  · next h => rw [Nat.min_eq_right (Nat.le_of_not_le (fun hle => h (UInt64.le_iff_toNat_le.mpr hle)))]

theorem earlier_le_left (a b : UInt64) : earlier a b ≤ a := by
  rw [UInt64.le_iff_toNat_le, toNat_earlier]
  omega

theorem earlier_le_right (a b : UInt64) : earlier a b ≤ b := by
  rw [UInt64.le_iff_toNat_le, toNat_earlier]
  omega

variable {d : UInt64}

theorem IncreasingFrom.tails {a b : VersionHistoryItem} (ha : IncreasingFrom d (a :: as))
    (hb : IncreasingFrom d (b :: bs)) :
    d < earlier a.eventId b.eventId ∧ IncreasingFrom (earlier a.eventId b.eventId) as
      ∧ IncreasingFrom (earlier a.eventId b.eventId) bs := by
  refine ⟨?_, ha.tail.anti (earlier_le_left ..), hb.tail.anti (earlier_le_right ..)⟩
  rw [earlier]
  split
  · exact ha.start_lt
  · exact hb.start_lt

theorem divergenceFrom_of_not_nextAgree (h : ¬ NextAgree as bs)
    (d : UInt64) : divergenceFrom d as bs = d := by
  cases as with
  | nil => rfl
  | cons a as =>
    cases bs with
    | nil => rfl
    | cons b bs => exact if_neg h

theorem aligned_of_not_nextAgree (h : ¬ NextAgree as bs) : Aligned as bs := by
  cases as with
  | nil => trivial
  | cons a as =>
    cases bs with
    | nil => trivial
    | cons b bs => exact fun hversion => absurd hversion h

theorem le_divergenceFrom
    (ha : IncreasingFrom d as) (hb : IncreasingFrom d bs) : d ≤ divergenceFrom d as bs := by
  induction as generalizing d bs with
  | nil => exact UInt64.le_refl d
  | cons a as ih =>
    cases bs with
    | nil => exact UInt64.le_refl d
    | cons b bs =>
      rw [divergenceFrom]
      split
      · obtain ⟨hlt, has, hbs⟩ := ha.tails hb
        exact UInt64.le_trans (UInt64.le_of_lt hlt) (ih has hbs)
      · exact UInt64.le_refl d

theorem lt_divergenceFrom
    (ha : IncreasingFrom d as) (hb : IncreasingFrom d bs) (h : NextAgree as bs) :
    d < divergenceFrom d as bs := by
  cases as with
  | nil => exact h.elim
  | cons a as =>
    cases bs with
    | nil => exact h.elim
    | cons b bs =>
      have hversion : a.failoverVersion = b.failoverVersion := h
      obtain ⟨hlt, has, hbs⟩ := ha.tails hb
      rw [divergenceFrom, if_pos hversion]
      exact UInt64.lt_of_lt_of_le hlt (le_divergenceFrom has hbs)

theorem divergenceFrom_eq_iff (ha : IncreasingFrom d as) (hb : IncreasingFrom d bs) :
    (divergenceFrom d as bs).toNat = agreeUpTo d.toNat (runsOf as) (runsOf bs) ↔ Aligned as bs := by
  induction as generalizing d bs with
  | nil => exact iff_of_true rfl trivial
  | cons a as ih =>
    cases bs with
    | nil => exact iff_of_true rfl trivial
    | cons b bs =>
      show _ = (if a.failoverVersion = b.failoverVersion then
          if a.eventId.toNat = b.eventId.toNat then
            agreeUpTo a.eventId.toNat (runsOf as) (runsOf bs)
          else min a.eventId.toNat b.eventId.toNat
        else d.toNat) ↔ _
      rw [divergenceFrom, Aligned]
      by_cases hversion : a.failoverVersion = b.failoverVersion
      · rw [if_pos hversion, if_pos hversion]
        by_cases hid : a.eventId = b.eventId
        · rw [← hid, earlier_self, if_pos rfl, ih ha.tail (hid ▸ hb.tail)]
          simp [hversion]
        · rw [if_neg (fun h => hid (UInt64.toNat_inj.mp h)), ← toNat_earlier]
          by_cases hnext : NextAgree as bs
          · -- the loop runs on past the event where the histories part
            obtain ⟨-, has, hbs⟩ := ha.tails hb
            have hlt := lt_divergenceFrom has hbs hnext
            refine iff_of_false (fun heq => ?_) (fun h => hid ((h hversion).1 hnext))
            rw [UInt64.toNat_inj.mp heq] at hlt
            exact UInt64.lt_irrefl _ hlt
          · rw [divergenceFrom_of_not_nextAgree hnext]
            exact iff_of_true rfl
              (fun _ => ⟨fun h => absurd h hnext, aligned_of_not_nextAgree hnext⟩)
      · rw [if_neg hversion, if_neg hversion]
        exact iff_of_true rfl (fun h => absurd h hversion)

/-! ### Both as branches -/

/-- `contains` is the prefix order, and branches diverge after their longest common one. -/
def ReadsBranches (a b : VersionHistory) : Prop :=
  (a.contains b = true ↔ b.events <+: a.events)
    ∧ IsGreatest {n | ∃ p, p <+: a.events ∧ p <+: b.events ∧ p.length = n}
      (a.findDivergencePoint b).toNat

/-- **Histories as branches** are compared rightly iff they are aligned. -/
theorem readsBranches_iff {a b : VersionHistory} (ha : a.IsBranch) (hb : b.IsBranch) :
    a.ReadsBranches b ↔ Aligned a.items b.items := by
  have hcommon : commonLength a.events b.events = agreeUpTo 0 (runsOf a.items) (runsOf b.items) :=
    (Nat.zero_add _).symm.trans (commonLength_expand ha.proper hb.proper)
  have hdivergence := divergenceFrom_eq_iff ha hb
  constructor
  · rintro ⟨-, hgreatest⟩
    exact hdivergence.mp ((hgreatest.unique (isGreatest_commonLength ..)).trans hcommon)
  · intro haligned
    refine ⟨?_, ?_⟩
    · exact (contains_iff_within haligned).trans (expand_prefix_iff hb.proper ha.proper).symm
    · have heq : (a.findDivergencePoint b).toNat = commonLength a.events b.events :=
        (hdivergence.mpr haligned).trans hcommon.symm
      rw [heq]
      exact isGreatest_commonLength ..

theorem readsBranches_continued : ReadsBranches ⟨[⟨1, 5⟩, ⟨2, 10⟩]⟩ ⟨[⟨1, 5⟩, ⟨2, 8⟩]⟩ :=
  (readsBranches_iff ⟨by decide, by decide⟩ ⟨by decide, by decide⟩).mpr
    (fun _ => ⟨fun _ => rfl, fun _ => ⟨False.elim, trivial⟩⟩)

theorem not_readsBranches :
    IsBranch ⟨[⟨1, 5⟩, ⟨2, 10⟩]⟩ ∧ IsBranch ⟨[⟨1, 3⟩, ⟨2, 8⟩]⟩
      ∧ contains ⟨[⟨1, 5⟩, ⟨2, 10⟩]⟩ ⟨[⟨1, 3⟩, ⟨2, 8⟩]⟩ = true
      ∧ findDivergencePoint ⟨[⟨1, 5⟩, ⟨2, 10⟩]⟩ ⟨[⟨1, 3⟩, ⟨2, 8⟩]⟩ = 8
      ∧ events ⟨[⟨1, 5⟩, ⟨2, 10⟩]⟩ = [1, 1, 1, 1, 1, 2, 2, 2, 2, 2]
      ∧ events ⟨[⟨1, 3⟩, ⟨2, 8⟩]⟩ = [1, 1, 1, 2, 2, 2, 2, 2]
      ∧ ¬ ReadsBranches ⟨[⟨1, 5⟩, ⟨2, 10⟩]⟩ ⟨[⟨1, 3⟩, ⟨2, 8⟩]⟩ := by
  have ha : IsBranch ⟨[⟨1, 5⟩, ⟨2, 10⟩]⟩ := ⟨by decide, by decide⟩
  have hb : IsBranch ⟨[⟨1, 3⟩, ⟨2, 8⟩]⟩ := ⟨by decide, by decide⟩
  refine ⟨ha, hb, by decide, by decide, by decide, by decide, fun h => ?_⟩
  have hprefix := h.1.mp (by decide)
  revert hprefix
  decide

end VersionHistory

end Velocity
