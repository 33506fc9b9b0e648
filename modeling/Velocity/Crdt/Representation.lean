import Velocity.Crdt.AwSet

namespace Velocity.Crdt

open Lib List AWORSet

/-!
# The representation of the add-wins set

The arrays and counts of the set after any history of replicas.
-/

namespace AWORSet

variable {s : AWORSet}

/-! ### The element pass -/

def Settled (s : AWORSet) (o : AworSetEntry) : Prop :=
  o.occupied = true → (∃ d, s.dotOf o.key = some d ∧ o.dot.counter ≤ d.counter)
    ∨ s.dotOf o.key = none ∧ (o.dot ∈ s.tombstones ∨ aworsetCapacity ≤ s.elementCount)

theorem Settled.takeEntry {o : AworSetEntry} (h : s.Settled o) : s.takeEntry o = s := by
  rcases takeEntry_cases (s := s) o with
    ⟨i, hocc, hi, htake⟩ | ⟨s', hocc, hnew, hlive, hfill, htake⟩ | ⟨-, htake⟩
  · obtain ⟨pre, e, post, hsplit, rfl, hholds, hpre⟩ := split_of_slotOf hi
    have hdot : s.dotOf o.key = some e.dot := by
      rw [dotOf, hsplit, find?_split_of_first hholds hpre]
      rfl
    have hle : ¬ o.dot.counter > e.dot.counter := by
      obtain ⟨d, hd, hle⟩ | ⟨hnone, -⟩ := h hocc
      · rw [← Option.some.inj (hdot.symm.trans hd)] at hle
        exact UInt64.not_lt.mpr hle
      · simp [hdot] at hnone
    rw [htake, setDot, hsplit, modify_split, if_neg hle, ← hsplit]
  · obtain ⟨d, hd, -⟩ | ⟨-, hdead | hfull⟩ := h hocc
    · simp [hnew] at hd
    · exact absurd hdead hlive
    · rw [fillSlot, if_pos hfull] at hfill
      cases hfill
  · exact htake

theorem settled_takeEntry (h : s.WellFormed) (o : AworSetEntry) : (s.takeEntry o).Settled o := by
  intro hocc
  rcases takeEntry_cases (s := s) o with
    ⟨i, -, hi, htake⟩ | ⟨s', -, hnew, hlive, hfill, htake⟩ | ⟨hsame, htake⟩
  · obtain ⟨d, hd⟩ : ∃ d, s.dotOf o.key = some d := Option.ne_none_iff_exists'.mp fun hnone => by
      simp [slotOf_eq_none_iff.mpr hnone] at hi
    refine .inl ⟨_, by rw [htake, dotOf_setDot hi, if_pos rfl, hd]; rfl, ?_⟩
    dsimp only
    split
    · exact UInt64.le_refl _
    · next hle => exact UInt64.not_lt.mp hle
  · exact .inl ⟨o.dot, by rw [htake, dotOf_fillSlot hfill hnew, if_pos rfl], UInt64.le_refl _⟩
  · obtain ⟨hnew, hfull⟩ := hsame hocc
    refine .inr ⟨by rwa [htake], ?_⟩
    rw [htake]
    by_contra hroom
    rw [not_or, Nat.not_le] at hroom
    have hsome := h.fillSlot_isSome hroom.2 o.key o.dot
    simp [hfull hroom.1] at hsome

theorem Settled.takeEntry_of_ne {o o' : AworSetEntry} (h : s.Settled o)
    (hne : o.occupied = true → o'.occupied = true → o.key ≠ o'.key) :
    (s.takeEntry o').Settled o := by
  intro hocc
  rcases takeEntry_cases (s := s) o' with
    ⟨i, hocc', hi, htake⟩ | ⟨s', hocc', hnew, -, hfill, htake⟩ | ⟨-, htake⟩
  · rw [htake, dotOf_setDot hi, if_neg (hne hocc hocc')]
    exact h hocc
  · have hcount : s'.elementCount = s.elementCount + 1 := by
      obtain ⟨pre, e, post, -, -, rfl⟩ := fillSlot_cases hfill
      rfl
    rw [htake, dotOf_fillSlot hfill hnew, if_neg (hne hocc hocc'), tombstones_fillSlot hfill,
      hcount]
    exact (h hocc).imp id fun ⟨hnone, hdead⟩ => ⟨hnone, hdead.imp id (Nat.le_succ_of_le)⟩
  · rw [htake]
    exact h hocc

theorem settled_foldl_takeEntry {entries : List AworSetEntry} {s : AWORSet} (h : s.WellFormed)
    (hdistinct : entries.Pairwise fun e e' =>
      e.occupied = true → e'.occupied = true → e.key ≠ e'.key) :
    ∀ o ∈ entries, (entries.foldl takeEntry s).Settled o := by
  induction entries using reverseRecOn with
  | nil => simp
  | append_singleton entries o ih =>
    rw [pairwise_append] at hdistinct
    rw [foldl_append, foldl_cons, foldl_nil]
    intro x hx
    rcases mem_append.mp hx with hx | hx
    · exact (ih hdistinct.1 x hx).takeEntry_of_ne (hdistinct.2.2 x hx o (mem_singleton_self o))
    · obtain rfl := mem_singleton.mp hx
      exact settled_takeEntry (h.foldl_takeEntry entries) x

theorem foldl_takeEntry_of_settled {entries : List AworSetEntry} (h : ∀ o ∈ entries, s.Settled o) :
    entries.foldl takeEntry s = s := by
  induction entries with
  | nil => rfl
  | cons o entries ih =>
    rw [foldl_cons, (h o mem_cons_self).takeEntry]
    exact ih fun x hx => h x (mem_cons_of_mem o hx)

/-! ### The tombstone pass -/

theorem tombstones_add (key : UInt64) : (s.add key).2.tombstones = s.tombstones := by
  rcases add_cases (s := s) key with ⟨i, -, hadd⟩ | ⟨s', -, hfill, hadd⟩ | ⟨-, hadd⟩
  · rw [hadd]
    rfl
  · simp only [hadd]
    rw [tombstones_fillSlot hfill, tick]
  · rw [hadd]
    rfl

def Buried (s : AWORSet) (dot : Dot) : Prop :=
  dot ∈ s.tombstones ∨ aworsetTombstoneCapacity ≤ s.tombstones.length

theorem Buried.takeTombstone {dot : Dot} (h : s.Buried dot) : s.takeTombstone dot = s := by
  grind [takeTombstone, recordTombstone, Buried]

theorem takeTombstone_cases (s : AWORSet) (dot : Dot) :
    (s.takeTombstone dot).Buried dot ∧ (s.takeTombstone dot = s
      ∨ s.tombstones.length < aworsetTombstoneCapacity
        ∧ s.takeTombstone dot = { s with tombstones := s.tombstones ++ [dot] }) := by
  grind [takeTombstone, recordTombstone, Buried]

theorem foldl_takeTombstone_spec (dots : List Dot) (s : AWORSet) :
    (∀ dot ∈ dots, (dots.foldl takeTombstone s).Buried dot)
      ∧ s.tombstones ⊆ (dots.foldl takeTombstone s).tombstones
      ∧ s.tombstones.length ≤ (dots.foldl takeTombstone s).tombstones.length
      ∧ (dots.foldl takeTombstone s).tombstones.length
        ≤ max s.tombstones.length aworsetTombstoneCapacity := by
  induction dots generalizing s with
  | nil => simp
  | cons dot dots ih =>
    obtain ⟨hburied, hcases⟩ := s.takeTombstone_cases dot
    obtain ⟨hall, hsub, hle, hmax⟩ := ih (s.takeTombstone dot)
    rw [foldl_cons, forall_mem_cons]
    refine ⟨⟨hburied.imp (hsub ·) hle.trans', hall⟩, ?_⟩
    rcases hcases with hsame | ⟨hroom, happend⟩
    · rw [hsame] at hsub hle hmax ⊢
      exact ⟨hsub, hle, hmax⟩
    · rw [happend] at hsub hle hmax ⊢
      rw [length_append, length_singleton] at hle hmax
      exact ⟨fun x hx => hsub (mem_append_left _ hx), by omega, by omega⟩

theorem tombstones_foldl_takeEntry (entries : List AworSetEntry) (s : AWORSet) :
    (entries.foldl takeEntry s).tombstones = s.tombstones := by
  induction entries generalizing s with
  | nil => rfl
  | cons o entries ih => rw [foldl_cons, ih, tombstones_takeEntry]

theorem foldl_takeTombstone_of_buried {dots : List Dot} (h : ∀ dot ∈ dots, s.Buried dot) :
    dots.foldl takeTombstone s = s := by
  induction dots with
  | nil => rfl
  | cons dot dots ih =>
    rw [foldl_cons, (h dot mem_cons_self).takeTombstone]
    exact ih fun x hx => h x (mem_cons_of_mem dot hx)

/-! ### Both passes -/

theorem WellFormed.merge_merge {other : AWORSet} (h : s.WellFormed) (hother : other.WellFormed) :
    (s.merge other).merge other = s.merge other := by
  obtain ⟨hburied, hsub, -, -⟩ :=
    foldl_takeTombstone_spec other.tombstones (other.elements.foldl AWORSet.takeEntry s)
  have hcount := elements_merge s other
  have hsettled : ∀ o ∈ other.elements, (s.merge other).Settled o := by
    intro o ho hocc
    rw [dotOf_merge, hcount.2]
    exact (settled_foldl_takeEntry h hother.distinct o ho hocc).imp id
      fun ⟨hnone, hdead⟩ => ⟨hnone, hdead.imp (hsub ·) id⟩
  have hburied : ∀ dot ∈ other.tombstones, (s.merge other).Buried dot := hburied
  have hcounter : (if other.localCounter > (s.merge other).localCounter then other.localCounter
      else (s.merge other).localCounter) = (s.merge other).localCounter := by
    refine if_neg (UInt64.not_lt.mpr ?_)
    rw [AWORSet.merge]
    dsimp only
    split
    · exact UInt64.le_refl _
    · next hle => exact UInt64.not_lt.mp hle
  rw [AWORSet.merge]
  simp only [foldl_takeEntry_of_settled hsettled, foldl_takeTombstone_of_buried hburied, hcounter]

end AWORSet

/-! ### Replicas -/

variable {ι : Type*} [DecidableEq ι]

theorem tombstones_replica (ids : ι → UInt16) (ops : List (ReplicaOp ι SetOp)) (i : ι) :
    (replica ids ops i).tombstones.length ≤ aworsetTombstoneCapacity := by
  refine Replicated.forall_run
    (P := fun _ (s : AWORSet) => s.tombstones.length ≤ aworsetTombstoneCapacity)
    (fun _ s op h => ?_) (fun _ _ s t h _ => ?_) (fun i => Nat.zero_le _) ops i
  · cases op with
    | add key =>
      exact (congrArg List.length (tombstones_add key)).trans_le h
    | remove key =>
      show (s.remove key).2.tombstones.length ≤ _
      rcases remove_cases (s := s) key with ⟨pre, e, -, -, -, -, hrem⟩ | ⟨-, hrem⟩
      · rw [hrem, recordTombstone]
        split
        · next hroom => simpa using Nat.succ_le_of_lt hroom
        · exact h
      · rwa [hrem]
  · have hmax := (foldl_takeTombstone_spec t.tombstones
      (t.elements.foldl takeEntry s)).2.2.2
    rw [tombstones_foldl_takeEntry] at hmax
    exact hmax.trans (max_le h le_rfl)

/-- **Representation** of any two states that replicas can have. -/
theorem representation_replica (ids ids' : ι → UInt16) (ops ops' : List (ReplicaOp ι SetOp))
    (i j : ι) :
    let s := replica ids ops i
    let t := replica ids' ops' j
    s.elementCount = s.elements.countP (·.occupied) ∧ s.elementCount ≤ 256 ∧ s.keys.Nodup
      ∧ s.tombstones.length ≤ 128 ∧ (s.merge t).merge t = s.merge t := by
  have h := wellFormed_replica ids ops i
  refine ⟨h.count, ?_, ?_, tombstones_replica ids ops i,
    h.merge_merge (wellFormed_replica ids' ops' j)⟩
  · rw [h.count]
    exact countP_le_length.trans_eq h.slots
  · rw [AWORSet.keys, List.Nodup, pairwise_map, pairwise_filter]
    exact h.distinct

end Velocity.Crdt
