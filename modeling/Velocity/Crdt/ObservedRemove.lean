import Velocity.Crdt.Representation

namespace Velocity.Crdt

open Lib List AWORSet

/-!
# Observed removal in the add-wins set

A removal should cover every add seen, and records the one dot that is kept.
-/

namespace AWORSet

variable {s : AWORSet}

/-! ### Where a dot comes from -/

variable {k key : UInt64} {d : Dot}

theorem dotOf_add_of_some (h : (s.add key).2.dotOf k = some d) :
    (k = key ∧ (s.add key).1 = some d) ∨ s.dotOf k = some d := by
  rcases add_cases (s := s) key with ⟨i, hi, hadd⟩ | ⟨s', hnone, hfill, hadd⟩ | ⟨-, hadd⟩
  · have hi' : s.tick.slotOf key = some i := hi
    simp only [hadd] at h ⊢
    rw [dotOf_setDot hi'] at h
    split at h
    · next hk =>
      obtain ⟨-, -, rfl⟩ := Option.map_eq_some_iff.mp h
      exact .inl ⟨hk, rfl⟩
    · exact .inr h
  · simp only [hadd] at h ⊢
    rw [dotOf_fillSlot hfill (slotOf_eq_none_iff.mp hnone)] at h
    split at h
    · next hk => exact .inl ⟨hk, h⟩
    · exact .inr h
  · rw [hadd] at h
    exact .inr h

theorem remove_fst (key : UInt64) : (s.remove key).1 = s.contains key := by
  rcases remove_cases (s := s) key with ⟨pre, e, post, hsplit, hholds, -, hrem⟩ | ⟨hnone, hrem⟩
  · rw [hrem, contains, hsplit]
    simp [hholds]
  · rw [hrem, contains]
    simpa [slotOf] using hnone

theorem WellFormed.dotOf_remove_of_some (h : s.WellFormed)
    (hd : (s.remove key).2.dotOf k = some d) : s.dotOf k = some d := by
  rcases remove_cases (s := s) key with ⟨pre, e, post, hsplit, -, -, hrem⟩ | ⟨-, hrem⟩
  · obtain ⟨x, hx, hocc, rfl, rfl⟩ := exists_mem_of_dotOf hd
    refine h.dotOf_of_mem ?_ hocc
    have helements : (s.remove key).2.elements
        = pre ++ { e with occupied := false, key := 0 } :: post := by
      rw [hrem, elements_recordTombstone, freeSlot, hsplit, modify_split]
    rw [helements, mem_append, mem_cons] at hx
    rw [hsplit, mem_append, mem_cons]
    rcases hx with hx | rfl | hx
    · exact .inl hx
    · cases hocc
    · exact .inr (.inr hx)
  · rwa [hrem] at hd

theorem mem_tombstones_remove (hd : d ∈ s.tombstones
      ∨ s.dotOf key = some d ∧ s.tombstones.length < aworsetTombstoneCapacity) :
    d ∈ (s.remove key).2.tombstones := by
  rcases remove_cases (s := s) key with ⟨pre, e, post, hsplit, hholds, hpre, hrem⟩ | ⟨hnone, hrem⟩
  · have hdot : s.dotOf key = some e.dot := by
      rw [dotOf, hsplit, find?_split_of_first hholds hpre]
      rfl
    rw [hrem]
    rcases recordTombstone_cases (s := s.freeSlot pre.length) e.dot with
      ⟨-, hrec⟩ | ⟨hfull, hrec⟩
    · rw [hrec, mem_append, mem_singleton]
      rcases hd with hd | ⟨hd, -⟩
      · exact .inl hd
      · cases hdot.symm.trans hd
        exact .inr rfl
    · rw [hrec]
      rcases hd with hd | ⟨-, hroom⟩
      · exact hd
      · exact absurd hroom (Nat.not_lt.mpr hfull)
  · rw [hrem]
    rcases hd with hd | ⟨hd, -⟩
    · exact hd
    · rw [slotOf_eq_none_iff.mp hnone] at hd
      cases hd

theorem dotOf_takeEntry_of_some {o : AworSetEntry} (h : (s.takeEntry o).dotOf k = some d) :
    s.dotOf k = some d ∨ o.occupied = true ∧ o.key = k ∧ o.dot = d := by
  rcases takeEntry_cases (s := s) o with
    ⟨i, hocc, hi, htake⟩ | ⟨s', hocc, hnew, -, hfill, htake⟩ | ⟨-, htake⟩
  · rw [htake, dotOf_setDot hi] at h
    split at h
    · next hk =>
      obtain ⟨d', hd', hmax⟩ := Option.map_eq_some_iff.mp h
      split at hmax
      · exact .inr ⟨hocc, hk.symm, hmax⟩
      · exact .inl (by rw [hk, hd', hmax])
    · exact .inl h
  · rw [htake, dotOf_fillSlot hfill hnew] at h
    split at h
    · next hk => exact .inr ⟨hocc, hk.symm, Option.some.inj h⟩
    · exact .inl h
  · rw [htake] at h
    exact .inl h

theorem dotOf_takeEntry_eq_none {o : AworSetEntry} (hnone : s.dotOf k = none)
    (hdead : o.occupied = true → o.key = k → o.dot ∈ s.tombstones) :
    (s.takeEntry o).dotOf k = none := by
  rcases takeEntry_cases (s := s) o with
    ⟨i, -, hi, htake⟩ | ⟨s', hocc, hnew, hlive, hfill, htake⟩ | ⟨-, htake⟩
  · rw [htake, dotOf_setDot hi]
    split
    · next hk => rw [← hk, hnone, Option.map_none]
    · exact hnone
  · rw [htake, dotOf_fillSlot hfill hnew, if_neg (fun hk => hlive (hdead hocc hk.symm))]
    exact hnone
  · rwa [htake]

variable {other : AWORSet}

theorem dotOf_merge_of_some (hother : other.WellFormed)
    (h : (s.merge other).dotOf k = some d) : s.dotOf k = some d ∨ other.dotOf k = some d := by
  have hfold : ∀ (entries : List AworSetEntry) (s : AWORSet),
      (entries.foldl takeEntry s).dotOf k = some d →
        s.dotOf k = some d ∨ ∃ o ∈ entries, o.occupied = true ∧ o.key = k ∧ o.dot = d := by
    intro entries
    induction entries with
    | nil => exact fun s h => .inl h
    | cons o entries ih =>
      intro s h
      rcases ih _ h with h | ⟨o', ho', hrest⟩
      · exact (dotOf_takeEntry_of_some h).imp_right fun h => ⟨o, mem_cons_self, h⟩
      · exact .inr ⟨o', mem_cons_of_mem _ ho', hrest⟩
  rw [dotOf_merge] at h
  refine (hfold _ _ h).imp_right ?_
  rintro ⟨o, ho, hocc, rfl, rfl⟩
  exact hother.dotOf_of_mem ho hocc

theorem dotOf_merge_eq_none (hother : other.WellFormed)
    (hnone : s.dotOf k = none) (hdead : ∀ d, other.dotOf k = some d → d ∈ s.tombstones) :
    (s.merge other).dotOf k = none := by
  have hfold : ∀ (entries : List AworSetEntry) (s : AWORSet), s.dotOf k = none →
      (∀ o ∈ entries, o.occupied = true → o.key = k → o.dot ∈ s.tombstones) →
        (entries.foldl takeEntry s).dotOf k = none := by
    intro entries
    induction entries with
    | nil => exact fun s hnone _ => hnone
    | cons o entries ih =>
      intro s hnone hdead
      refine ih _ (dotOf_takeEntry_eq_none hnone (hdead o mem_cons_self)) ?_
      intro o' ho'
      rw [tombstones_takeEntry]
      exact hdead o' (mem_cons_of_mem _ ho')
  rw [dotOf_merge]
  refine hfold _ _ hnone ?_
  rintro o ho hocc rfl
  exact hdead o.dot (hother.dotOf_of_mem ho hocc)

theorem mem_tombstones_merge (h : d ∈ s.tombstones) : d ∈ (s.merge other).tombstones := by
  rw [← tombstones_foldl_takeEntry other.elements s] at h
  exact (foldl_takeTombstone_spec other.tombstones _).2.1 h

end AWORSet

/-! ### What replicas have seen -/

structure Observer where
  set : AWORSet
  observed : List (UInt64 × Dot)
  covered : List (UInt64 × Dot)

namespace Observer

def apply (o : Observer) : SetOp → Observer
  | .add key =>
    { o with set := (o.set.add key).2,
             observed := ((o.set.add key).1.map (key, ·)).toList ++ o.observed }
  | .remove key =>
    { o with set := (o.set.remove key).2,
             covered := if (o.set.remove key).1 then
                 o.observed.filter (fun p => p.1 = key) ++ o.covered
               else o.covered }

def merge (o source : Observer) : Observer :=
  { o with set := o.set.merge source.set, observed := source.observed ++ o.observed }

/-- A merge of covered adds does not bring the key back. -/
def StaysRemoved (o source : Observer) : Prop :=
  ∀ k, (∀ d, (k, d) ∈ source.observed → (k, d) ∈ o.covered) →
    k ∉ o.set.keys → k ∉ (o.set.merge source.set).keys

def Buries (o : Observer) (key : UInt64) : Prop :=
  o.set.contains key = true → ∀ p ∈ o.observed, p.1 = key →
    p.2 ∈ o.set.tombstones
      ∨ o.set.dotOf key = some p.2 ∧ o.set.tombstones.length < aworsetTombstoneCapacity

instance (o : Observer) (key : UInt64) : Decidable (o.Buries key) :=
  inferInstanceAs (Decidable (_ → ∀ p ∈ o.observed, _))

structure Sound (o : Observer) : Prop where
  wellFormed : o.set.WellFormed
  seen : ∀ k d, o.set.dotOf k = some d → (k, d) ∈ o.observed
  buried : ∀ k d, (k, d) ∈ o.covered → d ∈ o.set.tombstones

variable {o source : Observer}

theorem Sound.add (h : o.Sound) (key : UInt64) : (o.apply (.add key)).Sound where
  wellFormed := h.wellFormed.add key
  seen := by
    intro k d hd
    rw [apply, mem_append]
    rcases dotOf_add_of_some hd with ⟨rfl, hadd⟩ | hd
    · exact .inl (by simp [hadd])
    · exact .inr (h.seen k d hd)
  buried := by
    intro k d hd
    rw [apply, tombstones_add]
    exact h.buried k d hd

theorem Sound.remove (h : o.Sound) {key : UInt64} (hburies : o.Buries key) :
    (o.apply (.remove key)).Sound where
  wellFormed := h.wellFormed.remove key
  seen := fun k d hd => h.seen k d (h.wellFormed.dotOf_remove_of_some hd)
  buried := by
    intro k d hd
    refine mem_tombstones_remove ?_
    rw [apply] at hd
    split at hd
    · next hremoved =>
      rcases mem_append.mp hd with hd | hd
      · obtain ⟨hseen, hkey⟩ := mem_filter.mp hd
        exact hburies (remove_fst key ▸ hremoved) (k, d) hseen (by simpa using hkey)
      · exact .inl (h.buried k d hd)
    · exact .inl (h.buried k d hd)

theorem Sound.merge (h : o.Sound) (hsource : source.Sound) : (o.merge source).Sound where
  wellFormed := h.wellFormed.merge source.set
  seen := by
    intro k d hd
    rw [Observer.merge, mem_append]
    rcases dotOf_merge_of_some hsource.wellFormed hd with hd | hd
    · exact .inr (h.seen k d hd)
    · exact .inl (hsource.seen k d hd)
  buried := fun k d hd => mem_tombstones_merge (h.buried k d hd)

theorem Sound.staysRemoved (h : o.Sound) (hsource : source.Sound) : o.StaysRemoved source := by
  intro k hcovered habsent
  rw [mem_keys_iff, Bool.not_eq_true, Option.isSome_eq_false_iff] at habsent ⊢
  rw [Option.isNone_iff_eq_none] at habsent ⊢
  refine dotOf_merge_eq_none hsource.wellFormed habsent fun d hd => ?_
  exact h.buried k d (hcovered d (hsource.seen k d hd))

end Observer

def observers : Replicated Observer SetOp where
  apply := Observer.apply
  merge := Observer.merge

variable {ι : Type*} [DecidableEq ι]

/-- The new replica: nothing seen, nothing removed. -/
def unobserved (ids : ι → UInt16) (i : ι) : Observer := ⟨new (ids i), [], []⟩

/-- A removal leaves tombstones for all that its replica has observed of the key. -/
def BuriesObserved (c : ι → Observer) : ReplicaOp ι SetOp → Prop
  | .update i (.remove key) => (c i).Buries key
  | _ => True

instance (c : ι → Observer) (op : ReplicaOp ι SetOp) : Decidable (BuriesObserved c op) := by
  unfold BuriesObserved
  split <;> infer_instance

omit [DecidableEq ι] in
theorem sound_unobserved (ids : ι → UInt16) (i : ι) : (unobserved ids i).Sound where
  wellFormed := wellFormed_new (ids i)
  seen := by simp [unobserved, dotOf, new, AworSetEntry.holds]
  buried := by simp [unobserved]

theorem set_run_observers (ids : ι → UInt16) (ops : List (ReplicaOp ι SetOp)) (i : ι) :
    (observers.run (unobserved ids) ops i).set = replica ids ops i := by
  have hstep : ∀ (c : ι → Observer) (d : ι → AWORSet) (op : ReplicaOp ι SetOp),
      (∀ i, (c i).set = d i) → True → ∀ i, (observers.step c op i).set = awSets.step d op i := by
    intro c d op hsets _ k
    rcases op with ⟨i, (key | key)⟩ | ⟨i, j⟩
    all_goals
      simp only [Replicated.step, Function.update_apply]
      split
    · rw [← hsets i]
      rfl
    · exact hsets k
    · rw [← hsets i]
      rfl
    · exact hsets k
    · rw [← hsets i, ← hsets j]
      rfl
    · exact hsets k
  exact foldl_simulation (R := fun (c : ι → Observer) (d : ι → AWORSet) => ∀ i, (c i).set = d i)
    hstep ops _ _ (fun _ => rfl) (stepsMeet_of_mem fun _ _ _ => trivial) i

/-- **Observed removal.** With a tombstone for each add seen, a removed key stays removed. -/
theorem staysRemoved_of_buriesObserved (ids : ι → UInt16) (ops : List (ReplicaOp ι SetOp))
    (hburies : StepsMeet observers.step BuriesObserved (unobserved ids) ops) :
    ∀ ps qs, ps <+: ops → qs <+: ops → ∀ i j,
      (observers.run (unobserved ids) ps i).StaysRemoved (observers.run (unobserved ids) qs j) := by
  have hkeeps : ∀ (c : ι → Observer) (op : ReplicaOp ι SetOp), (∀ i, (c i).Sound) →
      BuriesObserved c op → ∀ i, (observers.step c op i).Sound := by
    intro c op hc hop
    refine Replicated.forall_step (P := fun _ (o : Observer) => o.Sound) hc ?_
      (fun i j _ => (hc i).merge (hc j))
    rintro i (key | key) rfl
    · exact (hc i).add key
    · exact (hc i).remove hop
  have hsound : ∀ ps, ps <+: ops → ∀ i, (observers.run (unobserved ids) ps i).Sound :=
    fun ps hps => foldl_invariant (I := fun c : ι → Observer => ∀ i, (c i).Sound) hkeeps ps _
      (sound_unobserved ids) (hburies.initial hps)
  intro ps qs hps hqs i j
  exact (hsound ps hps i).staysRemoved (hsound qs hqs j)

theorem staysRemoved_removedAfterExchange :
    (observers.run (unobserved pairIds) removedAfterExchange 0).StaysRemoved
      (observers.run (unobserved pairIds) removedAfterExchange 1) :=
  staysRemoved_of_buriesObserved pairIds removedAfterExchange (by decide +kernel) _ _
    (prefix_refl _) (prefix_refl _) 0 1

theorem observed_add_comes_back :
    ¬ (observers.run (unobserved pairIds) removedOneOfTwo 0).StaysRemoved
      (observers.run (unobserved pairIds) removedOneOfTwo 1) := by
  intro hstays
  have hseen : (observers.run (unobserved pairIds) removedOneOfTwo 1).observed
      = [(7, ⟨2, 1⟩)] := by decide +kernel
  have hcovered : (7, ⟨2, 1⟩) ∈ (observers.run (unobserved pairIds) removedOneOfTwo 0).covered := by
    decide +kernel
  refine absurd (hstays 7 (fun d hd => ?_) (by decide +kernel)) (by decide +kernel)
  rw [hseen, mem_singleton] at hd
  rwa [hd]

end Velocity.Crdt
