import Velocity.Engine.Replay

namespace Velocity

open Lib List WorkflowContextPool StartFields

/-!
# Replaying a log for one key

A replay treats every key by itself (`replayKey`), as long as there is room.
-/

/-! ### Starts in a log -/

def WalRecord.IsStartOf (r : WalRecord) (k : UInt64) : Prop :=
  r.workflowKey = k ∧ r.eventType = .workflowStarted ∧ (ofData r.data).isSome

instance (r : WalRecord) (k : UInt64) : Decidable (r.IsStartOf k) :=
  inferInstanceAs (Decidable (_ ∧ _ ∧ _))

def HasStart (k : UInt64) (records : List WalRecord) : Prop := ∃ r ∈ records, r.IsStartOf k

instance (k : UInt64) (records : List WalRecord) : Decidable (HasStart k records) :=
  inferInstanceAs (Decidable (∃ r ∈ records, r.IsStartOf k))

variable {k : UInt64} {r : WalRecord}

theorem HasStart.of_concat {s : List WalRecord}
    (h : HasStart k (s ++ [r])) (hr : ¬ r.IsStartOf k) : HasStart k s := by
  obtain ⟨r', hr', hs⟩ := h
  rcases mem_append.mp hr' with hmem | hmem
  · exact ⟨r', hmem, hs⟩
  · rw [mem_singleton.mp hmem] at hs
    exact absurd hs hr

variable {rs post pre : List WalRecord}

theorem HasStart.exists_first (h : HasStart k rs) :
    ∃ pre r post, rs = pre ++ r :: post ∧ r.IsStartOf k ∧ ¬ HasStart k pre := by
  induction rs with
  | nil =>
    obtain ⟨r, hr, _⟩ := h
    cases hr
  | cons r rs ih =>
    by_cases hr : r.IsStartOf k
    · refine ⟨[], r, rs, rfl, hr, ?_⟩
      rintro ⟨r', hr', _⟩
      cases hr'
    · have hrest : HasStart k rs := by
        obtain ⟨r', hr', hs⟩ := h
        rcases mem_cons.mp hr' with rfl | hmem
        · exact absurd hs hr
        · exact ⟨r', hmem, hs⟩
      obtain ⟨pre, r₀, post, hsplit, hstart, hfirst⟩ := ih hrest
      refine ⟨r :: pre, r₀, post, by rw [hsplit]; rfl, hstart, ?_⟩
      rintro ⟨r', hr', hs⟩
      rcases mem_cons.mp hr' with rfl | hmem
      · exact hr hs
      · exact hfirst ⟨r', hmem, hs⟩

theorem WalRecord.IsStartOf.first_before {r' : WalRecord}
    {pre' post' : List WalRecord} (hr : r.IsStartOf k)
    (hsplit : pre ++ r :: post = pre' ++ r' :: post') (hfirst : ¬ HasStart k pre') :
    pre' <+: pre := by
  rcases append_eq_append_iff.mp hsplit with ⟨as, rfl, has⟩ | ⟨cs, rfl, _⟩
  · cases as with
    | nil =>
      rw [append_nil]
    | cons a as =>
      -- otherwise `r` itself would stand before the first start
      obtain ⟨rfl, _⟩ := List.cons.inj has
      exact absurd ⟨r, mem_append_right _ mem_cons_self, hr⟩ hfirst
  · exact prefix_append pre' cs

variable [Sha256]

/-! ### One key -/

def replayKey (now : Nat) (k : UInt64) (held : Option WorkflowContext) (r : WalRecord) :
    Option WorkflowContext :=
  if r.workflowKey = k then
    match r.eventType, held with
    | .workflowStarted, some ctx => some ctx
    | .workflowStarted, none =>
      (ofData r.data).map (fun fields => replayContext k fields now)
    | _, held => held.map (replayContextUpdate now r)
  else held

variable {now : Nat}

theorem replayKey_of_ne (h : r.workflowKey ≠ k)
    (held : Option WorkflowContext) : replayKey now k held r = held :=
  if_neg h

theorem replayKey_update (hk : r.workflowKey = k)
    (hr : r.eventType ≠ .workflowStarted) (held : Option WorkflowContext) :
    replayKey now k held r = held.map (replayContextUpdate now r) := by
  unfold replayKey
  rw [if_pos hk]
  cases htype : r.eventType with
  | workflowStarted => exact absurd htype hr
  | _ => rfl

theorem replayKey_start_some (hr : r.eventType = .workflowStarted) (ctx : WorkflowContext) :
    replayKey now k (some ctx) r = some ctx := by
  unfold replayKey
  rw [hr]
  split <;> rfl

theorem replayKey_start_none {fields : StartFields}
    (hk : r.workflowKey = k) (hr : r.eventType = .workflowStarted)
    (hfields : ofData r.data = some fields) :
    replayKey now k none r = some (replayContext k fields now) := by
  unfold replayKey
  rw [if_pos hk, hr, hfields]
  rfl

theorem isSome_replayKey {held : Option WorkflowContext}
    (h : held.isSome) (r : WalRecord) : (replayKey now k held r).isSome := by
  obtain ⟨ctx, rfl⟩ := Option.isSome_iff_exists.mp h
  by_cases hk : r.workflowKey = k
  · by_cases hr : r.eventType = .workflowStarted
    · rw [replayKey_start_some hr]
      rfl
    · rw [replayKey_update hk hr]
      rfl
  · rw [replayKey_of_ne hk]
    rfl

theorem isSome_replayKey_none : (replayKey now k none r).isSome ↔ r.IsStartOf k := by
  by_cases hk : r.workflowKey = k
  · by_cases hr : r.eventType = .workflowStarted
    · unfold replayKey
      rw [if_pos hk, hr]
      show ((ofData r.data).map _).isSome ↔ _
      rw [Option.isSome_map]
      exact ⟨fun h => ⟨hk, hr, h⟩, fun h => h.2.2⟩
    · rw [replayKey_update hk hr]
      exact ⟨fun h => absurd h Bool.false_ne_true, fun h => absurd h.2.1 hr⟩
  · rw [replayKey_of_ne hk]
    exact ⟨fun h => absurd h Bool.false_ne_true, fun h => absurd h.1 hk⟩

def replayKeyOn (now : Nat) (k : UInt64) (held : Option WorkflowContext)
    (records : List WalRecord) : Option WorkflowContext :=
  records.foldl (replayKey now k) held

theorem replayKeyOn_append (now : Nat) (k : UInt64) (held : Option WorkflowContext)
    (rs rs' : List WalRecord) :
    replayKeyOn now k held (rs ++ rs') = replayKeyOn now k (replayKeyOn now k held rs) rs' :=
  foldl_append

theorem isSome_replayKeyOn {held : Option WorkflowContext}
    (h : held.isSome) (rs : List WalRecord) : (replayKeyOn now k held rs).isSome := by
  induction rs generalizing held with
  | nil => exact h
  | cons r rs ih => exact ih (isSome_replayKey h r)

theorem isSome_replayKeyOn_none : (replayKeyOn now k none rs).isSome ↔ HasStart k rs := by
  induction rs with
  | nil =>
    constructor
    · intro h
      cases h
    · rintro ⟨r, hr, _⟩
      cases hr
  | cons r rs ih =>
    -- until its first start the key is absent
    show (replayKeyOn now k (replayKey now k none r) rs).isSome ↔ _
    by_cases hr : r.IsStartOf k
    · exact iff_of_true (isSome_replayKeyOn (isSome_replayKey_none.mpr hr) rs)
        ⟨r, mem_cons_self, hr⟩
    · have hnone : replayKey now k none r = none := by
        rw [← Option.not_isSome_iff_eq_none]
        exact fun h => hr (isSome_replayKey_none.mp h)
      rw [hnone, ih]
      constructor
      · rintro ⟨r', hr', hs⟩
        exact ⟨r', mem_cons_of_mem r hr', hs⟩
      · rintro ⟨r', hr', hs⟩
        rcases mem_cons.mp hr' with rfl | hmem
        · exact absurd hs hr
        · exact ⟨r', hmem, hs⟩

/-! ### The pool, key by key -/

variable {p : WorkflowContextPool WorkflowContext}

theorem lookup_replayOn_singleton (now : Nat) (hp : p.WellFormed)
    (hroom : r.IsStartOf k → p.lookup k = none → p.freeList ≠ []) :
    (replayOn now p [r]).lookup k = replayKey now k (p.lookup k) r := by
  by_cases hr : r.eventType = .workflowStarted
  · cases hfields : ofData r.data with
    | none =>
      -- a start that is too short to read is skipped
      have heffect : replayEffect now r = none := by
        unfold replayEffect
        rw [hr, hfields]
        rfl
      have hsame : replayOn now p [r] = p := by
        rw [replayOn, filterMap_cons, heffect]
        rfl
      rw [hsame]
      by_cases hk : r.workflowKey = k
      · cases p.lookup k with
        | none =>
          unfold replayKey
          rw [if_pos hk, hr, hfields]
          rfl
        | some ctx => rw [replayKey_start_some hr]
      · rw [replayKey_of_ne hk]
    | some fields =>
      have heffect : replayEffect now r
          = some (.insertIfAbsent r.workflowKey (replayContext r.workflowKey fields now)) := by
        unfold replayEffect
        rw [hr, hfields]
        rfl
      rw [replayOn_singleton heffect]
      show (p.insertIfAbsent r.workflowKey _).2.lookup k = _
      -- the only case in which the pool can refuse the key
      rw [hp.lookup_insertIfAbsent]
      by_cases hk : r.workflowKey = k
      · subst hk
        cases hheld : p.lookup r.workflowKey with
        | none =>
          have hfree := hroom ⟨rfl, hr, by rw [hfields]; rfl⟩ hheld
          rw [if_pos ⟨rfl, rfl, hfree⟩, replayKey_start_none rfl hr hfields]
        | some ctx =>
          rw [if_neg (by simp), replayKey_start_some hr]
      · rw [if_neg (fun h => hk h.1.symm), replayKey_of_ne hk]
  · rcases replayEffect_cases now r with ⟨hstart, _⟩ | ⟨_, heffect⟩
    · exact absurd hstart hr
    · rw [replayOn_singleton heffect]
      show (p.withMut r.workflowKey () _).2.lookup k = _
      rw [lookup_withMut]
      by_cases hk : r.workflowKey = k
      · rw [if_pos hk.symm, replayKey_update hk hr]
        rfl
      · rw [if_neg (fun h => hk h.symm), replayKey_of_ne hk]

theorem lookup_replayOn_of_full (now : Nat) (hp : p.WellFormed) (hfull : p.freeList = [])
    (hnone : p.lookup k = none) (rs : List WalRecord) : (replayOn now p rs).lookup k = none := by
  -- a replay removes nothing, so the pool stays full
  refine (replayOn_induction
    (P := fun p => p.WellFormed ∧ p.freeList = [] ∧ p.lookup k = none) ⟨hp, hfull, hnone⟩
    (fun p key ctx h => ⟨h.1.insertIfAbsent key ctx, ?_, ?_⟩)
    (fun p key f h => ⟨h.1.withMut key _ _, ?_, ?_⟩) rs).2.2
  · rw [freeList_insertIfAbsent_of_full h.2.1]
    exact h.2.1
  · rw [h.1.lookup_insertIfAbsent, if_neg (fun hand => hand.2.2 h.2.1)]
    exact h.2.2
  · rw [freeList_modify]
    exact h.2.1
  · rw [WorkflowContextPool.modify, lookup_withMut, h.2.2]
    split <;> rfl

theorem lookup_replayOn_or_none (now : Nat) (k : UInt64) (rs : List WalRecord) (hp : p.WellFormed) :
    (replayOn now p rs).lookup k = replayKeyOn now k (p.lookup k) rs
      ∨ (replayOn now p rs).lookup k = none := by
  induction rs generalizing p with
  | nil => exact Or.inl rfl
  | cons r rs ih =>
    rw [← singleton_append, replayOn_append]
    -- full: the key stays out for good
    by_cases hfull : r.IsStartOf k ∧ p.lookup k = none ∧ p.freeList = []
    · rw [← replayOn_append]
      exact Or.inr (lookup_replayOn_of_full now hp hfull.2.2 hfull.2.1 _)
    · have hhead := lookup_replayOn_singleton now hp
        (fun hr hnone hfree => hfull ⟨hr, hnone, hfree⟩)
      rcases ih (wellFormed_replayOn now hp [r]) with h | h
      · rw [hhead] at h
        exact Or.inl h
      · exact Or.inr h

theorem lookup_replayOn_of_held (hp : p.WellFormed) (hk : (p.lookup k).isSome)
    (rs : List WalRecord) : (replayOn now p rs).lookup k = replayKeyOn now k (p.lookup k) rs := by
  refine (lookup_replayOn_or_none now k rs hp).resolve_right (fun hnone => ?_)
  have hheld := isSome_lookup_replayOn now hp hk rs
  rw [hnone] at hheld
  cases hheld

theorem replayKeyOn_none_of_no_start (now : Nat)
    (h : ¬ HasStart k rs) : replayKeyOn now k none rs = none := by
  rw [← Option.not_isSome_iff_eq_none, isSome_replayKeyOn_none]
  exact h

theorem lookup_replayOn_new_of_no_start (now : Nat)
    (h : ¬ HasStart k rs) : (replayOn now WorkflowContextPool.new rs).lookup k = none := by
  rcases lookup_replayOn_or_none now k rs WorkflowContextPool.wellFormed_new with hfold | hnone
  · exact hfold.trans (replayKeyOn_none_of_no_start now h)
  · exact hnone

theorem lookup_replayOn_new (hr : r.IsStartOf k) (hfirst : ¬ HasStart k pre)
    (hroom : (replayOn now WorkflowContextPool.new pre).freeList ≠ []) :
    (replayOn now WorkflowContextPool.new (pre ++ r :: post)).lookup k
      = replayKeyOn now k none (pre ++ r :: post) := by
  have hpre := wellFormed_replayOn now WorkflowContextPool.wellFormed_new pre
  -- from the first start on the pool follows
  have htaken := lookup_replayOn_singleton now hpre (r := r) (k := k) (fun _ _ => hroom)
  rw [lookup_replayOn_new_of_no_start now hfirst] at htaken
  have hheld : ((replayOn now (replayOn now WorkflowContextPool.new pre) [r]).lookup k).isSome := by
    rw [htaken]
    exact isSome_replayKey_none.mpr hr
  rw [← singleton_append, replayOn_append, replayOn_append,
    lookup_replayOn_of_held (wellFormed_replayOn now hpre [r]) hheld, htaken, replayKeyOn_append,
    replayKeyOn_append, replayKeyOn_none_of_no_start now hfirst]
  rfl

theorem freeList_replayOn (now : Nat) (rs : List WalRecord)
    (p : WorkflowContextPool WorkflowContext) :
    p.freeList.length ≤ (replayOn now p rs).freeList.length
      + rs.countP (·.eventType = .workflowStarted) := by
  induction rs generalizing p with
  | nil => exact Nat.le_refl _
  | cons r rs ih =>
    have hstep : p.freeList.length ≤ (replayOn now p [r]).freeList.length
        + if r.eventType = .workflowStarted then 1 else 0 := by
      rcases replayEffect_cases now r with ⟨hr, ⟨ctx, heffect⟩ | hnone⟩ | ⟨hr, heffect⟩
      · rw [replayOn_singleton heffect, if_pos hr]
        exact freeList_insertIfAbsent p r.workflowKey ctx
      · rw [replayOn, filterMap_cons, hnone]
        exact Nat.le_add_right _ _
      · rw [replayOn_singleton heffect, if_neg hr]
        show _ ≤ (p.modify r.workflowKey _).freeList.length + 0
        rw [freeList_modify]
        exact Nat.le_refl _
    have hrest := ih (replayOn now p [r])
    rw [← replayOn_append, singleton_append] at hrest
    rw [countP_cons]
    simp only [decide_eq_true_eq]
    omega

theorem room_of_countP_lt (now : Nat)
    (h : rs.countP (·.eventType = .workflowStarted) < workflowPoolCapacity) :
    (replayOn now WorkflowContextPool.new rs).freeList ≠ [] := by
  have hfree := freeList_replayOn now rs WorkflowContextPool.new
  have hall : (WorkflowContextPool.new : WorkflowContextPool WorkflowContext).freeList.length
      = workflowPoolCapacity := length_finRange
  intro hempty
  rw [hempty, hall, length_nil] at hfree
  omega

theorem lookup_replayOn_new_of_countP_lt (hr : r.IsStartOf k)
    (hcount : pre.countP (·.eventType = .workflowStarted) < workflowPoolCapacity) :
    (replayOn now WorkflowContextPool.new (pre ++ r :: post)).lookup k
      = replayKeyOn now k none (pre ++ r :: post) := by
  have hhas : HasStart k (pre ++ r :: post) :=
    ⟨r, mem_append_right _ mem_cons_self, hr⟩
  -- the first start of `k` comes no later
  obtain ⟨pre', r', post', hsplit, hr', hfirst⟩ := hhas.exists_first
  have hbefore := hr.first_before hsplit hfirst
  rw [hsplit]
  exact lookup_replayOn_new hr' hfirst
    (room_of_countP_lt now (Nat.lt_of_le_of_lt hbefore.sublist.countP_le hcount))

/-! ### Views of a replay -/

structure ReplayView {V : Type} (v : WorkflowContext → V) : Prop where
  fresh : ∀ k fields now now', v (replayContext k fields now) = v (replayContext k fields now')
  update : ∀ r now now' {c d}, v c = v d →
    v (replayContextUpdate now r c) = v (replayContextUpdate now' r d)

variable {V : Type} {v : WorkflowContext → V} {P : WorkflowContext → Prop}

theorem ReplayView.map_replayKey (hv : ReplayView v) {now' : Nat}
    {x y : Option WorkflowContext} (h : x.map v = y.map v) (r : WalRecord) :
    (replayKey now k x r).map v = (replayKey now' k y r).map v := by
  by_cases hk : r.workflowKey = k
  · by_cases hr : r.eventType = .workflowStarted
    · cases x with
      | none =>
        cases y with
        | none =>
          unfold replayKey
          rw [if_pos hk, if_pos hk, hr]
          show ((ofData r.data).map _).map v = ((ofData r.data).map _).map v
          cases ofData r.data with
          | none => rfl
          | some fields => exact congrArg some (hv.fresh k fields now now')
        | some d => cases h
      | some c =>
        cases y with
        | none => cases h
        | some d =>
          rw [replayKey_start_some hr, replayKey_start_some hr]
          exact h
    · rw [replayKey_update hk hr, replayKey_update hk hr]
      cases x with
      | none =>
        cases y with
        | none => rfl
        | some d => cases h
      | some c =>
        cases y with
        | none => cases h
        | some d => exact congrArg some (hv.update r now now' (Option.some.inj h))
  · rw [replayKey_of_ne hk, replayKey_of_ne hk]
    exact h

theorem ReplayView.map_replayKeyOn (hv : ReplayView v) {now' : Nat}
    (rs : List WalRecord) {x y : Option WorkflowContext} (h : x.map v = y.map v) :
    (replayKeyOn now k x rs).map v = (replayKeyOn now' k y rs).map v := by
  induction rs generalizing x y with
  | nil => exact h
  | cons r rs ih => exact ih (hv.map_replayKey h r)

end Velocity
