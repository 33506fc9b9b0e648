import Velocity.Services.HistoryCompaction

namespace Velocity

open Lib List

/-!
# Ids and ranges in compacted histories

A terminal state's range comes from events that are in no order.

* `Tidy`: what the first two passes keep of ids and ranges.
* `coversAll_iff`: no gaps, exactly when the third pass trims cleanly.
-/

namespace CompactableEvent

variable (e : CompactableEvent) (n : Nat)

def lo : Nat := e.mergedRange.elim e.eventId Prod.fst

def hi : Nat := e.mergedRange.elim e.eventId Prod.snd

def standsFor : Bool := e.lo ≤ n && n ≤ e.hi

def covers : Bool := n == e.eventId || e.standsFor n

/-- The range is in order, and the id was given out. -/
def Fine (next : Nat) (ids : List Nat) (e : CompactableEvent) : Prop :=
  e.lo ≤ e.hi ∧ e.eventId < next ∧ (e.eventId ∈ ids → e.mergedRange = none)

variable {e n} {next next' : Nat} {ids : List Nat} {l : List CompactableEvent}

theorem standsFor_iff : e.standsFor n ↔ e.lo ≤ n ∧ n ≤ e.hi := by
  simp [standsFor]

theorem lo_hi_of_raw (h : e.mergedRange = none) : e.lo = e.eventId ∧ e.hi = e.eventId := by
  rw [lo, hi, h]
  exact ⟨rfl, rfl⟩

theorem standsFor_level {level : CompactionLevel} :
    (e.withLevel level).standsFor n = e.standsFor n :=
  rfl

theorem any_standsFor_level {level : CompactionLevel} :
    (l.map (·.withLevel level)).any (·.standsFor n) = l.any (·.standsFor n) :=
  any_map

theorem Fine.mono (h : Fine next ids e) (hle : next ≤ next') : Fine next' ids e :=
  ⟨h.1, h.2.1.trans_le hle, h.2.2⟩

theorem any_covers_iff (h : ∀ e ∈ l, Fine next ids e) (hn : n ∈ ids) :
    l.any (·.covers n) ↔ l.any (·.standsFor n) := by
  simp only [any_eq_true, covers, Bool.or_eq_true, beq_iff_eq]
  refine exists_congr fun e => and_congr_right fun he => or_iff_right_of_imp ?_
  rintro rfl
  have hraw := lo_hi_of_raw ((h e he).2.2 hn)
  exact standsFor_iff.mpr ⟨hraw.1.le, hraw.2.ge⟩

end CompactableEvent

def Rising : Nat → List CompactableEvent → Prop
  | _, [] => True
  | b, e :: rest => b < e.lo ∧ e.lo ≤ e.hi ∧ e.hi ≤ e.eventId ∧ Rising e.hi rest

namespace Grouping

open CompactableEvent

variable {g : Grouping} {o : Option (CompactableEvent × CompactableEvent)}
  {l : List CompactableEvent} {b n : Nat}

theorem standsFor_merged {first last : CompactableEvent} {id : Nat} :
    (g.merged id first last).standsFor n ↔ first.eventId ≤ n ∧ n ≤ last.eventId :=
  standsFor_iff

theorem squash_spec {id a : Nat} (hl : Rising b l) (hids : ∀ e ∈ l, e.eventId < id)
    (hopens : ∀ e ∈ l, g.opens e.eventType → e.lo = e.eventId)
    (hends : ∀ e ∈ l, g.closes e.eventType ∨ (∃ t, ¬ g.continues t) → e.hi = e.eventId)
    (hnone : o = none → a = b)
    (hgroup : ∀ first last, o = some (first, last) → a < first.eventId ∧ first.eventId ≤ b
      ∧ last.hi = b ∧ b ≤ last.eventId ∧ last.eventId < id
      ∧ ((∃ t, ¬ g.continues t) → b = last.eventId)) :
    Rising a (g.squash id o l).1
      ∧ ∀ n, ((∃ first last, o = some (first, last) ∧ first.eventId ≤ n ∧ n ≤ b)
        ∨ l.any (·.standsFor n)) → (g.squash id o l).1.any (·.standsFor n) := by
  fun_induction g.squash id o l generalizing b a with
  | case1 => simp [Rising]
  | case2 id first last =>
    obtain ⟨hfirst, hle, hlast, hid, hlt, -⟩ := hgroup first last rfl
    refine ⟨⟨hfirst, hle.trans hid, hlt.le, trivial⟩, ?_⟩
    grind [standsFor_merged]
  | case3 id e rest hopen ih =>
    obtain ⟨hb, hle, hid, hrest⟩ := hl
    obtain rfl := hnone rfl
    rw [forall_mem_cons] at hids hopens hends
    have hlo := hopens.1 hopen
    obtain ⟨hrising, hstands⟩ := ih (a := a) hrest hids.2 hopens.2 hends.2 (by simp)
      (by grind)
    refine ⟨hrising, fun n hn => hstands n ?_⟩
    grind [standsFor_iff]
  | case4 id e rest hopen ih =>
    obtain ⟨hb, hle, hid, hrest⟩ := hl
    obtain rfl := hnone rfl
    rw [forall_mem_cons] at hids hopens hends
    obtain ⟨hrising, hstands⟩ := ih hrest hids.2 hopens.2 hends.2 (fun _ => rfl) (by simp)
    refine ⟨⟨hb, hle, hid, hrising⟩, fun n hn => ?_⟩
    have hrest := hstands n
    simp only [any_cons, Bool.or_eq_true, standsFor_level] at hn ⊢
    grind
  | case5 id first last e rest hcont hcloses ih =>
    obtain ⟨hb, hle, hid, hrest⟩ := hl
    obtain ⟨hfirst, hfirstLe, -⟩ := hgroup first last rfl
    rw [forall_mem_cons] at hids hopens hends
    obtain ⟨hrising, hstands⟩ := ih hrest
      (fun x hx => (hids.2 x hx).trans (Nat.lt_succ_self _)) hopens.2 hends.2 (fun _ => rfl)
      (by simp)
    rw [hends.1 (.inl hcloses)] at hrising
    have hle' : first.eventId ≤ e.eventId := by omega
    refine ⟨⟨hfirst, hle', hids.1.le, hrising⟩, fun n hn => ?_⟩
    have hrest := hstands n
    simp only [any_cons, Bool.or_eq_true, standsFor_merged] at hn ⊢
    grind [standsFor_iff]
  | case6 id first last e rest hcont hcloses ih =>
    obtain ⟨hb, hle, hid, hrest⟩ := hl
    obtain ⟨hfirst, hfirstLe, -⟩ := hgroup first last rfl
    rw [forall_mem_cons] at hids hopens hends
    obtain ⟨hrising, hstands⟩ := ih (a := a) hrest hids.2 hopens.2 hends.2 (by simp)
      (by grind)
    refine ⟨hrising, fun n hn => hstands n ?_⟩
    grind [standsFor_iff]
  | case7 id first last e rest hcont ih =>
    obtain ⟨hb, hle, hid, hrest⟩ := hl
    obtain ⟨hfirst, hfirstLe, hlast, hlastLe, hlt, hraw⟩ := hgroup first last rfl
    rw [forall_mem_cons] at hids hopens hends
    obtain ⟨hrising, hstands⟩ := ih hrest
      (fun x hx => (hids.2 x hx).trans (Nat.lt_succ_self _)) hopens.2 hends.2 (fun _ => rfl)
      (by simp)
    have hraw := hraw ⟨_, hcont⟩
    refine ⟨⟨hfirst, hfirstLe.trans hlastLe, hlt.le, hraw.symm.trans_lt hb, hle, hid, hrising⟩,
      fun n hn => ?_⟩
    have hrest := hstands n
    simp only [any_cons, Bool.or_eq_true, standsFor_merged, standsFor_level] at hn ⊢
    grind [standsFor_iff]

theorem squash_none {id : Nat} (hl : Rising b l) (hids : ∀ e ∈ l, e.eventId < id)
    (hopens : ∀ e ∈ l, g.opens e.eventType → e.lo = e.eventId)
    (hends : ∀ e ∈ l, g.closes e.eventType ∨ (∃ t, ¬ g.continues t) → e.hi = e.eventId) :
    Rising b (g.squash id none l).1
      ∧ ∀ n, l.any (·.standsFor n) → (g.squash id none l).1.any (·.standsFor n) := by
  obtain ⟨hrising, hstands⟩ := g.squash_spec (o := none) hl hids hopens hends
    (fun _ => rfl) (by simp)
  exact ⟨hrising, fun n hn => hstands n (.inr hn)⟩

theorem mem_squash {r : CompactableEvent} {id : Nat} (hr : r ∈ (g.squash id o l).1) :
    (∃ e ∈ l, r = e.withLevel g.level)
      ∨ r.eventType = g.mergedType ∧ id ≤ r.eventId ∧ r.eventId < (g.squash id o l).2 := by
  fun_induction g.squash id o l <;> grind [merged, le_squash_snd]

end Grouping

namespace Rising

variable {b b' : Nat} {e : CompactableEvent} {l l' out : List CompactableEvent}

theorem mono (hb : b ≤ b') (h : Rising b' l) : Rising b l := by
  cases l with
  | nil => trivial
  | cons e l => exact ⟨hb.trans_lt h.1, h.2⟩

theorem of_append (h : Rising b (l ++ l')) : Rising b l ∧ Rising b l' := by
  induction l generalizing b with
  | nil => exact ⟨trivial, h⟩
  | cons e l ih =>
    obtain ⟨hb, hle, hid, hrest⟩ := h
    exact ⟨⟨hb, hle, hid, (ih hrest).1⟩, (ih hrest).2.mono (by omega)⟩

theorem range (h : Rising b l) : ∀ e ∈ l, e.lo ≤ e.hi := by
  induction l generalizing b with
  | nil => simp
  | cons e l ih => exact forall_mem_cons.mpr ⟨h.2.1, ih h.2.2.2⟩

theorem append_congr (h : Rising b (l ++ l')) (hout : ∀ b, Rising b l' → Rising b out) :
    Rising b (l ++ out) := by
  induction l generalizing b with
  | nil => exact hout b h
  | cons e l ih => exact ⟨h.1, h.2.1, h.2.2.1, ih h.2.2.2⟩

theorem concat (h : Rising b l) (hb : b < e.eventId) (hl : ∀ x ∈ l, x.eventId < e.eventId)
    (he : e.mergedRange = none) : Rising b (l ++ [e]) := by
  obtain ⟨hlo, hhi⟩ := CompactableEvent.lo_hi_of_raw he
  induction l generalizing b with
  | nil => exact ⟨hlo ▸ hb, (hlo.trans hhi.symm).le, hhi.le, trivial⟩
  | cons x l ih =>
    rw [forall_mem_cons] at hl
    exact ⟨h.1, h.2.1, h.2.2.1, ih h.2.2.2 (h.2.2.1.trans_lt hl.1) hl.2⟩

end Rising

def CompactedHistory.CoversAll (h : CompactedHistory) (ids : List Nat) : Prop :=
  (∀ r ∈ h.retained, r.lo ≤ r.hi) ∧ ∀ n ∈ ids, h.retained.any (·.covers n)

namespace Compacting

open CompactableEvent CompactedHistory

variable {config : CompactionConfig} {s : Compacting} {ids : List Nat}

structure Tidy (s : Compacting) (ids : List Nat) : Prop where
  rising : Rising 0 (s.1.l1 ++ s.1.l0)
  raw : ∀ e ∈ s.1.l0, e.mergedRange = none
  rawTask : ∀ e ∈ s.1.l1, stepGroups.opens e.eventType ∨ stepGroups.closes e.eventType →
    e.mergedRange = none
  fine : ∀ e ∈ s.1.retained, e.Fine s.2 ids
  issued : ∀ n ∈ ids, n < s.2
  covered : ∀ n ∈ ids, s.1.retained.any (·.standsFor n)

theorem Tidy.coversAll (h : Tidy s ids) : s.1.CoversAll ids :=
  ⟨fun r hr => (h.fine r hr).1, fun n hn => (any_covers_iff h.fine hn).mpr (h.covered n hn)⟩

theorem Tidy.mono {next : Nat} (h : Tidy s ids) (hle : s.2 ≤ next) : Tidy (s.1, next) ids :=
  ⟨h.rising, h.raw, h.rawTask, fun e he => (h.fine e he).mono hle,
    fun n hn => (h.issued n hn).trans_le hle, h.covered⟩

theorem Tidy.fine_squash {g : Grouping} {l : List CompactableEvent} {b : Nat} (h : Tidy s ids)
    (hl : l ⊆ s.1.retained) (hrising : Rising b (g.squash s.2 none l).1) :
    ∀ r ∈ (g.squash s.2 none l).1, r.Fine (g.squash s.2 none l).2 ids := by
  intro r hr
  obtain ⟨e, he, rfl⟩ | ⟨-, hlo, hhi⟩ := g.mem_squash hr
  · exact (h.fine e (hl he)).mono (g.le_squash_snd none l _)
  · exact ⟨hrising.range r hr, hhi, fun hn => absurd (h.issued _ hn) (Nat.not_lt.mpr hlo)⟩

theorem Tidy.compactL0ToL1 (h : Tidy s ids) (config : CompactionConfig) :
    Tidy (s.compactL0ToL1 config) ids := by
  rw [Compacting.compactL0ToL1]
  split
  swap
  · exact h
  have hsub : s.1.l0 ⊆ s.1.retained := by simp [retained]
  have hspec := fun b (hb : Rising b s.1.l0) => activityGroups.squash_none hb
    (fun e he => (h.fine e (hsub he)).2.1) (fun e he _ => (lo_hi_of_raw (h.raw e he)).1)
    (fun e he _ => (lo_hi_of_raw (h.raw e he)).2)
  have hnext := activityGroups.le_squash_snd none s.1.l0 s.2
  obtain ⟨hrising, hstands⟩ := hspec 0 h.rising.of_append.2
  have hout := h.fine_squash hsub hrising
  have hold := fun e he => (h.fine e he).mono hnext
  refine ⟨?_, by simp, ?_, ?_, fun n hn => (h.issued n hn).trans_le hnext, fun n hn => ?_⟩
  · rw [append_nil]
    exact h.rising.append_congr fun b hb => (hspec b hb).1
  · rw [forall_mem_append]
    refine ⟨h.rawTask, fun r hr htype => ?_⟩
    obtain ⟨e, he, rfl⟩ | hmerged := activityGroups.mem_squash hr
    · exact h.raw e he
    · rw [hmerged.1] at htype
      exact absurd htype (by decide)
  · simp only [retained, forall_mem_append, nil_append] at hold ⊢
    exact ⟨⟨⟨hold.1.1.2, hout⟩, hold.1.2⟩, hold.2⟩
  · have hcov := h.covered n hn
    have hl0 := hstands n
    simp only [retained, any_append, any_nil] at hcov ⊢
    grind

theorem Tidy.compactL1ToL2 (h : Tidy s ids) (config : CompactionConfig) :
    Tidy (s.compactL1ToL2 config) ids := by
  rw [Compacting.compactL1ToL2]
  split
  swap
  · exact h
  have hsub : s.1.l1 ⊆ s.1.retained := by simp [retained]
  have hnext := stepGroups.le_squash_snd none s.1.l1 s.2
  obtain ⟨hrising, hstands⟩ := stepGroups.squash_none h.rising.of_append.1
    (fun e he => (h.fine e (hsub he)).2.1)
    (fun e he hopens => (lo_hi_of_raw (h.rawTask e he (.inl hopens))).1)
    (fun e he hcloses => (lo_hi_of_raw (h.rawTask e he
      (.inr (by simpa [stepGroups] using hcloses)))).2)
  have hout := h.fine_squash hsub hrising
  have hold := fun e he => (h.fine e he).mono hnext
  refine ⟨h.rising.of_append.2, h.raw, by simp, ?_, fun n hn => (h.issued n hn).trans_le hnext,
    fun n hn => ?_⟩
  · simp only [retained, forall_mem_append, append_nil] at hold ⊢
    exact ⟨⟨hold.1.1.1, hold.1.2, hout⟩, hold.2⟩
  · have hcov := h.covered n hn
    have hl1 := hstands n
    simp only [retained, any_append, any_nil] at hcov ⊢
    grind

/-- The first and last id of a trimmed level enclose the others. -/
def TrimsCleanly (config : CompactionConfig) (s : Compacting) (ids : List Nat) : Prop :=
  s.Trims config → ∀ first rest, s.1.l2 = first :: rest →
    first.eventId ≤ (rest.getLastD first).eventId
      ∧ ∀ n ∈ ids, (first.eventId ≤ n ∧ n ≤ (rest.getLastD first).eventId)
        ∨ (s.1.l0 ++ s.1.l1 ++ s.1.l3 ++ first :: s.audit config).any (·.standsFor n)

theorem Tidy.compactL2ToL3_iff (h : Tidy s ids) (config : CompactionConfig) :
    (TrimsCleanly config s ids → Tidy (s.compactL2ToL3 config) ids)
      ∧ ((s.compactL2ToL3 config).1.CoversAll ids → TrimsCleanly config s ids) := by
  obtain ⟨hsame | hmoved, hnot⟩ | ⟨htrims, first, rest, hl2, htrimmed⟩ :=
    compactL2ToL3_cases config s
  · rw [hsame]
    exact ⟨fun _ => h, fun _ htrims => absurd htrims hnot⟩
  · rw [hmoved]
    refine ⟨fun _ => ⟨h.rising, h.raw, h.rawTask, ?_, h.issued, fun n hn => ?_⟩,
      fun _ htrims => absurd htrims hnot⟩
    · have hfine := h.fine
      simp only [retained, forall_mem_append, forall_mem_map, append_nil] at hfine ⊢
      exact ⟨hfine.1.1, hfine.2, hfine.1.2⟩
    · have hcov := h.covered n hn
      simp only [retained, any_append, any_standsFor_level, any_nil] at hcov ⊢
      grind
  · -- What stays is as it was; the terminal state stands for what is between the two ids.
    have hfine : first.eventId ≤ (rest.getLastD first).eventId →
        ∀ e ∈ (s.compactL2ToL3 config).1.retained, e.Fine (s.2 + 1) ids := by
      have hold := fun e he => (h.fine e he).mono (Nat.le_succ _)
      have haudit : ∀ e ∈ s.audit config, e.Fine (s.2 + 1) ids := fun e he =>
        hold e (by simp [retained, mem_of_mem_drop he])
      rw [htrimmed]
      simp only [retained, hl2, forall_mem_append, forall_mem_cons, forall_mem_map,
        append_nil] at hold ⊢
      exact fun hle => ⟨hold.1.1, hold.2, hold.1.2.1,
        ⟨hle, Nat.lt_succ_self _, fun hn => absurd (h.issued _ hn) (Nat.lt_irrefl _)⟩, haudit⟩
    have hany : ∀ n, (s.compactL2ToL3 config).1.retained.any (·.standsFor n)
        ↔ (first.eventId ≤ n ∧ n ≤ (rest.getLastD first).eventId)
          ∨ (s.1.l0 ++ s.1.l1 ++ s.1.l3 ++ first :: s.audit config).any (·.standsFor n) := by
      intro n
      have hterminal : (s.terminal first (rest.getLastD first)).standsFor n
        ↔ first.eventId ≤ n ∧ n ≤ (rest.getLastD first).eventId := standsFor_iff
      rw [htrimmed]
      simp only [retained, any_append, any_cons, any_standsFor_level, any_nil, Bool.or_eq_true,
        hterminal]
      grind
    refine ⟨fun hclean => ?_, fun hcov _ f r hfr => ?_⟩
    · obtain ⟨hle, hids⟩ := hclean htrims first rest hl2
      have hnext : (s.compactL2ToL3 config).2 = s.2 + 1 := by rw [htrimmed]
      refine ⟨?_, ?_, ?_, hnext ▸ hfine hle, hnext ▸ fun n hn => (h.issued n hn).trans
        (Nat.lt_succ_self _), fun n hn => (hany n).mpr (hids n hn)⟩
      all_goals rw [htrimmed]
      exacts [h.rising, h.raw, h.rawTask]
    · obtain ⟨rfl, rfl⟩ := cons.inj (hl2.symm.trans hfr)
      have hle : first.eventId ≤ (rest.getLastD first).eventId :=
        hcov.1 (s.terminal first (rest.getLastD first)) (by rw [htrimmed]; simp [retained])
      exact ⟨hle, fun n hn => (hany n).mp ((any_covers_iff (hfine hle) hn).mp (hcov.2 n hn))⟩

theorem Tidy.append {h : CompactedHistory} {next : Nat} {e : CompactableEvent}
    (ht : Tidy (h, next) ids) (hid : e.eventId = next) (hpos : 0 < next)
    (hraw : e.mergedRange = none) :
    Tidy ({ h with l0 := h.l0 ++ [e] }, next + 1) (next :: ids) := by
  obtain ⟨hrising, hraws, hrawTask, hfine, hissued, hcovered⟩ := ht
  have hloHi := lo_hi_of_raw hraw
  have hold : ∀ x ∈ h.retained, x.Fine (next + 1) (next :: ids) := fun x hx =>
    have hx := hfine x hx
    ⟨hx.1, hx.2.1.trans (Nat.lt_succ_self _), fun hmem => hx.2.2
      ((mem_cons.mp hmem).resolve_left hx.2.1.ne)⟩
  refine ⟨?_, ?_, hrawTask, ?_, ?_, ?_⟩
  · rw [← append_assoc]
    refine hrising.concat (hid ▸ hpos) (fun x hx => hid ▸ (hfine x ?_).2.1) hraw
    simp only [retained, mem_append] at hx ⊢
    grind
  · simpa [or_imp, forall_and] using ⟨hraws, hraw⟩
  · have hnew : e.Fine (next + 1) (next :: ids) := ⟨by omega, by omega, fun _ => hraw⟩
    simp only [retained, forall_mem_append, forall_mem_singleton] at hold ⊢
    exact ⟨⟨⟨⟨hold.1.1.1, hnew⟩, hold.1.1.2⟩, hold.1.2⟩, hold.2⟩
  · exact forall_mem_cons.mpr ⟨Nat.lt_succ_self _,
      fun n hn => (hissued n hn).trans (Nat.lt_succ_self _)⟩
  · have hnew : e.standsFor next := standsFor_iff.mpr (by omega)
    refine forall_mem_cons.mpr ⟨?_, fun n hn => ?_⟩
    · simp [retained, hnew]
    · have hcov := hcovered n hn
      simp only [retained, any_append] at hcov ⊢
      grind

end Compacting

namespace CompactorRun

open Compacting

def ids (s : CompactorRun) (k : UInt64) : List Nat :=
  (s.appended.filter (·.workflowKey == k)).map (·.eventId)

/-- Ranges are in order and cover every id of the workflow. -/
def CoversAll (k : UInt64) (s : CompactorRun) : Prop :=
  (s.current k).1.CoversAll (s.ids k)

/-- The condition of `TrimsCleanly` on what the first two passes make of the state. -/
def CompactsCleanly (k : UInt64) (s : CompactorRun) : CompactorOp → Prop
  | .append _ _ _ => True
  | .compact key => key = k →
    TrimsCleanly s.compactor.config (((s.current k).compactL0ToL1 s.compactor.config).compactL1ToL2
      s.compactor.config) (s.ids k)

def Tidy (k : UInt64) (s : CompactorRun) : Prop :=
  0 < s.compactor.nextEventId ∧ (s.current k).Tidy (s.ids k)

variable {s : CompactorRun} {k : UInt64}

theorem Tidy.append (h : Tidy k s) (key : UInt64) (eventType : CompactableEventType)
    (payload : Bytes) : Tidy k (s.step (.append key eventType payload)) := by
  have hids : (s.step (.append key eventType payload)).ids k
      = if key = k then s.compactor.nextEventId :: s.ids k else s.ids k := by
    simp only [ids, step, HistoryCompactor.newEvent, filter_cons, beq_iff_eq]
    split <;> rfl
  rw [Tidy, current_append, hids]
  refine ⟨Nat.succ_pos _, ?_⟩
  split
  · exact h.2.append rfl h.1 rfl
  · exact h.2.mono (Nat.le_succ _)

theorem Tidy.compact_iff (h : Tidy k s) (key : UInt64) :
    (CompactsCleanly k s (.compact key) → Tidy k (s.step (.compact key)))
      ∧ (CoversAll k (s.step (.compact key)) → CompactsCleanly k s (.compact key)) := by
  obtain ⟨-, hempty, hsame⟩ | ⟨hkey, hcompact⟩ | ⟨hkey, hhistory, hnext⟩ :=
    current_compact_cases s key k
  · have hcurrent : s.current k = (⟨[], [], [], []⟩, (s.current k).2) := Prod.ext hempty rfl
    refine ⟨fun _ => hsame.symm ▸ h, fun _ _ => ?_⟩
    rw [hcurrent]
    simp [TrimsCleanly, compactL0ToL1, compactL1ToL2, Grouping.squash]
  · have hiff := ((h.2.compactL0ToL1 s.compactor.config).compactL1ToL2
      s.compactor.config).compactL2ToL3_iff s.compactor.config
    have hle := le_compact s.compactor.config (s.current k)
    rw [← compact, ← hcompact] at hiff
    rw [← hcompact] at hle
    exact ⟨fun hgood => ⟨h.1.trans_le hle, hiff.1 (hgood hkey)⟩, fun hcov _ => hiff.2 hcov⟩
  · have hother := h.2.mono hnext
    rw [← hhistory] at hother
    exact ⟨fun _ => ⟨h.1.trans_le hnext, hother⟩, fun _ heq => absurd heq hkey⟩

/-- **No gaps** iff every compaction trims cleanly. -/
theorem coversAll_iff (config : CompactionConfig) (k : UInt64) (ops : List CompactorOp) :
    (∀ ps, ps <+: ops → CoversAll k (ps.foldl step (start config)))
      ↔ StepsMeet step (CompactsCleanly k) (start config) ops := by
  refine forall_prefixes_iff_stepsMeet (I := Tidy k) (fun _ h => h.2.coversAll)
    (fun s op h _ hgood => ?_) (fun s op h _ hcov => ?_) ?_ (stepsMeet_of_mem fun _ _ _ => trivial)
  · cases op with
    | append key eventType payload => exact h.append key eventType payload
    | compact key => exact (h.compact_iff key).1 hgood
  · cases op with
    | append key eventType payload => trivial
    | compact key => exact (h.compact_iff key).2 hcov
  · refine ⟨Nat.one_pos, ?_⟩
    constructor <;>
      simp [current, ids, start, HistoryCompactor.new, Rising, CompactedHistory.retained]

theorem not_coversAll_signal :
    ¬ CoversAll 7 ([CompactorOp.append 7 .activityTaskCompleted [], .append 7 .signalReceived [],
      .compact 7].foldl step (start ⟨1, 1, 1, 0⟩)) :=
  fun h => absurd h.1 (by decide)

end CompactorRun

end Velocity
