import Mathlib.Data.List.Forall2
import Mathlib.Tactic.Common

namespace Velocity.Search

open List

/-!
# LIKE patterns

`like_match` compares characters before it looks for `%`.
-/

/-! ### The loop -/

/-- A backtracking point is the pattern after its `%` and the value tried. -/
structure LikeState where
  value : List Char
  pattern : List Char
  star : Option (List Char × List Char)

namespace LikeState

def back (s : LikeState) : Option LikeState :=
  s.star.map (fun star => ⟨star.2.tail, star.1, some (star.1, star.2.tail)⟩)

def round (s : LikeState) (v : Char) (vs : List Char) : Option LikeState :=
  match s.pattern with
  | [] => s.back
  | p :: ps =>
    if p = '_' ∨ p = v then some ⟨vs, ps, s.star⟩
    else if p = '%' then some ⟨v :: vs, ps, some (ps, v :: vs)⟩
    else s.back

end LikeState

def likeLoop : Nat → LikeState → Option Bool
  | 0, _ => none
  | rounds + 1, s =>
    match s.value with
    | [] => some (s.pattern.all (· == '%'))
    | v :: vs =>
      match s.round v vs with
      | some s => likeLoop rounds s
      | none => some false

def likeMatch (value pattern : List Char) : Option Bool :=
  likeLoop (value.length * (pattern.length + 2) + pattern.length + 1) ⟨value, pattern, none⟩

/-! ### What a pattern stands for -/

def StandsFor (p : Char) (piece : List Char) : Prop :=
  if p = '%' then True else if p = '_' then piece.length = 1 else piece = [p]

/-- The value is made of one piece for each character of the pattern. -/
def Matches (value pattern : List Char) : Prop :=
  ∃ pieces, List.Forall₂ StandsFor pattern pieces ∧ pieces.flatten = value

/-- A `%` that meets a `%` stands for just that one. -/
inductive Reads : List Char → List Char → Prop
  | nil : Reads [] []
  | one {p v : Char} {ps vs : List Char} (h : p = '_' ∨ p = v) (hrest : Reads ps vs) :
      Reads (p :: ps) (v :: vs)
  | many {ps vs ws : List Char} (h : ∀ v ∈ vs.head?, v ≠ '%') (hws : ws <:+ vs)
      (hrest : Reads ps ws) : Reads ('%' :: ps) vs

variable {vs ps : List Char}

theorem reads_nil_iff : Reads [] vs ↔ vs = [] := by
  constructor
  · rintro ⟨⟩
    rfl
  · rintro rfl
    exact .nil

theorem reads_to_nil_iff : Reads ps [] ↔ ps.all (· == '%') = true := by
  induction ps with
  | nil => exact iff_of_true .nil rfl
  | cons p ps ih =>
    rw [all_cons, Bool.and_eq_true, beq_iff_eq, ← ih]
    constructor
    · intro h
      cases h with
      | many _ hws hrest =>
        rw [suffix_nil.mp hws] at hrest
        exact ⟨rfl, hrest⟩
    · rintro ⟨rfl, hrest⟩
      exact .many (by simp) (suffix_refl []) hrest

variable {p : Char}

theorem reads_cons_of_agree {v : Char} (h : p = '_' ∨ p = v) :
    Reads (p :: ps) (v :: vs) ↔ Reads ps vs := by
  constructor
  · intro hreads
    cases hreads with
    | one _ hrest => exact hrest
    | many hne _ _ =>
      rcases h with h | h
      · exact absurd h (by decide)
      · exact absurd h.symm (hne v rfl)
  · exact .one h

theorem reads_percent_iff (h : ∀ v ∈ vs.head?, v ≠ '%') :
    Reads ('%' :: ps) vs ↔ ∃ ws, ws <:+ vs ∧ Reads ps ws := by
  constructor
  · intro hreads
    cases hreads with
    | one hagree _ =>
      rcases hagree with hagree | hagree
      · exact absurd hagree (by decide)
      · exact absurd hagree.symm (h _ rfl)
    | many _ hws hrest => exact ⟨_, hws, hrest⟩
  · rintro ⟨ws, hws, hrest⟩
    exact .many h hws hrest

theorem not_reads_of_disagree {v : Char} (h : ¬ (p = '_' ∨ p = v)) (hp : p ≠ '%') :
    ¬ Reads (p :: ps) (v :: vs) := by
  intro hreads
  cases hreads with
  | one hagree _ => exact h hagree
  | many _ _ _ => exact hp rfl

/-! ### Backtracking -/

def OneForOne : List Char → List Char → Prop := List.Forall₂ (fun p v => p = '_' ∨ p = v)

theorem exists_reads_of_prefix {taken skipped : List Char} (h : OneForOne taken skipped)
    {ws : List Char} (hws : ws <:+ skipped ++ vs) (hreads : Reads (taken ++ ps) ws) :
    ∃ us, us <:+ vs ∧ Reads ps us := by
  induction h generalizing ws with
  | nil => exact ⟨ws, hws, hreads⟩
  | @cons p v taken skipped hagree _ ih =>
    rw [cons_append] at hws hreads
    -- what is left after one character is left of the shorter part
    have htail : ∀ {w : Char} {ws' : List Char}, w :: ws' <:+ v :: (skipped ++ vs) →
        ws' <:+ skipped ++ vs := by
      intro w ws' hsuffix
      rcases suffix_cons_iff.mp hsuffix with heq | hsuffix
      · cases heq
        exact suffix_refl _
      · exact (suffix_cons w ws').trans hsuffix
    cases hreads with
    | one _ hrest => exact ih (htail hws) hrest
    | many hne hws' hrest =>
      -- it begins behind the character taken
      rcases suffix_cons_iff.mp hws with rfl | hsuffix
      · rcases hagree with hagree | hagree
        · exact absurd hagree (by decide)
        · exact absurd hagree.symm (hne v rfl)
      · exact ih (hws'.trans hsuffix) hrest

theorem exists_reads_of_percent (h : Reads ('%' :: ps) vs) : ∃ ws, ws <:+ vs ∧ Reads ps ws := by
  cases h with
  | one _ hrest => exact ⟨_, suffix_cons .., hrest⟩
  | many _ hws hrest => exact ⟨_, hws, hrest⟩

theorem exists_suffix_iff {P : List Char → Prop} :
    (∃ ws, ws <:+ vs ∧ P ws) ↔ P vs ∨ ∃ ws, ws <:+ vs.tail ∧ P ws := by
  constructor
  · rintro ⟨ws, hws, hP⟩
    cases vs with
    | nil =>
      rw [suffix_nil.mp hws] at hP
      exact .inl hP
    | cons v vs =>
      rcases suffix_cons_iff.mp hws with rfl | hsuffix
      · exact .inl hP
      · exact .inr ⟨ws, hsuffix, hP⟩
  · rintro (hP | ⟨ws, hws, hP⟩)
    · exact ⟨vs, suffix_refl vs, hP⟩
    · exact ⟨ws, hws.trans (tail_suffix vs), hP⟩

namespace LikeState

def Decides (s : LikeState) : Prop :=
  Reads s.pattern s.value
    ∨ ∃ star ∈ s.star, ∃ ws, ws <:+ star.2.tail ∧ Reads star.1 ws

/-- What is behind the backtracking point was taken one for one. -/
structure Linked (n : Nat) (s : LikeState) : Prop where
  pattern : s.pattern.length ≤ n
  star : ∀ star ∈ s.star, star.1.length ≤ n ∧ ∃ taken skipped, OneForOne taken skipped
    ∧ star.1 = taken ++ s.pattern ∧ star.2 = skipped ++ s.value

def potential (n : Nat) (s : LikeState) : Nat :=
  (s.star.elim s.value (·.2)).length * (n + 2) + s.pattern.length

variable {n : Nat} {s : LikeState}

theorem Linked.decides_iff (hs : s.Linked n)
    (h : ∀ us, us <:+ s.value → Reads s.pattern us → Reads s.pattern s.value) :
    s.Decides ↔ Reads s.pattern s.value := by
  refine or_iff_left_of_imp ?_
  rintro ⟨star, hstar, ws, hws, hreads⟩
  obtain ⟨-, taken, skipped, hone, hps, hvs⟩ := hs.star star hstar
  have hsuffix : ws <:+ skipped ++ s.value := hvs ▸ hws.trans (tail_suffix _)
  obtain ⟨us, hus, hread⟩ := exists_reads_of_prefix hone hsuffix (hps ▸ hreads)
  exact h us hus hread

theorem Linked.back (hs : s.Linked n) {v : Char} {vs : List Char} (hvalue : s.value = v :: vs)
    (hnot : ¬ Reads s.pattern s.value) :
    (s.back = none → ¬ s.Decides)
      ∧ ∀ t, s.back = some t → t.Linked n ∧ t.potential n < s.potential n
        ∧ (t.Decides ↔ s.Decides) := by
  rw [LikeState.back, Decides, or_iff_right hnot]
  cases hstar : s.star with
  | none =>
    refine ⟨fun _ => ?_, fun t ht => absurd ht.symm (Option.some_ne_none t)⟩
    rintro ⟨star, hmem, -⟩
    cases hmem
  | some star =>
    refine ⟨fun hnone => absurd hnone (Option.some_ne_none _), fun t ht => ?_⟩
    cases ht
    obtain ⟨hlength, taken, skipped, -, -, hvs⟩ := hs.star star hstar
    refine ⟨⟨hlength, ?_⟩, ?_, ?_⟩
    · intro star' hstar'
      cases hstar'
      exact ⟨hlength, [], [], .nil, rfl, rfl⟩
    · have hlong : star.2.tail.length + 1 = star.2.length := by
        simp [hvs, hvalue]
        omega
      simp only [potential, hstar, Option.elim_some, ← hlong, Nat.add_mul]
      omega
    · simp only [Decides, Option.mem_def, Option.some.injEq, exists_eq_left']
      exact exists_suffix_iff.symm

theorem Linked.round (hs : s.Linked n) {v : Char} {vs : List Char} (hvalue : s.value = v :: vs) :
    (s.round v vs = none → ¬ s.Decides)
      ∧ ∀ t, s.round v vs = some t → t.Linked n ∧ t.potential n < s.potential n
        ∧ (t.Decides ↔ s.Decides) := by
  have hcases : ∀ {p : Char} {ps : List Char}, s.pattern = p :: ps → ps.length < n := by
    intro p ps hps
    have := hs.pattern
    rw [hps, length_cons] at this
    omega
  rw [LikeState.round]
  cases hpattern : s.pattern with
  | nil =>
    refine hs.back hvalue ?_
    rw [hpattern, hvalue, reads_nil_iff]
    exact cons_ne_nil v vs
  | cons p ps =>
    dsimp only
    split
    · next hagree =>
      -- what lies between moves on as well
      refine ⟨fun hnone => absurd hnone (Option.some_ne_none _), fun t ht => ?_⟩
      cases ht
      refine ⟨⟨Nat.le_of_lt (hcases hpattern), fun star hstar => ?_⟩, ?_, ?_⟩
      · obtain ⟨hlength, taken, skipped, hone, hps, hvs⟩ := hs.star star hstar
        refine ⟨hlength, taken ++ [p], skipped ++ [v],
          rel_append hone (.cons hagree .nil), ?_, ?_⟩
        · rw [hps, hpattern, append_assoc]
          rfl
        · rw [hvs, hvalue, append_assoc]
          rfl
      · rw [potential, potential, hpattern, length_cons]
        cases s.star with
        | none =>
          simp only [Option.elim_none, hvalue, length_cons, Nat.add_mul]
          omega
        | some star => simp
      · rw [Decides, Decides, hpattern, hvalue, reads_cons_of_agree hagree]
    · next hdisagree =>
      split
      · next hpercent =>
        subst hpercent
        have hne : ∀ w ∈ (v :: vs).head?, w ≠ '%' := by
          rintro _ ⟨⟩ rfl
          exact hdisagree (.inr rfl)
        have hhere : s.Decides ↔ ∃ ws, ws <:+ v :: vs ∧ Reads ps ws := by
          rw [hs.decides_iff, hpattern, hvalue, reads_percent_iff hne]
          rw [hpattern, hvalue]
          intro us hus hreads
          obtain ⟨ws, hws, hrest⟩ := exists_reads_of_percent hreads
          exact .many hne (hws.trans hus) hrest
        refine ⟨fun hnone => absurd hnone (Option.some_ne_none _), fun t ht => ?_⟩
        cases ht
        refine ⟨⟨Nat.le_of_lt (hcases hpattern), fun star hstar => ?_⟩, ?_, ?_⟩
        · cases hstar
          exact ⟨Nat.le_of_lt (hcases hpattern), [], [], .nil, rfl, rfl⟩
        · have hlong : (v :: vs).length ≤ (s.star.elim s.value (·.2)).length := by
            rw [← hvalue]
            cases hstar : s.star with
            | none => exact Nat.le_refl _
            | some star =>
              obtain ⟨-, taken, skipped, -, -, hvs⟩ := hs.star star hstar
              rw [Option.elim_some, hvs, length_append]
              omega
          rw [potential, potential, hpattern, Option.elim_some, length_cons]
          exact Nat.add_lt_add_of_le_of_lt (Nat.mul_le_mul_right _ hlong) (Nat.lt_succ_self _)
        · rw [hhere, exists_suffix_iff]
          simp [Decides]
      · next hpercent =>
        refine hs.back hvalue ?_
        rw [hpattern, hvalue]
        exact not_reads_of_disagree hdisagree hpercent

theorem Linked.likeLoop {rounds : Nat} (hs : s.Linked n) (hrounds : s.potential n < rounds) :
    ∃ b, Search.likeLoop rounds s = some b ∧ (b = true ↔ s.Decides) := by
  induction rounds generalizing s with
  | zero => cases hrounds
  | succ rounds ih =>
    rw [Search.likeLoop]
    cases hvalue : s.value with
    | nil =>
      refine ⟨_, rfl, ?_⟩
      rw [hs.decides_iff, hvalue, reads_to_nil_iff]
      intro us hus hreads
      rw [hvalue] at hus ⊢
      rwa [suffix_nil.mp hus] at hreads
    | cons v vs =>
      obtain ⟨hfalse, hnext⟩ := hs.round hvalue
      dsimp only
      cases hround : s.round v vs with
      | none => exact ⟨false, rfl, iff_of_false Bool.false_ne_true (hfalse hround)⟩
      | some t =>
        obtain ⟨hlinked, hless, hdecides⟩ := hnext t hround
        rw [← hdecides]
        exact ih hlinked (by omega)

end LikeState

/-! ### Correctness -/

theorem likeMatch_spec (value pattern : List Char) :
    ∃ b, likeMatch value pattern = some b ∧ (b = true ↔ Reads pattern value) := by
  have hlinked : LikeState.Linked pattern.length ⟨value, pattern, none⟩ :=
    ⟨Nat.le_refl _, fun star hstar => by cases hstar⟩
  obtain ⟨b, hb, hdecides⟩ := hlinked.likeLoop (Nat.lt_succ_self _)
  refine ⟨b, hb, hdecides.trans (or_iff_left ?_)⟩
  rintro ⟨star, hstar, -⟩
  cases hstar

theorem matches_cons_iff {value : List Char} :
    Matches value (p :: ps)
      ↔ ∃ piece rest, StandsFor p piece ∧ value = piece ++ rest ∧ Matches rest ps := by
  constructor
  · rintro ⟨pieces, hpieces, rfl⟩
    cases hpieces with
    | cons hpiece hpieces => exact ⟨_, _, hpiece, rfl, _, hpieces, rfl⟩
  · rintro ⟨piece, rest, hpiece, rfl, pieces, hpieces, rfl⟩
    exact ⟨piece :: pieces, .cons hpiece hpieces, rfl⟩

theorem matches_of_reads {pattern value : List Char} (h : Reads pattern value) :
    Matches value pattern := by
  induction h with
  | nil => exact ⟨[], .nil, rfl⟩
  | @one p v ps vs hagree _ ih =>
    refine matches_cons_iff.mpr ⟨[v], vs, ?_, rfl, ih⟩
    rw [StandsFor]
    split
    · trivial
    · split
      · rfl
      · next hnot =>
        rcases hagree with rfl | rfl
        · exact absurd rfl hnot
        · rfl
  | @many ps vs ws _ hws _ ih =>
    obtain ⟨piece, rfl⟩ := hws
    exact matches_cons_iff.mpr ⟨piece, ws, by simp [StandsFor], rfl, ih⟩

/-- **LIKE** is right if a `%` that meets a `%` can stand for just that one. -/
theorem likeMatch_correct_iff (value pattern : List Char) :
    (∃ b, likeMatch value pattern = some b ∧ (b = true ↔ Matches value pattern))
      ↔ (Matches value pattern → Reads pattern value) := by
  obtain ⟨b, hb, hreads⟩ := likeMatch_spec value pattern
  constructor
  · rintro ⟨b', hb', hcorrect⟩ hmatches
    cases hb.symm.trans hb'
    exact hreads.mp (hcorrect.mpr hmatches)
  · intro himp
    exact ⟨b, hb, hreads.trans ⟨matches_of_reads, himp⟩⟩

theorem percent_not_matched : Matches ['%', 'a'] ['%'] ∧ likeMatch ['%', 'a'] ['%'] = some false :=
  ⟨⟨[['%', 'a']], .cons (by simp [StandsFor]) .nil, rfl⟩, by decide⟩

end Velocity.Search
