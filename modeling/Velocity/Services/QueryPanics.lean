import Velocity.Services.VisibilityQuery

namespace Velocity.VisibilityQuery

open Lib
open String (utf8Len)

/-!
# Where the query parser panics

`parse` slices the text at byte offsets found in the upper-cased copy.
-/

section Panics

variable [UnicodeCase]

/-! ### Clauses -/

/-- The offset of the keyword is between characters of the text. -/
def CutsCleanly (keyword text : List Char) : Prop :=
  ∀ n, FirstAt keyword (uppercase text) n →
    ∃ a b c, text = a ++ b ++ c ∧ utf8Len a = n ∧ utf8Len b = utf8Len keyword

/-- What stands before a clause, or the text itself. -/
def Before (keyword text rest : List Char) : Prop :=
  (¬ keyword <:+: uppercase text ∧ rest = text)
    ∨ ∃ a c, text = a ++ c ∧ FirstAt keyword (uppercase text) (utf8Len a) ∧ rest = trim a

variable {text keyword : List Char}

omit [UnicodeCase] in
theorem cuts_iff {m n : Nat} :
    (∃ a, sliceTo text n = some a) ∧ (∃ c, sliceFrom text (n + m) = some c)
      ↔ ∃ a b c, text = a ++ b ++ c ∧ utf8Len a = n ∧ utf8Len b = m := by
  constructor
  · rintro ⟨⟨a, ha⟩, ⟨c, hc⟩⟩
    obtain ⟨rest, htext, hn⟩ := sliceTo_eq_some_iff.mp ha
    obtain ⟨ab, htext', hm⟩ := sliceFrom_eq_some_iff.mp hc
    -- the shorter prefix is a prefix of the longer one
    have hprefix : a <+: ab := by
      rcases List.prefix_or_prefix_of_prefix (htext ▸ List.prefix_append a rest)
        (htext' ▸ List.prefix_append ab c) with h | ⟨t, rfl⟩
      · exact h
      · rw [String.utf8Len_append] at hn
        have ht : t = [] := String.utf8Len_eq_zero.mp (by omega)
        exact ⟨[], by simp [ht]⟩
    obtain ⟨b, rfl⟩ := hprefix
    refine ⟨a, b, c, htext', hn, ?_⟩
    rw [String.utf8Len_append] at hm
    omega
  · rintro ⟨a, b, c, rfl, rfl, rfl⟩
    refine ⟨⟨a, ?_⟩, ⟨c, ?_⟩⟩
    · rw [List.append_assoc, sliceTo_append]
    · rw [← String.utf8Len_append, sliceFrom_append]

theorem extractClause_of_none (hfind : find keyword (uppercase text) = none) :
    extractClause keyword text = some (text, none) := by
  rw [extractClause, hfind]

theorem extractClause_of_some {idx : Nat} (hfind : find keyword (uppercase text) = some idx) :
    extractClause keyword text
      = (sliceFrom text (idx + utf8Len keyword)).bind fun after =>
          (sliceTo text idx).bind fun before => some (trim before, clauseValue after) := by
  rw [extractClause, hfind]
  rfl

theorem extractClause_eq_none_iff (keyword text : List Char) :
    extractClause keyword text = none ↔ ¬ CutsCleanly keyword text := by
  cases hfind : find keyword (uppercase text) with
  | none =>
    rw [extractClause_of_none hfind]
    refine iff_of_false (Option.some_ne_none _) (not_not.mpr fun n hn => ?_)
    rw [find_eq_some_iff.mpr hn] at hfind
    cases hfind
  | some idx =>
    have hfirst := find_eq_some_iff.mp hfind
    have hclean : CutsCleanly keyword text
        ↔ (∃ a, sliceTo text idx = some a)
          ∧ ∃ c, sliceFrom text (idx + utf8Len keyword) = some c := by
      rw [cuts_iff]
      exact ⟨fun h => h idx hfirst, fun h n hn => hn.unique hfirst ▸ h⟩
    rw [hclean, extractClause_of_some hfind]
    cases sliceTo text idx <;> cases sliceFrom text (idx + utf8Len keyword) <;> simp

theorem cutsCleanly_of_extractClause {result : List Char × Option Nat}
    (h : extractClause keyword text = some result) : CutsCleanly keyword text := by
  by_contra hnot
  rw [(extractClause_eq_none_iff keyword text).mpr hnot] at h
  cases h

theorem before_of_extractClause {rest : List Char} {value : Option Nat}
    (h : extractClause keyword text = some (rest, value)) : Before keyword text rest := by
  cases hfind : find keyword (uppercase text) with
  | none =>
    rw [extractClause_of_none hfind] at h
    cases h
    exact .inl ⟨find_eq_none_iff.mp hfind, rfl⟩
  | some idx =>
    rw [extractClause_of_some hfind] at h
    obtain ⟨after, -, hafter⟩ := Option.bind_eq_some_iff.mp h
    obtain ⟨before, hbefore, hrest⟩ := Option.bind_eq_some_iff.mp hafter
    cases hrest
    obtain ⟨c, htext, rfl⟩ := sliceTo_eq_some_iff.mp hbefore
    exact .inr ⟨before, c, htext, find_eq_some_iff.mp hfind, rfl⟩

theorem Before.unique {rest rest' : List Char} (h : Before keyword text rest)
    (h' : Before keyword text rest') : rest = rest' := by
  rcases h with ⟨hnot, rfl⟩ | ⟨a, c, htext, hfirst, rfl⟩ <;>
    rcases h' with ⟨hnot', rfl⟩ | ⟨a', c', htext', hfirst', rfl⟩
  · rfl
  · obtain ⟨x, y, hxy, -⟩ := hfirst'
    exact absurd ⟨x, y, hxy.symm⟩ hnot
  · obtain ⟨x, y, hxy, -⟩ := hfirst
    exact absurd ⟨x, y, hxy.symm⟩ hnot'
  · rw [(append_inj_of_utf8Len (htext.symm.trans htext') (hfirst.unique hfirst')).1]

/-! ### Conditions -/

omit [UnicodeCase] in
/-- Its first `=` follows a long character, with no `!=`. -/
def PanicsAt (part : List Char) : Prop :=
  ¬ "!=".toList <:+: part ∧ ∃ a b, part = a ++ '=' :: b ∧ '=' ∉ a
    ∧ ∃ c ∈ a.getLast?, c.utf8Size ≠ 1

theorem parseCondition_neq {part : List Char} (hneq : "!=".toList <:+: part) :
    ∃ a b, parseCondition part = some (.ok (conditionOf a .neq b)) := by
  cases hfind : find "!=".toList part with
  | none => exact absurd hneq (find_eq_none_iff.mp hfind)
  | some n =>
    obtain ⟨a, b, rfl, rfl, -⟩ := find_eq_some_iff.mp hfind
    have hfrom : sliceFrom (a ++ "!=".toList ++ b) (utf8Len a + 2) = some b :=
      sliceFrom_eq_some_iff.mpr ⟨_, rfl, by rw [String.utf8Len_append]; rfl⟩
    refine ⟨a, b, ?_⟩
    rw [parseCondition, hfind]
    dsimp only
    rw [hfrom, List.append_assoc, sliceTo_append]
    rfl

theorem parseCondition_missing {part : List Char} (h : '=' ∉ part) :
    parseCondition part = some (.error (.missingOperator (String.ofList part))) := by
  have hneq : find "!=".toList part = none :=
    find_eq_none_iff.mpr fun hin => h (hin.subset (by decide))
  have heq : find ['='] part = none :=
    find_eq_none_iff.mpr fun hin => h (hin.subset (by decide))
  rw [parseCondition, hneq, heq]

theorem parseCondition_eq {a b : List Char} (hneq : ¬ "!=".toList <:+: a ++ '=' :: b)
    (ha : '=' ∉ a) :
    ((∀ c ∈ a.getLast?, c.utf8Size = 1) ∧
        parseCondition (a ++ '=' :: b) = some (.ok (conditionOf a .eq b))) ∨
      ((∃ c ∈ a.getLast?, c.utf8Size ≠ 1) ∧ parseCondition (a ++ '=' :: b) = none) := by
  have hfrom : sliceFrom (a ++ '=' :: b) (utf8Len a + 1) = some b :=
    sliceFrom_eq_some_iff.mpr ⟨a ++ ['='], by simp, by simp; rfl⟩
  rw [parseCondition, find_eq_none_iff.mpr hneq, find_singleton_append ha]
  dsimp only
  rcases List.eq_nil_or_concat a with rfl | ⟨a', c, rfl⟩
  · rw [sliceTo_append, hfrom]
    exact .inl ⟨by simp, rfl⟩
  · rw [List.concat_eq_append] at *
    have hbang : c ≠ '!' := by
      rintro rfl
      exact hneq ⟨a', b, by simp⟩
    have hpos : 0 < utf8Len (a' ++ [c]) := by
      have := c.utf8Size_pos
      simp only [String.utf8Len_append, String.utf8Len_cons, String.utf8Len_nil]
      omega
    rw [byteBefore, if_pos hpos, ← List.append_cons a' c ('=' :: b), slice_pred_concat,
      List.append_cons a' c ('=' :: b), sliceTo_append, hfrom]
    by_cases hone : c.utf8Size = 1
    · exact .inl ⟨by simp [hone], by simp [hone, hbang]⟩
    · exact .inr ⟨⟨c, by simp, hone⟩, by simp [hone]⟩

theorem parseCondition_of_mem {part : List Char} (h : '=' ∈ part) :
    (PanicsAt part ∧ parseCondition part = none)
      ∨ (¬ PanicsAt part ∧ ∃ condition, parseCondition part = some (.ok condition)) := by
  by_cases hneq : "!=".toList <:+: part
  · obtain ⟨a, b, hread⟩ := parseCondition_neq hneq
    exact .inr ⟨fun hpanics => hpanics.1 hneq, _, hread⟩
  · obtain ⟨a, b, rfl, ha⟩ := List.eq_append_cons_of_mem h
    rcases parseCondition_eq hneq ha with ⟨hone, hread⟩ | ⟨hmany, hread⟩
    · refine .inr ⟨?_, conditionOf a .eq b, hread⟩
      rintro ⟨-, a', b', hpart, ha', c, hc, hmany⟩
      obtain ⟨rfl, -⟩ := append_cons_inj_of_notMem ha ha' hpart
      exact hmany (hone c hc)
    · exact .inl ⟨⟨hneq, a, b, rfl, ha, hmany⟩, hread⟩

/-- Every part before is empty or has an operator. -/
def PanicsIn : List (List Char) → Prop
  | [] => False
  | part :: parts =>
    PanicsAt (trim part) ∨ ((trim part = [] ∨ '=' ∈ trim part) ∧ PanicsIn parts)

theorem parseConditions_eq_none_iff (parts : List (List Char)) :
    parseConditions parts = none ↔ PanicsIn parts := by
  induction parts with
  | nil => exact iff_of_false (Option.some_ne_none _) id
  | cons part parts ih =>
    rw [parseConditions, PanicsIn]
    by_cases hempty : trim part = []
    · have hnot : ¬ PanicsAt [] := by
        rintro ⟨-, a, b, hab, -⟩
        simp at hab
      simp [hempty, hnot, ih]
    · rw [if_neg (by simpa using hempty)]
      by_cases hmem : '=' ∈ trim part
      · rcases parseCondition_of_mem hmem with ⟨hpanics, hnone⟩ | ⟨hnot, condition, hsome⟩
        · simp [hnone, hpanics]
        · simp [hsome, hnot, hmem, ih]
      · have hnot : ¬ PanicsAt (trim part) := by
          rintro ⟨-, a, b, hab, -⟩
          exact hmem (by simp [hab])
        simp [parseCondition_missing hmem, hnot, hempty, hmem]

/-! ### Texts -/

/-- All offsets that are reached are between characters. -/
def ParsesSafely (text : List Char) : Prop :=
  CutsCleanly limitKeyword (trim text)
    ∧ ∀ query, Before limitKeyword (trim text) query →
        CutsCleanly offsetKeyword query
          ∧ ∀ query', Before offsetKeyword query query' → ¬ PanicsIn (splitByAnd query')

theorem parse_eq_bind (text : List Char) :
    parse text
      = (extractClause limitKeyword (trim text)).bind fun limited =>
          (extractClause offsetKeyword limited.1).bind fun skipped =>
            (parseConditions (splitByAnd skipped.1)).map
              (Except.map (⟨·, limited.2, skipped.2⟩)) := by
  by_cases hempty : trim text = []
  · rw [parse, if_pos (by simp [hempty]), hempty]
    rfl
  rw [parse, if_neg (by simpa using hempty)]
  cases extractClause limitKeyword (trim text) with
  | none => rfl
  | some limited =>
    show (extractClause offsetKeyword limited.1).bind _ = _
    rw [Option.bind_some]
    refine Option.bind_congr fun skipped _ => ?_
    obtain ⟨query, offset⟩ := skipped
    dsimp only
    cases parseConditions (splitByAnd query) with
    | none | some conditions => rfl

theorem bind_extractClause_ne_none_iff {β : Type} (keyword text : List Char)
    {next : List Char × Option Nat → Option β} {Safe : List Char → Prop}
    (hnext : ∀ limited, next limited ≠ none ↔ Safe limited.1) :
    (extractClause keyword text).bind next ≠ none
      ↔ CutsCleanly keyword text ∧ ∀ query, Before keyword text query → Safe query := by
  cases hextract : extractClause keyword text with
  | none =>
    refine iff_of_false (fun h => h rfl) (fun h => ?_)
    exact (extractClause_eq_none_iff keyword text).mp hextract h.1
  | some limited =>
    have hbefore : Before keyword text limited.1 := before_of_extractClause hextract
    rw [Option.bind_some, hnext, and_iff_right (cutsCleanly_of_extractClause hextract)]
    exact ⟨fun h query hquery => hbefore.unique hquery ▸ h, fun h => h _ hbefore⟩

theorem parse_ne_none_iff (text : List Char) : parse text ≠ none ↔ ParsesSafely text := by
  rw [parse_eq_bind, ParsesSafely]
  refine bind_extractClause_ne_none_iff _ _ fun limited => ?_
  refine bind_extractClause_ne_none_iff _ _ fun skipped => ?_
  rw [Ne, Option.map_eq_none_iff, parseConditions_eq_none_iff]

/-- **Panics** occur exactly where a slice cuts a character. -/
theorem parse_returns_iff (text : List Char) :
    (∃ result, parse text = some result) ↔ ParsesSafely text :=
  Option.ne_none_iff_exists'.symm.trans (parse_ne_none_iff text)

end Panics

theorem parse_panics :
    letI := latinCase
    parse "é='x'".toList = none ∧ parse "ŉ LIMIT é".toList = none := by
  decide +kernel

end Velocity.VisibilityQuery
