import Velocity.Services.QueryPanics

namespace Velocity.VisibilityQuery

open Lib List
open String (utf8Len)

/-!
# Quoted values

Only the split at AND looks at quotes.
-/

/-- No white space, operator or quote. -/
def IsPlain (c : Char) : Prop :=
  isWhitespace c = false ∧ c ≠ '=' ∧ c ≠ '!' ∧ isQuote c = false

theorem isPlain_of_isAlpha {c : Char} (h : c.isAlpha = true) : IsPlain c := by
  have hrange := isAlpha_iff_toNat.mp h
  have hne : ∀ d : Char, d.toNat < 65 → c ≠ d := by
    rintro d hd rfl
    omega
  refine ⟨?_, hne '=' (by decide), hne '!' (by decide), ?_⟩
  · exact isWhitespace_eq_false (by omega) (by omega)
  · simp [isQuote, hne '\'' (by decide), hne '"' (by decide)]

def quoted (name : List Char) (q : Char) (value : List Char) : List Char :=
  name ++ '=' :: q :: (value ++ [q])

structure Quoted (name : List Char) (q : Char) (value : List Char) : Prop where
  name : ∀ c ∈ name, IsPlain c
  quote : isQuote q = true
  value : ∀ c ∈ value, isQuote c = false

variable {name value : List Char} {q : Char}

theorem eq_of_isQuote (hq : isQuote q = true) : q = '\'' ∨ q = '"' := by
  simpa [isQuote] using hq

theorem isWhitespace_quote (hq : isQuote q = true) :
    isWhitespace q = false ∧ q ≠ '!' ∧ q ≠ '=' ∧ utf8Len [q] = 1 := by
  rcases eq_of_isQuote hq with rfl | rfl <;> decide

theorem ne_space_of_isWhitespace {c : Char} (h : isWhitespace c = false) : c ≠ ' ' := by
  rintro rfl
  exact absurd h (by decide)

theorem quoted_eq (name : List Char) (q : Char) (value : List Char) :
    quoted name q value = (name ++ ['=', q]) ++ (value ++ [q]) := by
  simp [quoted]

theorem quoted_eq_concat (name : List Char) (q : Char) (value : List Char) :
    quoted name q value = (name ++ '=' :: q :: value) ++ [q] := by
  simp [quoted]

namespace Quoted

theorem head?_of_prefix (h : Quoted name q value) {r : List Char}
    (hr : r <+: name ++ '=' :: q :: value) : ∀ c ∈ r.head?, isWhitespace c = false := by
  intro c hc
  obtain ⟨t, ht⟩ := hr
  cases r with
  | nil => cases hc
  | cons d r =>
    cases hc
    cases name with
    | nil =>
      rw [(List.cons.inj ht).1]
      decide
    | cons e name =>
      rw [(List.cons.inj ht).1]
      exact (h.name e mem_cons_self).1

theorem head?_quoted (h : Quoted name q value) :
    ∀ c ∈ (quoted name q value).head?, isWhitespace c = false := by
  intro c hc
  refine h.head?_of_prefix (prefix_refl _) c ?_
  rw [quoted_eq_concat, head?_append] at hc
  cases name <;> exact hc

theorem trim_quoted (h : Quoted name q value) :
    trim (quoted name q value) = quoted name q value := by
  refine trimBy_eq_self h.head?_quoted fun c hc => ?_
  rw [quoted_eq_concat, getLast?_concat] at hc
  cases hc
  exact (isWhitespace_quote h.quote).1

theorem trim_name (h : Quoted name q value) : trim name = name :=
  trimBy_eq_self_of_forall fun c hc => (h.name c hc).1

theorem eq_notMem_name (h : Quoted name q value) : '=' ∉ name :=
  fun hmem => (h.name '=' hmem).2.1 rfl

theorem valueOf_quoted (h : Quoted name q value) : valueOf (q :: (value ++ [q])) = value := by
  have htrim : trim (q :: (value ++ [q])) = q :: value ++ [q] :=
    trimBy_between (isWhitespace_quote h.quote).1 value
  have hvalue : ∀ c ∈ value, (c == '\'') = false ∧ (c == '"') = false := by
    intro c hc
    simpa [isQuote] using h.value c hc
  rw [valueOf, htrim]
  rcases eq_of_isQuote h.quote with rfl | rfl
  · rw [trimBy_quoted (by decide) fun c hc => (hvalue c hc).1]
    exact trimBy_eq_self_of_forall fun c hc => (hvalue c hc).2
  · rw [trimBy_between (by decide), trimBy_quoted (by decide) fun c hc => (hvalue c hc).2]

theorem neq_infix_iff (h : Quoted name q value) :
    "!=".toList <:+: quoted name q value ↔ "!=".toList <:+: value := by
  obtain ⟨-, hq, hq', -⟩ := isWhitespace_quote h.quote
  have hbang : '!' ∉ name ++ ['=', q] := by
    have hname : '!' ∉ name := fun hmem => (h.name '!' hmem).2.2.1 rfl
    simp [hname, hq.symm]
  rw [quoted_eq, infix_append_left_iff (c := '!') rfl hbang,
    infix_append_right_iff (c := '=') rfl (by simp [hq'.symm])]

end Quoted

section Passes

variable [UnicodeCase]

variable {keyword a r : List Char}

theorem Quoted.keyword_infix_iff (h : Quoted name q value)
    (hhead : keyword.head? = some ' ') (hlast : keyword.getLast? = some ' ') :
    keyword <:+: uppercase (quoted name q value) ↔ keyword <:+: uppercase value := by
  have hq : ' ' ≠ q := (ne_space_of_isWhitespace (isWhitespace_quote h.quote).1).symm
  have hname : ' ' ∉ name := fun hmem => ne_space_of_isWhitespace (h.name ' ' hmem).1 rfl
  have hfront : ' ' ∉ uppercase (name ++ ['=', q]) :=
    space_notMem_uppercase (by simp [hname, hq])
  have hback : ' ' ∉ uppercase [q] := space_notMem_uppercase (by simp [hq])
  rw [quoted_eq, uppercase_append, uppercase_append value, infix_append_left_iff hhead hfront,
    infix_append_right_iff hlast hback]

/-! ### Splitting -/

theorem splitLoop_quote (rounds : Nat) (hq : isQuote q = true) (rest : List Char)
    (inQuote : Bool) (current : List Char) :
    splitLoop (rounds + 1) (q :: rest) inQuote current
      = splitLoop rounds rest (!inQuote) (current ++ [q]) := by
  rw [splitLoop, if_pos hq]

theorem splitLoop_push (rounds : Nat) {c : Char} (hc : isQuote c = false) (rest : List Char)
    {inQuote : Bool} (hin : inQuote = true ∨ c ≠ ' ') (current : List Char) :
    splitLoop (rounds + 1) (c :: rest) inQuote current
      = splitLoop rounds rest inQuote (current ++ [c]) := by
  have hwindow : c ≠ ' ' → uppercase ((c :: rest).take 5) ≠ " AND ".toList := by
    intro hne heq
    rw [take_succ_cons, uppercase_cons] at heq
    cases hupper : UnicodeCase.upper c with
    | nil => exact UnicodeCase.upper_ne_nil c hupper
    | cons d ds =>
      rw [hupper] at heq
      have hd : d = ' ' := (List.cons.inj heq).1
      exact hne (UnicodeCase.eq_space_of_mem_upper c (by rw [hupper, hd]; exact mem_cons_self))
  rw [splitLoop, if_neg (by simp [hc]), if_neg]
  rcases hin with rfl | hne
  · simp
  · rw [Bool.and_eq_true]
    exact fun hand => hwindow hne (eq_of_beq hand.2)

theorem splitLoop_append (rounds : Nat) (ha : ∀ c ∈ a, isQuote c = false)
    (rest : List Char) {inQuote : Bool} (hin : inQuote = true ∨ ∀ c ∈ a, c ≠ ' ')
    (current : List Char) :
    splitLoop (a.length + rounds) (a ++ rest) inQuote current
      = splitLoop rounds rest inQuote (current ++ a) := by
  induction a generalizing current with
  | nil => simp
  | cons c a ih =>
    rw [length_cons, Nat.add_right_comm, cons_append,
      splitLoop_push _ (ha c mem_cons_self) _ (hin.imp id fun h => h c mem_cons_self),
      ih (fun d hd => ha d (mem_cons_of_mem c hd))
        (hin.imp id fun h d hd => h d (mem_cons_of_mem c hd)), append_assoc]
    rfl

theorem splitByAnd_plain (ha : ∀ c ∈ a, isQuote c = false ∧ c ≠ ' ') :
    splitByAnd a = lastPart a := by
  have h : splitLoop (a.length + 0) (a ++ []) false [] = splitLoop 0 [] false ([] ++ a) :=
    splitLoop_append 0 (fun c hc => (ha c hc).1) [] (.inr fun c hc => (ha c hc).2) []
  rw [Nat.add_zero, append_nil, nil_append] at h
  rw [splitByAnd, h, splitLoop]

theorem splitByAnd_open {b : List Char} (ha : ∀ c ∈ a, isQuote c = false ∧ c ≠ ' ')
    (hq : isQuote q = true) (hb : ∀ c ∈ b, isQuote c = false) (rest : List Char) :
    splitByAnd (a ++ q :: (b ++ rest)) = splitLoop rest.length rest true (a ++ q :: b) := by
  have hlength : (a ++ q :: (b ++ rest)).length = a.length + (b.length + rest.length + 1) := by
    simp
  rw [splitByAnd, hlength, splitLoop_append _ (fun c hc => (ha c hc).1) _
    (.inr fun c hc => (ha c hc).2), splitLoop_quote _ hq, nil_append, Bool.not_false,
    splitLoop_append _ hb _ (.inl rfl), ← append_cons]

omit [UnicodeCase] in
theorem Quoted.plain_name (h : Quoted name q value) :
    ∀ c ∈ name ++ ['='], isQuote c = false ∧ c ≠ ' ' := by
  intro c hc
  rcases mem_append.mp hc with hc | hc
  · exact ⟨(h.name c hc).2.2.2, ne_space_of_isWhitespace (h.name c hc).1⟩
  · rw [mem_singleton.mp hc]
    decide

theorem Quoted.splitByAnd_quoted (h : Quoted name q value) :
    splitByAnd (quoted name q value) = [quoted name q value] := by
  have htext : quoted name q value = (name ++ ['=']) ++ q :: (value ++ [q]) := by
    simp [quoted]
  have hlast : lastPart (quoted name q value) = [quoted name q value] := by
    rw [lastPart, h.trim_quoted, if_neg (by simp [quoted])]
  rw [htext, splitByAnd_open h.plain_name h.quote h.value, length_singleton,
    splitLoop_quote _ h.quote, splitLoop, append_assoc, cons_append, ← htext, hlast]

/-! ### The condition -/

theorem Quoted.parseCondition_quoted (h : Quoted name q value) (hneq : ¬ "!=".toList <:+: value) :
    ((∀ c ∈ name.getLast?, c.utf8Size = 1) ∧ parseCondition (quoted name q value)
          = some (.ok ⟨fieldOf name, .eq, String.ofList value⟩)) ∨
      ((∃ c ∈ name.getLast?, c.utf8Size ≠ 1) ∧ parseCondition (quoted name q value) = none) := by
  have hnot : ¬ "!=".toList <:+: name ++ '=' :: (q :: (value ++ [q])) :=
    fun hinfix => hneq (h.neq_infix_iff.mp hinfix)
  have hread := parseCondition_eq hnot h.eq_notMem_name
  rwa [conditionOf, h.trim_name, h.valueOf_quoted] at hread

theorem op_of_neq_infix {part : List Char} (hneq : "!=".toList <:+: part)
    {condition : QueryCondition} (h : parseCondition part = some (.ok condition)) :
    condition.op = .neq := by
  obtain ⟨a, b, hread⟩ := parseCondition_neq hneq
  cases hread.symm.trans h
  rfl

/-! ### Values that are cut -/

def IsCut (name : List Char) (q : Char) (value r : List Char) : Prop :=
  r <+: name ++ '=' :: q :: value ∧ r ≠ name ++ '=' :: q :: value

omit [UnicodeCase] in
theorem IsCut.of_prefix {r' : List Char} (h : IsCut name q value r) (hr : r' <+: r) :
    IsCut name q value r' := by
  refine ⟨hr.trans h.1, ?_⟩
  rintro rfl
  exact h.2 (h.1.eq_of_length_le hr.length_le)

theorem Quoted.parseCondition_cut (h : Quoted name q value) (hvalue : value ≠ [])
    (hr : IsCut name q value r) (field : QueryField) :
    parseCondition r ≠ some (.ok ⟨field, .eq, String.ofList value⟩) := by
  intro hread
  have hneq : ¬ "!=".toList <:+: r := fun hinfix => by
    have hop := op_of_neq_infix hinfix hread
    cases hop
  by_cases hmem : '=' ∈ r
  · obtain ⟨a, y, rfl, ha⟩ := eq_append_cons_of_mem hmem
    rcases parseCondition_eq hneq ha with ⟨-, heq⟩ | ⟨-, heq⟩
    · -- what follows the operator is a cut of the quoted value
      rw [heq] at hread
      obtain ⟨⟨t, ht⟩, hcut⟩ := hr
      rw [append_assoc, cons_append] at ht
      obtain ⟨rfl, hy⟩ := append_cons_inj_of_notMem ha h.eq_notMem_name ht
      have hval : valueOf y = value :=
        String.ofList_injective (congrArg QueryCondition.value
          (Except.ok.inj (Option.some.inj hread)))
      have hinfix : value <:+: y := by
        rw [← hval]
        exact (trimBy_isInfix _ _).trans ((trimBy_isInfix _ _).trans (trimBy_isInfix _ _))
      cases y with
      | nil => exact hvalue (infix_nil.mp hinfix)
      | cons d y =>
        rw [cons_append] at hy
        obtain ⟨rfl, hrest⟩ := List.cons.inj hy
        have hshort : y.length < value.length := by
          rw [← hrest, length_append]
          refine Nat.lt_add_of_pos_right (length_pos_iff.mpr ?_)
          rintro rfl
          rw [append_nil] at hrest
          exact hcut (by rw [hrest])
        rcases infix_cons_iff.mp hinfix with hprefix | hinfix
        · cases value with
          | nil => exact hvalue rfl
          | cons e value =>
            obtain ⟨u, hu⟩ := hprefix
            have he := h.value e mem_cons_self
            rw [(List.cons.inj hu).1, h.quote] at he
            cases he
        · exact absurd hinfix.length_le (Nat.not_le.mpr hshort)
    · cases heq.symm.trans hread
  · rw [parseCondition_missing hmem] at hread
    cases hread

theorem Quoted.splitByAnd_cut (h : Quoted name q value)
    (hr : r <+: name ++ '=' :: q :: value) : splitByAnd r = lastPart r := by
  have hname : name ++ ['='] <+: name ++ '=' :: q :: value := ⟨q :: value, by simp⟩
  rcases prefix_or_prefix_of_prefix hr hname with hshort | ⟨y, rfl⟩
  · exact splitByAnd_plain fun c hc => h.plain_name c (hshort.subset hc)
  · have hy : y <+: q :: value := by
      rw [← append_cons, prefix_append_right_inj, prefix_cons_inj] at hr
      exact hr
    rcases prefix_cons_iff.mp hy with rfl | ⟨v, rfl, hv⟩
    · rw [append_nil]
      exact splitByAnd_plain h.plain_name
    · have hopen := splitByAnd_open h.plain_name h.quote
        (fun c hc => h.value c (hv.subset hc)) []
      rwa [append_nil, length_nil, splitLoop] at hopen

theorem Quoted.parseConditions_cut (h : Quoted name q value) (hvalue : value ≠ [])
    (hr : IsCut name q value r) (field : QueryField) :
    parseConditions (splitByAnd r) ≠ some (.ok [⟨field, .eq, String.ofList value⟩]) := by
  have htrim : trim r <+: r := trimBy_isPrefix (h.head?_of_prefix hr.1)
  have htwice : trim (trim r) = trim r := trimBy_trimBy isWhitespace r
  rw [h.splitByAnd_cut hr.1, lastPart]
  split
  · intro hread
    cases hread
  · next hne =>
    rw [parseConditions, htwice, if_neg hne]
    have hcut := h.parseCondition_cut hvalue (hr.of_prefix htrim) field
    cases hread : parseCondition (trim r) with
    | none => exact (Option.some_ne_none _).symm
    | some result =>
      cases result with
      | error e =>
        intro heq
        cases heq
      | ok condition =>
        intro heq
        cases heq
        exact hcut hread

omit [UnicodeCase] in
theorem isCut_of_append {t : List Char} (ht : quoted name q value = a ++ t)
    (hlen : utf8Len [q] < utf8Len t) : IsCut name q value a := by
  rw [quoted_eq_concat] at ht
  rcases eq_nil_or_concat t with rfl | ⟨t', d, rfl⟩
  · cases hlen
  · rw [concat_eq_append, ← append_assoc] at ht
    obtain ⟨hw, hd⟩ := append_inj' ht rfl
    refine ⟨⟨t', hw.symm⟩, ?_⟩
    rintro rfl
    have hnil : t' = [] := append_right_eq_self.mp hw.symm
    rw [hnil, concat_eq_append, nil_append, ← hd] at hlen
    exact absurd hlen (Nat.lt_irrefl _)

theorem Quoted.isCut_of_extractClause (h : Quoted name q value) {rest : List Char}
    {found : Option Nat} (hkeyword : keyword <:+: uppercase (quoted name q value))
    (hlong : utf8Len [q] < utf8Len keyword)
    (hextract : extractClause keyword (quoted name q value) = some (rest, found)) :
    IsCut name q value rest := by
  rcases before_of_extractClause hextract with ⟨hnot, -⟩ | ⟨a, c, htext, hfirst, rfl⟩
  · exact absurd hkeyword hnot
  · obtain ⟨a', b, c', htext', ha', hb⟩ := cutsCleanly_of_extractClause hextract _ hfirst
    rw [append_assoc] at htext'
    obtain ⟨rfl, -⟩ := append_inj_of_utf8Len (htext'.symm.trans htext) ha'
    have hcut : IsCut name q value a' := by
      refine isCut_of_append htext' ?_
      rw [String.utf8Len_append, hb]
      omega
    exact hcut.of_prefix (trimBy_isPrefix (h.head?_of_prefix hcut.1))

theorem Quoted.isCut_extractClause (h : Quoted name q value) {rest : List Char}
    {found : Option Nat} (hr : IsCut name q value r)
    (hextract : extractClause keyword r = some (rest, found)) : IsCut name q value rest := by
  rcases before_of_extractClause hextract with ⟨-, rfl⟩ | ⟨a, c, rfl, -, rfl⟩
  · exact hr
  · have ha := hr.of_prefix (prefix_append a c)
    exact ha.of_prefix (trimBy_isPrefix (h.head?_of_prefix ha.1))

/-! ### Values that are kept -/

theorem exists_passes {text : List Char} {query : VisibilityQuery}
    (h : parse text = some (.ok query)) :
    ∃ limited skipped, extractClause limitKeyword (trim text) = some limited
      ∧ extractClause offsetKeyword limited.1 = some skipped
      ∧ parseConditions (splitByAnd skipped.1) = some (.ok query.conditions) := by
  rw [parse_eq_bind] at h
  obtain ⟨limited, hlimited, h⟩ := Option.bind_eq_some_iff.mp h
  obtain ⟨skipped, hskipped, h⟩ := Option.bind_eq_some_iff.mp h
  obtain ⟨result, hresult, hmap⟩ := Option.map_eq_some_iff.mp h
  refine ⟨limited, skipped, hlimited, hskipped, ?_⟩
  cases result with
  | error e => cases hmap
  | ok conditions =>
    cases hmap
    exact hresult

theorem Quoted.no_clause_of_parse (h : Quoted name q value) {query : VisibilityQuery}
    {field : QueryField} (hquery : query.conditions = [⟨field, .eq, String.ofList value⟩])
    (hparse : parse (quoted name q value) = some (.ok query)) :
    ¬ limitKeyword <:+: uppercase value ∧ ¬ offsetKeyword <:+: uppercase value := by
  have hq := (isWhitespace_quote h.quote).2.2.2
  have hvalue : ∀ {keyword : List Char}, keyword ≠ [] → keyword <:+: uppercase value →
      value ≠ [] := by
    rintro keyword hne hinfix rfl
    exact hne (infix_nil.mp hinfix)
  obtain ⟨limited, skipped, hlimited, hskipped, hread⟩ := exists_passes hparse
  rw [h.trim_quoted] at hlimited
  rw [hquery] at hread
  have hlimit : ¬ limitKeyword <:+: uppercase value := by
    intro hinfix
    have hcut := h.isCut_of_extractClause ((h.keyword_infix_iff rfl rfl).mpr hinfix)
      (by rw [hq]; decide) hlimited
    exact h.parseConditions_cut (hvalue (by decide) hinfix)
      (h.isCut_extractClause hcut hskipped) field hread
  refine ⟨hlimit, fun hinfix => ?_⟩
  have hnone : find limitKeyword (uppercase (quoted name q value)) = none :=
    find_eq_none_iff.mpr fun hfound => hlimit ((h.keyword_infix_iff rfl rfl).mp hfound)
  rw [extractClause_of_none hnone] at hlimited
  cases hlimited
  have hcut := h.isCut_of_extractClause ((h.keyword_infix_iff rfl rfl).mpr hinfix)
    (by rw [hq]; decide) hskipped
  exact h.parseConditions_cut (hvalue (by decide) hinfix) hcut field hread

theorem Quoted.parse_of_no_clause (h : Quoted name q value)
    (hlimit : ¬ limitKeyword <:+: uppercase value)
    (hoffset : ¬ offsetKeyword <:+: uppercase value) :
    parse (quoted name q value)
      = (parseCondition (quoted name q value)).map
          (Except.map fun condition => ⟨[condition], none, none⟩) := by
  have hnone : ∀ {keyword : List Char}, keyword.head? = some ' ' → keyword.getLast? = some ' ' →
      ¬ keyword <:+: uppercase value →
      extractClause keyword (quoted name q value) = some (quoted name q value, none) :=
    fun hhead hlast hnot => extractClause_of_none (find_eq_none_iff.mpr fun hfound =>
      hnot ((h.keyword_infix_iff hhead hlast).mp hfound))
  rw [parse_eq_bind, h.trim_quoted, hnone rfl rfl hlimit, Option.bind_some,
    hnone rfl rfl hoffset, Option.bind_some, h.splitByAnd_quoted, parseConditions,
    h.trim_quoted, if_neg (by simp [quoted])]
  cases parseCondition (quoted name q value) with
  | none => rfl
  | some result =>
    cases result with
    | error e | ok condition => rfl

/-- **Quoted values** are read back without LIMIT, OFFSET and `!=` in them, after a name ending in
    ASCII. -/
theorem parse_quoted_iff (hname : ∀ c ∈ name, IsPlain c) (hq : isQuote q = true)
    (hvalue : ∀ c ∈ value, isQuote c = false) :
    parse (quoted name q value)
        = some (.ok ⟨[⟨fieldOf name, .eq, String.ofList value⟩], none, none⟩)
      ↔ ¬ limitKeyword <:+: uppercase value ∧ ¬ offsetKeyword <:+: uppercase value
        ∧ ¬ "!=".toList <:+: value ∧ ∀ c ∈ name.getLast?, c.utf8Size = 1 := by
  have h : Quoted name q value := ⟨hname, hq, hvalue⟩
  constructor
  · intro hparse
    obtain ⟨hlimit, hoffset⟩ := h.no_clause_of_parse rfl hparse
    rw [h.parse_of_no_clause hlimit hoffset] at hparse
    obtain ⟨result, hresult, hmap⟩ := Option.map_eq_some_iff.mp hparse
    cases result with
    | error e => cases hmap
    | ok condition =>
      cases hmap
      have hneq : ¬ "!=".toList <:+: value := fun hinfix => by
        have hop := op_of_neq_infix (h.neq_infix_iff.mpr hinfix) hresult
        cases hop
      rcases h.parseCondition_quoted hneq with ⟨hone, -⟩ | ⟨-, hnone⟩
      · exact ⟨hlimit, hoffset, hneq, hone⟩
      · cases hnone.symm.trans hresult
  · rintro ⟨hlimit, hoffset, hneq, hone⟩
    rcases h.parseCondition_quoted hneq with ⟨-, hread⟩ | ⟨⟨c, hc, hmany⟩, -⟩
    · rw [h.parse_of_no_clause hlimit hoffset, hread]
      rfl
    · exact absurd (hone c hc) hmany

end Passes

theorem parse_quoted_iff_order :
    letI := latinCase
    (∀ c ∈ "WorkflowType".toList, IsPlain c) ∧ isQuote '\'' = true
      ∧ (∀ c ∈ "Buy AND sell".toList, isQuote c = false)
      ∧ (parse (quoted "WorkflowType".toList '\'' "Buy AND sell".toList)
          = some (.ok ⟨[⟨fieldOf "WorkflowType".toList, .eq,
              String.ofList "Buy AND sell".toList⟩], none, none⟩)
        ↔ ¬ limitKeyword <:+: uppercase "Buy AND sell".toList
          ∧ ¬ offsetKeyword <:+: uppercase "Buy AND sell".toList
          ∧ ¬ "!=".toList <:+: "Buy AND sell".toList
          ∧ ∀ c ∈ "WorkflowType".toList.getLast?, c.utf8Size = 1) :=
  letI := latinCase
  have hname : ∀ c ∈ "WorkflowType".toList, IsPlain c :=
    fun c hc => isPlain_of_isAlpha (all_eq_true.mp (by decide) c hc)
  have hvalue : ∀ c ∈ "Buy AND sell".toList, isQuote c = false := fun c hc =>
    beq_iff_eq.mp (all_eq_true.mp (rfl : "Buy AND sell".toList.all (isQuote · == false)) c hc)
  ⟨hname, rfl, hvalue, parse_quoted_iff hname rfl hvalue⟩

theorem quoted_limit_taken :
    letI := latinCase
    parse "WorkflowType='no limit 5 here'".toList
      = some (.ok ⟨[⟨.workflowType, .eq, "no"⟩], some 5, none⟩) := by
  rfl

end Velocity.VisibilityQuery
