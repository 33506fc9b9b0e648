import Velocity.Search.Grammar

namespace Velocity.Search

open Lib List

/-!
# Printed queries

The printer writes a string between quotes as it is, with no escapes.
-/

variable {F : Type}

/-! ### Strings -/

def Clean (s : List Char) : Prop := '\'' ∉ s ∧ '\\' ∉ s

variable {s : List Char}

theorem clean_cons {c : Char} (hquote : c ≠ '\'') (hslash : c ≠ '\\') :
    Clean (c :: s) ↔ Clean s := by
  simp [Clean, hquote.symm, hslash.symm]

theorem Clean.escaped (h : Clean s) : Escaped s s := by
  induction s with
  | nil => exact .nil
  | cons c s ih =>
    obtain ⟨hquote, hslash⟩ : c ≠ '\'' ∧ c ≠ '\\' := by
      constructor
      · rintro rfl
        exact h.1 mem_cons_self
      · rintro rfl
        exact h.2 mem_cons_self
    exact .plain hquote hslash (ih ((clean_cons hquote hslash).mp h))

theorem readString_ne (b rest r : List Char) (k : Nat) :
    readString (b ++ '\'' :: rest) ≠ some (List.replicate (k + 1) '\\' ++ b, r) := by
  induction b using readString.induct generalizing k with
  | case1 => simp [readString_quote]
  | case2 b =>
    rw [cons_append, readString_quote]
    simp [replicate_succ]
  | case3 =>
    rw [singleton_append, readString_escape]
    simp [replicate_succ]
  | case4 d b hslash ih =>
    rw [cons_append, cons_append, readString_escape]
    intro h
    rw [replicate_succ, cons_append] at h
    obtain ⟨rfl, hread⟩ := map_cons_eq_some_iff.mp h
    refine ih (k + 1) ?_
    rw [hread, replicate_succ', replicate_succ']
    simp
  | case5 c b hquote hslash ih =>
    rw [cons_append, readString_plain hquote hslash]
    intro h
    exact hslash (map_cons_eq_some_iff.mp h).1

theorem clean_of_readString {rest r : List Char}
    (h : readString (s ++ '\'' :: rest) = some (s, r)) : Clean s := by
  induction s with
  | nil => simp [Clean]
  | cons c s ih =>
    rw [cons_append] at h
    by_cases hquote : c = '\''
    · subst hquote
      rw [readString_quote] at h
      cases h
    by_cases hslash : c = '\\'
    · subst hslash
      cases s with
      | nil =>
        rw [nil_append, readString_escape] at h
        simp at h
      | cons d s =>
        rw [cons_append, readString_escape] at h
        obtain ⟨rfl, hread⟩ := map_cons_eq_some_iff.mp h
        exact absurd hread (readString_ne s rest r 0)
    · rw [readString_plain hquote hslash] at h
      exact (clean_cons hquote hslash).mpr (ih (map_cons_eq_some_iff.mp h).2)

/-! ### Queries that are printed -/

structure IsField (F : Type) (field : List Char) : Prop where
  word : ∃ c w, field = c :: w ∧ isWordStart c = true ∧ ∀ d ∈ w, isWordChar d = true
  notKeyword : ∀ k ∈ (keywords : List (List Char × Token F)), field.map Char.toUpper ≠ k.1

def QueryValue.IsDouble : QueryValue F → Prop
  | .double _ => True
  | _ => False

/-- No floats, identifiers as field names, no empty `IN`. -/
def QueryExpr.Printable : QueryExpr F → Prop
  | .comparison field _ value => IsField F field ∧ ¬ value.IsDouble
  | .and l r => l.Printable ∧ r.Printable
  | .or l r => l.Printable ∧ r.Printable
  | .not e => e.Printable
  | .between field low high => IsField F field ∧ ¬ low.IsDouble ∧ ¬ high.IsDouble
  | .inList field values => IsField F field ∧ values ≠ [] ∧ ∀ v ∈ values, ¬ v.IsDouble
  | .like field _ => IsField F field
  | .isNull field => IsField F field
  | .isNotNull field => IsField F field

def QueryValue.strings : QueryValue F → List (List Char)
  | .string s => [s]
  | _ => []

def QueryExpr.strings : QueryExpr F → List (List Char)
  | .comparison _ _ value => value.strings
  | .and l r => l.strings ++ r.strings
  | .or l r => l.strings ++ r.strings
  | .not e => e.strings
  | .between _ low high => low.strings ++ high.strings
  | .inList _ values => values.flatMap QueryValue.strings
  | .like _ pattern => [pattern]
  | .isNull _ => []
  | .isNotNull _ => []

def QueryValue.token : QueryValue F → Token F
  | .string s => .stringLit s
  | .integer i => .intLit i
  | .double d => .floatLit d
  | .bool true => .trueWord
  | .bool false => .falseWord
  | .null => .null

def CompareOp.token : CompareOp → Token F
  | .eq => .eq
  | .ne => .ne
  | .lt => .lt
  | .gt => .gt
  | .le => .le
  | .ge => .ge

def valueTokens (values : List (QueryValue F)) : List (Token F) :=
  List.intersperse .comma (values.map QueryValue.token)

def QueryExpr.tokens : QueryExpr F → List (Token F)
  | .comparison field op value => [.ident field, op.token, value.token]
  | .and l r => .lParen :: (l.tokens ++ .and :: (r.tokens ++ [.rParen]))
  | .or l r => .lParen :: (l.tokens ++ .or :: (r.tokens ++ [.rParen]))
  | .not e => .not :: .lParen :: (e.tokens ++ [.rParen])
  | .between field low high => [.ident field, .between, low.token, .and, high.token]
  | .inList field values =>
    .ident field :: .inWord :: .lParen :: (valueTokens values ++ [.rParen])
  | .like field pattern => [.ident field, .like, .stringLit pattern]
  | .isNull field => [.ident field, .is, .null]
  | .isNotNull field => [.ident field, .is, .not, .null]

/-! ### Tokens of a printed query -/

theorem QueryValue.value?_token (v : QueryValue F) : v.token.value? = some v := by
  cases v with
  | bool b => cases b <;> rfl
  | _ => rfl

theorem CompareOp.op?_token (op : CompareOp) : (op.token : Token F).op? = some op := by
  cases op <;> rfl

theorem valueList_valueTokens {values : List (QueryValue F)} (h : values ≠ []) :
    ValueList (valueTokens values) values := by
  induction values with
  | nil => exact absurd rfl h
  | cons v values ih =>
    cases values with
    | nil => exact .one v.value?_token
    | cons w values => exact .cons v.value?_token (ih (cons_ne_nil _ _))

variable {e : QueryExpr F}

theorem Derives.of_paren {ts us : List (Token F)} {t : Token F} (h : IsQuery (ts ++ t :: us) e) :
    Derives .not (.lParen :: (ts ++ t :: (us ++ [.rParen]))) e := by
  have hparen := Derives.paren h
  rw [append_assoc] at hparen
  exact .ofPrimary hparen

theorem QueryExpr.Printable.derives (h : e.Printable) : Derives .not e.tokens e := by
  induction e with
  | comparison field op value =>
    exact .ofPrimary (.field (.comparison op.op?_token value.value?_token))
  | and l r ihl ihr =>
    exact .of_paren (.one (.more (c := .and) (.one (ihl h.1)) (ihr h.2)))
  | or l r ihl ihr =>
    exact .of_paren
      (.more (c := .or) (.one (.one (c := .and) (ihl h.1))) (.one (c := .and) (ihr h.2)))
  | not e ih => exact .not (.paren (.one (.one (c := .and) (ih h))))
  | between field low high =>
    exact .ofPrimary (.field (.between low.value?_token high.value?_token))
  | inList field values => exact .ofPrimary (.field (.inList (valueList_valueTokens h.2.1)))
  | like field pattern => exact .ofPrimary (.field (.like pattern))
  | isNull field => exact .ofPrimary (.field .isNull)
  | isNotNull field => exact .ofPrimary (.field .isNotNull)

def Token.string? : Token F → Option (List Char)
  | .stringLit s => some s
  | _ => none

def literals (ts : List (Token F)) : List (List Char) := ts.filterMap Token.string?

theorem literals_append (ts us : List (Token F)) :
    literals (ts ++ us) = literals ts ++ literals us :=
  filterMap_append

theorem literals_cons_value {t : Token F} {v : QueryValue F} (h : t.value? = some v)
    (ts : List (Token F)) : literals (t :: ts) = v.strings ++ literals ts := by
  cases t <;> cases h <;> rfl

variable {ts : List (Token F)}

theorem ValueList.literals_eq {vs : List (QueryValue F)}
    (h : ValueList ts vs) : literals ts = vs.flatMap QueryValue.strings := by
  induction h with
  | one h => rw [literals_cons_value h]; simp [literals]
  | cons h _ ih =>
    rw [literals_cons_value h, flatMap_cons, ← ih]
    rfl

theorem Condition.literals_eq {field : List Char}
    (h : Condition field ts e) : literals ts = e.strings := by
  cases h with
  | isNull | isNotNull => rfl
  | @between t u low high hlow hhigh =>
    change literals (t :: .and :: [u]) = low.strings ++ high.strings
    rw [literals_cons_value hlow]
    change _ ++ literals [u] = _
    rw [literals_cons_value hhigh]
    exact congrArg _ (append_nil _)
  | inList h =>
    change literals (_ ++ _) = _
    rw [literals_append, h.literals_eq]
    exact append_nil _
  | like pattern => rfl
  | @comparison t u _ value hop hvalue =>
    have hskip : literals [t, u] = literals [u] := by
      cases t <;> first | rfl | cases hop
    rw [hskip, literals_cons_value hvalue]
    exact append_nil _

theorem Derives.literals_eq {level : Level} (h : Derives level ts e) : literals ts = e.strings := by
  induction h with
  | one _ ih => exact ih
  | @more c ts us l r _ _ ihl ihr =>
    cases c <;>
    · rw [literals_append, ihl]
      exact congrArg _ ihr
  | ofPrimary _ ih | not _ ih => exact ih
  | paren _ ih =>
    change literals (_ ++ _) = _
    rw [literals_append, ih]
    exact append_nil _
  | field h => exact h.literals_eq

/-! ### Pieces of a printed text -/

section Pieces

variable [F64 F]

def ReadsWith (text : List Char) (strings : List (List Char)) (ts : List (Token F)) : Prop :=
  Spells text ts ∧ strings <+: literals ts

/-- Text that is read as its tokens iff its strings are clean. -/
def Piece (p : List Char → Prop) (text : List Char) (strings : List (List Char))
    (tokens : List (Token F)) : Prop :=
  ∀ rest strings' ts, p rest →
    (ReadsWith (text ++ rest) (strings ++ strings') ts ↔
      (∀ s ∈ strings, Clean s) ∧ ∃ us, ts = tokens ++ us ∧ ReadsWith rest strings' us)

variable {p q : List Char → Prop} {a b : List Char} {sa sb : List (List Char)}
  {ta tb : List (Token F)}

theorem Piece.append (ha : Piece p a sa ta) (hb : Piece q b sb tb)
    (h : ∀ rest, q rest → p (b ++ rest)) : Piece q (a ++ b) (sa ++ sb) (ta ++ tb) := by
  intro rest strings ts hrest
  rw [append_assoc, append_assoc, ha _ _ _ (h rest hrest)]
  simp only [hb rest strings _ hrest, forall_mem_append]
  constructor
  · rintro ⟨hsa, us, rfl, hsb, vs, rfl, hvs⟩
    exact ⟨⟨hsa, hsb⟩, vs, (append_assoc ..).symm, hvs⟩
  · rintro ⟨⟨hsa, hsb⟩, vs, rfl, hvs⟩
    exact ⟨hsa, tb ++ vs, append_assoc .., hsb, vs, rfl, hvs⟩

theorem Piece.space (h : Piece p a sa ta) : Piece p (' ' :: a) sa ta := by
  intro rest strings ts hrest
  rw [← h rest strings ts hrest, ReadsWith, cons_append, spells_space_iff]
  rfl

variable {t : Token F}

theorem piece_token (hspelled : Spelling t a) (hstring : t.string? = none)
    (h : ∀ rest, p rest → t.EndsBefore rest) : Piece p a [] [t] := by
  intro rest strings ts hrest
  rw [ReadsWith, spells_cons_iff hspelled (h rest hrest)]
  constructor
  · rintro ⟨⟨us, rfl, hus⟩, hstrings⟩
    refine ⟨by simp, us, rfl, hus, ?_⟩
    rwa [literals, filterMap_cons_none hstring] at hstrings
  · rintro ⟨-, us, rfl, hus, hstrings⟩
    refine ⟨⟨us, rfl, hus⟩, ?_⟩
    rwa [singleton_append, literals, filterMap_cons_none hstring]

theorem quote_append (s rest : List Char) : quote s ++ rest = '\'' :: (s ++ '\'' :: rest) := by
  simp [quote]

theorem spells_quote {s rest : List Char} {ts : List (Token F)} (h : Spells (quote s ++ rest) ts) :
    ∃ r rest' us, readString (s ++ '\'' :: rest) = some (r, rest') ∧ ts = .stringLit r :: us := by
  rw [quote_append] at h
  obtain ⟨t, rest', us, hlex, rfl⟩ := h.exists_lexToken rfl 0
  rw [lexToken_quote] at hlex
  cases hread : readString (s ++ '\'' :: rest) with
  | some r =>
    rw [hread] at hlex
    cases hlex
    exact ⟨_, _, us, rfl, rfl⟩
  | none =>
    rw [hread] at hlex
    cases hlex

theorem piece_string (s : List Char) : Piece (F := F) p (quote s) [s] [.stringLit s] := by
  intro rest strings ts _
  have hends : (Token.stringLit s : Token F).EndsBefore rest := fun _ _ => rfl
  constructor
  · rintro ⟨hspells, hstrings⟩
    have hclean : Clean s := by
      obtain ⟨r, rest', us, hread, rfl⟩ := spells_quote hspells
      obtain ⟨rfl, -⟩ := cons_prefix_cons.mp hstrings
      exact clean_of_readString hread
    obtain ⟨us, rfl, hus⟩ := (spells_cons_iff (.string hclean.escaped) hends).mp hspells
    exact ⟨by simpa using hclean, us, rfl, hus, (cons_prefix_cons.mp hstrings).2⟩
  · rintro ⟨hclean, us, rfl, hus, hstrings⟩
    have hclean : Clean s := by simpa using hclean
    exact ⟨(spells_cons_iff (.string hclean.escaped) hends).mpr ⟨us, rfl, hus⟩,
      cons_prefix_cons.mpr ⟨rfl, hstrings⟩⟩

def Delimited (rest : List Char) : Prop := ∀ c ∈ rest.head?, c = ' ' ∨ c = ')' ∨ c = ','

theorem delimited_space (rest : List Char) : Delimited (' ' :: rest) := by simp [Delimited]

theorem delimited_close (rest : List Char) : Delimited (')' :: rest) := by simp [Delimited]

theorem delimited_comma (rest : List Char) : Delimited (',' :: rest) := by simp [Delimited]

omit [F64 F] in
theorem Delimited.endsBefore {rest : List Char} (h : Delimited rest) (t : Token F) :
    t.EndsBefore rest := by
  intro c hc
  rcases h c hc with rfl | rfl | rfl <;> cases t <;> rfl

theorem piece_symbol (hspelled : Spelling t a) (hstring : t.string? = none) :
    Piece Delimited a [] [t] :=
  piece_token hspelled hstring fun _ hrest => hrest.endsBefore t

theorem Piece.spaced (ha : Piece Delimited a sa ta) (hb : Piece q b sb tb) :
    Piece q (a ++ ' ' :: b) (sa ++ sb) (ta ++ tb) :=
  ha.append hb.space fun _ _ => delimited_space _

variable {w : List Char}

theorem piece_word {c : Char} (hc : isWordStart c = true)
    (hw : ∀ d ∈ w, isWordChar d = true) (ht : wordToken (c :: w) = t) (hstring : t.string? = none) :
    Piece Delimited (c :: w) [] [t] := by
  subst ht
  exact piece_symbol (.word hc hw) hstring

theorem piece_field {field : List Char} (h : IsField F field) :
    Piece Delimited field [] [(.ident field : Token F)] := by
  obtain ⟨c, w, rfl, hc, hw⟩ := h.word
  refine piece_word hc hw ?_ rfl
  have hnone : (keywords : List (List Char × Token F)).lookup ((c :: w).map Char.toUpper) = none :=
    lookup_eq_none_iff.mpr fun k hk => bne_iff_ne.mpr (h.notKeyword k hk)
  rw [wordToken, hnone]
  rfl

theorem piece_op (op : CompareOp) : Piece Delimited op.display [] [(op.token : Token F)] := by
  cases op with
  | eq => exact piece_symbol .eq rfl
  | ne => exact piece_symbol .ne rfl
  | lt => exact piece_symbol .lt rfl
  | gt => exact piece_symbol .gt rfl
  | le => exact piece_symbol .le rfl
  | ge => exact piece_symbol .ge rfl

theorem piece_open : Piece (F := F) (fun _ => True) ['('] [] [.lParen] :=
  piece_token .lParen rfl fun _ _ _ _ => rfl

theorem piece_close : Piece (F := F) Delimited [')'] [] [.rParen] := piece_symbol .rParen rfl

theorem piece_comma : Piece (F := F) (fun _ => True) [','] [] [.comma] :=
  piece_token .comma rfl fun _ _ _ _ => rfl

theorem piece_keyword (h : (w, t) ∈ keywords) : Piece Delimited w [] [t] := by
  simp only [keywords, mem_cons, Prod.mk.injEq, not_mem_nil, or_false] at h
  rcases h with ⟨rfl, rfl⟩ | ⟨rfl, rfl⟩ | ⟨rfl, rfl⟩ | ⟨rfl, rfl⟩ | ⟨rfl, rfl⟩ | ⟨rfl, rfl⟩ |
    ⟨rfl, rfl⟩ | ⟨rfl, rfl⟩ | ⟨rfl, rfl⟩ | ⟨rfl, rfl⟩ <;>
    exact piece_word rfl (all_eq_true.mp rfl) rfl rfl

theorem spelling_integer (i : Int64) : Spelling (.intLit i : Token F) (toString i).toList := by
  have hlow := i.le_toInt
  have hhigh := i.toInt_lt
  have hback := i.ofInt_toInt
  have htext : (toString i).toList = i.toInt.repr.toList := rfl
  rw [htext]
  cases hi : i.toInt with
  | ofNat n =>
    rw [hi] at hhigh hback
    rw [Int.ofNat_eq_natCast] at hhigh
    have hparse : parseI64 ([] ++ Nat.toDigits 10 n) = some i := by
      rw [nil_append, parseI64, if_neg (head?_decimal_ne n rfl),
        parseUnsigned_decimal (by omega)]
      exact congrArg some hback
    have hdigits : (Int.ofNat n).repr.toList = [] ++ Nat.toDigits 10 n := toList_toString n
    rw [hdigits]
    exact .int (.inl rfl) (fun c hc => isDigit_of_mem_decimal hc) hparse
  | negSucc m =>
    rw [hi] at hlow hback
    have hne : Nat.toDigits 10 (m + 1) ≠ [] := Nat.toDigits_ne_nil
    have hparse : parseI64 (['-'] ++ Nat.toDigits 10 (m + 1)) = some i := by
      rw [singleton_append, parseI64, head?_cons, if_pos rfl, tail_cons,
        if_neg (by simp [hne]), digitsFrom_decimal]
      exact (if_pos (by omega)).trans (congrArg some hback)
    have hdigits : (Int.negSucc m).repr.toList = ['-'] ++ Nat.toDigits 10 (m + 1) := by
      rw [← toList_toString]
      exact String.toList_append
    rw [hdigits]
    exact .int (.inr rfl) (fun c hc => isDigit_of_mem_decimal hc) hparse

theorem piece_value {v : QueryValue F} (hv : ¬ v.IsDouble) :
    Piece Delimited v.display v.strings [v.token] := by
  cases v with
  | string s => exact piece_string s
  | integer i => exact piece_symbol (spelling_integer i) rfl
  | double d => exact absurd trivial hv
  | bool b =>
    cases b with
    | true | false => exact piece_word rfl (all_eq_true.mp rfl) rfl rfl
  | null => exact piece_word rfl (all_eq_true.mp rfl) rfl rfl

theorem piece_values {values : List (QueryValue F)} (hne : values ≠ [])
    (hvalues : ∀ v ∈ values, ¬ v.IsDouble) :
    Piece Delimited (List.intercalate [',', ' '] (values.map QueryValue.display))
      (values.flatMap QueryValue.strings) (valueTokens values) := by
  induction values with
  | nil => exact absurd rfl hne
  | cons v values ih =>
    have hv := piece_value (hvalues v mem_cons_self)
    cases values with
    | nil => simpa [valueTokens] using hv
    | cons w values =>
      have hrest := ih (cons_ne_nil _ _) fun u hu => hvalues u (mem_cons_of_mem v hu)
      have hboth := hv.append (piece_comma.append hrest.space fun _ _ => trivial)
        fun _ _ => delimited_comma _
      rw [map_cons, map_cons, intercalate_cons_cons, append_assoc]
      exact hboth

theorem Piece.parens (h : Piece Delimited a sa ta) :
    Piece Delimited ('(' :: (a ++ [')'])) sa (.lParen :: (ta ++ [.rParen])) := by
  have hclosed := h.append piece_close fun _ _ => delimited_close _
  rw [append_nil] at hclosed
  exact piece_open.append hclosed fun _ _ => trivial

theorem Piece.between (ha : Piece Delimited a sa ta)
    (hb : Piece Delimited b sb tb) (ht : (w, t) ∈ keywords) :
    Piece Delimited (a ++ ' ' :: (w ++ ' ' :: b)) (sa ++ sb) (ta ++ t :: tb) :=
  ha.spaced ((piece_keyword ht).spaced hb)

theorem piece_display {e : QueryExpr F} (h : e.Printable) :
    Piece Delimited e.display e.strings e.tokens := by
  have hnull : Piece Delimited ['N', 'U', 'L', 'L'] [] [(.null : Token F)] :=
    piece_keyword (by simp [keywords])
  have hnot : Piece Delimited ['N', 'O', 'T'] [] [(.not : Token F)] :=
    piece_keyword (by simp [keywords])
  induction e with
  | comparison field op value =>
    exact (piece_field h.1).spaced ((piece_op op).spaced (piece_value h.2))
  | and l r ihl ihr =>
    have hjoin := ((ihl h.1).between (ihr h.2) (w := ['A', 'N', 'D']) (t := .and)
      (by simp [keywords])).parens
    rw [append_assoc, append_assoc] at hjoin
    exact hjoin
  | or l r ihl ihr =>
    have hjoin := ((ihl h.1).between (ihr h.2) (w := ['O', 'R']) (t := .or)
      (by simp [keywords])).parens
    rw [append_assoc, append_assoc] at hjoin
    exact hjoin
  | not e ih => exact hnot.spaced (ih h).parens
  | between field low high =>
    have hbounds := (piece_value h.2.1).between (piece_value h.2.2) (w := ['A', 'N', 'D'])
      (t := .and) (by simp [keywords])
    exact (piece_field h.1).between hbounds (w := ['B', 'E', 'T', 'W', 'E', 'E', 'N'])
      (t := .between) (by simp [keywords])
  | inList field values =>
    exact (piece_field h.1).between (piece_values h.2.1 h.2.2).parens (w := ['I', 'N'])
      (t := .inWord) (by simp [keywords])
  | like field pattern =>
    exact (piece_field h).between (piece_string pattern) (w := ['L', 'I', 'K', 'E']) (t := .like)
      (by simp [keywords])
  | isNull field =>
    exact (piece_field h).between hnull (w := ['I', 'S']) (t := .is) (by simp [keywords])
  | isNotNull field =>
    exact (piece_field h).between (hnot.spaced hnull) (w := ['I', 'S']) (t := .is)
      (by simp [keywords])

end Pieces

/-- **Round trip** of a query without floats iff its strings have no quote and no backslash. -/
theorem parseQuery_display_iff [F64 F] {e : QueryExpr F} (h : e.Printable) :
    parseQuery e.display = .ok e ↔ ∀ s ∈ e.strings, '\'' ∉ s ∧ '\\' ∉ s := by
  have hdelimited : Delimited [] := by simp [Delimited]
  have hpiece := fun ts => piece_display h [] [] ts hdelimited
  simp only [append_nil] at hpiece
  rw [parseQuery_eq_ok_iff]
  constructor
  · rintro ⟨ts, hspells, hderives⟩
    exact ((hpiece ts).mp ⟨hspells, hderives.literals_eq ▸ prefix_rfl⟩).1
  · intro hclean
    have hnil : ReadsWith [] [] ([] : List (Token F)) := ⟨.nil (by simp), nil_prefix⟩
    have hread := (hpiece e.tokens).mpr ⟨hclean, [], (append_nil _).symm, hnil⟩
    exact ⟨e.tokens, hread.1, .one (.one (c := .and) h.derives)⟩

theorem isField_f : IsField Empty ['f'] := ⟨⟨'f', [], rfl, rfl, by simp⟩, by decide⟩

def joinedQuery : QueryExpr Empty :=
  .and (.comparison ['f'] .eq (.integer (-7))) (.not (.like ['f'] ['a', '%']))

theorem parseQuery_display_iff_joined : parseQuery joinedQuery.display = .ok joinedQuery := by
  have h : joinedQuery.Printable := ⟨⟨isField_f, id⟩, isField_f⟩
  exact (parseQuery_display_iff h).mpr (by decide)

def stringQuery (s : List Char) : QueryExpr Empty := .comparison ['f'] .eq (.string s)

theorem strings_not_read_back :
    (parseQuery (stringQuery ['o', '\'', 'k']).display : Except (Failure Empty) _)
        = .error (.rejected .unterminatedString)
      ∧ parseQuery (stringQuery ['a', '\\', 'b']).display = .ok (stringQuery ['a', 'b']) := by
  decide

end Velocity.Search
