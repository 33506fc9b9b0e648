import Velocity.Search.Spelling

namespace Velocity.Search

open Lib List

/-!
# The grammar of search queries

The grammar that the parser reads, and the tokens that stop right behind a `LIKE`.

* `Derives`: the expressions of a list of tokens.
* `parseQuery_returns_iff`: the parser returns unless the tokens are `Cut`.
-/

variable {F : Type}

/-! ### The grammar -/

inductive ValueList : List (Token F) → List (QueryValue F) → Prop where
  | one {t : Token F} {v : QueryValue F} (h : t.value? = some v) : ValueList [t] [v]
  | cons {t : Token F} {v : QueryValue F} {ts : List (Token F)} {vs : List (QueryValue F)}
      (h : t.value? = some v) (hrest : ValueList ts vs) :
      ValueList (t :: .comma :: ts) (v :: vs)

inductive Condition (field : List Char) : List (Token F) → QueryExpr F → Prop where
  | isNull : Condition field [.is, .null] (.isNull field)
  | isNotNull : Condition field [.is, .not, .null] (.isNotNull field)
  | between {t u : Token F} {low high : QueryValue F} (hlow : t.value? = some low)
      (hhigh : u.value? = some high) :
      Condition field [.between, t, .and, u] (.between field low high)
  | inList {ts : List (Token F)} {values : List (QueryValue F)} (h : ValueList ts values) :
      Condition field (.inWord :: .lParen :: (ts ++ [.rParen])) (.inList field values)
  | like (pattern : List Char) :
      Condition field [.like, .stringLit pattern] (.like field pattern)
  | comparison {t u : Token F} {op : CompareOp} {value : QueryValue F} (hop : t.op? = some op)
      (hvalue : u.value? = some value) : Condition field [t, u] (.comparison field op value)

inductive Connective where
  | or
  | and

inductive Level where
  | chain (c : Connective)
  | not
  | primary

namespace Connective

def item : Connective → Level
  | .or => .chain .and
  | .and => .not

def sep : Connective → Token F
  | .or => .or
  | .and => .and

def isSep : Connective → Token F → Bool
  | .or => Token.isOr
  | .and => Token.isAnd

def join : Connective → QueryExpr F → QueryExpr F → QueryExpr F
  | .or => .or
  | .and => .and

theorem isSep_iff {c : Connective} {t : Token F} : c.isSep t = true ↔ t = c.sep := by
  cases c <;> cases t <;> simp [isSep, sep, Token.isOr, Token.isAnd]

end Connective

inductive Derives : Level → List (Token F) → QueryExpr F → Prop where
  | one {c : Connective} {ts : List (Token F)} {e : QueryExpr F} (h : Derives c.item ts e) :
      Derives (.chain c) ts e
  | more {c : Connective} {ts us : List (Token F)} {l r : QueryExpr F}
      (hl : Derives (.chain c) ts l) (hr : Derives c.item us r) :
      Derives (.chain c) (ts ++ c.sep :: us) (c.join l r)
  | ofPrimary {ts : List (Token F)} {e : QueryExpr F} (h : Derives .primary ts e) :
      Derives .not ts e
  | not {ts : List (Token F)} {e : QueryExpr F} (h : Derives .primary ts e) :
      Derives .not (.not :: ts) (.not e)
  | paren {ts : List (Token F)} {e : QueryExpr F} (h : Derives (.chain .or) ts e) :
      Derives .primary (.lParen :: (ts ++ [.rParen])) e
  | field {field : List Char} {ts : List (Token F)} {e : QueryExpr F}
      (h : Condition field ts e) : Derives .primary (.ident field :: ts) e

inductive Cut : Level → List (Token F) → Prop where
  | one {c : Connective} {ts : List (Token F)} (h : Cut c.item ts) : Cut (.chain c) ts
  | more {c : Connective} {ts us : List (Token F)} {l : QueryExpr F}
      (hl : Derives (.chain c) ts l) (hr : Cut c.item us) : Cut (.chain c) (ts ++ c.sep :: us)
  | ofPrimary {ts : List (Token F)} (h : Cut .primary ts) : Cut .not ts
  | not {ts : List (Token F)} (h : Cut .primary ts) : Cut .not (.not :: ts)
  | paren {ts : List (Token F)} (h : Cut (.chain .or) ts) : Cut .primary (.lParen :: ts)
  | like (field : List Char) : Cut .primary [.ident field, .like]

/-! ### Conditions -/

variable {t : Token F} {v : QueryValue F}

theorem parseValue_cons (h : t.value? = some v)
    (ts : List (Token F)) : parseValue (t :: ts) = .ok (v, ts) := by
  simp only [parseValue, h]

theorem parseValue_cases (ts : List (Token F)) :
    (∃ t us v, ts = t :: us ∧ t.value? = some v ∧ parseValue ts = .ok (v, us)) ∨
      ∃ e, parseValue ts = reject e := by
  cases ts with
  | nil => exact .inr ⟨_, rfl⟩
  | cons t us =>
    cases h : t.value? with
    | none => exact .inr ⟨.expectedValue t, by simp only [parseValue, h]⟩
    | some v => exact .inl ⟨t, us, v, rfl, h, parseValue_cons h us⟩

theorem parseValues_comma (h : t.value? = some v) (ts : List (Token F)) :
    parseValues (t :: .comma :: ts) = (parseValues ts).map (fun r => (v :: r.1, r.2)) := by
  rw [parseValues.eq_def]
  simp only [h]

variable {ts : List (Token F)}

theorem parseValues_last (h : t.value? = some v) (hts : ts.head? ≠ some .comma) :
    parseValues (t :: ts) = .ok ([v], ts) := by
  rw [parseValues.eq_def]
  simp only [h]
  split
  next => exact absurd rfl hts
  next => rfl

theorem ValueList.parseValues_eq {vs : List (QueryValue F)}
    (h : ValueList ts vs) {rest : List (Token F)} (hrest : rest.head? ≠ some .comma) :
    parseValues (ts ++ rest) = .ok (vs, rest) := by
  induction h with
  | one h => exact parseValues_last h hrest
  | cons h _ ih =>
    rw [cons_append, cons_append, parseValues_comma h, ih]
    rfl

theorem parseValues_cases (ts : List (Token F)) :
    (∃ us vs rest, ts = us ++ rest ∧ ValueList us vs ∧ parseValues ts = .ok (vs, rest)) ∨
      ∃ e, parseValues ts = reject e := by
  induction ts using parseValues.induct with
  | case1 => exact .inr ⟨_, rfl⟩
  | case2 t ts h =>
    exact .inr ⟨.expectedValue t, by rw [parseValues.eq_def]; simp only [h]⟩
  | case3 t v h ts ih =>
    rw [parseValues_comma h]
    rcases ih with ⟨us, vs, rest, rfl, hus, hread⟩ | ⟨e, hread⟩
    · rw [hread]
      exact .inl ⟨_, _, rest, rfl, .cons h hus, rfl⟩
    · rw [hread]
      exact .inr ⟨e, rfl⟩
  | case4 t v h ts hcomma =>
    refine .inl ⟨[t], [v], ts, rfl, .one h, parseValues_last h fun hhead => ?_⟩
    obtain ⟨us, rfl⟩ := head?_eq_some_iff.mp hhead
    exact hcomma us rfl

variable (field : List Char)

theorem parseBetween_cases (ts : List (Token F)) :
    (∃ t u low high rest, ts = t :: .and :: u :: rest ∧ t.value? = some low ∧
        u.value? = some high ∧ parseBetween field ts = .ok (.between field low high, rest)) ∨
      ∃ e, parseBetween field ts = reject e := by
  unfold parseBetween
  rcases parseValue_cases ts with ⟨t, us, low, rfl, hlow, hread⟩ | ⟨e, hread⟩
  · rw [hread]
    split
    next h => cases h
    next low' us' h =>
      cases h
      rcases parseValue_cases us' with ⟨u, rest, high, rfl, hhigh, hread'⟩ | ⟨e, hread'⟩
      · rw [hread']
        exact .inl ⟨t, u, low, high, rest, rfl, hlow, hhigh, rfl⟩
      · rw [hread']
        exact .inr ⟨e, rfl⟩
    next => exact .inr ⟨_, rfl⟩
  · rw [hread]
    exact .inr ⟨e, rfl⟩

theorem parseIn_cases (ts : List (Token F)) :
    (∃ us values rest, ts = .lParen :: (us ++ .rParen :: rest) ∧ ValueList us values ∧
        parseIn field ts = .ok (.inList field values, rest)) ∨
      ∃ e, parseIn field ts = reject e := by
  unfold parseIn
  split
  next ts =>
    rcases parseValues_cases ts with ⟨us, values, rest, rfl, hus, hread⟩ | ⟨e, hread⟩
    · rw [hread]
      split
      next h => cases h
      next h =>
        cases h
        exact .inl ⟨us, values, _, rfl, hus, rfl⟩
      next => exact .inr ⟨_, rfl⟩
    · rw [hread]
      exact .inr ⟨e, rfl⟩
  next => exact .inr ⟨_, rfl⟩

theorem parseField_cases (ts : List (Token F)) :
    (∃ us rest e, ts = us ++ rest ∧ Condition field us e ∧
        parseField field ts = .ok (e, rest)) ∨
      (∃ e, parseField field ts = reject e) ∨
      ts = [.like] := by
  fun_cases parseField field ts with
  | case1 => exact .inr (.inl ⟨_, rfl⟩)
  | case2 ts =>
    fun_cases parseIs field ts with
    | case1 ts => exact .inl ⟨_, ts, _, rfl, .isNotNull, rfl⟩
    | case3 ts => exact .inl ⟨_, ts, _, rfl, .isNull, rfl⟩
    | _ => exact .inr (.inl ⟨_, rfl⟩)
  | case3 ts =>
    rcases parseBetween_cases field ts with ⟨t, u, low, high, rest, rfl, hlow, hhigh, hread⟩ | h
    · exact .inl ⟨[.between, t, .and, u], rest, _, rfl, .between hlow hhigh, hread⟩
    · exact .inr (.inl h)
  | case4 ts =>
    rcases parseIn_cases field ts with ⟨us, values, rest, rfl, hus, hread⟩ | h
    · exact .inl ⟨.inWord :: .lParen :: (us ++ [.rParen]), rest, _, by simp, .inList hus, hread⟩
    · exact .inr (.inl h)
  | case5 ts =>
    fun_cases parseLike field ts with
    | case1 => exact .inr (.inr rfl)
    | case2 pattern ts => exact .inl ⟨_, ts, _, rfl, .like pattern, rfl⟩
    | case3 => exact .inr (.inl ⟨_, rfl⟩)
  | case6 t ts =>
    unfold parseComparison
    cases hop : t.op? with
    | none => exact .inr (.inl ⟨_, rfl⟩)
    | some op =>
      rcases parseValue_cases ts with ⟨u, rest, value, rfl, hvalue, hread⟩ | ⟨e, hread⟩
      · simp only [hread]
        exact .inl ⟨[t, u], rest, _, rfl, .comparison hop hvalue, rfl⟩
      · simp only [hread]
        exact .inr (.inl ⟨e, rfl⟩)

theorem Condition.parseField_eq {field : List Char} {e : QueryExpr F}
    (h : Condition field ts e) (rest : List (Token F)) :
    parseField field (ts ++ rest) = .ok (e, rest) := by
  cases h with
  | isNull | isNotNull => rfl
  | @between t u _ _ hlow hhigh =>
    change parseBetween field (t :: .and :: u :: rest) = _
    rw [parseBetween, parseValue_cons hlow]
    simp only [parseValue_cons hhigh]
  | @inList us _ h =>
    change parseIn field (.lParen :: (us ++ [.rParen] ++ rest)) = _
    have hhead : (.rParen :: rest : List (Token F)).head? ≠ some .comma := by simp
    rw [append_assoc, parseIn, singleton_append, h.parseValues_eq hhead]
  | like => rfl
  | @comparison t u _ _ hop hvalue =>
    have hfield : parseField field (t :: u :: rest) = parseComparison field t (u :: rest) := by
      cases t <;> first | rfl | cases hop
    rw [cons_append, cons_append, nil_append, hfield, parseComparison]
    simp only [hop, parseValue_cons hvalue]

/-! ### What the parser returns -/

/-- What was read is derived, and a panic comes from a cut. -/
inductive Outcome (level : Level) (ts : List (Token F)) : Parsed F (QueryExpr F) → Prop where
  | parsed {us rest : List (Token F)} {e : QueryExpr F} (hts : ts = us ++ rest)
      (h : Derives level us e) : Outcome level ts (.ok (e, rest))
  | rejected (e : QueryError F) : Outcome level ts (.error (.rejected e))
  | panicked (h : Cut level ts) : Outcome level ts (.error .panicked)

def Sound (level : Level) (parse : List (Token F) → Parsed F (QueryExpr F)) (n : Nat) : Prop :=
  ∀ ts : List (Token F), ts.length ≤ n → Outcome level ts (parse ts)

section Outcomes

variable {inner item : List (Token F) → Parsed F (QueryExpr F)} {ts us rest done : List (Token F)}
  {left right : QueryExpr F} {c : Connective} {n rounds rounds' : Nat}

theorem Sound.primary (hinner : ∀ us, us.length < n → Outcome (.chain .or) us (inner us)) :
    Sound .primary (parsePrimary inner) n := by
  intro ts hts
  unfold parsePrimary
  split
  next => exact .rejected _
  next us =>
    have houtcome := hinner us hts
    generalize inner us = r at houtcome ⊢
    cases houtcome with
    | rejected e => exact .rejected e
    | panicked h => exact .panicked (.paren h)
    | parsed hts h =>
      subst hts
      split
      next heq => cases heq
      next heq =>
        cases heq
        exact .parsed (by simp) (.paren h)
      next => exact .rejected _
  next field us =>
    rcases parseField_cases field us with ⟨vs, rest, e, rfl, hcond, hread⟩ | ⟨e, hread⟩ | rfl
    · rw [hread]
      exact .parsed rfl (.field hcond)
    · rw [hread]
      exact .rejected e
    · exact .panicked (.like field)
  next => exact .rejected _

theorem Sound.not (hprimary : Sound .primary (parsePrimary inner) n) :
    Sound .not (parseNot inner) n := by
  intro ts hts
  unfold parseNot
  split
  next us =>
    have houtcome := hprimary us (Nat.le_of_succ_le hts)
    generalize parsePrimary inner us = r at houtcome ⊢
    cases houtcome with
    | rejected e => exact .rejected e
    | panicked h => exact .panicked (.not h)
    | parsed hts h => exact .parsed (congrArg _ hts) (.not h)
  next =>
    have houtcome := hprimary ts hts
    generalize parsePrimary inner ts = r at houtcome ⊢
    cases houtcome with
    | rejected e => exact .rejected e
    | panicked h => exact .panicked (.ofPrimary h)
    | parsed hts h => exact .parsed hts (.ofPrimary h)

theorem Sound.chainLoop (hitem : Sound c.item item n) (hts : ts.length ≤ n)
    (hrounds : ts.length < rounds) (hdone : Derives (.chain c) done left) :
    Outcome (.chain c) (done ++ ts) (chainLoop c.isSep c.join item rounds left ts) := by
  induction rounds generalizing done ts left with
  | zero => omega
  | succ rounds ih =>
    cases ts with
    | nil => exact .parsed rfl hdone
    | cons t ts =>
      rw [length_cons] at hrounds hts
      unfold Search.chainLoop
      split
      next hsep =>
        obtain rfl := Connective.isSep_iff.mp hsep
        have houtcome := hitem ts (by omega)
        generalize item ts = r at houtcome ⊢
        cases houtcome with
        | rejected e => exact .rejected e
        | panicked h => exact .panicked (.more hdone h)
        | @parsed us rest e hsplit h =>
          subst hsplit
          rw [length_append] at hrounds hts
          have hmore := ih (show rest.length ≤ n by omega) (by omega) (.more hdone h)
          rw [append_assoc, cons_append] at hmore
          exact hmore
      next => exact .parsed rfl hdone

theorem Sound.chain (hitem : Sound c.item item n) :
    Sound (.chain c) (parseChain c.isSep c.join item) n := by
  intro ts hts
  unfold parseChain
  have houtcome := hitem ts hts
  generalize item ts = r at houtcome ⊢
  cases houtcome with
  | rejected e => exact .rejected e
  | panicked h => exact .panicked (.one h)
  | @parsed us rest e hsplit h =>
    subst hsplit
    rw [length_append] at hts
    exact hitem.chainLoop (by omega) (Nat.lt_succ_self _) (.one h)

theorem Sound.chainLoop_rounds (hitem : Sound c.item item n) (hts : ts.length ≤ n)
    (hrounds : ts.length < rounds) (hrounds' : ts.length < rounds') :
    Search.chainLoop c.isSep c.join item rounds left ts
      = Search.chainLoop c.isSep c.join item rounds' left ts := by
  induction rounds generalizing rounds' ts left with
  | zero => omega
  | succ rounds ih =>
    obtain ⟨rounds', rfl⟩ := Nat.exists_eq_succ_of_ne_zero (by omega : rounds' ≠ 0)
    cases ts with
    | nil => rfl
    | cons t ts =>
      rw [length_cons] at hrounds hrounds' hts
      simp only [Search.chainLoop]
      split
      next =>
        have houtcome := hitem ts (by omega)
        generalize item ts = r at houtcome ⊢
        cases houtcome with
        | rejected e | panicked h => rfl
        | @parsed us rest e hsplit h =>
          subst hsplit
          rw [length_append] at hrounds hrounds' hts
          exact ih (by omega) (by omega) (by omega)
      next => rfl

theorem chainLoop_stop (hts : ts.head? ≠ some c.sep) :
    chainLoop c.isSep c.join item (rounds + 1) left ts = .ok (left, ts) := by
  cases ts with
  | nil => rfl
  | cons t ts =>
    have hsep : ¬ c.isSep t = true := fun h => hts (congrArg some (Connective.isSep_iff.mp h))
    rw [chainLoop, if_neg hsep]

theorem Sound.chainLoop_sep (hitem : Sound c.item item n) (hus : us.length ≤ n)
    (hread : item us = .ok (right, rest)) :
    Search.chainLoop c.isSep c.join item ((c.sep :: us).length + 1) left (c.sep :: us)
      = Search.chainLoop c.isSep c.join item (rest.length + 1) (c.join left right) rest := by
  have hlength : rest.length ≤ us.length := by
    have houtcome := hitem us hus
    rw [hread] at houtcome
    cases houtcome with
    | parsed hts _ => simp [hts]
  rw [Search.chainLoop, if_pos (Connective.isSep_iff.mpr rfl), hread]
  exact hitem.chainLoop_rounds (by omega) (by rw [length_cons]; omega) (by omega)

end Outcomes

def parseAt (depth : Nat) : Level → List (Token F) → Parsed F (QueryExpr F)
  | .chain .or => parseOr (parseExpr depth)
  | .chain .and => parseAnd (parseExpr depth)
  | .not => parseNot (parseExpr depth)
  | .primary => parsePrimary (parseExpr depth)

theorem parseAt_chain (depth : Nat) (c : Connective) :
    parseAt (F := F) depth (.chain c) = parseChain c.isSep c.join (parseAt depth c.item) := by
  cases c <;> rfl

theorem sound_parseAt_of_inner {depth : Nat} (hinner : ∀ us : List (Token F), us.length < depth →
    Outcome (.chain .or) us (parseExpr depth us)) (level : Level) :
    Sound (F := F) level (parseAt depth level) depth := by
  have hprimary := Sound.primary hinner
  have hand : Sound (.chain .and) (parseAnd (parseExpr depth)) depth :=
    Sound.chain (c := .and) hprimary.not
  cases level with
  | primary => exact hprimary
  | not => exact hprimary.not
  | chain c =>
    cases c with
    | and => exact hand
    | or => exact Sound.chain (c := .or) hand

theorem sound_parseAt (level : Level) (depth : Nat) :
    Sound (F := F) level (parseAt depth level) depth := by
  induction depth generalizing level with
  | zero => exact sound_parseAt_of_inner (fun us hus => absurd hus (by omega)) level
  | succ depth ih =>
    -- one level deeper is the loosest level
    refine sound_parseAt_of_inner (fun us hus => ?_) level
    exact ih (.chain .or) us (by omega)

/-! ### What the parser accepts -/

def resume (depth : Nat) : Level → QueryExpr F → List (Token F) → Parsed F (QueryExpr F)
  | .chain c, e, rest =>
    chainLoop c.isSep c.join (parseAt depth c.item) (rest.length + 1) e rest
  | .not, e, rest => .ok (e, rest)
  | .primary, e, rest => .ok (e, rest)

section Completeness

variable {level : Level} {ts us rest : List (Token F)} {e l r : QueryExpr F} {c : Connective}
  {depth : Nat}

theorem resume_item (h : c = .or → rest.head? ≠ some .and) :
    resume depth c.item e rest = .ok (e, rest) := by
  cases c with
  | or => exact chainLoop_stop (h rfl)
  | and => rfl

theorem parseAt_chain_of_item (hread : parseAt depth c.item ts = .ok (e, rest)) :
    parseAt depth (.chain c) ts = resume depth (.chain c) e rest := by
  rw [parseAt_chain, parseChain, hread]
  rfl

theorem Derives.parseAt_eq (h : Derives level ts e) (hlength : (ts ++ rest).length ≤ depth)
    (hrest : level = .chain .or → rest.head? ≠ some .and) :
    parseAt depth level (ts ++ rest) = resume depth level e rest := by
  induction h generalizing depth rest with
  | @one c ts e _ ih =>
    have hand : c = .or → rest.head? ≠ some .and := fun hc => hrest (congrArg _ hc)
    refine parseAt_chain_of_item ((ih hlength fun hc => ?_).trans (resume_item hand))
    cases c <;> cases hc
  | @more c ts us l r _ _ ihl ihr =>
    rw [append_assoc, cons_append] at hlength ⊢
    have hus : (us ++ rest).length ≤ depth := by
      rw [length_append, length_cons] at hlength
      omega
    have hand : c = .or → rest.head? ≠ some .and := fun hc => hrest (congrArg _ hc)
    have hright : parseAt depth c.item (us ++ rest) = .ok (r, rest) := by
      refine (ihr hus fun hc => ?_).trans (resume_item hand)
      cases c <;> cases hc
    rw [ihl hlength fun hc => by cases hc; simp [Connective.sep]]
    exact (sound_parseAt c.item depth).chainLoop_sep hus hright
  | @ofPrimary ts e h ih =>
    have hnot : parseAt depth .not (ts ++ rest) = parseAt depth .primary (ts ++ rest) := by
      cases h <;> rfl
    rw [hnot]
    exact ih hlength (by simp)
  | @not ts e _ ih =>
    have hread : parsePrimary (parseExpr depth) (ts ++ rest) = .ok (e, rest) :=
      ih (Nat.le_of_succ_le hlength) (by simp)
    change parseNot _ (.not :: (ts ++ rest)) = _
    rw [parseNot, hread]
    rfl
  | @paren ts e _ ih =>
    have hlength' : (ts ++ .rParen :: rest).length + 1 ≤ depth := by
      simpa using hlength
    obtain ⟨depth, rfl⟩ := Nat.exists_eq_succ_of_ne_zero (by omega : depth ≠ 0)
    have hread : parseExpr (depth + 1) (ts ++ .rParen :: rest) = .ok (e, .rParen :: rest) :=
      (ih (by omega) (by simp)).trans (chainLoop_stop (by simp [Connective.sep]))
    change parsePrimary _ (.lParen :: (ts ++ [.rParen] ++ rest)) = _
    rw [append_assoc, singleton_append, parsePrimary, hread]
    rfl
  | field h => exact h.parseField_eq rest

theorem Cut.parseAt_eq (h : Cut level ts) (hlength : ts.length ≤ depth) :
    parseAt depth level ts = .error .panicked := by
  induction h generalizing depth with
  | one _ ih => rw [parseAt_chain, parseChain, ih hlength]
  | @more c ts us l hl _ ih =>
    have hus : us.length ≤ depth := by
      rw [length_append, length_cons] at hlength
      omega
    rw [hl.parseAt_eq hlength fun hc => by cases hc; simp [Connective.sep], resume, chainLoop,
      if_pos (Connective.isSep_iff.mpr rfl), ih hus]
  | @ofPrimary ts h ih =>
    have hnot : parseAt depth .not ts = parseAt depth .primary ts := by
      cases h <;> rfl
    rw [hnot]
    exact ih hlength
  | @not ts _ ih =>
    have hread : parsePrimary (parseExpr depth) ts = .error .panicked :=
      ih (Nat.le_of_succ_le hlength)
    change parseNot _ (.not :: ts) = _
    rw [parseNot, hread]
  | @paren ts _ ih =>
    rw [length_cons] at hlength
    obtain ⟨depth, rfl⟩ := Nat.exists_eq_succ_of_ne_zero (by omega : depth ≠ 0)
    have hread : parseExpr (depth + 1) ts = .error .panicked := ih (by omega)
    change parsePrimary _ (.lParen :: ts) = _
    rw [parsePrimary, hread]
  | like field => rfl

end Completeness

/-! ### Queries -/

abbrev IsQuery (ts : List (Token F)) (e : QueryExpr F) : Prop := Derives (.chain .or) ts e

/-- A query that ends right after `LIKE`. -/
abbrev IsCutQuery (ts : List (Token F)) : Prop := Cut (.chain .or) ts

theorem parseTokens_cases (ts : List (Token F)) :
    (∃ e, IsQuery ts e ∧ parseTokens ts = .ok e) ∨
      (∃ e, parseTokens ts = .error (.rejected e)) ∨
      IsCutQuery ts ∧ parseTokens ts = .error .panicked := by
  have houtcome : Outcome (.chain .or) ts (parseExpr (ts.length + 1) ts) :=
    sound_parseAt (.chain .or) ts.length ts (Nat.le_refl _)
  unfold parseTokens
  generalize parseExpr (ts.length + 1) ts = r at houtcome ⊢
  cases houtcome with
  | rejected e => exact .inr (.inl ⟨e, rfl⟩)
  | panicked h => exact .inr (.inr ⟨h, rfl⟩)
  | @parsed us rest e hts h =>
    cases rest with
    | nil =>
      rw [append_nil] at hts
      exact .inl ⟨e, hts ▸ h, rfl⟩
    | cons t rest => exact .inr (.inl ⟨_, rfl⟩)

theorem Derives.parseTokens_eq {e : QueryExpr F} (h : IsQuery ts e) : parseTokens ts = .ok e := by
  have hlength : (ts ++ []).length ≤ ts.length := by simp
  have hread := (h.parseAt_eq hlength (by simp)).trans (chainLoop_stop (by simp))
  rw [append_nil] at hread
  rw [parseTokens, show parseExpr (ts.length + 1) ts = _ from hread]

theorem Cut.parseTokens_eq (h : IsCutQuery ts) : parseTokens ts = .error .panicked := by
  rw [parseTokens, show parseExpr (ts.length + 1) ts = _ from h.parseAt_eq (Nat.le_refl _)]

section Queries

variable [F64 F] {input : List Char}

theorem Spells.parseQuery_eq {ts : List (Token F)} (h : Spells input ts)
    (hts : (∃ e, IsQuery ts e) ∨ IsCutQuery ts) : parseQuery input = parseTokens ts := by
  rw [parseQuery, tokenize_eq_ok_iff.mpr h]
  cases ts with
  | nil =>
    have hnil : (parseTokens [] : Except (Failure F) _) = .error (.rejected .unexpectedEnd) := rfl
    rcases hts with ⟨e, hts⟩ | hts
    · cases hts.parseTokens_eq.symm.trans hnil
    · cases hts.parseTokens_eq.symm.trans hnil
  | cons => rfl

theorem parseQuery_cases (input : List Char) :
    (∃ ts e, Spells input ts ∧ IsQuery ts e ∧ parseQuery input = .ok (e : QueryExpr F)) ∨
      (∃ e : QueryError F, parseQuery input = .error (.rejected e)) ∨
      ∃ ts : List (Token F), Spells input ts ∧ IsCutQuery ts := by
  rcases tokenizeLoop_cases (F := F) input.length (Nat.lt_succ_self input.length) with
    ⟨ts, hspells, -⟩ | ⟨e, htokens⟩
  · rcases parseTokens_cases ts with ⟨e, hderives, hread⟩ | ⟨e, hread⟩ | ⟨hcut, -⟩
    · exact .inl ⟨ts, e, hspells, hderives,
        (hspells.parseQuery_eq (.inl ⟨e, hderives⟩)).trans hread⟩
    · cases ts with
      | nil => exact .inr (.inl ⟨.emptyQuery, by rw [parseQuery, tokenize_eq_ok_iff.mpr hspells]⟩)
      | cons t ts =>
        exact .inr (.inl ⟨e, by
          rw [parseQuery, tokenize_eq_ok_iff.mpr hspells]
          exact hread⟩)
    · exact .inr (.inr ⟨ts, hspells, hcut⟩)
  · exact .inr (.inl ⟨e, by rw [parseQuery, show tokenize input = _ from htokens]⟩)

theorem parseQuery_eq_ok_iff {e : QueryExpr F} :
    parseQuery input = .ok e ↔ ∃ ts, Spells input ts ∧ IsQuery ts e := by
  constructor
  · intro h
    rcases parseQuery_cases (F := F) input with ⟨ts, e', hspells, hderives, hread⟩ | ⟨e', hread⟩ |
      ⟨ts, hspells, hcut⟩
    · cases hread.symm.trans h
      exact ⟨ts, hspells, hderives⟩
    · cases hread.symm.trans h
    · rw [hspells.parseQuery_eq (.inr hcut), hcut.parseTokens_eq] at h
      cases h
  · rintro ⟨ts, hspells, hderives⟩
    rw [hspells.parseQuery_eq (.inl ⟨e, hderives⟩), hderives.parseTokens_eq]

/-- **No panic** on exactly the texts that are not cut off right behind a `LIKE`. -/
theorem parseQuery_returns_iff (input : List Char) :
    ((∃ e : QueryExpr F, parseQuery input = .ok e) ∨
        ∃ e : QueryError F, parseQuery input = .error (.rejected e)) ↔
      ∀ ts : List (Token F), Spells input ts → ¬ IsCutQuery ts := by
  constructor
  · intro h ts hspells hcut
    have hpanic : parseQuery input = .error .panicked :=
      (hspells.parseQuery_eq (.inr hcut)).trans hcut.parseTokens_eq
    rcases h with ⟨e, h⟩ | ⟨e, h⟩
    · cases h.symm.trans hpanic
    · cases h.symm.trans hpanic
  · intro h
    rcases parseQuery_cases (F := F) input with ⟨ts, e, -, -, hread⟩ | hread | ⟨ts, hspells, hcut⟩
    · exact .inl ⟨e, hread⟩
    · exact .inr hread
    · exact absurd hcut (h ts hspells)

end Queries

theorem like_at_end_panics :
    (parseQuery ['f', ' ', 'L', 'I', 'K', 'E'] : Except (Failure Empty) _)
      = .error .panicked := by
  decide

end Velocity.Search
