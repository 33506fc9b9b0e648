import Velocity.Search.Query

namespace Velocity.Search

open Lib List

/-!
# How tokens are spelled

The texts of each token, and the characters that would go on with it.
-/

variable {F : Type}

/-! ### String literals -/

/-- A backslash takes the next character as it is. -/
inductive Escaped : List Char → List Char → Prop where
  | nil : Escaped [] []
  | plain {c : Char} {s body : List Char} (hquote : c ≠ '\'') (hslash : c ≠ '\\')
      (h : Escaped s body) : Escaped (c :: s) (c :: body)
  | escape {c : Char} {s body : List Char} (h : Escaped s body) :
      Escaped (c :: s) ('\\' :: c :: body)

theorem readString_quote (rest : List Char) : readString ('\'' :: rest) = some ([], rest) := by
  rw [readString.eq_def]
  rfl

theorem readString_escape (d : Char) (rest : List Char) :
    readString ('\\' :: d :: rest) = (readString rest).map (fun r => (d :: r.1, r.2)) := by
  rw [readString.eq_def]
  rfl

theorem readString_plain {c : Char} (hquote : c ≠ '\'') (hslash : c ≠ '\\') (rest : List Char) :
    readString (c :: rest) = (readString rest).map (fun r => (c :: r.1, r.2)) := by
  rw [readString.eq_def]
  simp [hquote, hslash]

theorem map_cons_eq_some_iff {o : Option (List Char × List Char)} {c d : Char}
    {s rest : List Char} :
    o.map (fun r => (c :: r.1, r.2)) = some (d :: s, rest) ↔ c = d ∧ o = some (s, rest) := by
  cases o <;> simp [Prod.ext_iff, and_assoc]

theorem Escaped.readString_eq {s body : List Char} (h : Escaped s body) (rest : List Char) :
    readString (body ++ '\'' :: rest) = some (s, rest) := by
  induction h with
  | nil => exact readString_quote rest
  | plain hquote hslash _ ih => rw [cons_append, readString_plain hquote hslash, ih]; rfl
  | escape _ ih => rw [cons_append, cons_append, readString_escape, ih]; rfl

theorem readString_eq_some_iff {text s rest : List Char} :
    readString text = some (s, rest) ↔ ∃ body, text = body ++ '\'' :: rest ∧ Escaped s body := by
  constructor
  · intro h
    induction text using readString.induct generalizing s with
    | case1 | case3 => simp [readString] at h
    | case2 text =>
      rw [readString_quote] at h
      cases h
      exact ⟨[], rfl, .nil⟩
    | case4 d text _ ih =>
      rw [readString_escape] at h
      obtain ⟨⟨t, r⟩, hread, heq⟩ := Option.map_eq_some_iff.mp h
      cases heq
      obtain ⟨body, rfl, hbody⟩ := ih hread
      exact ⟨'\\' :: d :: body, rfl, .escape hbody⟩
    | case5 c text hquote hslash ih =>
      rw [readString_plain hquote hslash] at h
      obtain ⟨⟨t, r⟩, hread, heq⟩ := Option.map_eq_some_iff.mp h
      cases heq
      obtain ⟨body, rfl, hbody⟩ := ih hread
      exact ⟨c :: body, rfl, .plain hquote hslash hbody⟩
  · rintro ⟨body, rfl, h⟩
    exact h.readString_eq rest

/-! ### Tokens -/

section Tokens

variable [F64 F]

inductive Spelling : Token F → List Char → Prop where
  | lParen : Spelling .lParen ['(']
  | rParen : Spelling .rParen [')']
  | comma : Spelling .comma [',']
  | eq : Spelling .eq ['=']
  | ne : Spelling .ne ['!', '=']
  | unequal : Spelling .ne ['<', '>']
  | lt : Spelling .lt ['<']
  | gt : Spelling .gt ['>']
  | le : Spelling .le ['<', '=']
  | ge : Spelling .ge ['>', '=']
  | string {s body : List Char} (h : Escaped s body) :
      Spelling (.stringLit s) ('\'' :: (body ++ ['\'']))
  | int {sign digits : List Char} {i : Int64} (hsign : sign = [] ∨ sign = ['-'])
      (hdigits : ∀ c ∈ digits, c.isDigit = true) (hparse : parseI64 (sign ++ digits) = some i) :
      Spelling (.intLit i) (sign ++ digits)
  | float {sign digits fraction : List Char} {d : F} (hsign : sign = [] ∨ sign = ['-'])
      (hdigits : ∀ c ∈ digits, c.isDigit = true) (hfraction : ∀ c ∈ fraction, c.isDigit = true)
      (hne : sign ++ digits ≠ [])
      (hparse : F64.parse (sign ++ digits ++ '.' :: fraction) = some d) :
      Spelling (.floatLit d) (sign ++ digits ++ '.' :: fraction)
  | word {c : Char} {w : List Char} (hc : isWordStart c = true)
      (hw : ∀ d ∈ w, isWordChar d = true) : Spelling (wordToken (c :: w)) (c :: w)

def Token.continues : Token F → Char → Bool
  | .lt, c => c == '=' || c == '>'
  | .gt, c => c == '='
  | .intLit _, c => c.isDigit || c == '.'
  | .floatLit _, c => c.isDigit
  | .lParen, _ => false
  | .rParen, _ => false
  | .comma, _ => false
  | .eq, _ => false
  | .ne, _ => false
  | .le, _ => false
  | .ge, _ => false
  | .stringLit _, _ => false
  | _, c => isWordChar c

def Token.EndsBefore (t : Token F) (rest : List Char) : Prop :=
  ∀ c ∈ rest.head?, t.continues c = false

omit [F64 F] in
theorem continues_wordToken (w : List Char) (c : Char) :
    (wordToken w : Token F).continues c = isWordChar c := by
  unfold wordToken
  cases h : (keywords (F := F)).lookup (w.map Char.toUpper) with
  | none => rfl
  | some t =>
    obtain ⟨l, l', hl, -⟩ := lookup_eq_some_iff.mp h
    have hmem : (w.map Char.toUpper, t) ∈ keywords := hl ▸ mem_append_cons_self
    simp only [keywords, mem_cons, Prod.mk.injEq, not_mem_nil, or_false] at hmem
    rcases hmem with ⟨-, rfl⟩ | ⟨-, rfl⟩ | ⟨-, rfl⟩ | ⟨-, rfl⟩ | ⟨-, rfl⟩ | ⟨-, rfl⟩ | ⟨-, rfl⟩ |
      ⟨-, rfl⟩ | ⟨-, rfl⟩ | ⟨-, rfl⟩ <;> rfl

variable {rest sign text : List Char} {t : Token F}

theorem readDigits_eq_ok_iff :
    readDigits sign text = .ok (t, rest) ↔
      t.EndsBefore rest ∧ ∃ digits, (∀ c ∈ digits, c.isDigit = true) ∧
        ((∃ i, t = .intLit i ∧ parseI64 (sign ++ digits) = some i ∧ text = digits ++ rest) ∨
          ∃ d fraction, t = .floatLit d ∧ (∀ c ∈ fraction, c.isDigit = true) ∧
            F64.parse (sign ++ digits ++ '.' :: fraction) = some d ∧
            text = digits ++ '.' :: (fraction ++ rest)) := by
  constructor
  · intro h
    obtain ⟨htext, hdigits, hafter⟩ := takeWhile_dropWhile_spec Char.isDigit text
    simp only [readDigits] at h
    split at h
    next hdot =>
      obtain ⟨hrest, hfraction, hend⟩ :=
        takeWhile_dropWhile_spec Char.isDigit (text.dropWhile Char.isDigit).tail
      split at h
      next d hparse =>
        cases h
        refine ⟨hend, _, hdigits, .inr ⟨d, _, rfl, hfraction, hparse, ?_⟩⟩
        obtain ⟨r, hr⟩ := head?_eq_some_iff.mp hdot
        rw [hr] at htext
        rw [← hrest, hr]
        exact htext
      next => cases h
    next hdot =>
      split at h
      next i hparse =>
        cases h
        refine ⟨fun c hc => ?_, _, hdigits, .inl ⟨i, rfl, hparse, htext⟩⟩
        have hne : c ≠ '.' := fun heq => hdot (heq ▸ hc)
        simp [Token.continues, hafter c hc, hne]
      next => cases h
  · rintro ⟨hends, digits, hdigits, ⟨i, rfl, hparse, rfl⟩ |
      ⟨d, fraction, rfl, hfraction, hparse, rfl⟩⟩
    · have hread := takeWhile_dropWhile_append hdigits
        (fun c hc => (Bool.or_eq_false_iff.mp (hends c hc)).1)
      have hdot : rest.head? ≠ some '.' := fun h => by simpa [Token.continues] using hends '.' h
      simp only [readDigits, hread.1, hread.2, if_neg hdot, hparse]
    · have hdot : ∀ c ∈ ('.' :: (fraction ++ rest)).head?, c.isDigit = false := by
        simp
      have hread := takeWhile_dropWhile_append hdigits hdot
      have hread' := takeWhile_dropWhile_append hfraction hends
      simp only [readDigits, hread.1, hread.2, head?_cons, if_true, tail_cons, hread'.1,
        hread'.2, hparse]

omit [F64 F] in
theorem ne_nil_of_parseI64 {i : Int64} (h : parseI64 text = some i) : text ≠ [] := by
  rintro rfl
  cases h

theorem exists_cons_of_sign {digits : List Char} (hsign : sign = [] ∨ sign = ['-'])
    (hdigits : ∀ c ∈ digits, c.isDigit = true) (hne : sign ++ digits ≠ []) :
    ∃ c w, sign ++ digits = c :: w ∧ (c.isDigit || c == '-') = true := by
  rcases hsign with rfl | rfl
  · obtain ⟨c, w, rfl⟩ := exists_cons_of_ne_nil hne
    exact ⟨c, w, rfl, by simp [hdigits c mem_cons_self]⟩
  · exact ⟨'-', digits, rfl, rfl⟩

theorem readNumber_append {digits : List Char} (hsign : sign = [] ∨ sign = ['-'])
    (hdigits : ∀ c ∈ digits, c.isDigit = true) (hne : sign ++ digits ≠ []) (rest : List Char) :
    (readNumber (sign ++ digits ++ rest) : Except (QueryError F) _)
      = readDigits sign (digits ++ rest) := by
  rcases hsign with rfl | rfl
  · obtain ⟨c, w, rfl⟩ := exists_cons_of_ne_nil hne
    have hc : c ≠ '-' := fun h => absurd (hdigits c mem_cons_self) (by rw [h]; decide)
    exact if_neg (by simpa using hc)
  · rfl

variable {c : Char}

theorem spelling_of_readNumber
    (hc : (c.isDigit || c == '-') = true) (h : readNumber (c :: text) = .ok (t, rest)) :
    ∃ spelled, c :: text = spelled ++ rest ∧ Spelling t spelled ∧ t.EndsBefore rest := by
  obtain ⟨sign, digits, hsign, hne, htext, hread⟩ : ∃ sign behind, (sign = [] ∨ sign = ['-']) ∧
      (sign = [] → behind = c :: text) ∧ c :: text = sign ++ behind ∧
      readDigits sign behind = .ok (t, rest) := by
    simp only [readNumber] at h
    split at h
    next hminus =>
      cases hminus
      exact ⟨['-'], text, .inr rfl, by simp, rfl, h⟩
    next => exact ⟨[], c :: text, .inl rfl, fun _ => rfl, rfl, h⟩
  obtain ⟨hends, digits, hdigits, ⟨i, rfl, hparse, rfl⟩ |
    ⟨d, fraction, rfl, hfraction, hparse, rfl⟩⟩ := readDigits_eq_ok_iff.mp hread
  · exact ⟨sign ++ digits, by simp [htext], .int hsign hdigits hparse, hends⟩
  · refine ⟨sign ++ digits ++ '.' :: fraction, by simp [htext],
      .float hsign hdigits hfraction (fun hnil => ?_) hparse, hends⟩
    obtain ⟨rfl, rfl⟩ := append_eq_nil_iff.mp hnil
    cases htext
    exact absurd hc (by decide)

def punctuation : List Char := ['(', ')', ',', '=', '!', '<', '>', '\'']

variable {total : Nat}

theorem lexToken_of_notMem (hc : c ∉ punctuation) (rest : List Char) :
    (lexToken total c rest : Except (QueryError F) _)
      = if c.isDigit || c == '-' then readNumber (c :: rest)
        else if isWordStart c then
          .ok (wordToken ((c :: rest).takeWhile isWordChar), (c :: rest).dropWhile isWordChar)
        else .error (.unexpectedChar c (total - (rest.length + 1))) := by
  simp only [punctuation, mem_cons, not_mem_nil, or_false, not_or] at hc
  obtain ⟨h1, h2, h3, h4, h5, h6, h7, h8⟩ := hc
  rw [lexToken, if_neg h1, if_neg h2, if_neg h3, if_neg h4, if_neg h5, if_neg h6, if_neg h7,
    if_neg h8]

theorem lexToken_number (hc : (c.isDigit || c == '-') = true) (rest : List Char) :
    (lexToken total c rest : Except (QueryError F) _) = readNumber (c :: rest) := by
  have hnot : ∀ d ∈ punctuation, (d.isDigit || d == '-') = false := by simp [punctuation]
  rw [lexToken_of_notMem (fun h => absurd hc (by simp [hnot c h])), if_pos hc]

theorem not_number_of_isWordStart (hc : isWordStart c = true) :
    (c.isDigit || c == '-') = false := by
  simp only [isWordStart, Bool.or_eq_true, beq_iff_eq] at hc
  have hminus : c ≠ '-' := by
    rintro rfl
    revert hc
    decide
  have hdigit : c.isDigit = false := by
    rcases hc with hc | rfl
    · have hrange := isAlpha_iff_toNat.mp hc
      rw [← Bool.not_eq_true, isDigit_iff_toNat]
      omega
    · rfl
  simp [hdigit, hminus]

theorem lexToken_word (hc : isWordStart c = true) (rest : List Char) :
    (lexToken total c rest : Except (QueryError F) _)
      = .ok (wordToken ((c :: rest).takeWhile isWordChar),
          (c :: rest).dropWhile isWordChar) := by
  have hnot : ∀ d ∈ punctuation, isWordStart d = false := by simp [punctuation, isWordStart]
  rw [lexToken_of_notMem (fun h => absurd hc (by simp [hnot c h])),
    if_neg (by simp [not_number_of_isWordStart hc]), if_pos hc]

theorem isWordChar_of_isWordStart (hc : isWordStart c = true) : isWordChar c = true := by
  simp only [isWordStart, isWordChar, Char.isAlphanum, Bool.or_eq_true] at hc ⊢
  exact hc.imp_left .inl

theorem head?_ite_eq_ok {α β : Type} {d : Char} {u v : α} {r : Except β (α × List Char)}
    (h : (if text.head? = some d then .ok (u, text.tail) else r) = .ok (v, rest)) :
    text = d :: rest ∧ u = v ∨ text.head? ≠ some d ∧ r = .ok (v, rest) := by
  split at h
  next hhead =>
    obtain ⟨behind, rfl⟩ := head?_eq_some_iff.mp hhead
    cases h
    exact .inl ⟨rfl, rfl⟩
  next hhead => exact .inr ⟨hhead, h⟩

theorem ne_of_head? {d : Char} (hc : c ∈ text.head?) (hd : ¬ text.head? = some d) : c ≠ d :=
  fun h => hd (h ▸ hc)

theorem lexToken_quote : lexToken (F := F) total '\'' text
    = (readString text).elim (.error .unterminatedString) fun r => .ok (.stringLit r.1, r.2) := by
  cases hread : readString text with
  | none | some r => simp [lexToken, hread]

theorem spelling_of_lexToken (h : lexToken total c text = .ok (t, rest)) :
    ∃ spelled, c :: text = spelled ++ rest ∧ Spelling t spelled ∧ t.EndsBefore rest := by
  by_cases hmem : c ∈ punctuation
  · simp only [punctuation, mem_cons, not_mem_nil, or_false] at hmem
    rcases hmem with rfl | rfl | rfl | rfl | rfl | rfl | rfl | rfl
    · cases h
      exact ⟨_, rfl, .lParen, fun _ _ => rfl⟩
    · cases h
      exact ⟨_, rfl, .rParen, fun _ _ => rfl⟩
    · cases h
      exact ⟨_, rfl, .comma, fun _ _ => rfl⟩
    · cases h
      exact ⟨_, rfl, .eq, fun _ _ => rfl⟩
    · rcases head?_ite_eq_ok h with ⟨rfl, rfl⟩ | ⟨-, h⟩
      · exact ⟨_, rfl, .ne, fun _ _ => rfl⟩
      · cases h
    · rcases head?_ite_eq_ok h with ⟨rfl, rfl⟩ | ⟨heq, h⟩
      · exact ⟨_, rfl, .le, fun _ _ => rfl⟩
      rcases head?_ite_eq_ok h with ⟨rfl, rfl⟩ | ⟨hgt, h⟩
      · exact ⟨_, rfl, .unequal, fun _ _ => rfl⟩
      · cases h
        exact ⟨_, rfl, .lt, fun c hc => by
          simp [Token.continues, ne_of_head? hc heq, ne_of_head? hc hgt]⟩
    · rcases head?_ite_eq_ok h with ⟨rfl, rfl⟩ | ⟨heq, h⟩
      · exact ⟨_, rfl, .ge, fun _ _ => rfl⟩
      · cases h
        exact ⟨_, rfl, .gt, fun c hc => by simp [Token.continues, ne_of_head? hc heq]⟩
    · rw [lexToken_quote] at h
      cases hread : readString text with
      | some r =>
        rw [hread] at h
        cases h
        obtain ⟨body, rfl, hbody⟩ := readString_eq_some_iff.mp hread
        exact ⟨_, by simp, .string hbody, fun _ _ => rfl⟩
      | none =>
        rw [hread] at h
        cases h
  · rw [lexToken_of_notMem hmem] at h
    split at h
    next hc => exact spelling_of_readNumber hc h
    next =>
      split at h
      next hc =>
        cases h
        obtain ⟨htext, hword, hend⟩ := takeWhile_dropWhile_spec isWordChar (c :: text)
        rw [takeWhile_cons_of_pos (isWordChar_of_isWordStart hc)] at htext hword ⊢
        exact ⟨_, htext, .word hc (fun d hd => hword d (mem_cons_of_mem c hd)),
          fun d hd => (continues_wordToken _ d).trans (hend d hd)⟩
      next => cases h

theorem lexToken_of_spelling {spelled : List Char}
    (htext : c :: text = spelled ++ rest) (hspelled : Spelling t spelled)
    (hends : t.EndsBefore rest) : lexToken total c text = .ok (t, rest) := by
  cases hspelled with
  | lParen | rParen | comma | eq | ne | unequal => cases htext; rfl
  | lt =>
    cases htext
    have heq : rest.head? ≠ some '=' := fun h => absurd (hends '=' h) (by simp [Token.continues])
    have hgt : rest.head? ≠ some '>' := fun h => absurd (hends '>' h) (by simp [Token.continues])
    change (if rest.head? = some '=' then _ else if rest.head? = some '>' then _ else _) = _
    rw [if_neg heq, if_neg hgt]
    rfl
  | gt =>
    cases htext
    have heq : rest.head? ≠ some '=' := fun h => absurd (hends '=' h) (by simp [Token.continues])
    change (if rest.head? = some '=' then _ else _) = _
    rw [if_neg heq]
    rfl
  | le | ge => cases htext; rfl
  | string h =>
    obtain ⟨rfl, rfl⟩ : c = '\'' ∧ text = _ := by simpa using htext
    rw [lexToken_quote, h.readString_eq]
    rfl
  | int hsign hdigits hparse =>
    have hne := ne_nil_of_parseI64 hparse
    obtain ⟨d, w, hcons, hd⟩ := exists_cons_of_sign hsign hdigits hne
    obtain ⟨rfl, -⟩ : c = d ∧ _ := by simpa [hcons] using htext
    rw [lexToken_number hd, htext, readNumber_append hsign hdigits hne]
    exact readDigits_eq_ok_iff.mpr ⟨hends, _, hdigits, .inl ⟨_, rfl, hparse, rfl⟩⟩
  | float hsign hdigits hfraction hne hparse =>
    obtain ⟨d, w, hcons, hd⟩ := exists_cons_of_sign hsign hdigits hne
    obtain ⟨rfl, -⟩ : c = d ∧ _ := by simpa [hcons] using htext
    rw [lexToken_number hd, htext, append_assoc _ _ rest, readNumber_append hsign hdigits hne]
    exact readDigits_eq_ok_iff.mpr ⟨hends, _, hdigits, .inr ⟨_, _, rfl, hfraction, hparse, rfl⟩⟩
  | @word d w hd hw =>
    obtain ⟨rfl, rfl⟩ : c = d ∧ text = w ++ rest := by simpa using htext
    have hchars : ∀ a ∈ c :: w, isWordChar a = true :=
      forall_mem_cons.mpr ⟨isWordChar_of_isWordStart hd, hw⟩
    have hread := takeWhile_dropWhile_append hchars
      (fun a ha => (continues_wordToken (F := F) (c :: w) a).symm.trans (hends a ha))
    rw [lexToken_word hd, htext, hread.1, hread.2]

end Tokens

/-! ### Texts -/

section Texts

variable [F64 F]

/-- A text that spells the tokens, with white space between them. -/
inductive Spells : List Char → List (Token F) → Prop where
  | nil {space : List Char} (hspace : ∀ c ∈ space, isWhitespace c = true) : Spells space []
  | cons {space spelled rest : List Char} {t : Token F} {ts : List (Token F)}
      (hspace : ∀ c ∈ space, isWhitespace c = true) (hspelled : Spelling t spelled)
      (hends : t.EndsBefore rest) (hrest : Spells rest ts) :
      Spells (space ++ (spelled ++ rest)) (t :: ts)

variable {c : Char}

theorem isWhitespace_of_isWordChar (hc : isWordChar c = true ∨ c = '-') :
    isWhitespace c = false := by
  rcases hc with hc | rfl
  · simp only [isWordChar, Char.isAlphanum, Bool.or_eq_true, beq_iff_eq] at hc
    rcases hc with (hc | hc) | rfl
    · have hrange := isAlpha_iff_toNat.mp hc
      exact isWhitespace_eq_false (by omega) (by omega)
    · have hrange := isDigit_iff_toNat.mp hc
      exact isWhitespace_eq_false (by omega) (by omega)
    · rfl
  · rfl

theorem isWhitespace_of_number (hc : (c.isDigit || c == '-') = true) : isWhitespace c = false := by
  refine isWhitespace_of_isWordChar ?_
  rcases Bool.or_eq_true_iff.mp hc with hc | hc
  · exact .inl (by simp [isWordChar, Char.isAlphanum, hc])
  · exact .inr (beq_iff_eq.mp hc)

variable {t : Token F} {spelled text : List Char}

theorem Spelling.exists_cons (h : Spelling t spelled) :
    ∃ c w, spelled = c :: w ∧ isWhitespace c = false := by
  cases h with
  | string => exact ⟨_, _, rfl, rfl⟩
  | int hsign hdigits hparse =>
    obtain ⟨c, w, hcons, hc⟩ := exists_cons_of_sign hsign hdigits (ne_nil_of_parseI64 hparse)
    exact ⟨c, w, hcons, isWhitespace_of_number hc⟩
  | float hsign hdigits hfraction hne hparse =>
    obtain ⟨c, w, hcons, hc⟩ := exists_cons_of_sign hsign hdigits hne
    exact ⟨c, _, by rw [hcons]; rfl, isWhitespace_of_number hc⟩
  | word hc hw =>
    exact ⟨_, _, rfl, isWhitespace_of_isWordChar (.inl (isWordChar_of_isWordStart hc))⟩
  | _ => exact ⟨_, _, rfl, rfl⟩

variable {rounds total : Nat}

theorem tokenizeLoop_cons {space rest : List Char}
    (hspace : ∀ c ∈ space, isWhitespace c = true) (hspelled : Spelling t spelled)
    (hends : t.EndsBefore rest) :
    tokenizeLoop total (rounds + 1) (space ++ (spelled ++ rest))
      = (tokenizeLoop total rounds rest).map (t :: ·) := by
  obtain ⟨c, w, rfl, hc⟩ := hspelled.exists_cons
  have hhead : ∀ d ∈ (c :: w ++ rest).head?, isWhitespace d = false := by
    intro d hd
    cases hd
    exact hc
  have hlex : lexToken total c (w ++ rest) = .ok (t, rest) :=
    lexToken_of_spelling rfl hspelled hends
  rw [tokenizeLoop, (takeWhile_dropWhile_append hspace hhead).2, cons_append]
  simp only [hlex]

variable {ts : List (Token F)}

theorem Spells.tokenizeLoop_eq (h : Spells text ts) (hrounds : text.length < rounds) :
    tokenizeLoop total rounds text = .ok ts := by
  induction h generalizing rounds with
  | @nil space hspace =>
    obtain ⟨rounds, rfl⟩ := Nat.exists_eq_succ_of_ne_zero (by omega : rounds ≠ 0)
    have hnil : (space ++ []).dropWhile isWhitespace = [] := dropWhile_append_of_pos hspace
    rw [append_nil] at hnil
    rw [tokenizeLoop, hnil]
  | @cons space spelled rest t ts hspace hspelled hends _ ih =>
    obtain ⟨rounds, rfl⟩ := Nat.exists_eq_succ_of_ne_zero (by omega : rounds ≠ 0)
    obtain ⟨c, w, rfl, -⟩ := hspelled.exists_cons
    simp only [length_append, length_cons] at hrounds
    rw [tokenizeLoop_cons hspace hspelled hends, ih (by omega)]
    rfl

theorem tokenizeLoop_cases (total : Nat) (hrounds : text.length < rounds) :
    (∃ ts : List (Token F), Spells text ts ∧ tokenizeLoop total rounds text = .ok ts) ∨
      ∃ e : QueryError F, tokenizeLoop total rounds text = .error (.rejected e) := by
  induction rounds generalizing text with
  | zero => omega
  | succ rounds ih =>
    obtain ⟨htext, hspace, -⟩ := takeWhile_dropWhile_spec isWhitespace text
    rw [tokenizeLoop]
    cases hbehind : text.dropWhile isWhitespace with
    | nil =>
      rw [hbehind, append_nil] at htext
      exact .inl ⟨[], htext ▸ .nil hspace, rfl⟩
    | cons c behind =>
      rw [hbehind] at htext
      cases hlex : (lexToken total c behind : Except (QueryError F) _) with
      | error e => exact .inr ⟨e, by simp only [hlex]⟩
      | ok read =>
        obtain ⟨t, rest⟩ := read
        obtain ⟨spelled, hsplit, hspelled, hends⟩ := spelling_of_lexToken hlex
        obtain ⟨d, w, rfl, -⟩ := hspelled.exists_cons
        have hlength := congrArg List.length htext
        rw [hsplit] at hlength htext
        simp only [length_append, length_cons] at hlength
        simp only [hlex]
        rcases ih (by omega : rest.length < rounds) with ⟨ts, hts, hloop⟩ | ⟨e, hloop⟩
        · rw [hloop, htext]
          exact .inl ⟨t :: ts, .cons hspace hspelled hends hts, rfl⟩
        · rw [hloop]
          exact .inr ⟨e, rfl⟩

theorem tokenizeLoop_eq_ok_iff (hrounds : text.length < rounds) :
    tokenizeLoop total rounds text = .ok ts ↔ Spells text ts := by
  constructor
  · intro h
    rcases tokenizeLoop_cases (F := F) total hrounds with ⟨us, hus, hloop⟩ | ⟨e, hloop⟩
    · cases hloop.symm.trans h
      exact hus
    · cases hloop.symm.trans h
  · exact fun h => h.tokenizeLoop_eq hrounds

theorem tokenize_eq_ok_iff : tokenize text = .ok ts ↔ Spells text ts :=
  tokenizeLoop_eq_ok_iff (Nat.lt_succ_self _)

theorem spells_cons_iff {rest : List Char}
    (hspelled : Spelling t spelled) (hends : t.EndsBefore rest) :
    Spells (spelled ++ rest) ts ↔ ∃ us, ts = t :: us ∧ Spells rest us := by
  have hspace : ∀ c ∈ ([] : List Char), isWhitespace c = true := by simp
  constructor
  · intro h
    have hread : tokenizeLoop 0 ((spelled ++ rest).length + 1) (spelled ++ rest) = .ok ts :=
      h.tokenizeLoop_eq (Nat.lt_succ_self _)
    have hshort : rest.length < (spelled ++ rest).length := by
      obtain ⟨c, w, rfl, -⟩ := hspelled.exists_cons
      rw [length_append, length_cons]
      omega
    rw [← nil_append (spelled ++ rest), tokenizeLoop_cons hspace hspelled hends,
      nil_append] at hread
    cases hrest : (tokenizeLoop 0 (spelled ++ rest).length rest : Except (Failure F) _) with
    | error f =>
      rw [hrest] at hread
      cases hread
    | ok us =>
      rw [hrest] at hread
      cases hread
      exact ⟨us, rfl, (tokenizeLoop_eq_ok_iff hshort).mp hrest⟩
  · rintro ⟨us, rfl, hus⟩
    exact .cons hspace hspelled hends hus

theorem Spells.exists_lexToken
    (h : Spells (c :: text) ts) (hc : isWhitespace c = false) (total : Nat) :
    ∃ t rest us, lexToken total c text = .ok (t, rest) ∧ ts = t :: us := by
  generalize hfull : c :: text = full at h
  cases h with
  | nil hspace =>
    have hwhite := hspace c (hfull ▸ mem_cons_self)
    rw [hc] at hwhite
    cases hwhite
  | @cons space spelled rest t us hspace hspelled hends _ =>
    cases space with
    | nil => exact ⟨t, rest, us, lexToken_of_spelling hfull hspelled hends, rfl⟩
    | cons d space =>
      cases hfull
      have hwhite := hspace c mem_cons_self
      rw [hc] at hwhite
      cases hwhite

theorem spells_space_iff : Spells (' ' :: text) ts ↔ Spells text ts := by
  have h : tokenizeLoop 0 (text.length + 2) (' ' :: text) = .ok ts ↔ Spells (' ' :: text) ts :=
    tokenizeLoop_eq_ok_iff (Nat.lt_succ_self _)
  have h' : tokenizeLoop 0 (text.length + 2) text = .ok ts ↔ Spells text ts :=
    tokenizeLoop_eq_ok_iff (by omega)
  exact h.symm.trans h'

end Texts

end Velocity.Search
