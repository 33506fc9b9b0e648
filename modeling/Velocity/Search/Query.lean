import Velocity.Lib.Text
import Mathlib.Algebra.Group.Nat.Defs

namespace Velocity.Search

open Lib

/-!
# Search queries

A position is what is left to read; the unchecked token after `LIKE` is `Failure.panicked`.
-/

class F64 (F : Type) where
  parse : List Char → Option F
  display : F → List Char

instance noDoubles : F64 Empty where
  parse _ := none
  display d := nomatch d

/-! ### Syntax trees -/

inductive CompareOp where
  | eq
  | ne
  | lt
  | gt
  | le
  | ge
  deriving DecidableEq, Repr

inductive QueryValue (F : Type) where
  | string (s : List Char)
  | integer (i : Int64)
  | double (d : F)
  | bool (b : Bool)
  | null
  deriving DecidableEq

inductive QueryExpr (F : Type) where
  | comparison (field : List Char) (op : CompareOp) (value : QueryValue F)
  | and (l r : QueryExpr F)
  | or (l r : QueryExpr F)
  | not (e : QueryExpr F)
  | between (field : List Char) (low high : QueryValue F)
  | inList (field : List Char) (values : List (QueryValue F))
  | like (field pattern : List Char)
  | isNull (field : List Char)
  | isNotNull (field : List Char)
  deriving DecidableEq

section Display

variable {F : Type} [F64 F]

def CompareOp.display : CompareOp → List Char
  | .eq => ['=']
  | .ne => ['!', '=']
  | .lt => ['<']
  | .gt => ['>']
  | .le => ['<', '=']
  | .ge => ['>', '=']

def quote (s : List Char) : List Char := '\'' :: (s ++ ['\''])

def QueryValue.display : QueryValue F → List Char
  | .string s => quote s
  | .integer i => (toString i).toList
  | .double d => F64.display d
  | .bool true => ['t', 'r', 'u', 'e']
  | .bool false => ['f', 'a', 'l', 's', 'e']
  | .null => ['N', 'U', 'L', 'L']

def QueryExpr.display : QueryExpr F → List Char
  | .comparison field op value => field ++ ' ' :: (op.display ++ ' ' :: value.display)
  | .and l r => '(' :: (l.display ++ ([' ', 'A', 'N', 'D', ' '] ++ (r.display ++ [')'])))
  | .or l r => '(' :: (l.display ++ ([' ', 'O', 'R', ' '] ++ (r.display ++ [')'])))
  | .not e => ['N', 'O', 'T', ' ', '('] ++ (e.display ++ [')'])
  | .between field low high =>
    field ++ ([' ', 'B', 'E', 'T', 'W', 'E', 'E', 'N', ' ']
      ++ (low.display ++ ([' ', 'A', 'N', 'D', ' '] ++ high.display)))
  | .inList field values =>
    field ++ ([' ', 'I', 'N', ' ', '(']
      ++ (List.intercalate [',', ' '] (values.map QueryValue.display) ++ [')']))
  | .like field pattern => field ++ ([' ', 'L', 'I', 'K', 'E', ' '] ++ quote pattern)
  | .isNull field => field ++ [' ', 'I', 'S', ' ', 'N', 'U', 'L', 'L']
  | .isNotNull field => field ++ [' ', 'I', 'S', ' ', 'N', 'O', 'T', ' ', 'N', 'U', 'L', 'L']

end Display

/-! ### Tokens and errors -/

inductive Token (F : Type) where
  | ident (s : List Char)
  | stringLit (s : List Char)
  | intLit (i : Int64)
  | floatLit (d : F)
  | eq
  | ne
  | lt
  | gt
  | le
  | ge
  | lParen
  | rParen
  | comma
  | and
  | or
  | not
  | between
  | inWord
  | like
  | is
  | null
  | trueWord
  | falseWord
  deriving DecidableEq

inductive QueryError (F : Type) where
  | emptyQuery
  | unexpectedChar (c : Char) (pos : Nat)
  | unterminatedString
  | invalidNumber (s : List Char)
  | unexpectedToken (t : Token F) (pos : Nat)
  | unexpectedEnd
  | missingRParen
  | expectedField (t : Token F)
  | expectedOperator (t : Token F)
  | expectedValue (t : Token F)
  | expectedAnd
  | expectedLParen
  | expectedRParen
  | expectedString
  | expectedNull
  | expectedNullOrNot
  deriving DecidableEq

def QueryError.message {F : Type} (debug : Token F → String) : QueryError F → String
  | .emptyQuery => "empty query"
  | .unexpectedChar c pos =>
    "unexpected character '" ++ String.singleton c ++ "' at position " ++ toString pos
  | .unterminatedString => "unterminated string literal"
  | .invalidNumber s => "invalid number: " ++ String.ofList s
  | .unexpectedToken t pos =>
    "unexpected token '" ++ debug t ++ "' at position " ++ toString pos
  | .unexpectedEnd => "unexpected end of query"
  | .missingRParen => "missing closing parenthesis"
  | .expectedField t => "expected field name, got " ++ debug t
  | .expectedOperator t => "expected operator, got " ++ debug t
  | .expectedValue t => "expected value, got " ++ debug t
  | .expectedAnd => "expected AND in BETWEEN expression"
  | .expectedLParen => "expected '(' in IN expression"
  | .expectedRParen => "expected ')' in IN expression"
  | .expectedString => "expected string literal for LIKE pattern"
  | .expectedNull => "expected NULL after NOT"
  | .expectedNullOrNot => "expected NULL or NOT after IS"

/-- An `Err`, an index out of range, or too few rounds of the model. -/
inductive Failure (F : Type) where
  | rejected (e : QueryError F)
  | panicked
  | exhausted
  deriving DecidableEq

/-! ### The tokenizer -/

section Tokenizer

variable {F : Type}

def readString : List Char → Option (List Char × List Char)
  | [] => none
  | c :: rest =>
    if c = '\'' then some ([], rest)
    else if c = '\\' then
      match rest with
      | [] => none
      | d :: rest => (readString rest).map (fun r => (d :: r.1, r.2))
    else (readString rest).map (fun r => (c :: r.1, r.2))

def parseI64 (text : List Char) : Option Int64 :=
  if text.head? = some '-' then
    if text.tail.isEmpty then none
    else
      match digitsFrom 0 text.tail with
      | some n => if n ≤ 2 ^ 63 then some (Int64.ofInt (-(n : Int))) else none
      | none => none
  else (parseUnsigned (2 ^ 63) text).map (fun n => Int64.ofInt n)

def readDigits [F64 F] (sign text : List Char) : Except (QueryError F) (Token F × List Char) :=
  let whole := sign ++ text.takeWhile Char.isDigit
  let rest := text.dropWhile Char.isDigit
  if rest.head? = some '.' then
    let number := whole ++ '.' :: rest.tail.takeWhile Char.isDigit
    match F64.parse number with
    | some d => .ok (.floatLit d, rest.tail.dropWhile Char.isDigit)
    | none => .error (.invalidNumber number)
  else
    match parseI64 whole with
    | some i => .ok (.intLit i, rest)
    | none => .error (.invalidNumber whole)

def readNumber [F64 F] (text : List Char) : Except (QueryError F) (Token F × List Char) :=
  if text.head? = some '-' then readDigits ['-'] text.tail else readDigits [] text

def isWordStart (c : Char) : Bool := c.isAlpha || c == '_'

def isWordChar (c : Char) : Bool := c.isAlphanum || c == '_'

def keywords : List (List Char × Token F) :=
  [(['A', 'N', 'D'], .and), (['O', 'R'], .or), (['N', 'O', 'T'], .not),
    (['B', 'E', 'T', 'W', 'E', 'E', 'N'], .between), (['I', 'N'], .inWord),
    (['L', 'I', 'K', 'E'], .like), (['I', 'S'], .is), (['N', 'U', 'L', 'L'], .null),
    (['T', 'R', 'U', 'E'], .trueWord), (['F', 'A', 'L', 'S', 'E'], .falseWord)]

def wordToken (word : List Char) : Token F :=
  (keywords.lookup (word.map Char.toUpper)).getD (.ident word)

/-- The branches of `tokenize` at `c`; the query has `total` characters. -/
def lexToken [F64 F] (total : Nat) (c : Char) (rest : List Char) :
    Except (QueryError F) (Token F × List Char) :=
  if c = '(' then .ok (.lParen, rest)
  else if c = ')' then .ok (.rParen, rest)
  else if c = ',' then .ok (.comma, rest)
  else if c = '=' then .ok (.eq, rest)
  else if c = '!' then
    if rest.head? = some '=' then .ok (.ne, rest.tail)
    else .error (.unexpectedChar '!' (total - rest.length))
  else if c = '<' then
    if rest.head? = some '=' then .ok (.le, rest.tail)
    else if rest.head? = some '>' then .ok (.ne, rest.tail)
    else .ok (.lt, rest)
  else if c = '>' then
    if rest.head? = some '=' then .ok (.ge, rest.tail) else .ok (.gt, rest)
  else if c = '\'' then
    match readString rest with
    | some (s, rest) => .ok (.stringLit s, rest)
    | none => .error .unterminatedString
  else if c.isDigit || c == '-' then readNumber (c :: rest)
  else if isWordStart c then
    .ok (wordToken ((c :: rest).takeWhile isWordChar), (c :: rest).dropWhile isWordChar)
  else .error (.unexpectedChar c (total - (rest.length + 1)))

def tokenizeLoop [F64 F] (total : Nat) : Nat → List Char → Except (Failure F) (List (Token F))
  | 0, _ => .error .exhausted
  | rounds + 1, text =>
    match text.dropWhile isWhitespace with
    | [] => .ok []
    | c :: rest =>
      match lexToken total c rest with
      | .ok (t, rest) => (tokenizeLoop total rounds rest).map (t :: ·)
      | .error e => .error (.rejected e)

def tokenize [F64 F] (input : List Char) : Except (Failure F) (List (Token F)) :=
  tokenizeLoop input.length (input.length + 1) input

end Tokenizer

/-! ### The parser -/

section Parser

variable {F : Type}

abbrev Parsed (F α : Type) : Type := Except (Failure F) (α × List (Token F))

def reject {α : Type} (e : QueryError F) : Parsed F α := .error (.rejected e)

def Token.value? : Token F → Option (QueryValue F)
  | .stringLit s => some (.string s)
  | .intLit i => some (.integer i)
  | .floatLit d => some (.double d)
  | .trueWord => some (.bool true)
  | .falseWord => some (.bool false)
  | .null => some .null
  | _ => none

def Token.op? : Token F → Option CompareOp
  | .eq => some .eq
  | .ne => some .ne
  | .lt => some .lt
  | .gt => some .gt
  | .le => some .le
  | .ge => some .ge
  | _ => none

def parseValue : List (Token F) → Parsed F (QueryValue F)
  | [] => reject .unexpectedEnd
  | t :: ts =>
    match t.value? with
    | some v => .ok (v, ts)
    | none => reject (.expectedValue t)

def parseValues : List (Token F) → Parsed F (List (QueryValue F))
  | [] => reject .unexpectedEnd
  | t :: ts =>
    match t.value? with
    | none => reject (.expectedValue t)
    | some v =>
      match ts with
      | .comma :: ts => (parseValues ts).map (fun r => (v :: r.1, r.2))
      | ts => .ok ([v], ts)

def parseIs (field : List Char) : List (Token F) → Parsed F (QueryExpr F)
  | .not :: .null :: ts => .ok (.isNotNull field, ts)
  | .not :: _ => reject .expectedNull
  | .null :: ts => .ok (.isNull field, ts)
  | _ => reject .expectedNullOrNot

def parseBetween (field : List Char) (ts : List (Token F)) : Parsed F (QueryExpr F) :=
  match parseValue ts with
  | .error f => .error f
  | .ok (low, .and :: ts) =>
    match parseValue ts with
    | .error f => .error f
    | .ok (high, ts) => .ok (.between field low high, ts)
  | .ok (_, _) => reject .expectedAnd

def parseIn (field : List Char) : List (Token F) → Parsed F (QueryExpr F)
  | .lParen :: ts =>
    match parseValues ts with
    | .error f => .error f
    | .ok (values, .rParen :: ts) => .ok (.inList field values, ts)
    | .ok (_, _) => reject .expectedRParen
  | _ => reject .expectedLParen

def parseLike (field : List Char) : List (Token F) → Parsed F (QueryExpr F)
  | [] => .error .panicked
  | .stringLit pattern :: ts => .ok (.like field pattern, ts)
  | _ :: _ => reject .expectedString

def parseComparison (field : List Char) (t : Token F) (ts : List (Token F)) :
    Parsed F (QueryExpr F) :=
  match t.op? with
  | none => reject (.expectedOperator t)
  | some op =>
    match parseValue ts with
    | .error f => .error f
    | .ok (value, ts) => .ok (.comparison field op value, ts)

def parseField (field : List Char) : List (Token F) → Parsed F (QueryExpr F)
  | [] => reject .unexpectedEnd
  | .is :: ts => parseIs field ts
  | .between :: ts => parseBetween field ts
  | .inWord :: ts => parseIn field ts
  | .like :: ts => parseLike field ts
  | t :: ts => parseComparison field t ts

def parsePrimary (inner : List (Token F) → Parsed F (QueryExpr F)) :
    List (Token F) → Parsed F (QueryExpr F)
  | [] => reject .unexpectedEnd
  | .lParen :: ts =>
    match inner ts with
    | .error f => .error f
    | .ok (e, .rParen :: ts) => .ok (e, ts)
    | .ok (_, _) => reject .missingRParen
  | .ident field :: ts => parseField field ts
  | t :: _ => reject (.expectedField t)

def parseNot (inner : List (Token F) → Parsed F (QueryExpr F)) :
    List (Token F) → Parsed F (QueryExpr F)
  | .not :: ts =>
    match parsePrimary inner ts with
    | .error f => .error f
    | .ok (e, ts) => .ok (.not e, ts)
  | ts => parsePrimary inner ts

def chainLoop (isSep : Token F → Bool) (join : QueryExpr F → QueryExpr F → QueryExpr F)
    (item : List (Token F) → Parsed F (QueryExpr F)) :
    Nat → QueryExpr F → List (Token F) → Parsed F (QueryExpr F)
  | 0, _, _ => .error .exhausted
  | _ + 1, left, [] => .ok (left, [])
  | rounds + 1, left, t :: ts =>
    if isSep t then
      match item ts with
      | .error f => .error f
      | .ok (right, ts) => chainLoop isSep join item rounds (join left right) ts
    else .ok (left, t :: ts)

def parseChain (isSep : Token F → Bool) (join : QueryExpr F → QueryExpr F → QueryExpr F)
    (item : List (Token F) → Parsed F (QueryExpr F)) (ts : List (Token F)) :
    Parsed F (QueryExpr F) :=
  match item ts with
  | .error f => .error f
  | .ok (left, ts) => chainLoop isSep join item (ts.length + 1) left ts

def Token.isAnd : Token F → Bool
  | .and => true
  | _ => false

def Token.isOr : Token F → Bool
  | .or => true
  | _ => false

def parseAnd (inner : List (Token F) → Parsed F (QueryExpr F)) :
    List (Token F) → Parsed F (QueryExpr F) :=
  parseChain Token.isAnd .and (parseNot inner)

def parseOr (inner : List (Token F) → Parsed F (QueryExpr F)) :
    List (Token F) → Parsed F (QueryExpr F) :=
  parseChain Token.isOr .or (parseAnd inner)

def parseExpr : Nat → List (Token F) → Parsed F (QueryExpr F)
  | 0, _ => .error .exhausted
  | depth + 1, ts => parseOr (parseExpr depth) ts

def parseTokens (ts : List (Token F)) : Except (Failure F) (QueryExpr F) :=
  match parseExpr (ts.length + 1) ts with
  | .error f => .error f
  | .ok (e, []) => .ok e
  | .ok (_, t :: rest) =>
    .error (.rejected (.unexpectedToken t (ts.length - (rest.length + 1))))

def parseQuery [F64 F] (input : List Char) : Except (Failure F) (QueryExpr F) :=
  match tokenize input with
  | .error f => .error f
  | .ok [] => .error (.rejected .emptyQuery)
  | .ok (t :: ts) => parseTokens (t :: ts)

end Parser

end Velocity.Search
