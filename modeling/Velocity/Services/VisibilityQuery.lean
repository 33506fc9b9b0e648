import Velocity.Lib.Utf8
import Velocity.Services.Visibility

namespace Velocity

open Lib
open String (utf8Len)

/-!
# Visibility queries

`parse` makes passes over the text; a slice that panics is `none`.
-/

inductive QueryOp where
  | eq
  | neq
  deriving DecidableEq, Repr

inductive QueryField where
  | workflowType
  | status
  | executionStatus
  | namespaceName
  | taskQueue
  | workflowId
  | searchAttribute (key : String)
  deriving DecidableEq, Repr

structure QueryCondition where
  field : QueryField
  op : QueryOp
  value : String
  deriving DecidableEq, Repr

structure VisibilityQuery where
  conditions : List QueryCondition := []
  limit : Option Nat := none
  offset : Option Nat := none
  deriving DecidableEq, Repr

inductive QueryParseError where
  | missingOperator (text : String)
  | invalidOperator (text : String)
  | invalidValue (text : String)
  deriving DecidableEq, Repr

def QueryParseError.message : QueryParseError → String
  | .missingOperator text => s!"Missing operator in: {text}"
  | .invalidOperator text => s!"Invalid operator in: {text}"
  | .invalidValue text => s!"Invalid value: {text}"

namespace VisibilityQuery

/-! ### Parsing -/

section Parsing

variable [UnicodeCase]

def clauseValue (after : List Char) : Option Nat :=
  (splitWhitespace (trimBy (· == '\'') (trim after))).head?.bind (parseUnsigned (2 ^ 64))

/-- The offset in the upper-cased text cuts the text itself. -/
def extractClause (keyword query : List Char) : Option (List Char × Option Nat) :=
  match find keyword (uppercase query) with
  | none => some (query, none)
  | some idx => do
    let after ← sliceFrom query (idx + utf8Len keyword)
    let before ← sliceTo query idx
    some (trim before, clauseValue after)

def limitKeyword : List Char := " LIMIT ".toList

def offsetKeyword : List Char := " OFFSET ".toList

def isQuote (c : Char) : Bool := c == '\'' || c == '"'

def lastPart (current : List Char) : List (List Char) :=
  if (trim current).isEmpty then [] else [trim current]

/-- Every round takes a character or five. -/
def splitLoop : Nat → List Char → Bool → List Char → List (List Char)
  | 0, _, _, current => lastPart current
  | _ + 1, [], _, current => lastPart current
  | rounds + 1, c :: rest, inQuote, current =>
    if isQuote c then splitLoop rounds rest (!inQuote) (current ++ [c])
    else if !inQuote && decide (4 < (c :: rest).length)
        && uppercase ((c :: rest).take 5) == " AND ".toList then
      trim current :: splitLoop rounds (rest.drop 4) inQuote []
    else splitLoop rounds rest inQuote (current ++ [c])

def splitByAnd (query : List Char) : List (List Char) := splitLoop query.length query false []

def fieldOf (name : List Char) : QueryField :=
  let lower := String.ofList (UnicodeCase.lowercase name)
  if lower = "workflowtype" ∨ lower = "workflow_type" then .workflowType
  else if lower = "status" ∨ lower = "executionstatus" ∨ lower = "execution_status" then
    .executionStatus
  else if lower = "namespace" ∨ lower = "namespace_name" then .namespaceName
  else if lower = "taskqueue" ∨ lower = "task_queue" then .taskQueue
  else if lower = "workflowid" ∨ lower = "workflow_id" then .workflowId
  else .searchAttribute lower

def valueOf (text : List Char) : List Char :=
  trimBy (· == '"') (trimBy (· == '\'') (trim text))

def conditionOf (field : List Char) (op : QueryOp) (value : List Char) : QueryCondition :=
  ⟨fieldOf (trim field), op, String.ofList (valueOf value)⟩

def byteBefore (s : List Char) (pos : Nat) : Option (List Char) :=
  if 0 < pos then slice s (pos - 1) pos else some []

def parseCondition (s : List Char) : Option (Except QueryParseError QueryCondition) :=
  match find "!=".toList s with
  | some pos => do
    let field ← sliceTo s pos
    let value ← sliceFrom s (pos + 2)
    some (.ok (conditionOf field .neq value))
  | none =>
    match find ['='] s with
    | none => some (.error (.missingOperator (String.ofList s)))
    | some pos => do
      let before ← byteBefore s pos
      if before = ['!'] then some (.error (.invalidOperator (String.ofList s)))
      else do
        let field ← sliceTo s pos
        let value ← sliceFrom s (pos + 1)
        some (.ok (conditionOf field .eq value))

def parseConditions : List (List Char) → Option (Except QueryParseError (List QueryCondition))
  | [] => some (.ok [])
  | part :: parts =>
    if (trim part).isEmpty then parseConditions parts
    else
      match parseCondition (trim part) with
      | none => none
      | some (.error e) => some (.error e)
      | some (.ok condition) =>
        (parseConditions parts).map (Except.map (condition :: ·))

def parse (query : List Char) : Option (Except QueryParseError VisibilityQuery) :=
  if (trim query).isEmpty then some (.ok {})
  else do
    let (query, limit) ← extractClause limitKeyword (trim query)
    let (query, offset) ← extractClause offsetKeyword query
    let conditions ← parseConditions (splitByAnd query)
    some (conditions.map (fun conditions => ⟨conditions, limit, offset⟩))

end Parsing

/-! ### Execution -/

class FloatText where
  toText : UInt64 → String

section Execution

variable [UnicodeCase]

def parseStatus (s : String) : Option WorkflowStatus :=
  let lower := String.ofList (UnicodeCase.lowercase s.toList)
  if lower = "running" then some .running
  else if lower = "completed" then some .completed
  else if lower = "failed" then some .failed
  else if lower = "canceled" ∨ lower = "cancelled" then some .canceled
  else if lower = "terminated" then some .terminated
  else if lower = "continuedasnew" ∨ lower = "continued_as_new" then some .continuedAsNew
  else if lower = "timedout" ∨ lower = "timed_out" then some .timedOut
  else
    (parseUnsigned 256 s.toList).bind fun
      | 1 => some .running
      | 2 => some .completed
      | 3 => some .failed
      | 4 => some .canceled
      | 5 => some .terminated
      | 6 => some .continuedAsNew
      | 7 => some .timedOut
      | _ => none

def idOf (value : String) : UInt64 :=
  UInt64.ofNat ((parseUnsigned (2 ^ 64) value.toList).getD 0)

def candidates (index : VisibilityIndex) (condition : QueryCondition) :
    Option (List WorkflowExecutionInfo) :=
  if condition.op = .eq then
    match condition.field with
    | .status | .executionStatus => (parseStatus condition.value).map index.listByStatus
    | .namespaceName => some (index.listByNamespace (idOf condition.value))
    | .workflowType => some (index.listByType (idOf condition.value))
    | _ => none
  else none

def fallbackStatuses : List WorkflowStatus :=
  [.running, .completed, .failed, .canceled, .terminated, .continuedAsNew]

def getInitialSet (query : VisibilityQuery) (index : VisibilityIndex) :
    List WorkflowExecutionInfo :=
  (query.conditions.findSome? (candidates index)).getD
    (fallbackStatuses.flatMap index.listByStatus)

variable [FloatText]

def attributeText : SearchAttributeValue → String
  | .string s => s
  | .keyword s => s
  | .integer i => toString i
  | .double bits => FloatText.toText bits
  | .bool b => toString b
  | .dateTime ms => toString ms

def fieldMatches (info : WorkflowExecutionInfo) (condition : QueryCondition) : Bool :=
  match condition.field with
  | .workflowType => toString info.workflowTypeId == condition.value
  | .status | .executionStatus => (parseStatus condition.value).any (info.status == ·)
  | .namespaceName => toString info.namespaceId == condition.value
  | .taskQueue => toString info.taskQueueHash == condition.value
  | .workflowId => toString info.workflowId == condition.value
  | .searchAttribute key =>
    (info.searchAttributes.lookup key).any (fun v => attributeText v == condition.value)

def matchesCondition (info : WorkflowExecutionInfo) (condition : QueryCondition) : Bool :=
  match condition.op with
  | .eq => fieldMatches info condition
  | .neq => !fieldMatches info condition

def execute (query : VisibilityQuery) (index : VisibilityIndex) : List WorkflowExecutionInfo :=
  let results := query.conditions.foldl
    (fun results condition => results.filter (matchesCondition · condition))
    (query.getInitialSet index)
  let results :=
    match query.offset with
    | some offset => if offset < results.length then results.drop offset else []
    | none => results
  match query.limit with
  | some limit => results.take limit
  | none => results

end Execution

end VisibilityQuery

end Velocity
