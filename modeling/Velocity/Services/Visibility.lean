import Velocity.Engine.Context
import Velocity.Lib.Keyed

namespace Velocity

open Lib

/-!
# The visibility index

The map that is iterated over is an `AList`, the indexes are functions from a slot to its keys.

* `register`, `updateStatus` and `remove` write the executions and five indexes.
* `listByStatus` and its like read an index; `listRange` reads those of times.
-/

inductive SearchAttributeValue where
  | string (value : String)
  | integer (value : Int64)
  | double (bits : UInt64)
  | bool (value : Bool)
  | dateTime (epochMillis : UInt64)
  | keyword (value : String)
  deriving DecidableEq, Repr

abbrev SearchAttributes := AList (fun _ : String => SearchAttributeValue)

structure WorkflowExecutionInfo where
  workflowKey : UInt64
  workflowId : UInt64
  runId : UInt64
  workflowTypeId : UInt64
  namespaceId : UInt64
  status : WorkflowStatus
  startTimeMs : UInt64
  closeTimeMs : Option UInt64
  taskQueueHash : UInt64
  searchAttributes : SearchAttributes
  memo : AList (fun _ : String => Bytes)

def pushKey {κ : Type} [DecidableEq κ] (index : κ → List UInt64) (slot : κ) (key : UInt64) :
    κ → List UInt64 :=
  Function.update index slot (index slot ++ [key])

def retainOthers {κ : Type} [DecidableEq κ] (index : κ → List UInt64) (slot : κ) (key : UInt64) :
    κ → List UInt64 :=
  Function.update index slot ((index slot).filter (· ≠ key))

def timesBetween (startMs endMs : UInt64) : List UInt64 :=
  (List.range' startMs.toNat (endMs.toNat - startMs.toNat + 1)).map UInt64.ofNat

structure VisibilityIndex where
  executions : AList (fun _ : UInt64 => WorkflowExecutionInfo)
  byStatus : WorkflowStatus → List UInt64
  byNamespace : UInt64 → List UInt64
  byType : UInt64 → List UInt64
  byStartTime : UInt64 → List UInt64
  byCloseTime : UInt64 → List UInt64
  /-- The tree of start times has an entry; entries are never taken out. -/
  hasStartTime : Bool
  /-- The tree of close times has an entry. -/
  hasCloseTime : Bool

namespace VisibilityIndex

def new : VisibilityIndex where
  executions := ∅
  byStatus := fun _ => []
  byNamespace := fun _ => []
  byType := fun _ => []
  byStartTime := fun _ => []
  byCloseTime := fun _ => []
  hasStartTime := false
  hasCloseTime := false

variable (index : VisibilityIndex)

def register (info : WorkflowExecutionInfo) : VisibilityIndex :=
  let key := info.workflowKey
  { executions := index.executions.insert key info
    byStatus := pushKey index.byStatus info.status key
    byNamespace := pushKey index.byNamespace info.namespaceId key
    byType := pushKey index.byType info.workflowTypeId key
    byStartTime := pushKey index.byStartTime info.startTimeMs key
    byCloseTime :=
      match info.closeTimeMs with
      | some closeTime => pushKey index.byCloseTime closeTime key
      | none => index.byCloseTime
    hasStartTime := true
    hasCloseTime := index.hasCloseTime || info.closeTimeMs.isSome }

def updateStatus (workflowKey : UInt64) (newStatus : WorkflowStatus)
    (closeTimeMs : Option UInt64) : VisibilityIndex :=
  match index.executions.lookup workflowKey with
  | none => index
  | some info =>
    { index with
      executions := modifyKey index.executions workflowKey
        (fun info => { info with status := newStatus, closeTimeMs := closeTimeMs })
      byCloseTime :=
        match closeTimeMs with
        | some closeTime => pushKey index.byCloseTime closeTime workflowKey
        | none => index.byCloseTime
      hasCloseTime := index.hasCloseTime || closeTimeMs.isSome
      byStatus := pushKey (retainOthers index.byStatus info.status workflowKey) newStatus
        workflowKey }

def remove (workflowKey : UInt64) : VisibilityIndex :=
  match index.executions.lookup workflowKey with
  | none => index
  | some info =>
    { index with
      executions := index.executions.erase workflowKey
      byStatus := retainOthers index.byStatus info.status workflowKey
      byNamespace := retainOthers index.byNamespace info.namespaceId workflowKey
      byType := retainOthers index.byType info.workflowTypeId workflowKey
      byStartTime := retainOthers index.byStartTime info.startTimeMs workflowKey
      byCloseTime :=
        match info.closeTimeMs with
        | some closeTime => retainOthers index.byCloseTime closeTime workflowKey
        | none => index.byCloseTime }

def listKeys (keys : List UInt64) : List WorkflowExecutionInfo :=
  keys.filterMap fun k => index.executions.lookup k

def listByStatus (status : WorkflowStatus) : List WorkflowExecutionInfo :=
  index.listKeys (index.byStatus status)

def listByNamespace (namespaceId : UInt64) : List WorkflowExecutionInfo :=
  index.listKeys (index.byNamespace namespaceId)

def listByType (typeId : UInt64) : List WorkflowExecutionInfo :=
  index.listKeys (index.byType typeId)

/-- `BTreeMap::range` panics on a reversed range, unless the tree never had an entry. -/
def listRange (byTime : UInt64 → List UInt64) (hasEntry : Bool) (startMs endMs : UInt64) :
    Option (List WorkflowExecutionInfo) :=
  if startMs > endMs then if hasEntry then none else some []
  else some ((timesBetween startMs endMs).flatMap fun t => index.listKeys (byTime t))

def listByTimeRange (startMs endMs : UInt64) : Option (List WorkflowExecutionInfo) :=
  index.listRange index.byStartTime index.hasStartTime startMs endMs

def listByCloseTimeRange (startMs endMs : UInt64) : Option (List WorkflowExecutionInfo) :=
  index.listRange index.byCloseTime index.hasCloseTime startMs endMs

def countByStatus (status : WorkflowStatus) : Nat :=
  (index.byStatus status).length

def countByNamespace (namespaceId : UInt64) : Nat :=
  (index.byNamespace namespaceId).length

def countByType (workflowTypeId : UInt64) : Nat :=
  (index.byType workflowTypeId).length

@[simp] theorem lookup_executions_register (info : WorkflowExecutionInfo) :
    (index.register info).executions.lookup info.workflowKey = some info :=
  AList.lookup_insert index.executions

end VisibilityIndex

end Velocity
