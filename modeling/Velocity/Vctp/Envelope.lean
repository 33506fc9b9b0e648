import Velocity.Engine.Context

namespace Velocity.Vctp

open Lib

/-!
# Requests and responses of the VCTP server

JSON envelopes; `serde_json` and the hasher are parameters (`VctpCodec`).
-/

/-! ### Requests -/

structure VctpRpcRequest where
  method : UInt64
  namespaceName : String := "default"
  workflowId : String := ""
  payload : Option Bytes := none
  workflowType : Option String := none
  signalName : Option String := none
  totalSteps : Option UInt32 := none
  signalCount : Option UInt32 := none
  authToken : Option String := none
  apiKey : Option String := none
  idempotencyKey : Option String := none
  deriving DecidableEq

structure JwtClaims where
  iss : Option String := none
  aud : Option String := none
  exp : Int64 := 0

class VctpCodec where
  /-- `serde_json::from_slice` of a request, or the text of its error. -/
  parseRequest : Bytes → Except String VctpRpcRequest
  /-- `serde_json::from_slice` of token claims. -/
  parseClaims : Bytes → Option JwtClaims
  /-- `DefaultHasher` over byte slices hashed one after the other. -/
  defaultHash : List Bytes → UInt64

namespace VctpMethods

def startWorkflow : UInt64 := 100

def signalWorkflow : UInt64 := 101

def queryWorkflow : UInt64 := 102

def cancelWorkflow : UInt64 := 103

def terminateWorkflow : UInt64 := 104

def describeWorkflow : UInt64 := 105

def resetWorkflow : UInt64 := 107

def updateWorkflow : UInt64 := 108

def completeWorkflow : UInt64 := 109

def registerNamespace : UInt64 := 300

def describeNamespace : UInt64 := 301

def healthCheck : UInt64 := 500

def countWorkflows : UInt64 := 502

def batchSignal : UInt64 := 503

def signalWithStart : UInt64 := 606

end VctpMethods

/-! ### Responses -/

structure VctpRpcResponse where
  status : UInt32
  sequence : UInt64
  error : Option String := none
  workflowId : Option String := none
  runId : Option String := none
  runStatus : Option String := none
  count : Option UInt64 := none
  deriving DecidableEq, Repr

namespace VctpRpcResponse

def ok (sequence : UInt64) : VctpRpcResponse := { status := 0, sequence := sequence }

def err (sequence : UInt64) (status : UInt32) (error : String) : VctpRpcResponse :=
  { status := status, sequence := sequence, error := some error }

variable (r : VctpRpcResponse)

def withWorkflow (workflowId runId : String) : VctpRpcResponse :=
  { r with workflowId := some workflowId, runId := some runId }

def withStatus (status : String) : VctpRpcResponse :=
  { r with runStatus := some status }

def withCount (count : UInt64) : VctpRpcResponse :=
  { r with count := some count }

@[simp] theorem sequence_err (seq : UInt64) (status : UInt32) (error : String) :
    (err seq status error).sequence = seq := rfl

end VctpRpcResponse

def statusToStr : WorkflowStatus → String
  | .running => "RUNNING"
  | .completed => "COMPLETED"
  | .failed => "FAILED"
  | .canceled => "CANCELLED"
  | .terminated => "TERMINATED"
  | .continuedAsNew => "CONTINUING_AS_NEW"
  | .timedOut => "TIMED_OUT"
  | .void => "UNKNOWN"

/-! ### Tokens -/

def utf8 (s : String) : Bytes := s.toUTF8.toList

def lenAsU64 (s : String) : UInt64 := UInt64.ofNat s.utf8ByteSize

def base64Table : Bytes :=
  utf8 "ABCDEFGHIJKLMNOPQRSTUVWXYZabcdefghijklmnopqrstuvwxyz0123456789+/"

def base64Value (b : UInt8) : UInt8 := UInt8.ofNat ((base64Table.findIdx? (· == b)).getD 0)

def base64Pad : UInt8 := 61

def base64Quads : Bytes → Bytes
  | a :: b :: c :: d :: rest =>
    if a = base64Pad then []
    else
      let first := [(base64Value a <<< 2) ||| (base64Value b >>> 4)]
      let second :=
        if c ≠ base64Pad then [(base64Value b <<< 4) ||| (base64Value c >>> 2)] else []
      let third := if d ≠ base64Pad then [(base64Value c <<< 6) ||| base64Value d] else []
      first ++ second ++ third ++ base64Quads rest
  | _ => []

def base64UrlDecode (input : String) : Bytes :=
  -- `-` and `_` are the characters `+` and `/` of the table
  let standard := (utf8 input).map (fun b => if b = 45 then 43 else if b = 95 then 47 else b)
  base64Quads (standard ++ List.replicate ((4 - standard.length % 4) % 4) base64Pad)

def hex16 (n : UInt64) : String :=
  let digits := Nat.toDigits 16 n.toNat
  String.ofList (List.replicate (16 - digits.length) '0' ++ digits)

def computeHmacSha256 [VctpCodec] (input secret : String) : String :=
  hex16 (VctpCodec.defaultHash [utf8 secret, utf8 input])
    ++ hex16 (VctpCodec.defaultHash [utf8 input, utf8 secret])

end Velocity.Vctp
