import Velocity.Lib.Fallible
import Velocity.Lib.LittleEndian

namespace Velocity

open Lib List

/-!
# Log records

`[event_type: u8][workflow_key: u64][data_len: u32][data][crc32: u32]`, the length truncated.
-/

/-! ### Errors of the reader -/

inductive ErrorKind where
  | notFound
  | invalidData
  | unexpectedEof
  deriving DecidableEq, Repr

structure IoError where
  kind : ErrorKind
  message : String
  deriving DecidableEq, Repr

def readExact (n : Nat) (input : Bytes) : Except IoError (Bytes × Bytes) :=
  if n ≤ input.length then .ok (input.take n, input.drop n)
  else .error ⟨.unexpectedEof, "failed to fill whole buffer"⟩

theorem readExact_ok_iff {n : Nat} {input buf rest : Bytes} :
    readExact n input = .ok (buf, rest) ↔ input = buf ++ rest ∧ buf.length = n := by
  unfold readExact
  split
  · next hn =>
    rw [Except.ok.injEq, Prod.mk.injEq]
    constructor
    · rintro ⟨rfl, rfl⟩
      exact ⟨(take_append_drop n input).symm, length_take_of_le hn⟩
    · rintro ⟨rfl, rfl⟩
      exact ⟨take_left, drop_left⟩
  · next hn =>
    constructor
    · intro h
      cases h
    · rintro ⟨rfl, rfl⟩
      exact absurd (by rw [length_append]; omega) hn

theorem readExact_append (buf rest : Bytes) :
    readExact buf.length (buf ++ rest) = .ok (buf, rest) :=
  readExact_ok_iff.mpr ⟨rfl, rfl⟩

/-! ### Event types -/

inductive WalEventType where
  | workflowStarted
  | stepCompleted
  | workflowCompleted
  | workflowFailed
  | workflowCanceled
  | workflowTerminated
  | signalReceived
  | timerScheduled
  | activityScheduled
  | childWorkflowStarted
  deriving DecidableEq, Repr

def WalEventType.toU8 : WalEventType → UInt8
  | .workflowStarted => 1
  | .stepCompleted => 2
  | .workflowCompleted => 3
  | .workflowFailed => 4
  | .workflowCanceled => 5
  | .workflowTerminated => 6
  | .signalReceived => 7
  | .timerScheduled => 8
  | .activityScheduled => 9
  | .childWorkflowStarted => 10

def WalEventType.fromU8 : UInt8 → Option WalEventType
  | 1 => some .workflowStarted
  | 2 => some .stepCompleted
  | 3 => some .workflowCompleted
  | 4 => some .workflowFailed
  | 5 => some .workflowCanceled
  | 6 => some .workflowTerminated
  | 7 => some .signalReceived
  | 8 => some .timerScheduled
  | 9 => some .activityScheduled
  | 10 => some .childWorkflowStarted
  | _ => none

@[simp] theorem WalEventType.fromU8_toU8 (t : WalEventType) : fromU8 t.toU8 = some t := by
  cases t <;> rfl

theorem WalEventType.toU8_of_fromU8 {v : UInt8} {t : WalEventType} (h : fromU8 v = some t) :
    t.toU8 = v := by
  unfold fromU8 at h
  split at h <;> cases h <;> rfl

/-! ### The checksum -/

def crc32TableEntry (i : UInt32) : UInt32 :=
  (List.range 8).foldl
    (fun (crc : UInt32) _ =>
      if crc &&& 1 ≠ 0 then (0xEDB88320 : UInt32) ^^^ (crc >>> 1) else crc >>> 1) i

def makeCrc32Table (i : Fin 256) : UInt32 := crc32TableEntry (UInt32.ofNat i.val)

def crc32Fast (data : Bytes) : UInt32 :=
  let crc := data.foldl
    (fun (crc : UInt32) byte =>
      let index := Fin.ofNat 256 ((crc ^^^ byte.toUInt32) &&& 0xFF).toNat
      makeCrc32Table index ^^^ (crc >>> 8))
    0xFFFFFFFF
  crc ^^^ 0xFFFFFFFF

/-! ### Records -/

structure WalRecord where
  eventType : WalEventType
  workflowKey : UInt64
  data : Bytes
  deriving DecidableEq, Repr

def WalRecord.body (r : WalRecord) : Bytes :=
  r.eventType.toU8 ::
    (u64ToLeBytes r.workflowKey ++ u32ToLeBytes (UInt32.ofNat r.data.length) ++ r.data)

def WalRecord.encode (r : WalRecord) : Bytes := r.body ++ u32ToLeBytes (crc32Fast r.body)

def WalRecord.decode : Bytes → Except IoError (Option (WalRecord × Bytes))
  | [] => .ok none
  | eventByte :: input => do
    let eventType ← okOrElse (WalEventType.fromU8 eventByte) ⟨.invalidData, "invalid event type"⟩
    let (keyBuf, input) ← readExact 8 input
    let workflowKey := u64FromLeBytes keyBuf
    let (lenBuf, input) ← readExact 4 input
    let dataLen := u32FromLeBytes lenBuf
    -- the length is trusted before the checksum
    let (data, input) ← readExact dataLen.toNat input
    let (crcBuf, input) ← readExact 4 input
    let checkBuf := eventByte :: (u64ToLeBytes workflowKey ++ u32ToLeBytes dataLen ++ data)
    if crc32Fast checkBuf ≠ u32FromLeBytes crcBuf then
      .error ⟨.invalidData, "CRC mismatch"⟩
    else .ok (some (⟨eventType, workflowKey, data⟩, input))

namespace WalRecord

/-- The data fits the `u32` length field. -/
def Fits (r : WalRecord) : Prop := r.data.length < 2 ^ 32

instance (r : WalRecord) : Decidable r.Fits := inferInstanceAs (Decidable (_ < _))

@[simp] theorem length_encode (r : WalRecord) : r.encode.length = r.data.length + 17 := by
  simp only [encode, body, length_append, length_cons, length_u64ToLeBytes,
    length_u32ToLeBytes]
  omega

theorem encode_append (r : WalRecord) (rest : Bytes) :
    r.encode ++ rest
      = r.eventType.toU8 :: (u64ToLeBytes r.workflowKey
          ++ (u32ToLeBytes (UInt32.ofNat r.data.length)
            ++ (r.data ++ (u32ToLeBytes (crc32Fast r.body) ++ rest)))) := by
  simp only [encode, body, cons_append, append_assoc]

theorem decode_eq_ok_some_iff {input rest : Bytes} {r : WalRecord} :
    decode input = .ok (some (r, rest))
      ↔ ∃ keyBuf lenBuf crcBuf,
          input = r.eventType.toU8 :: (keyBuf ++ (lenBuf ++ (r.data ++ (crcBuf ++ rest))))
          ∧ keyBuf.length = 8 ∧ lenBuf.length = 4 ∧ crcBuf.length = 4
          ∧ u64FromLeBytes keyBuf = r.workflowKey
          ∧ (u32FromLeBytes lenBuf).toNat = r.data.length
          ∧ crc32Fast (r.eventType.toU8 ::
              (u64ToLeBytes r.workflowKey ++ u32ToLeBytes (u32FromLeBytes lenBuf) ++ r.data))
            = u32FromLeBytes crcBuf := by
  constructor
  · intro h
    cases input with
    | nil => cases h
    | cons eventByte input =>
      simp only [decode, bind_eq_ok, okOrElse_eq_ok] at h
      obtain ⟨eventType, htype, ⟨keyBuf, i₁⟩, hkey, ⟨lenBuf, i₂⟩, hlen, ⟨data, i₃⟩, hdata,
        ⟨crcBuf, i₄⟩, hcrc, h⟩ := h
      split at h
      · cases h
      · next hsum =>
        cases h
        obtain ⟨rfl, hkeylen⟩ := readExact_ok_iff.mp hkey
        obtain ⟨rfl, hlenlen⟩ := readExact_ok_iff.mp hlen
        obtain ⟨rfl, hdatalen⟩ := readExact_ok_iff.mp hdata
        obtain ⟨rfl, hcrclen⟩ := readExact_ok_iff.mp hcrc
        rw [← WalEventType.toU8_of_fromU8 htype] at hsum ⊢
        exact ⟨keyBuf, lenBuf, crcBuf, rfl, hkeylen, hlenlen, hcrclen, rfl, hdatalen.symm,
          not_not.mp hsum⟩
  · rintro ⟨keyBuf, lenBuf, crcBuf, rfl, hkeylen, hlenlen, hcrclen, hkey, hdatalen, hsum⟩
    simp only [decode, bind_eq_ok, okOrElse_eq_ok]
    refine ⟨r.eventType, WalEventType.fromU8_toU8 _, (keyBuf, _),
      readExact_ok_iff.mpr ⟨rfl, hkeylen⟩, (lenBuf, _), readExact_ok_iff.mpr ⟨rfl, hlenlen⟩,
      (r.data, _), readExact_ok_iff.mpr ⟨rfl, hdatalen.symm⟩, (crcBuf, _),
      readExact_ok_iff.mpr ⟨rfl, hcrclen⟩, ?_⟩
    rw [hkey, if_neg (not_not.mpr hsum)]

theorem decode_eq_some {input rest : Bytes} {r : WalRecord} :
    decode input = .ok (some (r, rest)) ↔ input = r.encode ++ rest ∧ r.Fits := by
  rw [decode_eq_ok_some_iff, encode_append]
  constructor
  · rintro ⟨keyBuf, lenBuf, crcBuf, rfl, hkeylen, hlenlen, hcrclen, hkey, hdatalen, hsum⟩
    have hfits : r.Fits := by
      show r.data.length < 2 ^ 32
      rw [← hdatalen]
      exact UInt32.toNat_lt _
    have hlen : u32FromLeBytes lenBuf = UInt32.ofNat r.data.length := by
      rw [← hdatalen, UInt32.ofNat_toNat]
    -- the bytes determine the field
    have hlenBuf : lenBuf = u32ToLeBytes (UInt32.ofNat r.data.length) := by
      rw [← hlen, u32ToLeBytes_fromLeBytes hlenlen]
    have hkeyBuf : keyBuf = u64ToLeBytes r.workflowKey := by
      rw [← hkey, u64ToLeBytes_fromLeBytes hkeylen]
    have hcrcBuf : crcBuf = u32ToLeBytes (crc32Fast r.body) := by
      rw [body, ← hlen, hsum, u32ToLeBytes_fromLeBytes hcrclen]
    rw [← hlenBuf, ← hkeyBuf, ← hcrcBuf]
    exact ⟨rfl, hfits⟩
  · rintro ⟨rfl, hfits⟩
    have hlen : (UInt32.ofNat r.data.length).toNat = r.data.length :=
      UInt32.toNat_ofNat_of_lt' hfits
    refine ⟨_, _, _, rfl, length_u64ToLeBytes _, length_u32ToLeBytes _, length_u32ToLeBytes _,
      u64FromLeBytes_toLeBytes _, ?_, ?_⟩
    · rw [u32FromLeBytes_toLeBytes, hlen]
    · rw [u32FromLeBytes_toLeBytes, u32FromLeBytes_toLeBytes, body]

theorem decode_eq_none {input : Bytes} : decode input = .ok none ↔ input = [] := by
  cases input with
  | nil => exact iff_of_true rfl rfl
  | cons eventByte input =>
    refine iff_of_false (fun h => ?_) (cons_ne_nil _ _)
    -- every path of the decoder that answers has a record
    simp only [decode, bind_eq_ok] at h
    obtain ⟨_, _, _, _, _, _, _, _, _, _, h⟩ := h
    split at h <;> cases h

theorem decode_of_length_wrapped {r : WalRecord} (hlen : r.data.length = 2 ^ 32)
    {crcBuf more : Bytes} (hdata : r.data = crcBuf ++ more) (hcrc : crcBuf.length = 4)
    (hsum : crc32Fast (r.eventType.toU8 :: (u64ToLeBytes r.workflowKey ++ u32ToLeBytes 0))
      ≠ u32FromLeBytes crcBuf) (rest : Bytes) :
    decode (r.encode ++ rest) = .error ⟨.invalidData, "CRC mismatch"⟩ := by
  have hkeyRead := readExact_append (u64ToLeBytes r.workflowKey)
  have hlenRead := readExact_append (u32ToLeBytes 0)
  have hcrcRead := readExact_append crcBuf
  rw [length_u64ToLeBytes] at hkeyRead
  rw [length_u32ToLeBytes] at hlenRead
  rw [hcrc] at hcrcRead
  have hwrap : UInt32.ofNat r.data.length = 0 := by rw [hlen]; rfl
  have hempty : ∀ input, readExact (0 : UInt32).toNat input = .ok ([], input) := fun _ => rfl
  rw [encode_append, hwrap, hdata, append_assoc]
  simp only [decode, WalEventType.fromU8_toU8, okOrElse, bind, Except.bind, hkeyRead, hlenRead,
    u64FromLeBytes_toLeBytes, u32FromLeBytes_toLeBytes, hempty, hcrcRead, append_nil]
  rw [if_pos hsum]

end WalRecord

end Velocity
