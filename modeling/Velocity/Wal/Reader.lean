import Velocity.Wal.Record

namespace Velocity

open Lib List WalRecord

/-!
# Reading a log file

The first record that cannot be decoded drops the records read so far.

* `readWalRecords`: header, then records to the end of the file.
* `readWalRecords_encodeAll`: what was written is read.
* `readWalRecords_take_iff`: which torn files are.
-/

def walMagic : Bytes := [86, 69, 76, 79]

def walVersion : UInt32 := 1

def walVersionMax : UInt32 := 1

def walHeader : Bytes := walMagic ++ u32ToLeBytes walVersion

variable {input : Bytes}

theorem WalRecord.decode_shorter {rest : Bytes} {r : WalRecord}
    (h : decode input = .ok (some (r, rest))) : rest.length < input.length := by
  rw [(decode_eq_some.mp h).1, length_append, r.length_encode]
  omega

def readRecords (input : Bytes) : Except IoError (List WalRecord) :=
  match h : decode input with
  -- the records read so far are dropped with the error
  | .error e => .error e
  | .ok none => .ok []
  | .ok (some (record, rest)) =>
    have := decode_shorter h
    match readRecords rest with
    | .error e => .error e
    | .ok records => .ok (record :: records)
termination_by input.length

def readWalRecords (file : Bytes) : Except IoError (List WalRecord) := do
  let (magic, input) ← readExact 4 file
  if magic ≠ walMagic then
    .error ⟨.invalidData, s!"Not a Velocity WAL file (bad magic: {magic})"⟩
  else
    let (verBytes, input) ← readExact 4 input
    let version := u32FromLeBytes verBytes
    if version > walVersionMax then
      .error ⟨.invalidData,
        s!"WAL version {version} is newer than maximum supported version {walVersionMax}"
          ++ " — upgrade the engine"⟩
    else readRecords input

def encodeAll (records : List WalRecord) : Bytes := records.flatMap encode

@[simp] theorem encodeAll_nil : encodeAll [] = [] := rfl

@[simp] theorem encodeAll_cons (r : WalRecord) (rs : List WalRecord) :
    encodeAll (r :: rs) = r.encode ++ encodeAll rs := rfl

theorem encodeAll_append (rs rs' : List WalRecord) :
    encodeAll (rs ++ rs') = encodeAll rs ++ encodeAll rs' := by
  induction rs with
  | nil => rfl
  | cons r rs ih => rw [cons_append, encodeAll_cons, encodeAll_cons, ih, append_assoc]

/-! ### The loop -/

theorem readRecords_of_some {rest : Bytes} {r : WalRecord}
    (h : decode input = .ok (some (r, rest))) :
    readRecords input = (r :: ·) <$> readRecords rest := by
  rw [readRecords]
  split
  · next e he => rw [h] at he; cases he
  · next he => rw [h] at he; cases he
  · next record rest' he =>
    rw [h] at he
    cases he
    cases readRecords rest <;> rfl

theorem readRecords_of_error {e : IoError}
    (h : decode input = .error e) : readRecords input = .error e := by
  rw [readRecords]
  split
  · next e' he => rw [h] at he; cases he; rfl
  · next he => rw [h] at he; cases he
  · next record rest he => rw [h] at he; cases he

variable {rs : List WalRecord}

theorem readRecords_encodeAll (hfits : ∀ r ∈ rs, r.Fits) : readRecords (encodeAll rs) = .ok rs := by
  induction rs with
  | nil =>
    rw [encodeAll_nil, readRecords]
    rfl
  | cons r rs ih =>
    have hdecode : decode (encodeAll (r :: rs)) = .ok (some (r, encodeAll rs)) :=
      decode_eq_some.mpr ⟨rfl, hfits r mem_cons_self⟩
    rw [readRecords_of_some hdecode, ih (fun r' hr' => hfits r' (mem_cons_of_mem r hr'))]
    rfl

theorem eq_encodeAll_of_readRecords
    (h : readRecords input = .ok rs) : input = encodeAll rs ∧ ∀ r ∈ rs, r.Fits := by
  fun_induction readRecords input generalizing rs with
  | case1 input e he => cases h
  | case2 input he =>
    cases h
    exact ⟨decode_eq_none.mp he, fun r hr => absurd hr not_mem_nil⟩
  | case3 input record rest he hlt e hrest ih => cases h
  | case4 input record rest he hlt records hrest ih =>
    cases h
    obtain ⟨hinput, hrecord⟩ := decode_eq_some.mp he
    obtain ⟨htail, hfits⟩ := ih hrest
    refine ⟨?_, fun r hr => ?_⟩
    · rw [hinput, htail, encodeAll_cons]
    · rcases mem_cons.mp hr with rfl | hr
      · exact hrecord
      · exact hfits r hr

theorem readRecords_eq_ok :
    readRecords input = .ok rs ↔ input = encodeAll rs ∧ ∀ r ∈ rs, r.Fits := by
  refine ⟨eq_encodeAll_of_readRecords, ?_⟩
  rintro ⟨rfl, hfits⟩
  exact readRecords_encodeAll hfits

theorem readWalRecords_header (input : Bytes) :
    readWalRecords (walHeader ++ input) = readRecords input := rfl

/-- **Codec**, for payloads below `2 ^ 32` bytes. -/
theorem readWalRecords_encodeAll {rs : List WalRecord} (hfits : ∀ r ∈ rs, r.Fits) :
    readWalRecords (walHeader ++ encodeAll rs) = .ok rs := by
  rw [readWalRecords_header]
  exact readRecords_encodeAll hfits

theorem readWalRecords_encodeAll_repeated :
    readWalRecords (walHeader ++ encodeAll
        [⟨.stepCompleted, 7, [0, 0, 0, 0, 42]⟩, ⟨.workflowCompleted, 7, []⟩,
          ⟨.workflowCompleted, 7, []⟩])
      = .ok [⟨.stepCompleted, 7, [0, 0, 0, 0, 42]⟩, ⟨.workflowCompleted, 7, []⟩,
          ⟨.workflowCompleted, 7, []⟩] :=
  readWalRecords_encodeAll (by decide)

/-! ### Torn tails -/

def recordsBefore : List WalRecord → Nat → List WalRecord
  | [], _ => []
  | r :: rs, cut =>
    if r.encode.length ≤ cut then r :: recordsBefore rs (cut - r.encode.length) else []

theorem recordsBefore_spec (rs : List WalRecord) (cut : Nat) :
    ∃ later, rs = recordsBefore rs cut ++ later ∧ (encodeAll (recordsBefore rs cut)).length ≤ cut
      ∧ ∀ r later', later = r :: later' →
          cut < (encodeAll (recordsBefore rs cut)).length + r.encode.length := by
  induction rs generalizing cut with
  | nil => exact ⟨[], rfl, Nat.zero_le _, fun r later' h => by cases h⟩
  | cons r rs ih =>
    unfold recordsBefore
    split
    · next hr =>
      obtain ⟨later, hsplit, hlen, hnext⟩ := ih (cut - r.encode.length)
      refine ⟨later, ?_, ?_, fun s later' hs => ?_⟩
      · rw [cons_append, ← hsplit]
      · rw [encodeAll_cons, length_append]
        omega
      · have hcut := hnext s later' hs
        rw [encodeAll_cons, length_append]
        omega
    · next hr =>
      refine ⟨r :: rs, rfl, Nat.zero_le _, fun s later' hs => ?_⟩
      cases hs
      simp only [encodeAll_nil, length_nil, Nat.zero_add]
      omega

theorem recordsBefore_of_length {later : List WalRecord} {cut : Nat}
    (hcut : (encodeAll rs).length = min cut (encodeAll (rs ++ later)).length) :
    recordsBefore (rs ++ later) cut = rs := by
  induction rs generalizing cut with
  | nil =>
    cases later with
    | nil => rfl
    | cons r later =>
      -- no encoding is empty, so nothing more fits before the cut
      have hpos : 0 < r.encode.length := by rw [r.length_encode]; omega
      rw [nil_append, encodeAll_cons, length_append] at hcut
      rw [nil_append, recordsBefore, if_neg]
      rw [encodeAll_nil, length_nil] at hcut
      omega
  | cons r rs ih =>
    rw [cons_append, encodeAll_cons, encodeAll_cons, length_append,
      length_append] at hcut
    rw [cons_append, recordsBefore, if_pos (by omega), ih (by omega)]

/-- **Torn tails** are read iff the cut falls between two records. -/
theorem readWalRecords_take_iff (rs : List WalRecord) (n : Nat) (hn : 8 ≤ n) :
    readWalRecords ((walHeader ++ encodeAll rs).take n) = .ok (recordsBefore rs (n - 8))
      ↔ ∃ ps, ps <+: rs ∧ (∀ r ∈ ps, r.Fits)
          ∧ min n (walHeader ++ encodeAll rs).length = 8 + (encodeAll ps).length := by
  have hheader : walHeader.length = 8 := rfl
  -- the header survives the cut
  have htake : (walHeader ++ encodeAll rs).take n
      = walHeader ++ (encodeAll rs).take (n - 8) := by
    rw [take_append, hheader, take_of_length_le (by omega)]
  rw [htake, readWalRecords_header, readRecords_eq_ok, length_append, hheader]
  constructor
  · rintro ⟨hcut, hfits⟩
    obtain ⟨later, hsplit, -, -⟩ := recordsBefore_spec rs (n - 8)
    refine ⟨recordsBefore rs (n - 8), ⟨later, hsplit.symm⟩, hfits, ?_⟩
    have hlen := congrArg List.length hcut
    rw [length_take] at hlen
    omega
  · rintro ⟨ps, ⟨later, rfl⟩, hfits, hcut⟩
    have hbefore : recordsBefore (ps ++ later) (n - 8) = ps :=
      recordsBefore_of_length (by omega)
    rw [hbefore]
    refine ⟨?_, hfits⟩
    -- the cut keeps the encodings of `ps`
    rw [encodeAll_append] at hcut ⊢
    rw [length_append] at hcut
    rcases Nat.lt_or_ge (n - 8) ((encodeAll ps).length + (encodeAll later).length) with hlt | hge
    · have hboundary : n - 8 = (encodeAll ps).length := by omega
      rw [hboundary, take_left]
    · have hlater : encodeAll later = [] := length_eq_zero_iff.mp (by omega)
      rw [hlater, append_nil, take_of_length_le (by omega)]

theorem readWalRecords_take_boundary :
    readWalRecords ((walHeader ++ encodeAll
        [⟨.stepCompleted, 7, [0, 0, 0, 0, 42]⟩, ⟨.workflowCompleted, 7, []⟩]).take 30)
      = .ok [⟨.stepCompleted, 7, [0, 0, 0, 0, 42]⟩] :=
  (readWalRecords_take_iff _ 30 (by decide)).mpr
    ⟨[⟨.stepCompleted, 7, [0, 0, 0, 0, 42]⟩], ⟨[⟨.workflowCompleted, 7, []⟩], rfl⟩,
      by decide, rfl⟩

theorem readWalRecords_take_torn :
    readWalRecords ((walHeader ++ encodeAll
        [⟨.stepCompleted, 7, [0, 0, 0, 0, 42]⟩, ⟨.workflowCompleted, 7, []⟩]).take 31)
      = .error ⟨.unexpectedEof, "failed to fill whole buffer"⟩
    ∧ recordsBefore [⟨.stepCompleted, 7, [0, 0, 0, 0, 42]⟩, ⟨.workflowCompleted, 7, []⟩] (31 - 8)
      = [⟨.stepCompleted, 7, [0, 0, 0, 0, 42]⟩] := by
  refine ⟨?_, rfl⟩
  have hfirst : decode
      ((⟨.stepCompleted, 7, [0, 0, 0, 0, 42]⟩ : WalRecord).encode ++ [3])
      = .ok (some (⟨.stepCompleted, 7, [0, 0, 0, 0, 42]⟩, [3])) :=
    decode_eq_some.mpr ⟨rfl, by decide⟩
  have hsecond : readRecords [3] = .error ⟨.unexpectedEof, "failed to fill whole buffer"⟩ := by
    rw [readRecords]
    rfl
  show readRecords ((⟨.stepCompleted, 7, [0, 0, 0, 0, 42]⟩ : WalRecord).encode ++ [3]) = _
  rw [readRecords_of_some hfirst, hsecond]
  rfl

end Velocity
