import Velocity.Vctp.Checksum

namespace Velocity

open Lib List

/-!
# Corrupted records

Encodings are codewords, and two of them cannot differ in four bytes only.
-/

namespace WalRecord

theorem crc32Polynomial_top : Vctp.Wire.crc32Polynomial.getLsbD (32 - 1) = true := by decide

theorem register_encode (r : WalRecord) :
    Crc.register Vctp.Wire.crc32Polynomial (BitVec.allOnes 32) r.encode
      = Crc.shifts Vctp.Wire.crc32Polynomial 32 (BitVec.allOnes 32) := by
  have hstored : Crc.leWord 32 (u32ToLeBytes (crc32Fast r.body)) = (crc32Fast r.body).toBitVec := by
    have hlt : (crc32Fast r.body).toNat < 256 ^ 4 := (crc32Fast r.body).toNat_lt
    rw [Crc.leWord, u32ToLeBytes, leNat_leBytes, Nat.mod_eq_of_lt hlt]
    exact BitVec.ofNat_toNat 32 (crc32Fast r.body).toBitVec
  have hadd : ∀ c : BitVec 32, c ^^^ ~~~c = BitVec.allOnes 32 := fun c => by
    rw [← BitVec.xor_allOnes, ← BitVec.xor_assoc, BitVec.xor_self, BitVec.zero_xor]
  rw [encode, Crc.register_append, Crc.register_eq_shifts _ _ _ (by simp), hstored,
    Vctp.Wire.toBitVec_crc32Fast, hadd, length_u32ToLeBytes]

def lengthField (input : Bytes) : Bytes := (input.take 13).drop 9

theorem lengthField_encode (r : WalRecord) (rest : Bytes) :
    lengthField (r.encode ++ rest) = u32ToLeBytes (UInt32.ofNat r.data.length) := by
  have hfront : r.encode ++ rest
      = (r.eventType.toU8 :: u64ToLeBytes r.workflowKey)
          ++ (u32ToLeBytes (UInt32.ofNat r.data.length)
            ++ (r.data ++ (u32ToLeBytes (crc32Fast r.body) ++ rest))) := by
    rw [encode_append, cons_append]
  have hnine : (r.eventType.toU8 :: u64ToLeBytes r.workflowKey).length = 9 := by simp
  rw [lengthField, drop_take, hfront, drop_left' hnine,
    take_left' (length_u32ToLeBytes _)]

theorem lengthField_window {pre xs ys post : Bytes} (hlen : xs.length = ys.length)
    (hwindow : pre.length + xs.length ≤ 9 ∨ 13 ≤ pre.length) :
    lengthField (pre ++ xs ++ post) = lengthField (pre ++ ys ++ post) := by
  rw [lengthField, lengthField]
  rcases hwindow with hbefore | hbehind
  · have hdrop : ∀ zs : Bytes, zs.length = xs.length →
        (pre ++ zs ++ post).drop 9 = post.drop (9 - (pre.length + xs.length)) := by
      intro zs hzs
      have hover : (pre ++ zs).length ≤ 9 := by rw [length_append]; omega
      rw [drop_append, drop_of_length_le hover, length_append, hzs, nil_append]
    rw [drop_take, drop_take, hdrop xs rfl, hdrop ys hlen.symm]
  · have htake : ∀ zs : Bytes, (pre ++ zs ++ post).take 13 = pre.take 13 := by
      intro zs
      rw [append_assoc, take_append_of_le_length hbehind]
    rw [htake xs, htake ys]

theorem length_encode_eq {r r' : WalRecord} (hfits : r.Fits) (hfits' : r'.Fits)
    {rest rest' : Bytes} (h : lengthField (r.encode ++ rest) = lengthField (r'.encode ++ rest')) :
    r.encode.length = r'.encode.length := by
  rw [lengthField_encode, lengthField_encode] at h
  have hword := congrArg (fun bs => (u32FromLeBytes bs).toNat) h
  simp only [u32FromLeBytes_toLeBytes, UInt32.toNat_ofNat_of_lt' hfits,
    UInt32.toNat_ofNat_of_lt' hfits'] at hword
  rw [length_encode, length_encode, hword]

/-- **Corruption is detected** in any four bytes outside the length field. -/
theorem decode_corrupted (r : WalRecord) (hfits : r.Fits) (pre old new post rest : Bytes)
    (hencode : r.encode = pre ++ old ++ post) (hlen : new.length = old.length)
    (hburst : old.length ≤ 4) (hwindow : pre.length + old.length ≤ 9 ∨ 13 ≤ pre.length)
    (hne : new ≠ old) : ∃ err, decode (pre ++ new ++ post ++ rest) = .error err := by
  match hdecode : decode (pre ++ new ++ post ++ rest) with
  | .error err => exact ⟨err, rfl⟩
  | .ok none =>
    -- there are at least 17 bytes to read
    have hlength := congrArg List.length (decode_eq_none.mp hdecode)
    have hrecord := congrArg List.length hencode
    simp only [length_append, length_nil, length_encode] at hlength hrecord
    omega
  | .ok (some (r', rest')) =>
    exfalso
    obtain ⟨hread, hfits'⟩ := decode_eq_some.mp hdecode
    -- the length is intact
    have hfield : lengthField (r.encode ++ rest) = lengthField (r'.encode ++ rest') := by
      rw [← hread, hencode, append_assoc _ post, append_assoc _ post]
      exact lengthField_window hlen.symm hwindow
    have hsame : (pre ++ new ++ post).length = r'.encode.length := by
      rw [← length_encode_eq hfits hfits' hfield, hencode]
      simp only [length_append, hlen]
    obtain ⟨hrecord, -⟩ := append_inj hread hsame
    -- both are codewords
    have hregister := register_encode r'
    rw [← hrecord, ← register_encode r, hencode] at hregister
    exact hne (Crc.burst_eq crc32Polynomial_top hlen (by omega) hregister)

theorem decode_corrupted_straddling :
    ∃ err, decode
      ((⟨.stepCompleted, 7, [1, 2, 3]⟩ : WalRecord).encode.take 14
        ++ ((⟨.stepCompleted, 7, [1, 2, 3]⟩ : WalRecord).encode.drop 14 |>.take 4 |>.map (~~~ ·))
        ++ (⟨.stepCompleted, 7, [1, 2, 3]⟩ : WalRecord).encode.drop 18 ++ [])
      = .error err :=
  decode_corrupted ⟨.stepCompleted, 7, [1, 2, 3]⟩ (by decide) _
    ((⟨.stepCompleted, 7, [1, 2, 3]⟩ : WalRecord).encode.drop 14 |>.take 4) _ _ _
    (by decide +kernel) (by decide +kernel) (by decide +kernel) (by decide +kernel)
    (by decide +kernel)

end WalRecord

end Velocity
