import Mathlib.Tactic.Common

namespace Velocity.Lib

/-!
# Reading text

Splitting at white space, trimming, and numbers in decimal, over lists of characters.
-/

def isWhitespace (c : Char) : Bool :=
  let n := c.toNat
  (9 ≤ n && n ≤ 13) || n = 32 || n = 133 || n = 160 || n = 5760 || (8192 ≤ n && n ≤ 8202)
    || n = 8232 || n = 8233 || n = 8239 || n = 8287 || n = 12288

theorem isWhitespace_eq_false {c : Char} (h : 32 < c.toNat) (h' : c.toNat < 133) :
    isWhitespace c = false := by
  simp only [isWhitespace, Bool.or_eq_false_iff, Bool.and_eq_false_iff, decide_eq_false_iff_not]
  omega

theorem isAlpha_iff_toNat {c : Char} :
    c.isAlpha = true ↔ (65 ≤ c.toNat ∧ c.toNat ≤ 90) ∨ (97 ≤ c.toNat ∧ c.toNat ≤ 122) := by
  show (decide (c.val ≥ 65 ∧ c.val ≤ 90) || (c.val ≥ 97 && c.val ≤ 122)) = true ↔ _
  simp only [Bool.or_eq_true, Bool.and_eq_true, decide_eq_true_eq, ge_iff_le,
    UInt32.le_iff_toNat_le]
  rfl

theorem isDigit_iff_toNat {c : Char} : c.isDigit = true ↔ 48 ≤ c.toNat ∧ c.toNat ≤ 57 := by
  show (c.val ≥ 48 && c.val ≤ 57) = true ↔ _
  simp only [Bool.and_eq_true, decide_eq_true_eq, ge_iff_le, UInt32.le_iff_toNat_le]
  rfl

def splitWhitespace (text : List Char) : List (List Char) :=
  (text.splitOnP isWhitespace).filter (fun word => !word.isEmpty)

def trim (text : List Char) : List Char :=
  ((text.dropWhile isWhitespace).reverse.dropWhile isWhitespace).reverse

/-- The number of decimal digits behind those of `acc`. -/
def digitsFrom (acc : Nat) : List Char → Option Nat
  | [] => some acc
  | c :: cs => if c.isDigit then digitsFrom (10 * acc + (c.toNat - 48)) cs else none

def withoutPlus (text : List Char) : List Char :=
  if text.head? = some '+' then text.tail else text

/-- `str::parse` at an unsigned type with values below `bound`. -/
def parseUnsigned (bound : Nat) (text : List Char) : Option Nat :=
  if (withoutPlus text).isEmpty then none
  else
    match digitsFrom 0 (withoutPlus text) with
    | some n => if n < bound then some n else none
    | none => none

theorem takeWhile_dropWhile_spec {α : Type} (p : α → Bool) (text : List α) :
    text = text.takeWhile p ++ text.dropWhile p ∧ (∀ c ∈ text.takeWhile p, p c = true) ∧
      ∀ c ∈ (text.dropWhile p).head?, p c = false := by
  refine ⟨List.takeWhile_append_dropWhile.symm, fun c hc => ?_, fun c hc => ?_⟩
  · exact List.all_eq_true.mp List.all_takeWhile c hc
  · have h := List.head?_dropWhile_not p text
    rwa [Option.mem_def.mp hc] at h

theorem takeWhile_dropWhile_append {α : Type} {p : α → Bool} {word rest : List α}
    (hword : ∀ c ∈ word, p c = true) (hrest : ∀ c ∈ rest.head?, p c = false) :
    (word ++ rest).takeWhile p = word ∧ (word ++ rest).dropWhile p = rest := by
  rw [List.takeWhile_append_of_pos hword, List.dropWhile_append_of_pos hword]
  cases rest with
  | nil => simp
  | cons c rest => simp [hrest c rfl]

theorem digitsFrom_of_isDigit {text : List Char} (h : ∀ c ∈ text, c.isDigit = true) (acc : Nat) :
    digitsFrom acc text = some (Nat.ofDigitChars 10 text acc) := by
  induction text generalizing acc with
  | nil => rfl
  | cons c text ih =>
    rw [digitsFrom, if_pos (h c List.mem_cons_self),
      ih (fun d hd => h d (List.mem_cons_of_mem c hd)), Nat.ofDigitChars_cons]
    rfl

theorem toList_toString (n : Nat) : (toString n).toList = Nat.toDigits 10 n := by
  rw [Nat.toString_eq_ofList_toDigits, String.toList_ofList]

theorem isDigit_of_mem_decimal {n : Nat} {c : Char} (h : c ∈ Nat.toDigits 10 n) :
    c.isDigit = true :=
  Nat.isDigit_of_mem_toDigits (by decide) (by decide) h

theorem digitsFrom_decimal (n : Nat) : digitsFrom 0 (Nat.toDigits 10 n) = some n := by
  rw [digitsFrom_of_isDigit fun c hc => isDigit_of_mem_decimal hc, Nat.ofDigitChars_ten_toDigits]

theorem head?_decimal_ne (n : Nat) {c : Char} (hc : c.isDigit = false) :
    (Nat.toDigits 10 n).head? ≠ some c := by
  intro h
  rw [isDigit_of_mem_decimal (List.mem_of_head? h)] at hc
  cases hc

/-- **Numbers.** What is printed in decimal is read back. -/
theorem parseUnsigned_decimal {n bound : Nat} (h : n < bound) :
    parseUnsigned bound (Nat.toDigits 10 n) = some n := by
  have hne : Nat.toDigits 10 n ≠ [] := Nat.toDigits_ne_nil
  have hplus : withoutPlus (Nat.toDigits 10 n) = Nat.toDigits 10 n :=
    if_neg (head?_decimal_ne n rfl)
  rw [parseUnsigned, hplus, if_neg (by simp [hne]), digitsFrom_decimal]
  exact if_pos h

theorem parseUnsigned_toString {n bound : Nat} (h : n < bound) :
    parseUnsigned bound (toString n).toList = some n := by
  rw [toList_toString, parseUnsigned_decimal h]

end Velocity.Lib
