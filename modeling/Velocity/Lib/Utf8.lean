import Mathlib.Algebra.Group.Nat.Defs
import Mathlib.Data.List.DropRight
import Mathlib.Data.String.Basic
import Velocity.Lib.Text

namespace Velocity.Lib

open List

open String (utf8Len)

/-!
# Text with byte offsets

Slices by byte offsets; one that cuts a character panics, which is `none`.
-/

/-! ### Slices -/

def splitBytes : List Char → Nat → Option (List Char × List Char)
  | text, 0 => some ([], text)
  | [], _ + 1 => none
  | c :: text, n + 1 =>
    if c.utf8Size ≤ n + 1 then
      (splitBytes text (n + 1 - c.utf8Size)).map (fun parts => (c :: parts.1, parts.2))
    else none

def sliceTo (text : List Char) (n : Nat) : Option (List Char) := (splitBytes text n).map (·.1)

def sliceFrom (text : List Char) (n : Nat) : Option (List Char) := (splitBytes text n).map (·.2)

def slice (text : List Char) (m n : Nat) : Option (List Char) :=
  (sliceTo text n).bind (fun upTo => sliceFrom upTo m)

variable {a b text pattern : List Char} {n : Nat}

/-- **Cuts** fall where a prefix of that many bytes ends. -/
theorem splitBytes_eq_some_iff :
    splitBytes text n = some (a, b) ↔ text = a ++ b ∧ utf8Len a = n := by
  constructor
  · intro h
    fun_induction splitBytes text n generalizing a with
    | case1 => cases h; exact ⟨rfl, rfl⟩
    | case2 => cases h
    | case3 c text n hfits ih =>
      obtain ⟨⟨a', b'⟩, hsplit, heq⟩ := Option.map_eq_some_iff.mp h
      cases heq
      obtain ⟨rfl, hlen⟩ := ih hsplit
      refine ⟨rfl, ?_⟩
      show utf8Len a' + c.utf8Size = n + 1
      omega
    | case4 => cases h
  · rintro ⟨rfl, rfl⟩
    induction a with
    | nil => simp [splitBytes]
    | cons c a ih =>
      have hpos := c.utf8Size_pos
      obtain ⟨n, hn⟩ : ∃ n, utf8Len (c :: a) = n + 1 :=
        Nat.exists_eq_succ_of_ne_zero (by rw [String.utf8Len_cons]; omega)
      rw [hn, cons_append, splitBytes, ← hn, String.utf8Len_cons, if_pos (by omega),
        Nat.add_sub_cancel, ih]
      rfl

theorem append_inj_of_utf8Len {a' b' : List Char} (h : a ++ b = a' ++ b')
    (hlen : utf8Len a = utf8Len a') : a = a' ∧ b = b' := by
  have hsplit := splitBytes_eq_some_iff.mpr ⟨h, hlen.symm⟩
  rw [splitBytes_eq_some_iff.mpr ⟨rfl, rfl⟩] at hsplit
  cases hsplit
  exact ⟨rfl, rfl⟩

@[simp] theorem sliceTo_append (a b : List Char) : sliceTo (a ++ b) (utf8Len a) = some a := by
  rw [sliceTo, splitBytes_eq_some_iff.mpr ⟨rfl, rfl⟩]
  rfl

@[simp] theorem sliceFrom_append (a b : List Char) : sliceFrom (a ++ b) (utf8Len a) = some b := by
  rw [sliceFrom, splitBytes_eq_some_iff.mpr ⟨rfl, rfl⟩]
  rfl

theorem sliceTo_eq_some_iff : sliceTo text n = some a ↔ ∃ b, text = a ++ b ∧ utf8Len a = n := by
  simp only [sliceTo, Option.map_eq_some_iff, Prod.exists, splitBytes_eq_some_iff]
  exact ⟨fun ⟨_, b, h, ha⟩ => ⟨b, ha ▸ h⟩, fun ⟨b, h⟩ => ⟨a, b, h, rfl⟩⟩

theorem sliceFrom_eq_some_iff : sliceFrom text n = some b ↔ ∃ a, text = a ++ b ∧ utf8Len a = n := by
  simp only [sliceFrom, Option.map_eq_some_iff, Prod.exists, splitBytes_eq_some_iff]
  exact ⟨fun ⟨a, _, h, hb⟩ => ⟨a, hb ▸ h⟩, fun ⟨a, h⟩ => ⟨a, b, h, rfl⟩⟩

/-- The byte before an offset is a slice when its character has one byte. -/
theorem slice_pred_concat (a b : List Char) (c : Char) :
    slice (a ++ c :: b) (utf8Len (a ++ [c]) - 1) (utf8Len (a ++ [c]))
      = if c.utf8Size = 1 then some [c] else none := by
  have hpos := c.utf8Size_pos
  have htext : a ++ c :: b = (a ++ [c]) ++ b := by simp
  rw [slice, htext, sliceTo_append, Option.bind_some]
  split
  · next hone =>
    have hlen : utf8Len (a ++ [c]) - 1 = utf8Len a := by
      rw [String.utf8Len_append, String.utf8Len_cons, String.utf8Len_nil]
      omega
    rw [hlen, sliceFrom_append]
  · next hone =>
    rw [Option.eq_none_iff_forall_ne_some]
    intro x hx
    obtain ⟨a', hsplit, hlen⟩ := sliceFrom_eq_some_iff.mp hx
    -- that would cut the last character
    have hlast : utf8Len x = 1 := by
      have hsum := congrArg utf8Len hsplit
      rw [String.utf8Len_append, String.utf8Len_append a' x, String.utf8Len_cons,
        String.utf8Len_nil] at hsum
      rw [String.utf8Len_append, String.utf8Len_cons, String.utf8Len_nil] at hlen
      omega
    rcases eq_nil_or_concat x with rfl | ⟨x', d, rfl⟩
    · cases hlast
    · rw [concat_eq_append, ← append_assoc] at hsplit
      obtain ⟨-, hd⟩ := append_inj' hsplit rfl
      cases hd
      rw [concat_eq_append, String.utf8Len_append, String.utf8Len_cons,
        String.utf8Len_nil] at hlast
      omega

/-! ### Search -/

def find (pattern : List Char) : List Char → Option Nat
  | [] => if pattern = [] then some 0 else none
  | c :: text =>
    if pattern.isPrefixOf (c :: text) then some 0
    else (find pattern text).map (c.utf8Size + ·)

def FirstAt (pattern text : List Char) (n : Nat) : Prop :=
  ∃ a b, text = a ++ pattern ++ b ∧ utf8Len a = n
    ∧ ∀ a' b', text = a' ++ pattern ++ b' → a.length ≤ a'.length

theorem find_eq_none_iff : find pattern text = none ↔ ¬ pattern <:+: text := by
  induction text with
  | nil =>
    rw [find, infix_nil]
    split
    · next h => exact iff_of_false (Option.some_ne_none _) (fun hn => hn h)
    · next h => exact iff_of_true rfl h
  | cons c text ih =>
    rw [find, infix_cons_iff, ← isPrefixOf_iff_prefix]
    split
    · next h => exact iff_of_false (Option.some_ne_none _) (fun hn => hn (.inl h))
    · next h =>
      rw [Option.map_eq_none_iff, ih, not_or]
      exact (and_iff_right h).symm

theorem FirstAt.unique {m : Nat} (hm : FirstAt pattern text m)
    (hn : FirstAt pattern text n) : m = n := by
  obtain ⟨a, b, ha, rfl, hamin⟩ := hm
  obtain ⟨a', b', ha', rfl, hamin'⟩ := hn
  have hlength := Nat.le_antisymm (hamin a' b' ha') (hamin' a b ha)
  rw [append_assoc] at ha ha'
  rw [(append_inj (ha.symm.trans ha') hlength).1]

theorem FirstAt.cons {c : Char} (hnot : ¬ pattern <+: c :: text) (h : FirstAt pattern text n) :
    FirstAt pattern (c :: text) (c.utf8Size + n) := by
  obtain ⟨a, b, rfl, rfl, hmin⟩ := h
  refine ⟨c :: a, b, rfl, by rw [String.utf8Len_cons, Nat.add_comm], fun a' b' h' => ?_⟩
  cases a' with
  | nil => exact absurd ⟨b', h'.symm⟩ hnot
  | cons d a' =>
    have := hmin a' b' (List.cons.inj h').2
    simpa using this

theorem firstAt_of_find (h : find pattern text = some n) : FirstAt pattern text n := by
  induction text generalizing n with
  | nil =>
    rw [find] at h
    split at h
    · next hnil =>
      cases h
      exact ⟨[], [], by simp [hnil], rfl, fun _ _ _ => Nat.zero_le _⟩
    · cases h
  | cons c text ih =>
    rw [find] at h
    split at h
    · next hprefix =>
      cases h
      obtain ⟨b, hb⟩ := isPrefixOf_iff_prefix.mp hprefix
      exact ⟨[], b, hb.symm, rfl, fun _ _ _ => Nat.zero_le _⟩
    · next hnot =>
      obtain ⟨m, hm, rfl⟩ := Option.map_eq_some_iff.mp h
      exact (ih hm).cons (fun hprefix => hnot ( isPrefixOf_iff_prefix.mpr hprefix))

/-- **Search.** A pattern is found exactly at its first occurrence. -/
theorem find_eq_some_iff : find pattern text = some n ↔ FirstAt pattern text n := by
  refine ⟨firstAt_of_find, fun h => ?_⟩
  cases hfind : find pattern text with
  | none =>
    obtain ⟨a, b, hab, -⟩ := h
    exact absurd ⟨a, b, hab.symm⟩ (find_eq_none_iff.mp hfind)
  | some m => rw [(firstAt_of_find hfind).unique h]

variable {c : Char}

theorem find_singleton_append (ha : c ∉ a) (b : List Char) :
    find [c] (a ++ c :: b) = some (utf8Len a) := by
  refine find_eq_some_iff.mpr ⟨a, b, by simp, rfl, fun a' b' h => ?_⟩
  rw [append_assoc, singleton_append] at h
  by_contra hlt
  refine ha ?_
  have hget : (a ++ c :: b)[a'.length]? = some c := by
    rw [h, getElem?_append_right (Nat.le_refl _), Nat.sub_self, getElem?_cons_zero]
  rw [getElem?_append_left (Nat.lt_of_not_le hlt)] at hget
  exact mem_of_getElem? hget

theorem append_cons_inj_of_notMem {a' b' : List Char} (ha : c ∉ a) (ha' : c ∉ a')
    (h : a ++ c :: b = a' ++ c :: b') : a = a' ∧ b = b' := by
  have hfind := find_singleton_append ha b
  rw [h, find_singleton_append ha' b'] at hfind
  obtain ⟨ha, hb⟩ := append_inj_of_utf8Len h (Option.some.inj hfind).symm
  exact ⟨ha, (List.cons.inj hb).2⟩

theorem infix_append_left_iff (hpattern : pattern.head? = some c) (ha : c ∉ a) :
    pattern <:+: a ++ b ↔ pattern <:+: b := by
  induction a with
  | nil => rfl
  | cons d a ih =>
    rw [cons_append, infix_cons_iff, ih (fun h => ha (mem_cons_of_mem d h))]
    refine or_iff_right ?_
    rintro ⟨rest, hrest⟩
    cases pattern with
    | nil => cases hpattern
    | cons e pattern =>
      cases hpattern
      exact ha ((List.cons.inj hrest).1 ▸ mem_cons_self)

theorem infix_append_right_iff (hpattern : pattern.getLast? = some c) (hb : c ∉ b) :
    pattern <:+: a ++ b ↔ pattern <:+: a := by
  rw [← reverse_infix, reverse_append,
    infix_append_left_iff (c := c) (by rw [head?_reverse, hpattern])
      (by rwa [mem_reverse]), reverse_infix]

/-! ### Trimming -/

def trimBy (p : Char → Bool) (text : List Char) : List Char := (text.dropWhile p).rdropWhile p

theorem trimBy_isInfix (p : Char → Bool) (text : List Char) : trimBy p text <:+: text :=
  ( rdropWhile_prefix p _).isInfix.trans (dropWhile_suffix p).isInfix

variable {p : Char → Bool}

theorem dropWhile_eq_self (hhead : ∀ c ∈ text.head?, p c = false) : text.dropWhile p = text := by
  cases text with
  | nil => rfl
  | cons c text => rw [dropWhile_cons_of_neg (by simp [hhead c rfl])]

theorem trimBy_isPrefix (hhead : ∀ c ∈ text.head?, p c = false) : trimBy p text <+: text := by
  rw [trimBy, dropWhile_eq_self hhead]
  exact rdropWhile_prefix p text

theorem trimBy_eq_self
    (hhead : ∀ c ∈ text.head?, p c = false) (hlast : ∀ c ∈ text.getLast?, p c = false) :
    trimBy p text = text := by
  rw [trimBy, dropWhile_eq_self hhead, rdropWhile_eq_self_iff]
  intro hne
  rw [hlast _ (getLast?_eq_some_getLast hne)]
  exact Bool.false_ne_true

theorem trimBy_eq_self_of_forall (h : ∀ c ∈ text, p c = false) : trimBy p text = text :=
  trimBy_eq_self (fun c hc => h c (mem_of_head? hc))
    (fun c hc => h c (mem_of_getLast? hc))

theorem trimBy_between {q : Char} (hq : p q = false) (text : List Char) :
    trimBy p (q :: text ++ [q]) = q :: text ++ [q] := by
  refine trimBy_eq_self (fun c hc => ?_) (fun c hc => ?_)
  · cases hc
    exact hq
  · rw [getLast?_concat] at hc
    cases hc
    exact hq

theorem head?_trimBy (p : Char → Bool) (text : List Char) :
    ∀ c ∈ (trimBy p text).head?, p c = false := by
  intro c hc
  obtain ⟨rest, hrest⟩ := rdropWhile_prefix p (text.dropWhile p)
  have hhead : (text.dropWhile p).head? = some c := by
    rw [← hrest, head?_append]
    exact Option.or_eq_some_iff.mpr (.inl hc)
  have hnot := head?_dropWhile_not p text
  rw [hhead] at hnot
  simpa using hnot

theorem trimBy_trimBy (p : Char → Bool) (text : List Char) :
    trimBy p (trimBy p text) = trimBy p text := by
  rw [trimBy, dropWhile_eq_self (head?_trimBy p text)]
  exact rdropWhile_idempotent p _

/-- **Quotes** around a text without any are trimmed. -/
theorem trimBy_quoted {q : Char} (hq : p q = true)
    (htext : ∀ c ∈ text, p c = false) : trimBy p (q :: text ++ [q]) = text := by
  rw [trimBy, cons_append, dropWhile_cons_of_pos hq]
  cases text with
  | nil => simp [hq]
  | cons c rest =>
    have hc : p c = false := htext c mem_cons_self
    rw [cons_append, dropWhile_cons_of_neg (by simp [hc]), ← cons_append,
      rdropWhile_concat_pos p _ _ hq, rdropWhile_eq_self_iff]
    intro hne
    rw [htext _ (getLast_mem hne)]
    exact Bool.false_ne_true

/-! ### Case -/

/-- A character may become several in the other case. -/
class UnicodeCase where
  upper : Char → List Char
  lowercase : List Char → List Char
  upper_of_ascii (c : Char) : c.toNat < 128 → upper c = [c.toUpper]
  upper_ne_nil (c : Char) : upper c ≠ []
  /-- Only the space becomes a text with a space. -/
  eq_space_of_mem_upper (c : Char) : ' ' ∈ upper c → c = ' '

def uppercase [UnicodeCase] (text : List Char) : List Char := text.flatMap UnicodeCase.upper

section Uppercase

variable [UnicodeCase]

@[simp] theorem uppercase_cons (c : Char) (text : List Char) :
    uppercase (c :: text) = UnicodeCase.upper c ++ uppercase text := rfl

@[simp] theorem uppercase_append (a b : List Char) :
    uppercase (a ++ b) = uppercase a ++ uppercase b := flatMap_append

theorem space_notMem_uppercase {text : List Char} (h : ' ' ∉ text) : ' ' ∉ uppercase text := by
  intro hmem
  obtain ⟨c, hc, hspace⟩ := mem_flatMap.mp hmem
  exact h (UnicodeCase.eq_space_of_mem_upper c hspace ▸ hc)

end Uppercase

/-! ### An instance -/

theorem eq_space_of_toUpper (h : c.toUpper = ' ') : c = ' ' := by
  unfold Char.toUpper at h
  split at h
  · next hlower =>
    have hlo : 97 ≤ c.val.toNat := UInt32.le_iff_toNat_le.mp hlower.1
    have hhi : c.val.toNat ≤ 122 := UInt32.le_iff_toNat_le.mp hlower.2
    have hsum := congrArg UInt32.toNat (congrArg Char.val h)
    rw [UInt32.toNat_add, show ('A'.val - 'a'.val).toNat = 2 ^ 32 - 32 by decide,
      show ' '.val.toNat = 32 by decide] at hsum
    omega
  · exact h

/-- ASCII and two letters, of which one grows in upper case. -/
@[reducible] def latinCase : UnicodeCase where
  upper c := if c = 'é' then ['É'] else if c = 'ŉ' then ['ʼ', 'N'] else [c.toUpper]
  lowercase text := text.map (fun c => if c = 'É' then 'é' else c.toLower)
  upper_of_ascii c hc := by
    have h₁ : c ≠ 'é' := fun h => absurd (h ▸ hc) (by decide)
    have h₂ : c ≠ 'ŉ' := fun h => absurd (h ▸ hc) (by decide)
    rw [if_neg h₁, if_neg h₂]
  upper_ne_nil c := by
    split
    · exact List.cons_ne_nil _ _
    · split
      · exact List.cons_ne_nil _ _
      · exact List.cons_ne_nil _ _
  eq_space_of_mem_upper c hc := by
    split at hc
    · exact absurd hc (by decide)
    · split at hc
      · exact absurd hc (by decide)
      · exact eq_space_of_toUpper (List.mem_singleton.mp hc).symm

end Velocity.Lib
