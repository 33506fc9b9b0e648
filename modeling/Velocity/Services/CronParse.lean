import Mathlib.Data.List.Destutter
import Mathlib.Data.List.Sort
import Velocity.Lib.Checked
import Velocity.Lib.Text
import Velocity.Services.Cron

namespace Velocity

open Lib List Checked

/-!
# Reading cron expressions

A step's loop overflows at `1 + 255`, and ranges are checked at the upper bound only.

* `CronPart.values`: the loops of one part, with `Checked` arithmetic.
* `parse_wellFormed_iff`: which texts give expressions within bounds.
-/

/-! ### The reader -/

inductive CronError where
  | invalidFormat (message : String)
  | invalidValue (value : String)
  | outOfRange (value : String) (min max : UInt8)
  deriving DecidableEq, Repr

structure CronBounds where
  min : UInt8
  max : UInt8
  deriving DecidableEq, Repr

def cronBounds : List CronBounds := [⟨0, 59⟩, ⟨0, 23⟩, ⟨1, 31⟩, ⟨1, 12⟩, ⟨0, 6⟩]

inductive CronPart where
  | all
  | every (step : UInt8)
  | range (start stop : UInt8)
  | value (v : UInt8)
  deriving DecidableEq, Repr

def parseU8 (text : List Char) : Option UInt8 := (parseUnsigned 256 text).map UInt8.ofNat

def CronPart.read (part : List Char) : Except CronError CronPart :=
  if part = ['*'] then .ok .all
  else
    match ['*', '/'].isPrefixOf? part with
    | some starStep =>
      match parseU8 starStep with
      | some step => .ok (.every step)
      | none => .error (.invalidValue (String.ofList part))
    | none =>
      if part.contains '-' then
        match part.splitOn '-' with
        | [start, stop] =>
          match parseU8 start, parseU8 stop with
          | some start, some stop => .ok (.range start stop)
          | _, _ => .error (.invalidValue (String.ofList part))
        | _ => .error (.invalidValue (String.ofList part))
      else
        match parseU8 part with
        | some v => .ok (.value v)
        | none => .error (.invalidValue (String.ofList part))

def inclusive (start stop : UInt8) : List UInt8 :=
  (List.range' start.toNat (stop.toNat + 1 - start.toNat)).map UInt8.ofNat

/-- At most so many rounds; whether `v += step` overflowed. -/
def stepLoop (step max : UInt8) : Nat → UInt8 → List UInt8 × Bool
  | 0, _ => ([], false)
  | rounds + 1, v =>
    if v ≤ max then
      let (values, overflowed) := stepLoop step max rounds (v + step)
      (v :: values, 256 ≤ v.toNat + step.toNat || overflowed)
    else ([], false)

def CronPart.values (bounds : CronBounds) (text : List Char) :
    CronPart → Checked CronError (List UInt8)
  | .all => pure (inclusive bounds.min bounds.max)
  | .every step =>
    if step = 0 then .fail (.invalidValue "Step cannot be zero")
    else
      let (values, overflowed) := stepLoop step bounds.max 256 bounds.min
      ⟨.ok values, overflowed⟩
  | .range start stop =>
    if start > bounds.max ∨ stop > bounds.max then
      .fail (.outOfRange (String.ofList text) bounds.min bounds.max)
    else pure (inclusive start stop)
  | .value v =>
    if v < bounds.min ∨ v > bounds.max then
      .fail (.outOfRange (String.ofList text) bounds.min bounds.max)
    else pure [v]

def readPart (bounds : CronBounds) (part : List Char) : Checked CronError (List UInt8) :=
  match CronPart.read part with
  | .ok p => p.values bounds part
  | .error e => .fail e

def sortDedup (values : List UInt8) : List UInt8 :=
  (values.insertionSort (· ≤ ·)).destutter (· ≠ ·)

def partsOf (field : List Char) : List (List Char) := (field.splitOn ',').map trim

def parseField (field : List Char) (bounds : CronBounds) : Checked CronError (List UInt8) := do
  let values ← each (readPart bounds) (partsOf field)
  pure (sortDedup values.flatten)

def CronExpression.parse (expr : String) : Checked CronError CronExpression :=
  match splitWhitespace expr.toList with
  | [f0, f1, f2, f3, f4] => do
    let minutes ← parseField f0 ⟨0, 59⟩
    let hours ← parseField f1 ⟨0, 23⟩
    let daysOfMonth ← parseField f2 ⟨1, 31⟩
    let months ← parseField f3 ⟨1, 12⟩
    let daysOfWeek ← parseField f4 ⟨0, 6⟩
    pure ⟨minutes, hours, daysOfMonth, months, daysOfWeek⟩
  | fields => .fail (.invalidFormat s!"Expected 5 fields, got {fields.length}")

example : (CronExpression.parse "*/30 9-11 1,15 * 5").value
    = .ok ⟨[0, 30], [9, 10, 11], [1, 15], inclusive 1 12, [5]⟩ := by decide +kernel

example : (CronExpression.parse "* * * *").value
    = .error (.invalidFormat "Expected 5 fields, got 4") := by decide +kernel

/-! ### The lists -/

variable {v : UInt8}

theorem mem_inclusive {start stop : UInt8} : v ∈ inclusive start stop ↔ start ≤ v ∧ v ≤ stop := by
  rw [inclusive, mem_map, UInt8.le_iff_toNat_le, UInt8.le_iff_toNat_le]
  have hstop := stop.toNat_lt
  constructor
  · rintro ⟨n, hn, rfl⟩
    rw [mem_range'_1] at hn
    have hlt : n < 2 ^ 8 := by omega
    rw [UInt8.toNat_ofNat_of_lt' hlt]
    omega
  · intro hv
    exact ⟨v.toNat, mem_range'_1.mpr (by omega), UInt8.ofNat_toNat⟩

theorem inclusive_ne_nil_iff {start stop : UInt8} : inclusive start stop ≠ [] ↔ start ≤ stop := by
  constructor
  · intro h
    obtain ⟨v, hv⟩ := exists_mem_of_ne_nil _ h
    obtain ⟨hstart, hstop⟩ := mem_inclusive.mp hv
    exact UInt8.le_trans hstart hstop
  · exact fun h => ne_nil_of_mem (mem_inclusive.mpr ⟨UInt8.le_refl _, h⟩)

theorem mem_destutter_ne {a : UInt8} {values : List UInt8} :
    v ∈ values.destutter' (· ≠ ·) a ↔ v ∈ a :: values := by
  induction values generalizing a with
  | nil => exact Iff.rfl
  | cons b values ih =>
    rw [List.destutter']
    split
    · rw [mem_cons, ih, ← mem_cons]
    · next heq =>
      rw [ih, not_not.mp heq]
      simp

theorem mem_sortDedup {values : List UInt8} : v ∈ sortDedup values ↔ v ∈ values := by
  rw [sortDedup]
  refine Iff.trans ?_ (mem_insertionSort (· ≤ ·))
  cases values.insertionSort (· ≤ ·) with
  | nil => exact Iff.rfl
  | cons a sorted => exact mem_destutter_ne

theorem pairwise_sortDedup (values : List UInt8) : (sortDedup values).Pairwise (· < ·) := by
  have hsorted : (sortDedup values).Pairwise (· ≤ ·) :=
    (pairwise_insertionSort (· ≤ ·) values).sublist (destutter_sublist ..)
  have hdistinct : (sortDedup values).IsChain (· ≠ ·) := isChain_destutter ..
  refine isChain_iff_pairwise.mp ?_
  rw [isChain_iff_forall_rel_of_append_cons_cons] at hdistinct ⊢
  intro a b before after heq
  have hle : a ≤ b :=
    isChain_iff_forall_rel_of_append_cons_cons.mp hsorted.isChain heq
  exact UInt8.lt_of_le_of_ne hle (hdistinct heq)

/-! ### The loop of a step -/

section StepLoop

variable {step max v : UInt8}

theorem stepLoop_of_lt (h : max < v) (rounds : Nat) : stepLoop step max rounds v = ([], false) := by
  cases rounds with
  | zero => rfl
  | succ rounds => exact if_neg (UInt8.not_le.mpr h)

theorem toNat_add_of_lt {a b : UInt8} (h : a.toNat + b.toNat < 256) :
    (a + b).toNat = a.toNat + b.toNat := by
  rw [UInt8.toNat_add]
  exact Nat.mod_eq_of_lt h

theorem stepLoop_fuel (hstep : step ≠ 0) (hmax : max.toNat < 128) (v : UInt8) (extra : Nat) :
    stepLoop step max (256 + extra) v = stepLoop step max 256 v := by
  have hpos : 0 < step.toNat := Nat.pos_of_ne_zero (fun h => hstep (UInt8.toNat_inj.mp h))
  have hbound := step.toNat_lt
  -- large steps go down modulo 256
  have hgeneral : ∀ rounds (v : UInt8), (step.toNat < 128 ∧ 256 ≤ v.toNat + rounds)
      ∨ (128 ≤ step.toNat ∧ v.toNat < rounds) →
        stepLoop step max (rounds + extra) v = stepLoop step max rounds v := by
    intro rounds
    induction rounds with
    | zero =>
      intro v hv
      have := v.toNat_lt
      omega
    | succ rounds ih =>
      intro v hv
      rw [Nat.add_right_comm, stepLoop, stepLoop]
      by_cases hle : v ≤ max
      · have hle' := UInt8.le_iff_toNat_le.mp hle
        by_cases hnext : v + step ≤ max
        · have hnext' := UInt8.le_iff_toNat_le.mp hnext
          have hadd : (v + step).toNat = (v.toNat + step.toNat) % 256 := UInt8.toNat_add ..
          rw [ih (v + step) (by omega)]
        · rw [stepLoop_of_lt (UInt8.not_le.mp hnext), stepLoop_of_lt (UInt8.not_le.mp hnext)]
      · rw [if_neg hle, if_neg hle]
  have hv := v.toNat_lt
  exact hgeneral 256 v (by omega)

theorem stepLoop_spec (hmax : max.toNat < 128) (rounds : Nat) (v : UInt8)
    (hfits : v ≤ max → v.toNat + step.toNat < 256) :
    (stepLoop step max rounds v).2 = false
      ∧ ∀ x ∈ (stepLoop step max rounds v).1, v ≤ x ∧ x ≤ max := by
  induction rounds generalizing v with
  | zero => exact ⟨rfl, fun x hx => (not_mem_nil hx).elim⟩
  | succ rounds ih =>
    rw [stepLoop]
    split
    · next hle =>
      have hfit := hfits hle
      have hadd := toNat_add_of_lt hfit
      have hnext : v + step ≤ max → (v + step).toNat + step.toNat < 256 := by
        intro hle'
        have := UInt8.le_iff_toNat_le.mp hle'
        omega
      obtain ⟨hno, hmem⟩ := ih (v + step) hnext
      have hup : v ≤ v + step := UInt8.le_iff_toNat_le.mpr (by omega)
      refine ⟨?_, fun x hx => ?_⟩
      · dsimp only
        rw [hno, Bool.or_false]
        exact decide_eq_false (by omega)
      · rcases mem_cons.mp hx with rfl | hx
        · exact ⟨UInt8.le_refl _, hle⟩
        · exact ⟨UInt8.le_trans hup (hmem x hx).1, (hmem x hx).2⟩
    · exact ⟨rfl, fun x hx => (not_mem_nil hx).elim⟩

theorem stepLoop_overflowed {rounds : Nat} (hle : v ≤ max)
    (h : 256 ≤ v.toNat + step.toNat) : (stepLoop step max (rounds + 1) v).2 = true := by
  rw [stepLoop, if_pos hle]
  dsimp only
  rw [decide_eq_true h, Bool.true_or]

theorem stepLoop_ne_nil {rounds : Nat} (hle : v ≤ max) :
    (stepLoop step max (rounds + 1) v).1 ≠ [] := by
  rw [stepLoop, if_pos hle]
  exact cons_ne_nil _ _

end StepLoop

/-! ### One part -/

structure CronBounds.Roomy (bounds : CronBounds) : Prop where
  le : bounds.min ≤ bounds.max
  lt : bounds.max.toNat < 128

namespace CronPart

def Accepted (bounds : CronBounds) : CronPart → Prop
  | .all => True
  | .every step => step ≠ 0
  | .range start stop => start ≤ bounds.max ∧ stop ≤ bounds.max
  | .value v => bounds.min ≤ v ∧ v ≤ bounds.max

def Overflows (bounds : CronBounds) : CronPart → Prop
  | .every step => 256 ≤ bounds.min.toNat + step.toNat
  | _ => False

def StartsBelow (bounds : CronBounds) : CronPart → Prop
  | .range start stop => start ≤ stop ∧ start < bounds.min
  | _ => False

def Reversed : CronPart → Prop
  | .range start stop => stop < start
  | _ => False

variable {bounds : CronBounds} {text : List Char} {p : CronPart}

theorem isOk_values_iff : (p.values bounds text).IsOk ↔ p.Accepted bounds := by
  cases p with
  | all => exact iff_of_true ⟨_, rfl⟩ trivial
  | every step =>
    rw [values]
    split
    · next h => exact iff_of_false (by rintro ⟨_, ⟨⟩⟩) (not_not.mpr h)
    · next h => exact iff_of_true ⟨_, rfl⟩ h
  | range start stop | value v =>
    rw [values, Accepted]
    split
    · next h =>
      refine iff_of_false (by rintro ⟨_, ⟨⟩⟩) (fun hle => ?_)
      exact h.elim (UInt8.not_lt.mpr hle.1) (UInt8.not_lt.mpr hle.2)
    · next h =>
      rw [not_or, UInt8.not_lt, UInt8.not_lt] at h
      exact iff_of_true ⟨_, rfl⟩ h

theorem values_overflowed_iff (hroomy : bounds.Roomy) :
    (p.values bounds text).overflowed = false ↔ ¬ p.Overflows bounds := by
  cases p with
  | all => exact iff_of_true rfl id
  | every step =>
    rw [values, Overflows]
    split
    · next h =>
      have hmin := bounds.min.toNat_lt
      refine iff_of_true rfl ?_
      rw [h, UInt8.toNat_zero]
      omega
    · constructor
      · intro hno hover
        exact Bool.false_ne_true (hno.symm.trans (stepLoop_overflowed hroomy.le hover))
      · intro hno
        exact (stepLoop_spec hroomy.lt 256 bounds.min (fun _ => Nat.not_le.mp hno)).1
  | range start stop | value v =>
    rw [values]
    split
    · exact iff_of_true rfl id
    · exact iff_of_true rfl id

theorem values_spec (hroomy : bounds.Roomy) {vs : List UInt8}
    (hvalue : (p.values bounds text).value = .ok vs) (hno : ¬ p.Overflows bounds) :
    ((∀ v ∈ vs, bounds.min ≤ v ∧ v ≤ bounds.max) ↔ ¬ p.StartsBelow bounds)
      ∧ (vs ≠ [] ↔ ¬ p.Reversed) := by
  have haccepted : p.Accepted bounds := isOk_values_iff.mp ⟨vs, hvalue⟩
  cases p with
  | all =>
    cases hvalue
    exact ⟨iff_of_true (fun v hv => mem_inclusive.mp hv) id,
      iff_of_true (inclusive_ne_nil_iff.mpr hroomy.le) id⟩
  | every step =>
    rw [values, if_neg haccepted] at hvalue
    have heq : (stepLoop step bounds.max 256 bounds.min).1 = vs := Except.ok.inj hvalue
    rw [← heq]
    have hfits : bounds.min.toNat + step.toNat < 256 := Nat.not_le.mp hno
    exact ⟨iff_of_true (stepLoop_spec hroomy.lt 256 bounds.min (fun _ => hfits)).2 id,
      iff_of_true (stepLoop_ne_nil hroomy.le) id⟩
  | range start stop =>
    have hchecked : ¬ (start > bounds.max ∨ stop > bounds.max) := by
      rw [not_or, UInt8.not_lt, UInt8.not_lt]
      exact haccepted
    rw [values, if_neg hchecked] at hvalue
    cases hvalue
    refine ⟨⟨?_, ?_⟩, ?_⟩
    · rintro hmem ⟨hle, hlt⟩
      exact UInt8.not_lt.mpr (hmem start (mem_inclusive.mpr ⟨UInt8.le_refl _, hle⟩)).1 hlt
    · intro hstart v hv
      obtain ⟨hfrom, hto⟩ := mem_inclusive.mp hv
      have hmin : bounds.min ≤ start :=
        UInt8.not_lt.mp (fun hlt => hstart ⟨UInt8.le_trans hfrom hto, hlt⟩)
      exact ⟨UInt8.le_trans hmin hfrom, UInt8.le_trans hto haccepted.2⟩
    · rw [inclusive_ne_nil_iff, Reversed, UInt8.not_lt]
  | value v =>
    have hchecked : ¬ (v < bounds.min ∨ v > bounds.max) := by
      rw [not_or, UInt8.not_lt, UInt8.not_lt]
      exact haccepted
    rw [values, if_neg hchecked] at hvalue
    cases hvalue
    refine ⟨iff_of_true (fun x hx => ?_) id, iff_of_true (cons_ne_nil _ _) id⟩
    rw [mem_singleton.mp hx]
    exact haccepted

end CronPart

/-! ### One field -/

def IsPart (P : CronPart → Prop) (text : List Char) : Prop := ∃ p, CronPart.read text = .ok p ∧ P p

section Field

variable {bounds : CronBounds} {part field : List Char}

theorem isOk_readPart_iff :
    (readPart bounds part).IsOk ↔ IsPart (CronPart.Accepted bounds) part := by
  rw [readPart, IsPart]
  cases CronPart.read part with
  | error e => exact iff_of_false (by rintro ⟨_, ⟨⟩⟩) (by rintro ⟨_, ⟨⟩, _⟩)
  | ok p => simp [CronPart.isOk_values_iff]

theorem readPart_overflowed_iff (hroomy : bounds.Roomy) :
    (readPart bounds part).overflowed = false ↔ ¬ IsPart (CronPart.Overflows bounds) part := by
  rw [readPart, IsPart]
  cases CronPart.read part with
  | error e => exact iff_of_true rfl (by rintro ⟨_, ⟨⟩, _⟩)
  | ok p => simp [CronPart.values_overflowed_iff hroomy]

theorem readPart_spec (hroomy : bounds.Roomy) {vs : List UInt8}
    (hvalue : (readPart bounds part).value = .ok vs)
    (hno : ¬ IsPart (CronPart.Overflows bounds) part) :
    ((∀ v ∈ vs, bounds.min ≤ v ∧ v ≤ bounds.max) ↔ ¬ IsPart (CronPart.StartsBelow bounds) part)
      ∧ (vs ≠ [] ↔ ¬ IsPart CronPart.Reversed part) := by
  rw [readPart] at hvalue
  cases hread : CronPart.read part with
  | error e =>
    rw [hread] at hvalue
    cases hvalue
  | ok p =>
    rw [hread] at hvalue
    have hspec := CronPart.values_spec hroomy hvalue (fun hover => hno ⟨p, hread, hover⟩)
    simpa [IsPart, hread] using hspec

theorem isOk_parseField_iff :
    (parseField field bounds).IsOk
      ↔ ∀ part ∈ partsOf field, IsPart (CronPart.Accepted bounds) part := by
  simp only [← isOk_readPart_iff, ← each_isOk_iff]
  constructor
  · rintro ⟨vs, h⟩
    obtain ⟨lists, hlists, -⟩ := value_bind_eq_ok.mp h
    exact ⟨lists, hlists⟩
  · rintro ⟨lists, hlists⟩
    exact ⟨_, value_bind_eq_ok.mpr ⟨lists, hlists, rfl⟩⟩

def FieldFits (bounds : CronBounds) (field : List Char) : Prop :=
  Checked.Reached (IsPart (CronPart.Accepted bounds))
    (fun part => ¬ IsPart (CronPart.Overflows bounds) part) (partsOf field)

theorem parseField_overflowed_iff (hroomy : bounds.Roomy) :
    (parseField field bounds).overflowed = false ↔ FieldFits bounds field := by
  have hbind : (parseField field bounds).overflowed = false
      ↔ (each (readPart bounds) (partsOf field)).overflowed = false :=
    overflowed_bind_eq_false.trans (and_iff_left (fun _ _ => rfl))
  rw [hbind, each_overflowed_iff]
  exact Checked.Reached.congr (fun _ _ => isOk_readPart_iff)
    (fun _ _ => readPart_overflowed_iff hroomy)

structure FieldWellFormed (bounds : CronBounds) (values : List UInt8) : Prop where
  nonempty : values ≠ []
  increasing : values.Pairwise (· < ·)
  within : ∀ v ∈ values, bounds.min ≤ v ∧ v ≤ bounds.max

/-- No range starts below the bounds, and not all are reversed. -/
structure FieldInBounds (bounds : CronBounds) (field : List Char) : Prop where
  starts : ∀ part ∈ partsOf field, ¬ IsPart (CronPart.StartsBelow bounds) part
  some_value : ∃ part ∈ partsOf field, ¬ IsPart CronPart.Reversed part

theorem flatten_spec (hroomy : bounds.Roomy) {parts : List (List Char)} {lists : List (List UInt8)}
    (hlists : List.Forall₂ (fun part vs => (readPart bounds part).value = .ok vs) parts lists)
    (hfits : ∀ part ∈ parts, ¬ IsPart (CronPart.Overflows bounds) part) :
    ((∀ v ∈ lists.flatten, bounds.min ≤ v ∧ v ≤ bounds.max)
        ↔ ∀ part ∈ parts, ¬ IsPart (CronPart.StartsBelow bounds) part)
      ∧ (lists.flatten ≠ [] ↔ ∃ part ∈ parts, ¬ IsPart CronPart.Reversed part) := by
  induction hlists with
  | nil => simp
  | cons hvalue _ ih =>
    rw [forall_mem_cons] at hfits
    obtain ⟨hwithin, hnonempty⟩ := readPart_spec hroomy hvalue hfits.1
    obtain ⟨ihwithin, ihnonempty⟩ := ih hfits.2
    rw [flatten_cons, forall_mem_cons, ← hwithin, ← ihwithin, forall_mem_append,
      exists_mem_cons_iff, ← hnonempty, ← ihnonempty]
    refine ⟨Iff.rfl, ?_⟩
    rw [Ne, append_eq_nil_iff, not_and_or]

theorem parseField_spec (hroomy : bounds.Roomy) {vs : List UInt8}
    (hvalue : (parseField field bounds).value = .ok vs) (hfits : FieldFits bounds field) :
    FieldWellFormed bounds vs ↔ FieldInBounds bounds field := by
  have haccepted := isOk_parseField_iff.mp ⟨vs, hvalue⟩
  obtain ⟨lists, hlists, heq⟩ := value_bind_eq_ok.mp hvalue
  obtain ⟨hwithin, hnonempty⟩ :=
    flatten_spec hroomy (each_eq_ok.mp hlists) (hfits.forall_mem haccepted)
  have heq : sortDedup lists.flatten = vs := Except.ok.inj heq
  have hmem : ∀ v, v ∈ vs ↔ v ∈ lists.flatten := fun v => heq ▸ mem_sortDedup
  have hnil : vs ≠ [] ↔ lists.flatten ≠ [] :=
    not_congr (by simp only [eq_nil_iff_forall_not_mem, hmem])
  constructor
  · intro h
    exact ⟨hwithin.mp (fun v hv => h.within v ((hmem v).mpr hv)), hnonempty.mp (hnil.mp h.nonempty)⟩
  · intro h
    exact ⟨hnil.mpr (hnonempty.mpr h.some_value), heq ▸ pairwise_sortDedup _,
      fun v hv => hwithin.mpr h.starts v ((hmem v).mp hv)⟩

end Field

/-! ### The expression -/

namespace CronExpression

def fieldValues (e : CronExpression) : List (List UInt8) :=
  [e.minutes, e.hours, e.daysOfMonth, e.months, e.daysOfWeek]

/-- Every field lists values within its bounds. -/
def WellFormed (e : CronExpression) : Prop := List.Forall₂ FieldWellFormed cronBounds e.fieldValues

def fieldTexts (expr : String) : List (CronBounds × List Char) :=
  match splitWhitespace expr.toList with
  | [f0, f1, f2, f3, f4] => [(⟨0, 59⟩, f0), (⟨0, 23⟩, f1), (⟨1, 31⟩, f2), (⟨1, 12⟩, f3), (⟨0, 6⟩, f4)]
  | _ => []

def FieldAccepted (f : CronBounds × List Char) : Prop :=
  ∀ part ∈ partsOf f.2, IsPart (CronPart.Accepted f.1) part

/-- No step read is too large, and accepted ranges are within bounds. -/
structure ReadsCleanly (expr : String) : Prop where
  steps : Checked.Reached FieldAccepted (fun f => FieldFits f.1 f.2) (fieldTexts expr)
  ranges : (∀ f ∈ fieldTexts expr, FieldAccepted f) →
    ∀ f ∈ fieldTexts expr, FieldInBounds f.1 f.2

variable {expr : String}

theorem roomy_of_mem {f : CronBounds × List Char} (hf : f ∈ fieldTexts expr) : f.1.Roomy := by
  rw [fieldTexts] at hf
  split at hf
  · simp only [mem_cons, not_mem_nil, or_false] at hf
    rcases hf with rfl | rfl | rfl | rfl | rfl <;> (refine ⟨?_, ?_⟩ <;> dsimp only <;> decide)
  · exact (not_mem_nil hf).elim

theorem parse_overflowed_iff (expr : String) :
    (parse expr).overflowed = false
      ↔ Checked.Reached FieldAccepted (fun f => FieldFits f.1 f.2) (fieldTexts expr) := by
  have hcongr := @Checked.Reached.congr _ (fun f : CronBounds × List Char => (parseField f.2 f.1).IsOk)
    FieldAccepted (fun f => (parseField f.2 f.1).overflowed = false) (fun f => FieldFits f.1 f.2)
    (fieldTexts expr) (fun f _ => isOk_parseField_iff)
    (fun f hf => parseField_overflowed_iff (roomy_of_mem hf))
  rw [← hcongr, parse, fieldTexts]
  split
  · simp only [overflowed_bind_eq_false, forall_ok_iff, overflowed_pure,
      Checked.Reached]
  · exact iff_of_true rfl trivial

variable {e : CronExpression}

theorem parse_eq_ok_iff :
    (parse expr).value = .ok e
      ↔ List.Forall₂ (fun f vs => (parseField f.2 f.1).value = .ok vs) (fieldTexts expr)
        e.fieldValues := by
  rw [parse, fieldTexts, fieldValues]
  split
  · simp only [value_bind_eq_ok, value_pure, forall₂_cons, List.Forall₂.nil,
      and_true]
    constructor
    · rintro ⟨m, hm, h, hh, d, hd, mo, hmo, w, hw, heq⟩
      cases heq
      exact ⟨hm, hh, hd, hmo, hw⟩
    · rintro ⟨hm, hh, hd, hmo, hw⟩
      exact ⟨_, hm, _, hh, _, hd, _, hmo, _, hw, rfl⟩
  · exact iff_of_false (by rintro ⟨⟩) (by rintro ⟨⟩)

theorem map_fst_fieldTexts
    (h : (parse expr).value = .ok e) : (fieldTexts expr).map Prod.fst = cronBounds := by
  have hlen := (parse_eq_ok_iff.mp h).length_eq
  rw [fieldTexts] at hlen ⊢
  split
  · rfl
  · next hother =>
    split at hlen
    · next heq => exact absurd heq (hother _ _ _ _ _)
    · cases hlen

theorem isOk_parse_of_accepted (hfive : fieldTexts expr ≠ [])
    (h : ∀ f ∈ fieldTexts expr, FieldAccepted f) : (parse expr).IsOk := by
  have hok : ∀ f ∈ fieldTexts expr, (parseField f.2 f.1).IsOk :=
    fun f hf => isOk_parseField_iff.mpr (h f hf)
  simp only [Checked.IsOk, parse_eq_ok_iff]
  rw [fieldTexts] at hok hfive ⊢
  split
  · next f0 f1 f2 f3 f4 heq =>
    simp only [heq, forall_mem_cons] at hok
    obtain ⟨⟨m, hm⟩, ⟨h, hh⟩, ⟨d, hd⟩, ⟨mo, hmo⟩, ⟨w, hw⟩, -⟩ := hok
    exact ⟨⟨m, h, d, mo, w⟩, .cons hm (.cons hh (.cons hd (.cons hmo (.cons hw .nil))))⟩
  · next hother =>
    split at hfive
    · next heq => exact absurd heq (hother _ _ _ _ _)
    · exact absurd rfl hfive

theorem forall₂_wellFormed_iff {fields : List (CronBounds × List Char)} {lists : List (List UInt8)}
    (hread : List.Forall₂ (fun f vs => (parseField f.2 f.1).value = .ok vs) fields lists)
    (hroomy : ∀ f ∈ fields, f.1.Roomy) (hfits : ∀ f ∈ fields, FieldFits f.1 f.2) :
    List.Forall₂ (fun f vs => FieldWellFormed f.1 vs) fields lists
      ↔ ∀ f ∈ fields, FieldInBounds f.1 f.2 := by
  induction hread with
  | nil => simp
  | cons hvalue _ ih =>
    rw [forall_mem_cons] at hroomy hfits
    rw [forall₂_cons, forall_mem_cons, parseField_spec hroomy.1 hvalue hfits.1,
      ih hroomy.2 hfits.2]

theorem wellFormed_iff (he : (parse expr).value = .ok e)
    (hsteps : Checked.Reached FieldAccepted (fun f => FieldFits f.1 f.2) (fieldTexts expr)) :
    (∀ f ∈ fieldTexts expr, FieldAccepted f)
      ∧ (e.WellFormed ↔ ∀ f ∈ fieldTexts expr, FieldInBounds f.1 f.2) := by
  have hread := parse_eq_ok_iff.mp he
  have hok : (each (fun f => parseField f.2 f.1) (fieldTexts expr)).IsOk :=
    ⟨e.fieldValues, each_eq_ok.mpr hread⟩
  have haccepted : ∀ f ∈ fieldTexts expr, FieldAccepted f :=
    fun f hf => isOk_parseField_iff.mp (each_isOk_iff.mp hok f hf)
  refine ⟨haccepted, ?_⟩
  rw [WellFormed, ← map_fst_fieldTexts he, forall₂_map_left_iff]
  exact forall₂_wellFormed_iff hread (fun f hf => roomy_of_mem hf) (hsteps.forall_mem haccepted)

/-- **Accepted expressions are well formed** iff no part stands in the way. -/
theorem parse_wellFormed_iff (expr : String) :
    ((parse expr).overflowed = false ∧ ∀ e, (parse expr).value = .ok e → e.WellFormed)
      ↔ ReadsCleanly expr := by
  rw [parse_overflowed_iff]
  constructor
  · rintro ⟨hsteps, hwell⟩
    refine ⟨hsteps, fun haccepted f hf => ?_⟩
    obtain ⟨e, he⟩ := isOk_parse_of_accepted (ne_nil_of_mem hf) haccepted
    exact (wellFormed_iff he hsteps).2.mp (hwell e he) f hf
  · intro h
    refine ⟨h.steps, fun e he => ?_⟩
    obtain ⟨haccepted, hiff⟩ := wellFormed_iff he h.steps
    exact hiff.mpr (h.ranges haccepted)

theorem parse_not_wellFormed :
    parse "0 0 */255 1 0" = ⟨.ok ⟨[0], [0], [0, 1], [1], [0]⟩, true⟩
      ∧ parse "0 0 0-2 1 0" = ⟨.ok ⟨[0], [0], [0, 1, 2], [1], [0]⟩, false⟩
      ∧ parse "0 17-9 1 1 0" = ⟨.ok ⟨[0], [], [1], [1], [0]⟩, false⟩
      ∧ ¬ WellFormed ⟨[0], [0], [0, 1, 2], [1], [0]⟩ ∧ ¬ WellFormed ⟨[0], [], [1], [1], [0]⟩ := by
  refine ⟨by decide +kernel, by decide +kernel, by decide +kernel, fun h => ?_, fun h => ?_⟩
  · rw [WellFormed, cronBounds, fieldValues] at h
    simp only [forall₂_cons] at h
    exact absurd (h.2.2.1.within 0 (by decide)).1 (by decide)
  · rw [WellFormed, cronBounds, fieldValues] at h
    simp only [forall₂_cons] at h
    exact h.2.1.nonempty rfl

end CronExpression

end Velocity
