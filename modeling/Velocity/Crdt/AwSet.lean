import Mathlib.Data.List.Nodup
import Velocity.Lib.Replicas
import Velocity.Lib.Slots
import Velocity.Lib.WordBits

namespace Velocity.Crdt

open Lib List

/-!
# The add-wins set

`AWORSet`: 256 slots with keys and dots, and the dots of removed elements.

* `AWORSet`: `add`, `remove` and `merge`, slot by slot.
* `dotOf`: what the slots mean; each operation in terms of it.
-/

def aworsetCapacity : Nat := 256

def aworsetTombstoneCapacity : Nat := 128

structure Dot where
  replicaId : UInt16
  counter : UInt64
  deriving DecidableEq, Repr

structure AworSetEntry where
  key : UInt64
  dot : Dot
  occupied : Bool
  deriving DecidableEq, Repr

namespace AworSetEntry

def holds (key : UInt64) (e : AworSetEntry) : Bool := e.occupied && e.key == key

variable {e : AworSetEntry}

theorem holds_iff {key : UInt64} : e.holds key = true ↔ e.occupied = true ∧ e.key = key := by
  simp [holds]

theorem holds_eq_false_of_free (h : e.occupied = false) (key : UInt64) : e.holds key = false := by
  simp [holds, h]

theorem holds_of_ne {key k : UInt64} (h : e.holds key = true) (hk : k ≠ key) :
    e.holds k = false := by
  have hkey := (holds_iff.mp h).2
  simp only [holds, hkey, Bool.and_eq_false_iff, beq_eq_false_iff_ne]
  exact .inr hk.symm

end AworSetEntry

/-- `AWORSet`; the length of `tombstones` is `tombstone_count`. -/
structure AWORSet where
  replicaId : UInt16
  localCounter : UInt64
  elementCount : Nat
  elements : List AworSetEntry
  tombstones : List Dot
  deriving DecidableEq, Repr

namespace AWORSet

def new (replicaId : UInt16) : AWORSet where
  replicaId := replicaId
  localCounter := 0
  elementCount := 0
  elements := List.replicate aworsetCapacity ⟨0, ⟨0, 0⟩, false⟩
  tombstones := []

variable (s : AWORSet)

def contains (key : UInt64) : Bool := s.elements.any (·.holds key)

def keys : List UInt64 := (s.elements.filter (·.occupied)).map (·.key)

def slotOf (key : UInt64) : Option Nat := s.elements.findIdx? (·.holds key)

def setDot (i : Nat) (f : Dot → Dot) : AWORSet :=
  { s with elements := s.elements.modify i (fun e => { e with dot := f e.dot }) }

def fillSlot (key : UInt64) (dot : Dot) : Option AWORSet :=
  if s.elementCount ≥ aworsetCapacity then none
  else (s.elements.findIdx? (!·.occupied)).map fun i =>
    { s with elements := s.elements.set i ⟨key, dot, true⟩, elementCount := s.elementCount + 1 }

def nextDot : Dot := ⟨s.replicaId, saturatingAdd s.localCounter 1⟩

def tick : AWORSet := { s with localCounter := saturatingAdd s.localCounter 1 }

def add (key : UInt64) : Option Dot × AWORSet :=
  match s.slotOf key with
  | some i => (some s.nextDot, s.tick.setDot i (fun _ => s.nextDot))
  | none =>
    match s.tick.fillSlot key s.nextDot with
    | some s' => (some s.nextDot, s')
    | none => (none, s.tick)

def recordTombstone (dot : Dot) : AWORSet :=
  if s.tombstones.length < aworsetTombstoneCapacity then
    { s with tombstones := s.tombstones ++ [dot] }
  else s

def freeSlot (i : Nat) : AWORSet :=
  { s with elements := s.elements.modify i (fun e => { e with occupied := false, key := 0 }),
           elementCount := s.elementCount - 1 }

def remove (key : UInt64) : Bool × AWORSet :=
  match s.slotOf key with
  | some i =>
    match s.elements[i]? with
    | some e => (true, (s.freeSlot i).recordTombstone e.dot)
    | none => (false, s)
  | none => (false, s)

def takeEntry (other : AworSetEntry) : AWORSet :=
  if !other.occupied then s
  else
    match s.slotOf other.key with
    | some i => s.setDot i (fun d => if other.dot.counter > d.counter then other.dot else d)
    | none =>
      if s.tombstones.contains other.dot then s
      else (s.fillSlot other.key other.dot).getD s

def takeTombstone (dot : Dot) : AWORSet :=
  if s.tombstones.contains dot then s else s.recordTombstone dot

def merge (s other : AWORSet) : AWORSet :=
  let s := other.elements.foldl takeEntry s
  let s := other.tombstones.foldl takeTombstone s
  { s with localCounter := if other.localCounter > s.localCounter then other.localCounter
                           else s.localCounter }

/-! ### What a reader sees -/

def dotOf (key : UInt64) : Option Dot :=
  (s.elements.find? (·.holds key)).map (·.dot)

structure WellFormed (s : AWORSet) : Prop where
  slots : s.elements.length = aworsetCapacity
  count : s.elementCount = s.elements.countP (·.occupied)
  distinct : s.elements.Pairwise fun e e' => e.occupied = true → e'.occupied = true → e.key ≠ e'.key

variable {s}

theorem mem_keys_iff (k : UInt64) : k ∈ s.keys ↔ (s.dotOf k).isSome = true := by
  simp [keys, dotOf, find?_isSome, AworSetEntry.holds_iff, and_assoc]

theorem WellFormed.dotOf_of_mem (h : s.WellFormed) {e : AworSetEntry} (he : e ∈ s.elements)
    (hocc : e.occupied = true) : s.dotOf e.key = some e.dot := by
  obtain ⟨pre, post, hsplit⟩ := append_of_mem he
  have hpre : ∀ x ∈ pre, x.holds e.key = false := by
    intro x hx
    have hdist := (pairwise_append.mp (hsplit ▸ h.distinct)).2.2 x hx e (by simp)
    by_contra hholds
    obtain ⟨hxocc, hxkey⟩ := AworSetEntry.holds_iff.mp (Bool.not_eq_false _ ▸ hholds)
    exact hdist hxocc hocc hxkey
  rw [dotOf, hsplit, find?_split_of_first (AworSetEntry.holds_iff.mpr ⟨hocc, rfl⟩) hpre]
  rfl

theorem exists_mem_of_dotOf {k : UInt64} {d : Dot} (h : s.dotOf k = some d) :
    ∃ e ∈ s.elements, e.occupied = true ∧ e.key = k ∧ e.dot = d := by
  obtain ⟨e, hfind, hdot⟩ := Option.map_eq_some_iff.mp h
  obtain ⟨hocc, hkey⟩ := AworSetEntry.holds_iff.mp (find?_some hfind)
  exact ⟨e, mem_of_find?_eq_some hfind, hocc, hkey, hdot⟩

/-! ### The slots of a key -/

variable {key : UInt64} {i : Nat}

theorem split_of_slotOf (h : s.slotOf key = some i) :
    ∃ pre e post, s.elements = pre ++ e :: post ∧ pre.length = i ∧ e.holds key = true
      ∧ ∀ x ∈ pre, x.holds key = false :=
  split_of_findIdx? h

theorem slotOf_eq_none_iff : s.slotOf key = none ↔ s.dotOf key = none := by
  simp [slotOf, dotOf]

variable {dot : Dot} {s' : AWORSet}

theorem fillSlot_cases (h : s.fillSlot key dot = some s') :
    ∃ pre e post, s.elements = pre ++ e :: post ∧ e.occupied = false
      ∧ s' = { s with elements := pre ++ ⟨key, dot, true⟩ :: post,
                      elementCount := s.elementCount + 1 } := by
  rw [fillSlot] at h
  split at h
  · cases h
  · obtain ⟨i, hi, rfl⟩ := Option.map_eq_some_iff.mp h
    obtain ⟨pre, e, post, hsplit, rfl, hfree, -⟩ := split_of_findIdx? hi
    refine ⟨pre, e, post, hsplit, by simpa using hfree, ?_⟩
    simp [hsplit]

theorem WellFormed.fillSlot_isSome (h : s.WellFormed) (hroom : s.elementCount < aworsetCapacity)
    (key : UInt64) (dot : Dot) : (s.fillSlot key dot).isSome = true := by
  rw [fillSlot, if_neg (by omega), Option.isSome_map, findIdx?_isSome]
  by_contra hnone
  have hall : ∀ e ∈ s.elements, e.occupied = true := by simpa using hnone
  have hcount := h.count
  rw [countP_eq_length.mpr hall, h.slots] at hcount
  omega

theorem dotOf_fillSlot (h : s.fillSlot key dot = some s') (hnew : s.dotOf key = none) (k : UInt64) :
    s'.dotOf k = if k = key then some dot else s.dotOf k := by
  obtain ⟨pre, e, post, hsplit, hfree, rfl⟩ := fillSlot_cases h
  have hholds : AworSetEntry.holds key ⟨key, dot, true⟩ = true := by simp [AworSetEntry.holds]
  split
  · next hk =>
    have hpre : ∀ x ∈ pre, x.holds key = false := by
      have hnone : ∀ x ∈ s.elements, x.holds key = false := by simpa [dotOf] using hnew
      exact fun x hx => hnone x (by simp [hsplit, hx])
    rw [hk, dotOf, find?_split_of_first hholds hpre]
    rfl
  · next hk =>
    rw [dotOf, dotOf, hsplit, find?_split_of_not (AworSetEntry.holds_of_ne hholds hk)
      (AworSetEntry.holds_eq_false_of_free hfree k)]

theorem WellFormed.fillSlot (h : s.WellFormed)
    (hfill : s.fillSlot key dot = some s') (hnew : s.dotOf key = none) : s'.WellFormed := by
  obtain ⟨pre, e, post, hsplit, hfree, rfl⟩ := fillSlot_cases hfill
  obtain ⟨hslots, hcount, hdistinct⟩ := h
  have hnone : ∀ x ∈ s.elements, x.occupied = true → x.key ≠ key := by
    simpa [dotOf, AworSetEntry.holds] using hnew
  rw [hsplit] at hslots hcount hdistinct hnone
  refine ⟨by simpa using hslots, ?_, ?_⟩
  · simp only [countP_append, countP_cons, hfree] at hcount ⊢
    simp only [hcount]
    simp
    omega
  · rw [pairwise_append, pairwise_cons] at hdistinct ⊢
    obtain ⟨hpre, ⟨-, hpost⟩, hacross⟩ := hdistinct
    refine ⟨hpre, ⟨fun x hx _ hocc => (hnone x (by simp [hx]) hocc).symm, hpost⟩, ?_⟩
    intro x hx y hy hxocc hyocc
    rcases mem_cons.mp hy with rfl | hy
    · exact hnone x (by simp [hx]) hxocc
    · exact hacross x hx y (mem_cons_of_mem _ hy) hxocc hyocc

theorem dotOf_setDot (h : s.slotOf key = some i) (f : Dot → Dot)
    (k : UInt64) : (s.setDot i f).dotOf k = if k = key then (s.dotOf key).map f else s.dotOf k := by
  obtain ⟨pre, e, post, hsplit, rfl, hholds, hpre⟩ := split_of_slotOf h
  have hholds' : AworSetEntry.holds key { e with dot := f e.dot } = true := hholds
  rw [setDot, dotOf, hsplit, modify_split]
  split
  · next hk =>
    rw [hk, find?_split_of_first hholds' hpre, dotOf, hsplit, find?_split_of_first hholds hpre]
    rfl
  · next hk =>
    rw [dotOf, hsplit, find?_split_of_not (AworSetEntry.holds_of_ne hholds' hk)
      (AworSetEntry.holds_of_ne hholds hk)]

theorem WellFormed.setDot (h : s.WellFormed)
    (hslot : s.slotOf key = some i) (f : Dot → Dot) : (s.setDot i f).WellFormed := by
  obtain ⟨pre, e, post, hsplit, rfl, -, -⟩ := split_of_slotOf hslot
  obtain ⟨hslots, hcount, hdistinct⟩ := h
  rw [hsplit] at hslots hcount hdistinct
  have helements : (s.setDot pre.length f).elements = pre ++ { e with dot := f e.dot } :: post := by
    rw [AWORSet.setDot, hsplit, modify_split]
  refine ⟨by simpa [helements] using hslots, ?_, ?_⟩
  · rw [helements, countP_append, countP_cons]
    rwa [countP_append, countP_cons] at hcount
  · rw [helements]
    simpa [pairwise_append] using hdistinct

/-! ### The operations -/

@[simp] theorem tombstones_setDot (i : Nat) (f : Dot → Dot) :
    (s.setDot i f).tombstones = s.tombstones := rfl

@[simp] theorem elementCount_setDot (i : Nat) (f : Dot → Dot) :
    (s.setDot i f).elementCount = s.elementCount := rfl

theorem WellFormed.tick (h : s.WellFormed) : s.tick.WellFormed := ⟨h.slots, h.count, h.distinct⟩

theorem recordTombstone_cases (dot : Dot) :
    (s.tombstones.length < aworsetTombstoneCapacity
        ∧ s.recordTombstone dot = { s with tombstones := s.tombstones ++ [dot] })
      ∨ (aworsetTombstoneCapacity ≤ s.tombstones.length ∧ s.recordTombstone dot = s) := by
  rw [recordTombstone]
  split
  · next hroom => exact .inl ⟨hroom, rfl⟩
  · next hfull => exact .inr ⟨by omega, rfl⟩

@[simp] theorem elements_recordTombstone (dot : Dot) :
    (s.recordTombstone dot).elements = s.elements := by
  rcases recordTombstone_cases (s := s) dot with ⟨-, h⟩ | ⟨-, h⟩ <;> rw [h]

@[simp] theorem elementCount_recordTombstone (dot : Dot) :
    (s.recordTombstone dot).elementCount = s.elementCount := by
  rcases recordTombstone_cases (s := s) dot with ⟨-, h⟩ | ⟨-, h⟩ <;> rw [h]

theorem add_cases (key : UInt64) :
    (∃ i, s.slotOf key = some i
        ∧ s.add key = (some s.nextDot, s.tick.setDot i (fun _ => s.nextDot)))
      ∨ (∃ s', s.slotOf key = none ∧ s.tick.fillSlot key s.nextDot = some s'
        ∧ s.add key = (some s.nextDot, s'))
      ∨ (s.slotOf key = none ∧ s.add key = (none, s.tick)) := by
  rw [add]
  split
  · next i hi => exact .inl ⟨i, hi, rfl⟩
  · next hnone =>
    split
    · next s' hs' => exact .inr (.inl ⟨s', hnone, hs', rfl⟩)
    · exact .inr (.inr ⟨hnone, rfl⟩)

theorem remove_cases (key : UInt64) :
    (∃ pre e post, s.elements = pre ++ e :: post ∧ e.holds key = true
        ∧ (∀ x ∈ pre, x.holds key = false)
        ∧ s.remove key = (true, (s.freeSlot pre.length).recordTombstone e.dot))
      ∨ (s.slotOf key = none ∧ s.remove key = (false, s)) := by
  rw [remove]
  split
  · next i hi =>
    obtain ⟨pre, e, post, hsplit, rfl, hholds, hpre⟩ := split_of_slotOf hi
    refine .inl ⟨pre, e, post, hsplit, hholds, hpre, ?_⟩
    simp [hsplit]
  · next hnone => exact .inr ⟨hnone, rfl⟩

theorem takeEntry_cases (o : AworSetEntry) :
    (∃ i, o.occupied = true ∧ s.slotOf o.key = some i
        ∧ s.takeEntry o
          = s.setDot i (fun d => if o.dot.counter > d.counter then o.dot else d))
      ∨ (∃ s', o.occupied = true ∧ s.dotOf o.key = none ∧ o.dot ∉ s.tombstones
        ∧ s.fillSlot o.key o.dot = some s' ∧ s.takeEntry o = s')
      ∨ ((o.occupied = true → s.dotOf o.key = none
          ∧ (o.dot ∉ s.tombstones → s.fillSlot o.key o.dot = none))
        ∧ s.takeEntry o = s) := by
  rw [takeEntry]
  split
  · next hfree => exact .inr (.inr ⟨fun hocc => absurd hocc (by simpa using hfree), rfl⟩)
  · next hocc =>
    have hocc : o.occupied = true := by simpa using hocc
    split
    · next i hi => exact .inl ⟨i, hocc, hi, rfl⟩
    · next hnone =>
      have hnew := slotOf_eq_none_iff.mp hnone
      split
      · next hdead =>
        have hdead : o.dot ∈ s.tombstones := by simpa using hdead
        exact .inr (.inr ⟨fun _ => ⟨hnew, fun hlive => absurd hdead hlive⟩, rfl⟩)
      · next hlive =>
        have hlive : o.dot ∉ s.tombstones := by simpa using hlive
        cases hfill : s.fillSlot o.key o.dot with
        | some s' => exact .inr (.inl ⟨s', hocc, hnew, hlive, rfl, rfl⟩)
        | none => exact .inr (.inr ⟨fun _ => ⟨hnew, fun _ => rfl⟩, rfl⟩)

theorem tombstones_fillSlot (h : s.fillSlot key dot = some s') : s'.tombstones = s.tombstones := by
  obtain ⟨pre, e, post, -, -, rfl⟩ := fillSlot_cases h
  rfl

@[simp] theorem tombstones_takeEntry (o : AworSetEntry) :
    (s.takeEntry o).tombstones = s.tombstones := by
  rcases takeEntry_cases (s := s) o with
    ⟨i, -, -, htake⟩ | ⟨s', -, -, -, hfill, htake⟩ | ⟨-, htake⟩
  · rw [htake, tombstones_setDot]
  · rw [htake, tombstones_fillSlot hfill]
  · rw [htake]

/-! ### Well-formed sets -/

theorem wellFormed_new (replicaId : UInt16) : (new replicaId).WellFormed where
  slots := length_replicate
  count := by simp [new, countP_replicate]
  distinct := by simp [new, pairwise_replicate]

theorem WellFormed.add (h : s.WellFormed) (key : UInt64) : (s.add key).2.WellFormed := by
  rcases add_cases (s := s) key with ⟨i, hi, hadd⟩ | ⟨s', hnone, hfill, hadd⟩ | ⟨-, hadd⟩
  · rw [hadd]
    exact h.tick.setDot hi (fun _ => s.nextDot)
  · rw [hadd]
    exact h.tick.fillSlot hfill (slotOf_eq_none_iff.mp hnone)
  · rw [hadd]
    exact h.tick

theorem WellFormed.remove (h : s.WellFormed) (key : UInt64) : (s.remove key).2.WellFormed := by
  rcases remove_cases (s := s) key with ⟨pre, e, post, hsplit, hholds, -, hrem⟩ | ⟨-, hrem⟩
  · obtain ⟨hslots, hcount, hdistinct⟩ := h
    have hocc := (AworSetEntry.holds_iff.mp hholds).1
    have helements : (s.remove key).2.elements
        = pre ++ { e with occupied := false, key := 0 } :: post := by
      rw [hrem, elements_recordTombstone, freeSlot, hsplit, modify_split]
    rw [hsplit] at hslots hcount hdistinct
    refine ⟨by simpa [helements] using hslots, ?_, ?_⟩
    · rw [helements, hrem, elementCount_recordTombstone]
      simp only [freeSlot, hcount, countP_append, countP_cons, hocc]
      simp
    · rw [helements]
      rw [pairwise_append, pairwise_cons] at hdistinct ⊢
      obtain ⟨hpre, ⟨-, hpost⟩, hacross⟩ := hdistinct
      refine ⟨hpre, ⟨fun _ _ hfree => absurd hfree (by simp), hpost⟩, fun x hx y hy => ?_⟩
      rcases mem_cons.mp hy with rfl | hy
      · exact fun _ hfree => absurd hfree (by simp)
      · exact hacross x hx y (mem_cons_of_mem _ hy)
  · rwa [hrem]

theorem WellFormed.takeEntry (h : s.WellFormed) (o : AworSetEntry) :
    (s.takeEntry o).WellFormed := by
  rcases takeEntry_cases (s := s) o with
    ⟨i, -, hi, htake⟩ | ⟨s', -, hnew, -, hfill, htake⟩ | ⟨-, htake⟩
  · rw [htake]
    exact h.setDot hi _
  · rw [htake]
    exact h.fillSlot hfill hnew
  · rwa [htake]

theorem elements_foldl_takeTombstone (dots : List Dot) (s : AWORSet) :
    (dots.foldl takeTombstone s).elements = s.elements
      ∧ (dots.foldl takeTombstone s).elementCount = s.elementCount := by
  induction dots generalizing s with
  | nil => exact ⟨rfl, rfl⟩
  | cons dot dots ih =>
    rw [foldl_cons, (ih _).1, (ih _).2, takeTombstone]
    split <;> simp

theorem elements_merge (s other : AWORSet) :
    (s.merge other).elements = (other.elements.foldl takeEntry s).elements
      ∧ (s.merge other).elementCount = (other.elements.foldl takeEntry s).elementCount :=
  elements_foldl_takeTombstone other.tombstones _

theorem dotOf_merge (s other : AWORSet) (k : UInt64) :
    (s.merge other).dotOf k = (other.elements.foldl takeEntry s).dotOf k := by
  rw [dotOf, dotOf, (elements_merge s other).1]

theorem WellFormed.foldl_takeEntry (entries : List AworSetEntry) {s : AWORSet}
    (h : s.WellFormed) : (entries.foldl AWORSet.takeEntry s).WellFormed := by
  induction entries generalizing s with
  | nil => exact h
  | cons o entries ih => exact ih (h.takeEntry o)

theorem WellFormed.merge (h : s.WellFormed) (other : AWORSet) : (s.merge other).WellFormed := by
  obtain ⟨hslots, hcount, hdistinct⟩ := h.foldl_takeEntry other.elements
  obtain ⟨helements, helementCount⟩ := elements_merge s other
  exact ⟨by rwa [helements], by rwa [helements, helementCount], by rwa [helements]⟩

end AWORSet

/-! ### Replicas -/

inductive SetOp where
  | add (key : UInt64)
  | remove (key : UInt64)
  deriving DecidableEq

def AWORSet.apply (s : AWORSet) : SetOp → AWORSet
  | .add key => (s.add key).2
  | .remove key => (s.remove key).2

def awSets : Replicated AWORSet SetOp where
  apply := AWORSet.apply
  merge := AWORSet.merge

theorem AWORSet.WellFormed.apply {s : AWORSet} (h : s.WellFormed) (op : SetOp) :
    (s.apply op).WellFormed := by
  cases op with
  | add key => exact h.add key
  | remove key => exact h.remove key

variable {ι : Type*} [DecidableEq ι]

def replica (ids : ι → UInt16) (ops : List (ReplicaOp ι SetOp)) (i : ι) : AWORSet :=
  awSets.run (fun i => AWORSet.new (ids i)) ops i

/-- **Every replica of every history** is well formed. -/
theorem wellFormed_replica (ids : ι → UInt16) (ops : List (ReplicaOp ι SetOp)) (i : ι) :
    (replica ids ops i).WellFormed :=
  Replicated.forall_run (P := fun _ (s : AWORSet) => s.WellFormed) (fun _ _ op h => h.apply op)
    (fun _ _ _ t h _ => h.merge t) (fun i => AWORSet.wellFormed_new (ids i)) ops i

/-! ### Two replicas -/

def pairIds (i : Fin 2) : UInt16 := if i = 0 then 1 else 2

def onePerReplica : List (ReplicaOp (Fin 2) SetOp) := [.update 0 (.add 7), .update 1 (.add 9)]

def removedRemotely : List (ReplicaOp (Fin 2) SetOp) :=
  [.update 0 (.add 7), .merge 1 0, .update 1 (.remove 7)]

def removedAfterExchange : List (ReplicaOp (Fin 2) SetOp) :=
  [.update 0 (.add 7), .merge 1 0, .update 0 (.remove 7)]

def removedOneOfTwo : List (ReplicaOp (Fin 2) SetOp) :=
  [.update 0 (.add 7), .update 1 (.add 7), .merge 0 1, .update 0 (.remove 7)]

end Velocity.Crdt
