import Velocity.Lib.LittleEndian

namespace Velocity

open Lib List

/-!
# The hash ring

A point that two hosts share is gone when either is removed.
-/

def fnvPrime (hash : UInt64) (byte : UInt8) : UInt64 := (hash ^^^ byte.toUInt64) * 0x100000001b3

structure HashRing where
  /-- The ordered map from ring positions to hosts, in ascending order. -/
  ring : List (UInt64 × String)
  hosts : String → Option UInt32

namespace HashRing

def new : HashRing := ⟨[], fun _ => none⟩

def hashVirtualNode (host : String) (index : UInt32) : UInt64 :=
  (host.toUTF8.toList ++ u32ToLeBytes index ++ [58]).foldl fnvPrime 0xcbf29ce484222325

def hashKey (key : UInt64) : UInt64 := (u64ToLeBytes key).foldl fnvPrime 0xcbf29ce484222325

def insertPoint (pos : UInt64) (host : String) : List (UInt64 × String) → List (UInt64 × String)
  | [] => [(pos, host)]
  | entry :: ring =>
    if pos < entry.1 then (pos, host) :: entry :: ring
    else if pos = entry.1 then (pos, host) :: ring
    else entry :: insertPoint pos host ring

def positions (host : String) (points : UInt32) : List UInt64 :=
  (range points.toNat).map fun i => hashVirtualNode host (UInt32.ofNat i)

variable (r : HashRing)

def addHostWithPoints (host : String) (points : UInt32) : HashRing :=
  if (r.hosts host).isSome then r
  else
    ⟨(positions host points).foldl (fun ring pos => insertPoint pos host ring) r.ring,
      Function.update r.hosts host (some points)⟩

def removeHost (host : String) : Bool × HashRing :=
  match r.hosts host with
  | none => (false, r)
  | some points =>
    (true, ⟨(positions host points).foldl (fun ring pos => ring.filter (·.1 ≠ pos)) r.ring,
      Function.update r.hosts host none⟩)

def getHost (key : UInt64) : Option String :=
  ((r.ring.find? (hashKey key ≤ ·.1)).or r.ring.head?).map (·.2)

/-! ### Points of one host -/

/-- A search ends alike, or at a point of the host. -/
def DiffersAt (host : String) (ring ring' : List (UInt64 × String)) : Prop :=
  ∀ p : UInt64 → Bool, (ring.find? (p ·.1)).map (·.2) = some host
    ∨ ring.find? (p ·.1) = ring'.find? (p ·.1)

variable {host : String} {ring ring' : List (UInt64 × String)}

theorem DiffersAt.getHost (r r' : HashRing) (h : DiffersAt host r.ring r'.ring) (key : UInt64) :
    r.getHost key = r'.getHost key ∨ r.getHost key = some host := by
  have hhead : ∀ ring : List (UInt64 × String), ring.head? = ring.find? fun _ => true := by
    intro ring
    cases ring <;> rfl
  rw [HashRing.getHost, HashRing.getHost, hhead, hhead]
  rcases h fun pos => hashKey key ≤ pos with hfound | hsame
  · obtain ⟨entry, hentry, rfl⟩ := Option.map_eq_some_iff.mp hfound
    exact .inr (by simp [hentry])
  · rw [hsame]
    cases r'.ring.find? fun entry => hashKey key ≤ entry.1 with
    | some entry => exact .inl rfl
    | none => exact (h fun _ => true).symm.imp (congrArg _) id

theorem differsAt_insertPoint (pos : UInt64) (host : String) (ring : List (UInt64 × String)) :
    DiffersAt host (insertPoint pos host ring) ring := by
  intro p
  induction ring with
  | nil => cases hp : p pos <;> simp [insertPoint, hp]
  | cons entry ring ih =>
    rw [insertPoint]
    split_ifs with hlt heq
    · cases hp : p pos <;> simp [hp]
    · cases hp : p pos <;> simp [hp, ← heq]
    · cases hp : p entry.1
      · simpa only [find?_cons, hp] using ih
      · simp [hp]

theorem DiffersAt.trans {ring'' : List (UInt64 × String)} (h : DiffersAt host ring ring')
    (h' : DiffersAt host ring' ring'') : DiffersAt host ring ring'' := by
  intro p
  rcases h p with hfound | hsame
  · exact .inl hfound
  · rw [hsame]
    exact h' p

theorem differsAt_foldl_insertPoint (host : String) (positions : List UInt64)
    (ring : List (UInt64 × String)) :
    DiffersAt host (positions.foldl (fun ring pos => insertPoint pos host ring) ring) ring := by
  induction positions generalizing ring with
  | nil => exact fun p => .inr rfl
  | cons pos positions ih => exact (ih _).trans (differsAt_insertPoint pos host ring)

theorem differsAt_filter {q : UInt64 → Bool}
    (h : ∀ entry ∈ ring, q entry.1 = false → entry.2 = host) :
    DiffersAt host ring (ring.filter (q ·.1)) := by
  intro p
  induction ring with
  | nil => exact .inr rfl
  | cons entry ring ih =>
    rw [forall_mem_cons] at h
    cases hq : q entry.1 <;> cases hp : p entry.1
    · simpa only [filter_cons, find?_cons, hp, hq, Bool.false_eq_true, if_false, if_true]
        using ih h.2
    · simp [hp, h.1 hq]
    · simpa only [filter_cons, find?_cons, hp, hq, Bool.false_eq_true, if_false, if_true]
        using ih h.2
    · simp [hp, hq]

theorem foldl_filter_ne (positions : List UInt64) (ring : List (UInt64 × String)) :
    positions.foldl (fun ring pos => ring.filter (·.1 ≠ pos)) ring
      = ring.filter (fun entry => !positions.contains entry.1) := by
  induction positions generalizing ring with
  | nil => simp
  | cons pos positions ih =>
    rw [foldl_cons, ih, filter_filter]
    refine filter_congr fun entry _ => ?_
    by_cases hpos : entry.1 = pos <;> simp [hpos]

theorem filter_foldl_insertPoint {q : UInt64 → Bool} {positions : List UInt64}
    (hq : ∀ pos ∈ positions, q pos = false) (host : String) (ring : List (UInt64 × String)) :
    (positions.foldl (fun ring pos => insertPoint pos host ring) ring).filter (q ·.1)
      = ring.filter (q ·.1) := by
  have hone : ∀ pos, q pos = false → ∀ ring : List (UInt64 × String),
      (insertPoint pos host ring).filter (q ·.1) = ring.filter (q ·.1) := by
    intro pos hq ring
    induction ring with
    | nil => simp [insertPoint, hq]
    | cons entry ring ih => grind [insertPoint]
  induction positions generalizing ring with
  | nil => rfl
  | cons pos positions ih =>
    rw [forall_mem_cons] at hq
    rw [foldl_cons, ih hq.2, hone pos hq.1]

theorem mem_foldl_insertPoint {entry : UInt64 × String} {positions : List UInt64}
    (h : entry ∈ positions.foldl (fun ring pos => insertPoint pos host ring) ring) :
    entry ∈ ring ∨ entry.1 ∈ positions ∧ entry.2 = host := by
  have hone : ∀ pos (ring : List (UInt64 × String)), entry ∈ insertPoint pos host ring →
      entry ∈ ring ∨ entry = (pos, host) := by
    intro pos ring
    induction ring with
    | nil => simp [insertPoint]
    | cons first ring ih => grind [insertPoint]
  induction positions generalizing ring with
  | nil => exact .inl h
  | cons pos positions ih =>
    rcases ih h with hring | ⟨hpos, hhost⟩
    · exact (hone pos ring hring).imp id fun heq => by simp [heq]
    · exact .inr ⟨mem_cons_of_mem _ hpos, hhost⟩

/-! ### Runs -/

inductive Op where
  | add (host : String) (points : UInt32)
  | remove (host : String)
  deriving DecidableEq

def step : Op → HashRing
  | .add host points => r.addHostWithPoints host points
  | .remove host => (r.removeHost host).2

def run (ops : List Op) : HashRing := ops.foldl step new

/-- No two hosts share a position of the ring. -/
def Distinct (ops : List Op) : Prop :=
  ∀ host points host' points', .add host points ∈ ops → .add host' points' ∈ ops →
    ∀ pos ∈ positions host points, pos ∈ positions host' points' → host = host'

structure Owned (ops : List Op) (r : HashRing) : Prop where
  points : ∀ entry ∈ r.ring, ∃ points, r.hosts entry.2 = some points
    ∧ entry.1 ∈ positions entry.2 points
  added : ∀ host points, r.hosts host = some points → .add host points ∈ ops

theorem Owned.step {ops : List Op} {r : HashRing} (h : Owned ops r) (op : Op) :
    Owned (ops ++ [op]) (r.step op) := by
  have hadded : ∀ host points, r.hosts host = some points → .add host points ∈ ops ++ [op] :=
    fun host points hhost => mem_append_left _ (h.added host points hhost)
  cases op with
  | add host points =>
    simp only [HashRing.step, addHostWithPoints]
    split
    · exact ⟨h.points, hadded⟩
    · next hnew =>
      refine ⟨fun entry hentry => ?_, fun host' points' hhost => ?_⟩
      · rcases mem_foldl_insertPoint hentry with hring | ⟨hpos, hhost⟩
        · obtain ⟨points', hpoints, hpos⟩ := h.points entry hring
          have hne : entry.2 ≠ host := fun heq => hnew (by simp [← heq, hpoints])
          exact ⟨points', by simp [hne, hpoints], hpos⟩
        · exact ⟨points, by simp [hhost], hhost ▸ hpos⟩
      · simp only [Function.update_apply] at hhost
        split at hhost
        · next heq =>
          cases hhost
          simp [heq]
        · exact hadded host' points' hhost
  | remove host =>
    simp only [HashRing.step, removeHost]
    split
    · exact ⟨h.points, hadded⟩
    · next points hpoints =>
      rw [foldl_filter_ne]
      refine ⟨fun entry hentry => ?_, fun host' points' hhost => ?_⟩
      · obtain ⟨hring, hpos⟩ := mem_filter.mp hentry
        obtain ⟨points', hpoints', hpos'⟩ := h.points entry hring
        have hne : entry.2 ≠ host := by
          rintro rfl
          cases hpoints.symm.trans hpoints'
          simp [hpos'] at hpos
        exact ⟨points', by simp [hne, hpoints'], hpos'⟩
      · simp only [Function.update_apply] at hhost
        split at hhost
        · cases hhost
        · exact hadded host' points' hhost

theorem owned_run (ops : List Op) : Owned ops (run ops) := by
  have hrun : ∀ (ops before : List Op) (r : HashRing), Owned before r →
      Owned (before ++ ops) (ops.foldl HashRing.step r) := by
    intro ops
    induction ops with
    | nil => simp
    | cons op ops ih =>
      intro before r h
      rw [append_cons]
      exact ih _ _ (h.step op)
  exact hrun ops [] new ⟨by simp [new], by simp [new]⟩

/-- **Minimal remapping**; for removals if no two hosts share a position. -/
theorem remaps_minimally :
    (∀ (r : HashRing) host points key, r.hosts host = none →
        (r.addHostWithPoints host points).getHost key = r.getHost key
          ∨ (r.addHostWithPoints host points).getHost key = some host)
      ∧ (∀ ops host key, Distinct ops → (run ops).getHost key ≠ some host →
        ((run ops).removeHost host).2.getHost key = (run ops).getHost key)
      ∧ ∀ ops host points key, (run ops).hosts host = none →
        Distinct (ops ++ [.add host points]) →
        (((run ops).addHostWithPoints host points).removeHost host).2.getHost key
          = (run ops).getHost key := by
  refine ⟨fun r host points key hnew => ?_, fun ops host key hdistinct hkey => ?_,
    fun ops host points key hnew hdistinct => ?_⟩
  · rw [addHostWithPoints, hnew]
    exact DiffersAt.getHost _ r (differsAt_foldl_insertPoint host _ r.ring) key
  · have howned := owned_run ops
    rw [removeHost]
    cases hpoints : (run ops).hosts host with
    | none => rfl
    | some points =>
      refine ((DiffersAt.getHost (run ops) ⟨_, _⟩ ?_ key).resolve_right hkey).symm
      dsimp only
      rw [foldl_filter_ne]
      refine differsAt_filter (q := fun pos => !(positions host points).contains pos)
        fun entry hentry hremoved => ?_
      obtain ⟨points', hpoints', hpos⟩ := howned.points entry hentry
      exact hdistinct _ _ _ _ (howned.added _ _ hpoints') (howned.added _ _ hpoints) _ hpos
        (by simpa using hremoved)
  · have howned := owned_run ops
    have hrestored : ((((run ops).addHostWithPoints host points).removeHost host).2).ring
        = (run ops).ring := by
      simp only [addHostWithPoints, hnew, removeHost, Option.isSome_none, Bool.false_eq_true,
        if_false, Function.update_self, foldl_filter_ne]
      rw [filter_foldl_insertPoint (q := fun pos => !(positions host points).contains pos)
        (by simp), filter_eq_self]
      intro entry hentry
      obtain ⟨points', hpoints', hpos⟩ := howned.points entry hentry
      by_contra hshared
      have hsame := hdistinct _ _ host points (mem_append_left _ (howned.added _ _ hpoints'))
        (by simp) _ hpos (by simpa using hshared)
      rw [hsame, hnew] at hpoints'
      cases hpoints'
    rw [getHost, getHost, hrestored]

theorem getHost_removeHost_two :
    (run [.add "a" 2, .add "b" 2]).getHost 1 = some "a"
      ∧ ((run [.add "a" 2, .add "b" 2]).removeHost "b").2.getHost 1
        = (run [.add "a" 2, .add "b" 2]).getHost 1 := by
  have hapart : (positions "a" 2).all (fun pos => !(positions "b" 2).contains pos) = true := by
    decide +kernel
  have hnot : ∀ pos ∈ positions "a" 2, pos ∉ positions "b" 2 := by simpa using hapart
  refine ⟨by decide +kernel, remaps_minimally.2.1 _ "b" 1 ?_ (by decide +kernel)⟩
  intro host points host' points' hadd hadd' pos hpos hpos'
  simp only [mem_cons, Op.add.injEq, not_mem_nil, or_false] at hadd hadd'
  obtain ⟨rfl, rfl⟩ | ⟨rfl, rfl⟩ := hadd <;> obtain ⟨rfl, rfl⟩ | ⟨rfl, rfl⟩ := hadd'
  · rfl
  · exact absurd hpos' (hnot pos hpos)
  · exact absurd hpos (hnot pos hpos')
  · rfl

end HashRing

end Velocity
