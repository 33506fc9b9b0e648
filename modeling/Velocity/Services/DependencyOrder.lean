import Mathlib.Data.Fintype.Card
import Mathlib.Data.Fintype.EquivFin
import Mathlib.Order.WellFounded
import Velocity.Services.DependencyGraph

namespace Velocity.WorkflowDependencyGraph

open Lib List Relation

/-!
# Topological order

`topological_sort`. The map of in-degrees is iterated over once, in `order`.
-/

abbrev Degrees : Type := AList fun _ : UInt64 => Nat

variable (g : WorkflowDependencyGraph)

def targets (node : UInt64) : List UInt64 := (g.getDependencies node).map (·.toWorkflowKey)

def countEdge (degrees : Degrees) (target : UInt64) : Degrees :=
  degrees.insert target ((degrees.lookup target).getD 0 + 1)

def countNode (degrees : Degrees) (node : UInt64) : Degrees :=
  (g.targets node).foldl countEdge
    (if (degrees.lookup node).isSome then degrees else degrees.insert node 0)

def inDegree : Degrees := g.outgoing.keys.foldl g.countNode ∅

structure Sorting where
  queue : List UInt64
  inDegree : Degrees
  result : List UInt64

def Sorting.release (s : Sorting) (target : UInt64) : Sorting :=
  match s.inDegree.lookup target with
  | none => s
  | some deg =>
    ⟨if deg - 1 = 0 then s.queue ++ [target] else s.queue, s.inDegree.insert target (deg - 1),
      s.result⟩

def Sorting.next (s : Sorting) : Sorting :=
  match s.queue with
  | [] => s
  | node :: queue => (g.targets node).foldl release ⟨queue, s.inDegree, s.result ++ [node]⟩

/-- The loop has a round for every node. -/
def sorting (order : List UInt64) : Sorting :=
  (Sorting.next g)^[size g.inDegree]
    ⟨order.filter (g.inDegree.lookup · = some 0), g.inDegree, []⟩

def topologicalSort (order : List UInt64) : Option (List UInt64) :=
  if (g.sorting order).result.length = size g.inDegree then some (g.sorting order).result else none

/-! ### In-degrees -/

/-- The targets of the nodes that have not come out. -/
def waiting (result : List UInt64) : List UInt64 :=
  (g.outgoing.keys.filter (· ∉ result)).flatMap g.targets

def IsNode (v : UInt64) : Prop := v ∈ g.outgoing.keys ∨ v ∈ g.waiting []

def Tally (keys targets : List UInt64) (degrees : Degrees) : Prop :=
  ∀ v, degrees.lookup v = if v ∈ keys ∨ v ∈ targets then some (targets.count v) else none

variable {g}

theorem Tally.foldl_countEdge {keys ts : List UInt64} {degrees : Degrees} (more : List UInt64)
    (h : Tally keys ts degrees) : Tally keys (ts ++ more) (more.foldl countEdge degrees) := by
  induction more generalizing ts degrees with
  | nil => rwa [append_nil]
  | cons t more ih =>
    rw [append_cons]
    refine ih fun v => ?_
    have hold := h t
    have hv := h v
    rw [countEdge, lookup_insert_eq_ite]
    grind

theorem lookup_inDegree (v : UInt64) [Decidable (g.IsNode v)] :
    g.inDegree.lookup v = if g.IsNode v then some ((g.waiting []).count v) else none := by
  have hrun : ∀ (more keys : List UInt64) degrees, Tally keys (keys.flatMap g.targets) degrees →
      Tally (keys ++ more) ((keys ++ more).flatMap g.targets) (more.foldl g.countNode degrees) := by
    intro more
    induction more with
    | nil => simp
    | cons node more ih =>
      intro keys degrees h
      rw [append_cons]
      refine ih _ _ ?_
      rw [flatMap_append, flatMap_singleton, countNode]
      refine Tally.foldl_countEdge _ fun v => ?_
      have hnode := h node
      have hv := h v
      split <;> grind [lookup_insert_eq_ite]
  have hall := hrun g.outgoing.keys [] ∅ (fun v => by simp) v
  simpa [IsNode, waiting, inDegree] using hall

/-! ### One round -/

/-- `pending` lists the targets of the edges that are not taken off yet. -/
structure Counts (g : WorkflowDependencyGraph) (pending : List UInt64) (s : Sorting) : Prop where
  degree : ∀ v, g.IsNode v → s.inDegree.lookup v = some (pending.count v)
  node : ∀ v ∈ pending, g.IsNode v
  free : ∀ v, v ∈ s.result ++ s.queue ↔ g.IsNode v ∧ v ∉ pending
  nodup : (s.result ++ s.queue).Nodup

theorem Counts.release {pending : List UInt64} {s : Sorting} {t : UInt64}
    (h : Counts g (t :: pending) s) : Counts g pending (s.release t) := by
  have ht := h.degree t (h.node t mem_cons_self)
  have hnot : t ∉ s.result ++ s.queue := fun hmem => ((h.free t).mp hmem).2 mem_cons_self
  rw [count_cons_self] at ht
  simp only [Sorting.release, ht, Nat.add_sub_cancel]
  refine ⟨fun v hv => ?_, fun v hv => h.node v (mem_cons_of_mem _ hv), fun v => ?_, ?_⟩
  · have hold := h.degree v hv
    rw [lookup_insert_eq_ite]
    grind
  · have hfree := h.free v
    have hnode := h.node t mem_cons_self
    grind
  · have hnodup := h.nodup
    split
    · rw [← append_assoc]
      exact hnodup.append (by simp) (by simpa using hnot)
    · exact hnodup

theorem Counts.foldl_release {pending : List UInt64} {s : Sorting} (ts : List UInt64)
    (h : Counts g (ts ++ pending) s) :
    Counts g pending (ts.foldl Sorting.release s)
      ∧ (ts.foldl Sorting.release s).result = s.result := by
  induction ts generalizing s with
  | nil => exact ⟨h, rfl⟩
  | cons t ts ih =>
    obtain ⟨hcounts, hresult⟩ := ih h.release
    refine ⟨hcounts, hresult.trans ?_⟩
    rw [Sorting.release]
    split <;> rfl

theorem waiting_perm {result : List UInt64} {u : UInt64} (hu : u ∉ result) :
    (g.waiting result).Perm (g.targets u ++ g.waiting (result ++ [u])) := by
  by_cases hkey : u ∈ g.outgoing.keys
  · have hperm : (g.outgoing.keys.filter (· ∉ result)).Perm
        (u :: g.outgoing.keys.filter (· ∉ result ++ [u])) := by
      have hnodup := g.outgoing.keys_nodup
      refine (perm_ext_iff_of_nodup (hnodup.filter _) ?_).mpr fun v => by grind
      exact nodup_cons.mpr ⟨by simp, hnodup.filter _⟩
    exact hperm.flatMap_right g.targets
  · have hnone : g.targets u = [] := by
      rw [targets, getDependencies, AList.lookup_eq_none.mpr hkey]
      rfl
    have hsame : g.waiting (result ++ [u]) = g.waiting result := by
      rw [waiting, filter_congr fun v hv => ?_, ← waiting]
      grind
    rw [hnone, hsame, nil_append]

/-- The result respects the edges. -/
structure Sorted (g : WorkflowDependencyGraph) (s : Sorting) : Prop where
  counts : Counts g (g.waiting s.result) s
  before : ∀ u v, v ∈ g.targets u → v ∈ s.result → s.result.idxOf u < s.result.idxOf v

theorem mem_keys_of_mem_targets {u v : UInt64} (h : v ∈ g.targets u) : u ∈ g.outgoing.keys := by
  by_contra hkey
  rw [targets, getDependencies, AList.lookup_eq_none.mpr hkey] at h
  cases h

theorem Sorted.next {s : Sorting} {u : UInt64} {queue : List UInt64} (h : Sorted g s)
    (hqueue : s.queue = u :: queue) :
    Sorted g (s.next g) ∧ (s.next g).result = s.result ++ [u] := by
  obtain ⟨⟨hdegree, hnode, hfree, hnodup⟩, hbefore⟩ := h
  rw [hqueue] at hfree hnodup
  have hu : u ∉ s.result := fun hmem => disjoint_of_nodup_append hnodup hmem mem_cons_self
  have hpop : Counts g (g.waiting s.result) ⟨queue, s.inDegree, s.result ++ [u]⟩ :=
    ⟨hdegree, hnode, by simpa using hfree, by simpa using hnodup⟩
  have hperm := waiting_perm (g := g) hu
  have hpending : Counts g (g.targets u ++ g.waiting (s.result ++ [u]))
      ⟨queue, s.inDegree, s.result ++ [u]⟩ :=
    ⟨fun v hv => by rw [← hperm.count_eq]; exact hpop.degree v hv,
      fun v hv => hnode v (hperm.mem_iff.mpr hv),
      fun v => by rw [← hperm.mem_iff]; exact hpop.free v, hpop.nodup⟩
  obtain ⟨hcounts, hresult⟩ := hpending.foldl_release
  have hnext : s.next g
      = (g.targets u).foldl Sorting.release ⟨queue, s.inDegree, s.result ++ [u]⟩ := by
    rw [Sorting.next, hqueue]
  rw [hnext]
  refine ⟨⟨by rwa [hresult], fun w v hv hmem => ?_⟩, hresult⟩
  rw [hresult] at hmem ⊢
  rcases mem_append.mp hmem with hmem | hmem
  · have hlt := hbefore w v hv hmem
    rw [idxOf_append_of_mem hmem, idxOf_append_of_mem]
    · exact hlt
    · exact idxOf_lt_length_iff.mp (Nat.lt_trans hlt (idxOf_lt_length_of_mem hmem))
  · obtain rfl := mem_singleton.mp hmem
    -- a node that still waits is the target of none that is left
    have hw : w ∈ s.result := by
      by_contra hnot
      refine ((hfree v).mp (by simp)).2 (mem_flatMap.mpr ⟨w, ?_, hv⟩)
      simpa [hnot] using mem_keys_of_mem_targets hv
    rw [idxOf_append_of_mem hw, idxOf_append_of_notMem hu]
    exact Nat.lt_of_lt_of_le (idxOf_lt_length_of_mem hw) (Nat.le_add_right _ _)

/-! ### The whole loop -/

theorem isNode_iff (v : UInt64) : g.IsNode v ↔ g.inDegree.lookup v ≠ none := by
  classical
  rw [lookup_inDegree]
  split <;> simp_all

theorem sorted_start {order : List UInt64} (horder : order.Perm g.inDegree.keys) :
    Sorted g ⟨order.filter (g.inDegree.lookup · = some 0), g.inDegree, []⟩ := by
  classical
  have hnodup : order.Nodup := horder.nodup_iff.mpr g.inDegree.keys_nodup
  refine ⟨⟨fun v hv => ?_, fun v hv => Or.inr hv, fun v => ?_, hnodup.filter _⟩, ?_⟩
  · rw [lookup_inDegree, if_pos hv]
  · have hmem : v ∈ order ↔ g.IsNode v := by
      rw [horder.mem_iff, isNode_iff, ne_eq, AList.lookup_eq_none, not_not]
      rfl
    rw [nil_append, mem_filter, hmem, decide_eq_true_iff, lookup_inDegree]
    grind
  · intro u v _ hmem
    cases hmem

theorem Sorted.isNode_of_mem {s : Sorting} (h : Sorted g s) {v : UInt64}
    (hv : v ∈ s.result ++ s.queue) : g.inDegree.lookup v ≠ none :=
  (isNode_iff v).mp ((h.counts.free v).mp hv).1

theorem sorted_sorting {order : List UInt64} (horder : order.Perm g.inDegree.keys) :
    Sorted g (g.sorting order) ∧ (g.sorting order).queue = [] := by
  refine iterate_idle (Sorted g) (·.queue = []) (·.result.length)
    (fun s h => by rw [Sorting.next, h]) (fun s h hne => ?_) (fun s h hne => ?_)
    (sorted_start horder)
  · obtain ⟨u, queue, hqueue⟩ := exists_cons_of_ne_nil hne
    obtain ⟨hnext, hresult⟩ := h.next hqueue
    exact ⟨hnext, by rw [hresult, length_append]; rfl⟩
  · have hle := length_le_size h.counts.nodup fun v hv => h.isNode_of_mem hv
    have hpos := length_pos_iff.mpr hne
    rw [length_append] at hle
    omega

/-- There is an edge from `u` to `v`. -/
def DependsOn (g : WorkflowDependencyGraph) (u v : UInt64) : Prop :=
  ∃ e ∈ g.getDependencies u, e.toWorkflowKey = v

theorem mem_targets {u v : UInt64} : v ∈ g.targets u ↔ g.DependsOn u v := mem_map

theorem isNode_ends {u v : UInt64} (h : g.DependsOn u v) : g.IsNode u ∧ g.IsNode v := by
  have hkey := mem_keys_of_mem_targets (mem_targets.mpr h)
  exact ⟨Or.inl hkey, Or.inr (mem_flatMap.mpr ⟨u, by simpa using hkey, mem_targets.mpr h⟩)⟩

theorem Sorted.length_eq_iff {s : Sorting} (h : Sorted g s) :
    s.result.length = size g.inDegree ↔ ∀ v, g.IsNode v → v ∈ s.result := by
  have hnodup : s.result.Nodup := h.counts.nodup.of_append_left
  have hmem : ∀ v ∈ s.result, g.inDegree.lookup v ≠ none :=
    fun v hv => h.isNode_of_mem (mem_append_left _ hv)
  refine ⟨fun heq v hv => ?_, fun hall => (length_le_size hnodup hmem).antisymm ?_⟩
  · by_contra hnot
    have hmore := length_le_size (nodup_cons.mpr ⟨hnot, hnodup⟩)
      (forall_mem_cons.mpr ⟨(isNode_iff v).mp hv, hmem⟩)
    rw [length_cons, heq] at hmore
    exact Nat.not_succ_le_self _ hmore
  · exact size_le_length fun v hv => hall v ((isNode_iff v).mpr hv)

/-- The first of the nodes that never came out would be the target of none of them. -/
theorem Sorted.mem_of_acyclic {s : Sorting} (h : Sorted g s) (hqueue : s.queue = [])
    (hacyclic : ∀ v, ¬ TransGen g.DependsOn v v) (v : UInt64) (hv : g.IsNode v) :
    v ∈ s.result := by
  have hfinite : Finite UInt64 := Finite.of_injective UInt64.toFin fun _ _ => UInt64.toFin_inj.mp
  have hirrefl : Std.Irrefl (TransGen g.DependsOn) := ⟨hacyclic⟩
  have hwf : WellFounded (TransGen g.DependsOn) := Finite.wellFounded_of_trans_of_irrefl _
  by_contra hnot
  obtain ⟨m, ⟨hm, hmnot⟩, hmin⟩ :=
    hwf.has_min {w | g.IsNode w ∧ w ∉ s.result} ⟨v, hv, hnot⟩
  have hwaits : m ∈ g.waiting s.result := by
    by_contra hfree
    have hout := (h.counts.free m).mpr ⟨hm, hfree⟩
    rw [hqueue, append_nil] at hout
    exact hmnot hout
  obtain ⟨u, hu, hmu⟩ := mem_flatMap.mp hwaits
  obtain ⟨hkey, hunot⟩ := mem_filter.mp hu
  exact hmin u ⟨Or.inl hkey, by simpa using hunot⟩ (TransGen.single (mem_targets.mp hmu))

theorem Sorted.acyclic {s : Sorting} (h : Sorted g s)
    (hall : ∀ v, g.IsNode v → v ∈ s.result) (v : UInt64) : ¬ TransGen g.DependsOn v v := by
  have hlt : ∀ {u w}, TransGen g.DependsOn u w → s.result.idxOf u < s.result.idxOf w := by
    intro u w hpath
    induction hpath with
    | single hedge => exact h.before _ _ (mem_targets.mpr hedge) (hall _ (isNode_ends hedge).2)
    | tail _ hedge ih =>
      exact ih.trans (h.before _ _ (mem_targets.mpr hedge) (hall _ (isNode_ends hedge).2))
  exact fun hcycle => Nat.lt_irrefl _ (hlt hcycle)

/-- **Topological order**, in whatever order the hash map is iterated over. -/
theorem topologicalSort_spec (g : WorkflowDependencyGraph) {order : List UInt64}
    (horder : order.Perm g.inDegree.keys) :
    (g.sorting order).queue = [] ∧
    ((g.topologicalSort order).isSome ↔ ∀ v, ¬ TransGen g.DependsOn v v) ∧
    ∀ sorted ∈ g.topologicalSort order, sorted.Nodup ∧ ∀ u v, g.DependsOn u v →
      u ∈ sorted ∧ v ∈ sorted ∧ sorted.idxOf u < sorted.idxOf v := by
  obtain ⟨hsorted, hqueue⟩ := sorted_sorting horder
  have hlength := hsorted.length_eq_iff
  refine ⟨hqueue, ?_, fun sorted hsome => ?_⟩
  · rw [topologicalSort, Option.isSome_ite, hlength]
    exact ⟨hsorted.acyclic, hsorted.mem_of_acyclic hqueue⟩
  · rw [topologicalSort, Option.mem_def, Option.ite_none_right_eq_some, hlength,
      Option.some_inj] at hsome
    obtain ⟨hall, rfl⟩ := hsome
    refine ⟨hsorted.counts.nodup.of_append_left, fun u v hedge => ?_⟩
    obtain ⟨hu, hv⟩ := isNode_ends hedge
    exact ⟨hall u hu, hall v hv, hsorted.before u v (mem_targets.mpr hedge) (hall v hv)⟩

theorem topologicalSort_chain :
    let g := run [.add ⟨1, 2, .parentChild, 0, none⟩, .add ⟨2, 3, .sagaStep, 0, none⟩]
    g.topologicalSort [3, 1, 2] = some [1, 2, 3] ∧ ∀ v, ¬ TransGen g.DependsOn v v := by
  intro g
  have hsort : g.topologicalSort [3, 1, 2] = some [1, 2, 3] := by decide +kernel
  have horder : [3, 1, 2].Perm g.inDegree.keys := by decide +kernel
  exact ⟨hsort, (topologicalSort_spec g horder).2.1.mp (hsort ▸ rfl)⟩

end Velocity.WorkflowDependencyGraph
