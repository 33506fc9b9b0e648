import Mathlib.Logic.Relation
import Velocity.Lib.BreadthFirst
import Velocity.Lib.Keyed
import Velocity.Lib.Run

namespace Velocity

open Lib List Relation

/-!
# The dependency graph

Every edge is kept twice, in hash tables. Statistics are left out.
-/

inductive DependencyType where
  | parentChild
  | signalSender
  | updateTarget
  | cancelRequest
  | awaitingCompletion
  | continuedAsNew
  | sagaStep
  | sagaCompensation
  deriving DecidableEq

structure DependencyEdge where
  fromWorkflowKey : UInt64
  toWorkflowKey : UInt64
  depType : DependencyType
  createdAtMs : UInt64
  metadata : Option String
  deriving DecidableEq

inductive DependencyDirection where
  | downstream
  | upstream
  | both

structure WorkflowDependencyGraph where
  outgoing : AList fun _ : UInt64 => List DependencyEdge
  incoming : AList fun _ : UInt64 => List DependencyEdge

namespace WorkflowDependencyGraph

def new : WorkflowDependencyGraph := ⟨∅, ∅⟩

variable (g : WorkflowDependencyGraph)

def getDependencies (workflowKey : UInt64) : List DependencyEdge :=
  (g.outgoing.lookup workflowKey).getD []

def getDependents (workflowKey : UInt64) : List DependencyEdge :=
  (g.incoming.lookup workflowKey).getD []

def addDependency (edge : DependencyEdge) : WorkflowDependencyGraph :=
  ⟨g.outgoing.insert edge.fromWorkflowKey (g.getDependencies edge.fromWorkflowKey ++ [edge]),
    g.incoming.insert edge.toWorkflowKey (g.getDependents edge.toWorkflowKey ++ [edge])⟩

def removeWorkflow (workflowKey : UInt64) : Nat × WorkflowDependencyGraph :=
  ((g.getDependencies workflowKey).length + (g.getDependents workflowKey).length,
    ⟨mapValues (·.filter (·.toWorkflowKey ≠ workflowKey)) (g.outgoing.erase workflowKey),
      mapValues (·.filter (·.fromWorkflowKey ≠ workflowKey)) (g.incoming.erase workflowKey)⟩)

/-! ### The edges that are left -/

inductive Op where
  | add (edge : DependencyEdge)
  | remove (workflowKey : UInt64)

def step : Op → WorkflowDependencyGraph
  | .add edge => g.addDependency edge
  | .remove workflowKey => (g.removeWorkflow workflowKey).2

def run (ops : List Op) : WorkflowDependencyGraph := ops.foldl step new

/-- A removal drops the edges at the workflow. -/
def remaining (edges : List DependencyEdge) : Op → List DependencyEdge
  | .add edge => edges ++ [edge]
  | .remove key => edges.filter fun e => e.fromWorkflowKey ≠ key ∧ e.toWorkflowKey ≠ key

/-- Both indexes list exactly these edges. -/
structure Holds (edges : List DependencyEdge) : Prop where
  dependencies : ∀ key, g.getDependencies key = edges.filter (·.fromWorkflowKey = key)
  dependents : ∀ key, g.getDependents key = edges.filter (·.toWorkflowKey = key)

variable {g} {edges : List DependencyEdge}

theorem getD_lookup_removed (m : AList fun _ : UInt64 => List DependencyEdge)
    (p : DependencyEdge → Bool) (removed key : UInt64) :
    ((mapValues (·.filter p) (m.erase removed)).lookup key).getD []
      = if key = removed then [] else ((m.lookup key).getD []).filter p := by
  rw [lookup_mapValues, lookup_erase_eq_ite]
  split
  · rfl
  · cases m.lookup key <;> rfl

theorem Holds.step (h : g.Holds edges) (op : Op) : (g.step op).Holds (remaining edges op) := by
  cases op with
  | add edge =>
    constructor <;> intro key <;>
      simp only [WorkflowDependencyGraph.step, addDependency, getDependencies, getDependents,
        lookup_insert_eq_ite, remaining, filter_append, filter_singleton]
    · have hold := h.dependencies key
      grind [getDependencies]
    · have hold := h.dependents key
      grind [getDependents]
  | remove removed =>
    refine ⟨fun key => (getD_lookup_removed g.outgoing _ removed key).trans ?_,
      fun key => (getD_lookup_removed g.incoming _ removed key).trans ?_⟩
    · rw [← getDependencies, h.dependencies, remaining, filter_filter, filter_filter]
      split
      · next heq => exact (filter_eq_nil_iff.mpr (by simp +contextual [heq])).symm
      · next hne => exact filter_congr fun e _ => by grind
    · rw [← getDependents, h.dependents, remaining, filter_filter, filter_filter]
      split
      · next heq => exact (filter_eq_nil_iff.mpr (by simp +contextual [heq])).symm
      · next hne => exact filter_congr fun e _ => by grind

theorem holds_run (ops : List Op) : (run ops).Holds (ops.foldl remaining []) :=
  foldl_simulation (R := Holds) (fun _ _ op h (_ : True) => h.step op) ops new []
    ⟨fun _ => rfl, fun _ => rfl⟩ (stepsMeet_of_mem fun _ _ _ => trivial)

/-- **Edges.** Both maps list the edges that have lost neither end, and a removal counts a loop
    twice. -/
theorem refines_edges (ops : List Op) (key : UInt64) :
    let edges := ops.foldl remaining []
    let loops := edges.filter fun e => e.fromWorkflowKey = key ∧ e.toWorkflowKey = key
    (run ops).Holds edges
      ∧ ((run ops).removeWorkflow key).1 + (remaining edges (.remove key)).length
        = edges.length + loops.length := by
  refine ⟨holds_run ops, ?_⟩
  simp only [removeWorkflow, (holds_run ops).dependencies, (holds_run ops).dependents, remaining]
  induction ops.foldl remaining [] with
  | nil => rfl
  | cons e edges ih => grind

/-! ### Traversal -/

structure Traversal where
  visited : List UInt64
  edgesTraversed : List DependencyEdge
  queue : List (UInt64 × Nat)
  hasCycle : Bool

structure DependencyTraversalResult where
  visited : List UInt64
  edgesTraversed : List DependencyEdge
  depth : Nat
  hasCycle : Bool

def neighbors (g : WorkflowDependencyGraph) (direction : DependencyDirection) (current : UInt64) :
    List (DependencyEdge × UInt64) :=
  let outgoing := (g.getDependencies current).map fun e => (e, e.toWorkflowKey)
  let incoming := (g.getDependents current).map fun e => (e, e.fromWorkflowKey)
  match direction with
  | .downstream => outgoing
  | .upstream => incoming
  | .both => outgoing ++ incoming

def Traversal.follow (depth : Nat) (t : Traversal) (next : DependencyEdge × UInt64) : Traversal :=
  if next.2 ∈ t.visited then
    { t with edgesTraversed := t.edgesTraversed ++ [next.1], hasCycle := true }
  else
    ⟨next.2 :: t.visited, t.edgesTraversed ++ [next.1], t.queue ++ [(next.2, depth + 1)],
      t.hasCycle⟩

def visit (g : WorkflowDependencyGraph) (direction : DependencyDirection) (maxDepth : Nat)
    (t : Traversal) : Traversal :=
  match t.queue with
  | [] => t
  | (current, depth) :: queue =>
    if maxDepth ≤ depth then { t with queue := queue }
    else (g.neighbors direction current).foldl (Traversal.follow depth) { t with queue := queue }

def ends (g : WorkflowDependencyGraph) : List UInt64 :=
  (g.outgoing.entries.flatMap (·.2)).map (·.toWorkflowKey)
    ++ (g.incoming.entries.flatMap (·.2)).map (·.fromWorkflowKey)

/-- A round for every node that can be visited. -/
def traversal (g : WorkflowDependencyGraph) (start : UInt64) (direction : DependencyDirection)
    (maxDepth : Nat) : Traversal :=
  (g.visit direction maxDepth)^[(start :: g.ends).length] ⟨[start], [], [(start, 0)], false⟩

def traverse (g : WorkflowDependencyGraph) (start : UInt64) (direction : DependencyDirection)
    (maxDepth : Nat) : DependencyTraversalResult :=
  let t := g.traversal start direction maxDepth
  ⟨t.visited, t.edgesTraversed,
    if t.visited.isEmpty then 0 else min t.edgesTraversed.length maxDepth, t.hasCycle⟩

def adjacent (g : WorkflowDependencyGraph) (direction : DependencyDirection) (key : UInt64) :
    List UInt64 := (g.neighbors direction key).map Prod.snd

/-- One of the edges leads from `u` to `v` in the direction of the traversal. -/
def Joins (g : WorkflowDependencyGraph) (direction : DependencyDirection)
    (edges : List DependencyEdge) (u v : UInt64) : Prop :=
  ∃ e ∈ edges, (e, v) ∈ g.neighbors direction u

/-- A traversal is a search that also keeps its edges. -/
structure Traces (g : WorkflowDependencyGraph) (direction : DependencyDirection) (start : UInt64)
    (t : Traversal) (s : Search UInt64) : Prop where
  queue : t.queue = s.queue
  visited : ∀ v, v ∈ t.visited ↔ v ∈ s.nodes
  nodup : t.visited.Nodup
  connected : ∀ v ∈ t.visited, ReflTransGen (g.Joins direction t.edgesTraversed) start v
  tree : t.visited.length ≤ t.edgesTraversed.length + 1
  hasCycle : t.hasCycle = false ↔ t.visited.length = t.edgesTraversed.length + 1

variable {t : Traversal} {s : Search UInt64} {direction : DependencyDirection} {start : UInt64}
  {maxDepth : Nat}

theorem Traces.foldl_follow {current : UInt64} (depth : Nat)
    {next : List (DependencyEdge × UInt64)} (hnext : ∀ n ∈ next, n ∈ g.neighbors direction current)
    (h : Traces g direction start t s) (hcurrent : current ∈ t.visited) :
    Traces g direction start (next.foldl (Traversal.follow depth) t)
      ((next.map Prod.snd).foldl (Search.enter depth) s) := by
  induction next generalizing t s with
  | nil => exact h
  | cons n next ih =>
    obtain ⟨hqueue, hvisited, hnodup, hconnected, htree, hcycle⟩ := h
    have hmono : ∀ v ∈ t.visited,
        ReflTransGen (g.Joins direction (t.edgesTraversed ++ [n.1])) start v := fun v hv =>
      ReflTransGen.mono (fun _ _ ⟨e, he, hjoin⟩ => ⟨e, mem_append_left _ he, hjoin⟩)
        _ _ (hconnected v hv)
    have hrest := fun m hm => hnext m (mem_cons_of_mem n hm)
    rw [foldl_cons, map_cons, foldl_cons, Traversal.follow, Search.enter]
    by_cases hn : n.2 ∈ t.visited
    · rw [if_pos hn, if_pos ((hvisited _).mp hn)]
      exact ih hrest ⟨hqueue, hvisited, hnodup, hmono, by simp; omega, by simp; omega⟩ hcurrent
    · rw [if_neg hn, if_neg (fun hs => hn ((hvisited _).mpr hs))]
      refine ih hrest ⟨by rw [hqueue], fun v => ?_, nodup_cons.mpr ⟨hn, hnodup⟩, ?_,
        by simpa using htree, by simpa using hcycle⟩ (mem_cons_of_mem _ hcurrent)
      · rw [mem_cons, hvisited, or_comm]
        simp [Search.nodes, Search.items, or_assoc]
      -- the new node is joined to the current one
      · refine forall_mem_cons.mpr ⟨(hmono current hcurrent).tail ⟨n.1, by simp, ?_⟩, hmono⟩
        exact hnext n mem_cons_self

theorem Traces.visit (h : Traces g direction start t s) :
    Traces g direction start (g.visit direction maxDepth t)
      (s.step (g.adjacent direction) maxDepth) := by
  rw [WorkflowDependencyGraph.visit, Search.step, h.queue]
  cases hqueue : s.queue with
  | nil => exact h
  | cons item queue =>
    have hpop : Traces g direction start { t with queue := queue } ⟨s.done ++ [item], queue⟩ :=
      { h with
        queue := rfl
        visited := fun v => by simp [h.visited, Search.nodes, Search.items, hqueue] }
    have hitem : item.1 ∈ t.visited := by
      rw [h.visited]
      simp [Search.nodes, Search.items, hqueue]
    dsimp only
    split
    · exact hpop
    · exact hpop.foldl_follow item.2 (fun _ hn => hn) hitem

theorem mem_ends_of_adjacent {v w : UInt64} (hw : w ∈ g.adjacent direction v) : w ∈ g.ends := by
  have hvalues : ∀ (m : AList fun _ : UInt64 => List DependencyEdge) e,
      e ∈ (m.lookup v).getD [] → e ∈ m.entries.flatMap (·.2) := by
    intro m e he
    cases hm : m.lookup v with
    | none => simp [hm] at he
    | some l => exact mem_flatMap.mpr ⟨_, AList.mem_lookup_iff.mp hm, by simpa [hm] using he⟩
  have hout := hvalues g.outgoing
  have hin := hvalues g.incoming
  rw [ends, mem_append]
  cases direction <;>
    grind [adjacent, neighbors, getDependencies, getDependents]

theorem traces_traversal (g : WorkflowDependencyGraph) (start : UInt64)
    (direction : DependencyDirection) (maxDepth : Nat) :
    Traces g direction start (g.traversal start direction maxDepth)
      ((Search.step (g.adjacent direction) maxDepth)^[(start :: g.ends).length]
        (.start start)) := by
  have hrounds : ∀ n, Traces g direction start
      ((g.visit direction maxDepth)^[n] ⟨[start], [], [(start, 0)], false⟩)
      ((Search.step (g.adjacent direction) maxDepth)^[n] (.start start)) := by
    intro n
    induction n with
    | zero =>
      refine ⟨rfl, by simp [Search.start, Search.nodes, Search.items], by simp, ?_, by simp,
        by simp⟩
      exact forall_mem_singleton.mpr .refl
    | succ n ih =>
      rw [Function.iterate_succ_apply', Function.iterate_succ_apply']
      exact ih.visit
  exact hrounds _

theorem mem_visited_iff (g : WorkflowDependencyGraph) (start : UInt64)
    (direction : DependencyDirection) (maxDepth : Nat) (v : UInt64) :
    v ∈ (g.traverse start direction maxDepth).visited
      ↔ ReachesIn (g.adjacent direction) maxDepth start v :=
  ((traces_traversal g start direction maxDepth).visited v).trans
    ((Search.iterate_step mem_cons_self fun _ _ hw =>
      mem_cons_of_mem _ (mem_ends_of_adjacent hw)).2 v)

/-- **Traversal** ends and visits the nodes within the bound, each once. Its edges connect them to
    the start, and no cycle is reported exactly if they are one fewer, as in a tree. -/
theorem traverse_exact (g : WorkflowDependencyGraph) (start : UInt64)
    (direction : DependencyDirection) (maxDepth : Nat) :
    let result := g.traverse start direction maxDepth
    (g.traversal start direction maxDepth).queue = []
      ∧ (∀ v, v ∈ result.visited ↔ ReachesIn (g.adjacent direction) maxDepth start v)
      ∧ result.visited.Nodup
      ∧ (∀ v ∈ result.visited, ReflTransGen (g.Joins direction result.edgesTraversed) start v)
      ∧ (result.hasCycle = false ↔ result.visited.length = result.edgesTraversed.length + 1) := by
  have htraces := traces_traversal g start direction maxDepth
  refine ⟨htraces.queue.trans (Search.iterate_step mem_cons_self fun _ _ hw => ?_).1,
    mem_visited_iff g start direction maxDepth, htraces.nodup, htraces.connected,
    htraces.hasCycle⟩
  exact mem_cons_of_mem _ (mem_ends_of_adjacent hw)

/-- **Upstream and downstream** are converse, at every depth. -/
theorem upstream_iff_downstream (ops : List Op) (u v : UInt64) (maxDepth : Nat) :
    v ∈ ((run ops).traverse u .upstream maxDepth).visited
      ↔ u ∈ ((run ops).traverse v .downstream maxDepth).visited := by
  have hadj : ∀ u v, v ∈ (run ops).adjacent .upstream u ↔ u ∈ (run ops).adjacent .downstream v := by
    intro u v
    simp only [adjacent, neighbors, (holds_run ops).dependencies, (holds_run ops).dependents]
    simp [and_assoc]
    grind
  rw [mem_visited_iff, mem_visited_iff, reachesIn_reverse hadj]

end WorkflowDependencyGraph

end Velocity
