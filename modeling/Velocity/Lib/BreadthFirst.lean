import Mathlib.Data.List.Nodup
import Mathlib.Data.List.Perm.Subperm
import Mathlib.Logic.Function.Iterate

namespace Velocity.Lib

open List

/-!
# Breadth-first search

A queue of nodes with their depths; those at the bound are not expanded.
-/

/-- **Loop rule.** A loop whose rounds each count one more, below `N`, is idle after `N` rounds. -/
theorem iterate_idle {σ : Type*} {step : σ → σ} (P idle : σ → Prop) (count : σ → Nat) {N : Nat}
    (hidle : ∀ s, idle s → step s = s)
    (hstep : ∀ s, P s → ¬ idle s → P (step s) ∧ count (step s) = count s + 1)
    (hroom : ∀ s, P s → ¬ idle s → count s < N) {s : σ} (hs : P s) :
    P (step^[N] s) ∧ idle (step^[N] s) := by
  have hrounds : ∀ n, P (step^[n] s) ∧ (idle (step^[n] s) ∨ count (step^[n] s) = count s + n) := by
    intro n
    induction n with
    | zero => exact ⟨hs, .inr rfl⟩
    | succ n ih =>
      rw [Function.iterate_succ_apply']
      by_cases h : idle (step^[n] s)
      · rw [hidle _ h]
        exact ⟨ih.1, .inl h⟩
      · obtain ⟨hnext, hcount⟩ := hstep _ ih.1 h
        exact ⟨hnext, .inr (by rw [hcount, ih.2.resolve_left h]; rfl)⟩
  refine ⟨(hrounds N).1, by_contra fun h => ?_⟩
  have hlt := hroom _ (hrounds N).1 h
  rw [(hrounds N).2.resolve_left h] at hlt
  omega

structure Search (α : Type*) where
  done : List (α × Nat)
  queue : List (α × Nat)

variable {α : Type*}

/-- There is a walk of at most so many steps. -/
def ReachesIn (adj : α → List α) : Nat → α → α → Prop
  | 0, u, v => u = v
  | n + 1, u, v => ReachesIn adj n u v ∨ ∃ w, ReachesIn adj n u w ∧ v ∈ adj w

theorem ReachesIn.head {adj : α → List α} {n : Nat} {u v w : α} (hv : v ∈ adj u)
    (h : ReachesIn adj n v w) : ReachesIn adj (n + 1) u w := by
  induction n generalizing w with
  | zero => exact .inr ⟨u, rfl, h ▸ hv⟩
  | succ n ih =>
    rcases h with h | ⟨x, hx, hw⟩
    · exact .inl (ih h)
    · exact .inr ⟨x, ih hx, hw⟩

theorem reachesIn_reverse {adj adj' : α → List α} (h : ∀ u v, v ∈ adj u ↔ u ∈ adj' v) {n : Nat}
    {u v : α} : ReachesIn adj n u v ↔ ReachesIn adj' n v u := by
  have hone : ∀ {adj adj' : α → List α}, (∀ u v, v ∈ adj u ↔ u ∈ adj' v) → ∀ {n u v},
      ReachesIn adj n u v → ReachesIn adj' n v u := by
    intro adj adj' h n
    induction n with
    | zero => exact fun huv => huv.symm
    | succ n ih =>
      rintro u v (huv | ⟨w, huw, hwv⟩)
      · exact .inl (ih huv)
      · exact (ih huw).head ((h w v).mp hwv)
  exact ⟨hone h, hone fun u v => (h v u).symm⟩

namespace Search

def items (s : Search α) : List (α × Nat) := s.done ++ s.queue

def nodes (s : Search α) : List α := s.items.map Prod.fst

def start (root : α) : Search α := ⟨[], [(root, 0)]⟩

variable [DecidableEq α]

def enter (depth : Nat) (s : Search α) (next : α) : Search α :=
  if next ∈ s.nodes then s else ⟨s.done, s.queue ++ [(next, depth + 1)]⟩

def step (adj : α → List α) (bound : Nat) (s : Search α) : Search α :=
  match s.queue with
  | [] => s
  | item :: queue =>
    (if bound ≤ item.2 then [] else adj item.1).foldl (enter item.2) ⟨s.done ++ [item], queue⟩

theorem foldl_enter (depth : Nat) (ws : List α) (s : Search α) (hs : s.nodes.Nodup) :
    ∃ new, ws.foldl (enter depth) s = ⟨s.done, s.queue ++ new⟩
      ∧ (∀ y ∈ new, y.2 = depth + 1 ∧ y.1 ∈ ws)
      ∧ (∀ w ∈ ws, w ∈ (s.items ++ new).map Prod.fst)
      ∧ ((s.items ++ new).map Prod.fst).Nodup := by
  induction ws generalizing s with
  | nil => exact ⟨[], by simp, by simp, by simp, by simpa [nodes] using hs⟩
  | cons w ws ih =>
    rw [foldl_cons, enter]
    by_cases hw : w ∈ s.nodes
    · rw [if_pos hw]
      obtain ⟨new, heq, hnew, hall, hnodup⟩ := ih s hs
      refine ⟨new, heq, fun y hy => ⟨(hnew y hy).1, mem_cons_of_mem _ (hnew y hy).2⟩, ?_, hnodup⟩
      refine forall_mem_cons.mpr ⟨?_, hall⟩
      rw [map_append]
      exact mem_append_left _ hw
    · rw [if_neg hw]
      have hitems : Search.items ⟨s.done, s.queue ++ [(w, depth + 1)]⟩
          = s.items ++ [(w, depth + 1)] := (append_assoc ..).symm
      obtain ⟨new, heq, hnew, hall, hnodup⟩ := ih ⟨s.done, s.queue ++ [(w, depth + 1)]⟩ (by
        rw [nodes, hitems, map_append]
        exact hs.append (by simp) (by simpa using hw))
      rw [hitems, append_assoc] at hall hnodup
      refine ⟨(w, depth + 1) :: new, by rw [heq, append_assoc]; rfl, ?_, ?_, hnodup⟩
      · refine forall_mem_cons.mpr ⟨⟨rfl, mem_cons_self⟩, fun y hy => ?_⟩
        exact ⟨(hnew y hy).1, mem_cons_of_mem _ (hnew y hy).2⟩
      · exact forall_mem_cons.mpr ⟨by simp, hall⟩

variable {adj : α → List α} {bound : Nat} {root : α} {s : Search α}

theorem step_cons (hs : s.nodes.Nodup) {x : α × Nat} {queue : List (α × Nat)}
    (hqueue : s.queue = x :: queue) :
    ∃ new, (s.step adj bound).done = s.done ++ [x] ∧ (s.step adj bound).queue = queue ++ new
      ∧ (s.step adj bound).items = s.items ++ new ∧ (s.step adj bound).nodes.Nodup
      ∧ (∀ y ∈ new, y.2 = x.2 + 1 ∧ x.2 < bound ∧ y.1 ∈ adj x.1)
      ∧ (x.2 < bound → ∀ w ∈ adj x.1, ∃ y ∈ s.items ++ new, y.1 = w) := by
  have hitems : Search.items ⟨s.done ++ [x], queue⟩ = s.items := by
    simp [Search.items, hqueue]
  obtain ⟨new, heq, hnew, hall, hnodup⟩ := foldl_enter x.2
    (if bound ≤ x.2 then [] else adj x.1) ⟨s.done ++ [x], queue⟩
    (by rw [nodes, hitems]; exact hs)
  have hstep : s.step adj bound = ⟨s.done ++ [x], queue ++ new⟩ := by
    simp only [Search.step, hqueue, heq]
  have hitems' : (s.step adj bound).items = s.items ++ new := by
    simp [hstep, Search.items, hqueue]
  rw [hitems] at hall hnodup
  refine ⟨new, by rw [hstep], by rw [hstep], hitems', by rw [nodes, hitems']; exact hnodup,
    fun y hy => ⟨(hnew y hy).1, ?_⟩, fun hlt w hw => ?_⟩
  · have hmem := (hnew y hy).2
    split at hmem
    · cases hmem
    · next hlt => exact ⟨Nat.lt_of_not_le hlt, hmem⟩
  · rw [if_neg (Nat.not_le_of_lt hlt)] at hall
    exact mem_map.mp (hall w hw)

/-! ### The invariant -/

structure Inv (adj : α → List α) (bound : Nat) (root : α) (s : Search α) : Prop where
  begun : (root, 0) ∈ s.items
  nodup : s.nodes.Nodup
  reached : ∀ x ∈ s.items, x.2 ≤ bound ∧ ReachesIn adj x.2 root x.1
  sorted : s.items.Pairwise fun x y => x.2 ≤ y.2
  near : ∀ x ∈ s.queue.head?, ∀ y ∈ s.items, y.2 ≤ x.2 + 1
  expanded : ∀ x ∈ s.done, x.2 < bound → ∀ w ∈ adj x.1, ∃ y ∈ s.items, y.1 = w ∧ y.2 ≤ x.2 + 1

theorem Inv.step (h : Inv adj bound root s) : Inv adj bound root (s.step adj bound) := by
  cases hqueue : s.queue with
  | nil => rwa [Search.step, hqueue]
  | cons x queue =>
    obtain ⟨new, hdone, hrest, hitems, hnodup, hnew, hall⟩ :=
      step_cons h.nodup hqueue
    have hx : x ∈ s.items := by simp [Search.items, hqueue]
    have hnear : ∀ y ∈ s.items ++ new, y.2 ≤ x.2 + 1 := forall_mem_append.mpr
      ⟨h.near x (by rw [hqueue]; rfl), fun y hy => Nat.le_of_eq (hnew y hy).1⟩
    have hlater : ∀ y ∈ queue ++ new, x.2 ≤ y.2 := by
      have hsorted := h.sorted
      rw [Search.items, hqueue, pairwise_append, pairwise_cons] at hsorted
      exact forall_mem_append.mpr ⟨hsorted.2.1.1, fun y hy => (hnew y hy).1 ▸ Nat.le_succ _⟩
    refine ⟨hitems ▸ mem_append_left _ h.begun, hnodup, ?_, ?_, ?_, ?_⟩
    · rw [hitems]
      refine forall_mem_append.mpr ⟨h.reached, fun y hy => ?_⟩
      obtain ⟨hdepth, hlt, hmem⟩ := hnew y hy
      rw [hdepth]
      exact ⟨hlt, .inr ⟨x.1, (h.reached x hx).2, hmem⟩⟩
    · rw [hitems, pairwise_append]
      refine ⟨h.sorted, pairwise_of_forall_mem_list fun y hy z hz => ?_, fun y hy z hz => ?_⟩
      · exact Nat.le_of_eq ((hnew y hy).1.trans (hnew z hz).1.symm)
      · rw [(hnew z hz).1]
        exact hnear y (mem_append_left _ hy)
    · rw [hitems, hrest]
      intro x' hx' y hy
      exact Nat.le_trans (hnear y hy) (Nat.succ_le_succ (hlater x' (mem_of_mem_head? hx')))
    · rw [hitems, hdone]
      refine forall_mem_append.mpr ⟨fun y hy hlt w hw => ?_, ?_⟩
      · obtain ⟨z, hz, hzw⟩ := h.expanded y hy hlt w hw
        exact ⟨z, mem_append_left _ hz, hzw⟩
      · rintro y hy hlt w hw
        obtain rfl := mem_singleton.mp hy
        obtain ⟨z, hz, hzw⟩ := hall hlt w hw
        exact ⟨z, hz, hzw, hnear z hz⟩

/-! ### The whole search -/

omit [DecidableEq α] in
theorem inv_start (adj : α → List α) (bound : Nat) (root : α) :
    Inv adj bound root (start root) where
  begun := by simp [start, items]
  nodup := by simp [start, items, nodes]
  reached := by simp [start, items, ReachesIn]
  sorted := by simp [start, items]
  near := by simp [start, items]
  expanded := by simp [start]

omit [DecidableEq α] in
theorem Inv.mem_nodes_iff (h : Inv adj bound root s) (hqueue : s.queue = []) {v : α} :
    v ∈ s.nodes ↔ ReachesIn adj bound root v := by
  have hmono : ∀ {m n : Nat} {w : α}, m ≤ n → ReachesIn adj m root w → ReachesIn adj n root w := by
    intro m n w hmn hw
    induction hmn with
    | refl => exact hw
    | step _ ih => exact .inl ih
  have hcomplete : ∀ n, n ≤ bound → ∀ w, ReachesIn adj n root w →
      ∃ y ∈ s.items, y.1 = w ∧ y.2 ≤ n := by
    intro n
    induction n with
    | zero =>
      rintro _ w rfl
      exact ⟨_, h.begun, rfl, Nat.le_refl 0⟩
    | succ n ih =>
      rintro hn w (hw | ⟨u, hu, hw⟩)
      · obtain ⟨y, hy, hyw, hle⟩ := ih (Nat.le_of_succ_le hn) w hw
        exact ⟨y, hy, hyw, Nat.le_succ_of_le hle⟩
      · obtain ⟨y, hy, rfl, hle⟩ := ih (Nat.le_of_succ_le hn) u hu
        have hdone : y ∈ s.done := by simpa [items, hqueue] using hy
        obtain ⟨z, hz, hzw, hzle⟩ := h.expanded y hdone (Nat.lt_of_le_of_lt hle hn) w hw
        exact ⟨z, hz, hzw, Nat.le_trans hzle (Nat.succ_le_succ hle)⟩
  constructor
  · intro hv
    obtain ⟨y, hy, rfl⟩ := mem_map.mp hv
    exact hmono (h.reached y hy).1 (h.reached y hy).2
  · intro hv
    obtain ⟨y, hy, rfl, -⟩ := hcomplete bound (Nat.le_refl _) v hv
    exact mem_map_of_mem hy

/-- **Breadth-first search** empties the queue and finds the nodes within the bound. -/
theorem iterate_step {U : List α} (hroot : root ∈ U) (hadj : ∀ v, ∀ w ∈ adj v, w ∈ U) :
    ((step adj bound)^[U.length] (start root)).queue = []
      ∧ ∀ v, v ∈ ((step adj bound)^[U.length] (start root)).nodes ↔ ReachesIn adj bound root v := by
  have hsub : ∀ v, ∀ n, ReachesIn adj n root v → v ∈ U := by
    intro v n hv
    induction n with
    | zero => exact hv ▸ hroot
    | succ n ih =>
      rcases hv with hv | ⟨w, -, hw⟩
      · exact ih hv
      · exact hadj w v hw
  have hstep : ∀ s, Inv adj bound root s → ¬ s.queue = [] →
      Inv adj bound root (s.step adj bound)
        ∧ (s.step adj bound).done.length = s.done.length + 1 := by
    intro s h hne
    obtain ⟨x, queue, hqueue⟩ := exists_cons_of_ne_nil hne
    obtain ⟨new, hdone, -⟩ := @step_cons _ _ adj bound s h.nodup x queue hqueue
    exact ⟨h.step, by rw [hdone, length_append]; rfl⟩
  have hroom : ∀ s, Inv adj bound root s → ¬ s.queue = [] → s.done.length < U.length := by
    intro s h hne
    have hall : s.nodes ⊆ U := by
      intro v hv
      obtain ⟨y, hy, rfl⟩ := mem_map.mp hv
      exact hsub _ _ (h.reached y hy).2
    have hle := (subperm_of_subset h.nodup hall).length_le
    have hpos := length_pos_iff.mpr hne
    simp only [nodes, items, length_map, length_append] at hle
    omega
  obtain ⟨hinv, hqueue⟩ := iterate_idle _ (·.queue = []) (·.done.length)
    (fun s h => by rw [Search.step, h]) hstep hroom (inv_start adj bound root)
  exact ⟨hqueue, fun v => hinv.mem_nodes_iff hqueue⟩

end Search

end Velocity.Lib
