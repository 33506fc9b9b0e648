import Velocity.Lib.Keyed
import Velocity.Lib.Run

namespace Velocity

open Lib List

/-!
# The LRU cache

`get` moves its key to the front of the order, `put` puts only a new key there.
-/

structure CacheNode (ν : Type) where
  value : ν
  lastAccessed : Nat
  pinned : Bool
  ttl : Option Nat

structure LruCache (κ ν : Type) [DecidableEq κ] where
  entries : AList fun _ : κ => CacheNode ν
  order : List κ
  capacity : Nat
  defaultTtl : Option Nat

inductive CacheOp (κ ν : Type) where
  | get (now : Nat) (key : κ)
  | put (now : Nat) (key : κ) (value : ν)
  | remove (key : κ)

variable {κ ν : Type} [DecidableEq κ]

namespace LruCache

def new (capacity : Nat) : LruCache κ ν := ⟨∅, [], capacity, none⟩

variable (c : LruCache κ ν)

def remove (key : κ) : Option ν × LruCache κ ν :=
  match c.entries.lookup key with
  | none => (none, c)
  | some node =>
    (some node.value, { c with entries := c.entries.erase key, order := c.order.erase key })

def get (now : Nat) (key : κ) : Option ν × LruCache κ ν :=
  match c.entries.lookup key with
  | none => (none, c)
  | some node =>
    if node.ttl.any (now - node.lastAccessed > ·) then (none, (c.remove key).2)
    else (some node.value, { c with
      entries := c.entries.insert key { node with lastAccessed := now }
      order := key :: c.order.erase key })

def evictOne : LruCache κ ν :=
  match (range c.order.length).reverse.find? fun i =>
      (c.order[i]?.bind c.entries.lookup).any (!·.pinned) with
  | none => c
  | some pos =>
    { c with
      entries := c.order[pos]?.elim c.entries c.entries.erase
      order := c.order.eraseIdx pos }

def putWithTtl (now : Nat) (key : κ) (value : ν) (ttl : Option Nat) : LruCache κ ν :=
  match c.entries.lookup key with
  | some node =>
    { c with entries := c.entries.insert key { node with
        value := value, lastAccessed := now, ttl := ttl.or c.defaultTtl } }
  | none =>
    let c := if c.capacity ≤ c.entries.keys.length then c.evictOne else c
    { c with
      entries := c.entries.insert key ⟨value, now, false, ttl.or c.defaultTtl⟩
      order := key :: c.order }

def put (now : Nat) (key : κ) (value : ν) : LruCache κ ν := c.putWithTtl now key value none

def step : CacheOp κ ν → LruCache κ ν
  | .get now key => (c.get now key).2
  | .put now key value => c.put now key value
  | .remove key => (c.remove key).2

def contents : List (κ × ν) :=
  c.order.filterMap fun key => (c.entries.lookup key).map fun node => (key, node.value)

end LruCache

/-! ### The abstract cache -/

abbrev RecencyList (κ ν : Type) := List (κ × ν)

namespace RecencyList

variable (l : RecencyList κ ν)

def get (key : κ) : Option ν := (l.find? (·.1 == key)).map Prod.snd

def without (key : κ) : RecencyList κ ν := l.filter (·.1 != key)

def put (capacity : Nat) (key : κ) (value : ν) : RecencyList κ ν :=
  (key, value) ::
    (if key ∈ l.map Prod.fst ∨ l.length < capacity then l.without key else l.dropLast)

def step (capacity : Nat) : CacheOp κ ν → RecencyList κ ν
  | .get _ key => (l.get key).elim l fun value => (key, value) :: l.without key
  | .put _ key value => l.put capacity key value
  | .remove key => l.without key

/-- A `put` is of a new key, or of the one used last. -/
def PutsInOrder : CacheOp κ ν → Prop
  | .put _ key _ => key ∉ l.map Prod.fst ∨ (l.map Prod.fst).head? = some key
  | _ => True

end RecencyList

structure Caches (c : LruCache κ ν) (l : RecencyList κ ν) : Prop where
  order : c.order = l.map Prod.fst
  keys : c.entries.keys ~ l.map Prod.fst
  nodes : ∀ p ∈ l, ∃ node, c.entries.lookup p.1 = some node ∧ node.value = p.2
    ∧ node.pinned = false ∧ node.ttl = none
  noTtl : c.defaultTtl = none
  room : l.length ≤ c.capacity
  pos : 0 < c.capacity

namespace Caches

variable {c : LruCache κ ν} {l : RecencyList κ ν} {k : κ}

theorem nodup (h : Caches c l) : (l.map Prod.fst).Nodup :=
  h.keys.nodup_iff.mp c.entries.nodupKeys

theorem lookup_eq_none (h : Caches c l) : c.entries.lookup k = none ↔ k ∉ l.map Prod.fst := by
  rw [AList.lookup_eq_none, AList.mem_keys, h.keys.mem_iff]

theorem mem_of_lookup (h : Caches c l) {node : CacheNode ν}
    (hk : c.entries.lookup k = some node) :
    (k, node.value) ∈ l ∧ node.pinned = false ∧ node.ttl = none := by
  have hmem : k ∈ l.map Prod.fst := by
    by_contra hnot
    rw [h.lookup_eq_none.mpr hnot] at hk
    cases hk
  obtain ⟨p, hp, rfl⟩ := mem_map.mp hmem
  obtain ⟨node', hnode, hvalue, hplain⟩ := h.nodes p hp
  obtain rfl := Option.some.inj (hk.symm.trans hnode)
  exact ⟨hvalue ▸ hp, hplain⟩

theorem without_eq_self (hk : k ∉ l.map Prod.fst) : l.without k = l :=
  filter_eq_self.mpr fun _ hp => bne_iff_ne.mpr (ne_of_mem_of_not_mem (mem_map_of_mem hp) hk)

theorem contents_eq (h : Caches c l) : c.contents = l := by
  rw [LruCache.contents, h.order, filterMap_map]
  refine (filterMap_congr fun p hp => ?_).trans filterMap_some
  obtain ⟨node, hnode, hvalue, _⟩ := h.nodes p hp
  simp [hnode, hvalue]

theorem without (h : Caches c l) (k : κ) :
    Caches { c with entries := c.entries.erase k, order := c.order.erase k } (l.without k) := by
  have hkeys : (l.without k).map Prod.fst = (l.map Prod.fst).erase k := by
    rw [h.nodup.erase_eq_filter, filter_map]
    rfl
  refine ⟨by rw [hkeys, h.order], ?_, fun p hp => ?_, h.noTtl,
    (length_filter_le _ l).trans h.room, h.pos⟩
  · rw [hkeys, AList.keys_erase]
    exact h.keys.erase k
  · obtain ⟨hp, hne⟩ := mem_filter.mp hp
    rw [lookup_erase_eq_ite, if_neg (by simpa using hne)]
    exact h.nodes p hp

theorem cons (h : Caches c l) (hk : k ∉ l.map Prod.fst) (hroom : l.length < c.capacity)
    {node : CacheNode ν} (hplain : node.pinned = false ∧ node.ttl = none) :
    Caches { c with entries := c.entries.insert k node, order := k :: c.order }
      ((k, node.value) :: l) := by
  refine ⟨by rw [h.order, map_cons], ?_, fun p hp => ?_, h.noTtl, hroom, h.pos⟩
  · rw [AList.keys_insert, map_cons]
    exact ((h.keys.erase k).trans (by rw [erase_of_not_mem hk])).cons k
  · rw [lookup_insert_eq_ite]
    rcases mem_cons.mp hp with rfl | hp
    · exact ⟨node, if_pos rfl, rfl, hplain⟩
    · rw [if_neg (ne_of_mem_of_not_mem (mem_map_of_mem hp) hk)]
      exact h.nodes p hp

theorem front (h : Caches c l) {old n : CacheNode ν} (hk : c.entries.lookup k = some old)
    (hplain : n.pinned = false ∧ n.ttl = none) :
    Caches { c with entries := c.entries.insert k n, order := k :: c.order.erase k }
      ((k, n.value) :: l.without k) := by
  have hmem := (h.mem_of_lookup hk).1
  have hlt : (l.without k).length < l.length :=
    length_filter_lt_length_iff_exists.mpr ⟨_, hmem, by simp⟩
  have hnew := (h.without k).cons (k := k) (by simp [RecencyList.without]) (hlt.trans_le h.room)
    hplain
  have herase : (c.entries.erase k).insert k n = c.entries.insert k n := by
    apply AList.ext
    rw [AList.entries_insert, AList.entries_insert]
    exact congrArg _ (kerase_of_notMem_keys (notMem_keys_kerase k c.entries.nodupKeys))
  rwa [herase] at hnew

theorem capacity_evictOne (c : LruCache κ ν) : c.evictOne.capacity = c.capacity := by
  unfold LruCache.evictOne
  split <;> rfl

theorem evictOne {p : κ × ν} (h : Caches c (l ++ [p])) : Caches c.evictOne l := by
  have hnodup := h.nodup
  rw [map_append, map_singleton] at hnodup
  have hnot : p.1 ∉ l.map Prod.fst := fun hmem => (disjoint_of_nodup_append hnodup) hmem (by simp)
  have hwithout : (l ++ [p]).without p.1 = l := by
    rw [RecencyList.without, filter_append, ← RecencyList.without, without_eq_self hnot]
    simp
  have horder : c.order = l.map Prod.fst ++ [p.1] := by rw [h.order, map_append, map_singleton]
  have hlast : c.order[l.length]? = some p.1 := by simp [horder]
  obtain ⟨node, hnode, -, hpinned, -⟩ := h.nodes p (by simp)
  have hfind : (range c.order.length).reverse.find? (fun i =>
      (c.order[i]?.bind c.entries.lookup).any (!·.pinned)) = some l.length := by
    rw [show c.order.length = l.length + 1 by simp [horder], range_succ, reverse_append]
    simp [hlast, hnode, hpinned]
  have hnew := h.without p.1
  rw [hwithout, horder, erase_append_right _ hnot, erase_cons_head, append_nil] at hnew
  rw [LruCache.evictOne, hfind]
  simp only [hlast, Option.elim]
  rwa [horder, eraseIdx_append_of_length_le (by simp), length_map, Nat.sub_self, eraseIdx_cons_zero,
    append_nil]

theorem get (h : Caches c l) (now : Nat) (k : κ) :
    (c.get now k).1 = l.get k ∧ Caches (c.get now k).2 (l.step c.capacity (.get now k)) := by
  rw [LruCache.get, RecencyList.step]
  cases hk : c.entries.lookup k with
  | none =>
    have hnone : l.find? (·.1 == k) = none := find?_eq_none.mpr fun p hp heq =>
      h.lookup_eq_none.mp hk (eq_of_beq heq ▸ mem_map_of_mem hp)
    rw [RecencyList.get, hnone]
    exact ⟨rfl, h⟩
  | some node =>
    obtain ⟨hmem, hplain⟩ := h.mem_of_lookup hk
    have hget : l.get k = some node.value := by
      have hsome : (l.find? (·.1 == k)).isSome := find?_isSome.mpr ⟨_, hmem, beq_self_eq_true k⟩
      obtain ⟨p, hp⟩ := Option.isSome_iff_exists.mp hsome
      have heq := inj_on_of_nodup_map h.nodup (mem_of_find?_eq_some hp) hmem
        (by simpa using find?_some hp)
      rw [RecencyList.get, hp, heq, Option.map_some]
    simp only [hget]
    rw [if_neg (by simp [hplain.2])]
    exact ⟨rfl, h.front (n := { node with lastAccessed := now }) hk hplain⟩

theorem remove (h : Caches c l) (k : κ) : Caches (c.remove k).2 (l.without k) := by
  rw [LruCache.remove]
  cases hk : c.entries.lookup k with
  | none => rwa [without_eq_self (h.lookup_eq_none.mp hk)]
  | some node => exact h.without k

theorem put (h : Caches c l) (now : Nat) (v : ν)
    (hk : k ∉ l.map Prod.fst ∨ (l.map Prod.fst).head? = some k) :
    Caches (c.put now k v) (l.put c.capacity k v) := by
  rw [LruCache.put, LruCache.putWithTtl, RecencyList.put]
  rcases hk with hk | hk
  · have hlength : c.entries.keys.length = l.length := by rw [h.keys.length_eq, length_map]
    simp only [h.lookup_eq_none.mpr hk, hlength, hk, false_or]
    by_cases hroom : l.length < c.capacity
    · rw [if_neg (Nat.not_le.mpr hroom), if_pos hroom, without_eq_self hk]
      exact h.cons hk hroom ⟨rfl, h.noTtl⟩
    · rw [if_pos (Nat.not_lt.mp hroom), if_neg hroom]
      obtain rfl | ⟨init, p, rfl⟩ := l.eq_nil_or_concat'
      · exact absurd h.pos hroom
      · rw [dropLast_concat]
        have hlt : init.length < c.evictOne.capacity := by
          have := h.room
          rw [length_append] at this
          rwa [capacity_evictOne]
        refine h.evictOne.cons (fun hmem => hk ?_) hlt ⟨rfl, h.evictOne.noTtl⟩
        rw [map_append]
        exact mem_append_left _ hmem
  · obtain ⟨q, hq, rfl⟩ := mem_map.mp (mem_of_head? hk)
    obtain ⟨old, hold, -, hplain⟩ := h.nodes q hq
    have horder : q.1 :: c.order.erase q.1 = c.order := by
      obtain ⟨rest, hrest⟩ := head?_eq_some_iff.mp hk
      rw [h.order, hrest, erase_cons_head]
    have hnew := h.front (n := ⟨v, now, old.pinned, Option.or none c.defaultTtl⟩) hold
      ⟨hplain.1, h.noTtl⟩
    rw [horder] at hnew
    simp only [hold]
    rwa [if_pos (.inl (mem_map_of_mem hq))]

theorem head_of_put (h : Caches c l) {now : Nat} {v : ν}
    (hput : (c.put now k v).contents = l.put c.capacity k v) :
    k ∉ l.map Prod.fst ∨ (l.map Prod.fst).head? = some k := by
  refine or_iff_not_imp_left.mpr fun hk => ?_
  obtain ⟨old, hold⟩ := Option.ne_none_iff_exists'.mp (mt h.lookup_eq_none.mp hk)
  cases l with
  | nil => simp at hk
  | cons q rest =>
    by_contra hne
    have hne : q.1 ≠ k := fun heq => hne (by rw [← heq, map_cons, head?_cons])
    obtain ⟨node, hnode, -⟩ := h.nodes q mem_cons_self
    simp only [LruCache.put, LruCache.putWithTtl, hold, LruCache.contents, h.order,
      map_cons] at hput
    rw [filterMap_cons, lookup_insert_eq_ite, if_neg hne, hnode] at hput
    exact hne (congrArg Prod.fst (cons.inj hput).1)

end Caches

def stepBoth (s : LruCache κ ν × RecencyList κ ν) (op : CacheOp κ ν) :
    LruCache κ ν × RecencyList κ ν :=
  (s.1.step op, s.2.step s.1.capacity op)

/-- The cache holds and answers what the abstract one does. -/
def Agrees (s : LruCache κ ν × RecencyList κ ν) : Prop :=
  s.1.contents = s.2 ∧ s.1.entries.keys.length ≤ s.1.capacity
    ∧ ∀ now key, (s.1.get now key).1 = s.2.get key

/-- **Recency** holds along a run iff every key put is new or the most recently used. -/
theorem lru_iff {capacity : Nat} (hpos : 0 < capacity) (ops : List (CacheOp κ ν)) :
    (∀ ps, ps <+: ops → Agrees (ps.foldl stepBoth (.new capacity, [])))
      ↔ StepsMeet stepBoth (fun s => s.2.PutsInOrder) (.new capacity, []) ops := by
  refine forall_prefixes_iff_stepsMeet (I := fun s => Caches s.1 s.2)
    (fun s h => ⟨h.contents_eq, by simpa using h.keys.length_eq.trans_le (by simpa using h.room),
      fun now key => (h.get now key).1⟩)
    (fun s op h _ hop => ?_) (fun s op h _ hagrees => ?_)
    ⟨rfl, by simp [LruCache.new], by simp, rfl, Nat.zero_le _, hpos⟩
    (stepsMeet_of_mem fun _ _ _ => trivial)
  · cases op with
    | get now key => exact (h.get now key).2
    | put now key value => exact h.put now value hop
    | remove key => exact h.remove key
  · cases op with
    | put now key value => exact h.head_of_put hagrees.1
    | _ => trivial

theorem lru_iff_get : StepsMeet stepBoth (fun s => s.2.PutsInOrder) (.new 2, [])
      [.put 0 1 10, .put 0 2 20, .get 0 1, .put 0 3 30]
    ∧ Agrees ([.put 0 1 10, .put 0 2 20, .get 0 1, .put 0 3 30].foldl stepBoth
      ((.new 2, []) : LruCache Nat Nat × RecencyList Nat Nat)) :=
  have h := ⟨.inl (by decide), .inl (by decide), trivial, .inl (by decide), trivial⟩
  ⟨h, (lru_iff (by decide) _).mpr h _ (prefix_refl _)⟩

theorem put_not_recent :
    let s := [.put 0 1 10, .put 0 2 20, .put 0 1 11, .put 0 3 30].foldl stepBoth
      ((.new 2, []) : LruCache Nat Nat × RecencyList Nat Nat)
    s.1.contents = [(3, 30), (2, 20)] ∧ s.2 = [(3, 30), (1, 11)] := by
  decide

end Velocity
