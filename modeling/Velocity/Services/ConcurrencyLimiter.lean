import Velocity.Lib.Keyed
import Velocity.Lib.Run

namespace Velocity

open Lib List

/-!
# The concurrency limiter

`commit_acquire` counts only where `acquire` has made a counter.
-/

inductive OverflowPolicy where
  | reject
  | queue
  | preempt

structure ConcurrencyConfig where
  maxPerType : UInt32
  maxPerNamespace : UInt32
  maxGlobal : UInt32
  overflowPolicy : OverflowPolicy
  maxQueueDepth : UInt32

inductive AcquireResult where
  | acquired
  | rejected
  | queued (position : Nat)

structure QueuedRequest where
  workflowKey : UInt64
  workflowTypeId : UInt64
  namespaceId : UInt64
  priority : UInt8
  queuedAt : Nat

structure SlotLimiter where
  active : Nat
  limit : Nat

/-! ### Counters by id -/

abbrev SlotLimiters := AList fun _ : UInt64 => SlotLimiter

namespace SlotLimiters

variable (m : SlotLimiters) (id : UInt64)

def orInsert (limit : UInt32) : SlotLimiters :=
  if (m.lookup id).isSome then m else m.insert id ⟨0, limit.toNat⟩

def full : Bool := (m.lookup id).any fun l => l.limit ≤ l.active

def increment : SlotLimiters := modifyKey m id fun l => { l with active := l.active + 1 }

def decrement : SlotLimiters := modifyKey m id fun l => { l with active := l.active - 1 }

def total : Nat := valueSum SlotLimiter.active m

end SlotLimiters

/-! ### The limiter -/

structure WorkflowConcurrencyLimiter where
  config : ConcurrencyConfig
  perType : SlotLimiters
  perNamespace : SlotLimiters
  globalActive : Nat
  queue : List QueuedRequest

namespace WorkflowConcurrencyLimiter

def new (config : ConcurrencyConfig) : WorkflowConcurrencyLimiter := ⟨config, ∅, ∅, 0, []⟩

variable (s : WorkflowConcurrencyLimiter)

def commitAcquire (typeId ns : UInt64) : WorkflowConcurrencyLimiter :=
  { s with
    globalActive := (s.globalActive + 1) % 2 ^ 64
    perType := s.perType.increment typeId
    perNamespace := s.perNamespace.increment ns }

def handleOverflow (key typeId ns : UInt64) (priority : UInt8) :
    AcquireResult × WorkflowConcurrencyLimiter :=
  match s.config.overflowPolicy with
  | .reject | .preempt => (.rejected, s)
  | .queue =>
    if s.queue.length ≥ s.config.maxQueueDepth.toNat then (.rejected, s)
    else (.queued s.queue.length,
      { s with queue := s.queue ++ [⟨key, typeId, ns, priority, s.queue.length⟩] })

def acquire (key typeId ns : UInt64) (priority : UInt8) :
    AcquireResult × WorkflowConcurrencyLimiter :=
  if s.globalActive ≥ s.config.maxGlobal.toNat then s.handleOverflow key typeId ns priority
  else
    let s := { s with perType := s.perType.orInsert typeId s.config.maxPerType }
    if s.perType.full typeId then s.handleOverflow key typeId ns priority
    else
      let s := { s with perNamespace := s.perNamespace.orInsert ns s.config.maxPerNamespace }
      if s.perNamespace.full ns then s.handleOverflow key typeId ns priority
      else (.acquired, s.commitAcquire typeId ns)

def tryDequeue : Option QueuedRequest × WorkflowConcurrencyLimiter :=
  match s.queue with
  | [] => (none, s)
  | request :: rest =>
    if s.globalActive ≥ s.config.maxGlobal.toNat then (none, s)
    else if s.perType.full request.workflowTypeId then (none, s)
    else if s.perNamespace.full request.namespaceId then (none, s)
    else (some request,
      { s with queue := rest }.commitAcquire request.workflowTypeId request.namespaceId)

def giveBack (typeId ns : UInt64) : WorkflowConcurrencyLimiter :=
  { s with
    globalActive := (s.globalActive + (2 ^ 64 - 1)) % 2 ^ 64
    perType := s.perType.decrement typeId
    perNamespace := s.perNamespace.decrement ns }

def release (typeId ns : UInt64) : Option QueuedRequest × WorkflowConcurrencyLimiter :=
  (s.giveBack typeId ns).tryDequeue

end WorkflowConcurrencyLimiter

inductive LimiterOp where
  | acquire (key typeId ns : UInt64) (priority : UInt8)
  | release (typeId ns : UInt64)

structure LimiterRun where
  limiter : WorkflowConcurrencyLimiter
  admitted : List (UInt64 × UInt64)

namespace LimiterRun

variable (s : LimiterRun)

def step : LimiterOp → LimiterRun
  | .acquire key typeId ns priority =>
    match s.limiter.acquire key typeId ns priority with
    | (.acquired, limiter) => ⟨limiter, (typeId, ns) :: s.admitted⟩
    | (_, limiter) => ⟨limiter, s.admitted⟩
  | .release typeId ns =>
    match s.limiter.release typeId ns with
    | (some q, limiter) =>
      ⟨limiter, (q.workflowTypeId, q.namespaceId) :: s.admitted.erase (typeId, ns)⟩
    | (none, limiter) => ⟨limiter, s.admitted.erase (typeId, ns)⟩

/-- Only an admitted request is released. -/
def Releases : LimiterOp → Prop
  | .acquire .. => True
  | .release typeId ns => (typeId, ns) ∈ s.admitted

/-- All counts agree with the requests admitted and keep their limits. -/
def Enforced : Prop :=
  s.limiter.globalActive = s.admitted.length
    ∧ s.limiter.perType.total = s.limiter.globalActive
    ∧ s.limiter.perNamespace.total = s.limiter.globalActive
    ∧ (∀ id, ∀ l ∈ s.limiter.perType.lookup id, l.active ≤ s.limiter.config.maxPerType.toNat)
    ∧ (∀ id, ∀ l ∈ s.limiter.perNamespace.lookup id,
        l.active ≤ s.limiter.config.maxPerNamespace.toNat)
    ∧ s.limiter.globalActive ≤ s.limiter.config.maxGlobal.toNat

/-- The request in front of the queue has its counters, or stays queued. -/
def CountersMade : LimiterOp → Prop
  | .acquire .. => True
  | .release typeId ns => ∀ q ∈ s.limiter.queue.head?,
      (q.workflowTypeId ∈ s.limiter.perType ∧ q.namespaceId ∈ s.limiter.perNamespace)
        ∨ (s.limiter.perType.full q.workflowTypeId ∧ q.workflowTypeId ≠ typeId)
        ∨ (s.limiter.perNamespace.full q.namespaceId ∧ q.namespaceId ≠ ns)

end LimiterRun

/-! ### One map of counters -/

namespace SlotLimiters

variable {m : SlotLimiters} {limit : UInt32} {id : UInt64} {ids : List UInt64}

structure Counts (m : SlotLimiters) (limit : UInt32) (ids : List UInt64) : Prop where
  total : m.total = ids.length
  each : ∀ id, (m.lookup id).elim 0 SlotLimiter.active = ids.count id
  within : ∀ id, ∀ l ∈ m.lookup id, l.active ≤ l.limit ∧ l.limit = limit.toNat

theorem Counts.perm {ids' : List UInt64} (h : m.Counts limit ids) (hperm : ids.Perm ids') :
    m.Counts limit ids' :=
  ⟨h.total.trans hperm.length_eq, fun id => (h.each id).trans (hperm.count_eq id), h.within⟩

theorem Counts.orInsert (h : m.Counts limit ids) : (m.orInsert id limit).Counts limit ids := by
  rw [SlotLimiters.orInsert]
  split
  · exact h
  · next hnone =>
    rw [Option.not_isSome_iff_eq_none] at hnone
    refine ⟨?_, fun id' => ?_, fun id' => ?_⟩
    · rw [← h.total]
      exact valueSum_insert_of_share (d := 0) (by rw [hnone]; rfl)
    · have := h.each id'
      grind [lookup_insert_eq_ite]
    · have := h.within id'
      grind [lookup_insert_eq_ite]

theorem mem_orInsert : id ∈ m.orInsert id limit := by
  rw [← AList.lookup_isSome, SlotLimiters.orInsert]
  split
  · assumption
  · rw [AList.lookup_insert, Option.isSome_some]

theorem Counts.increment (h : m.Counts limit ids) (hmem : id ∈ m) (hfull : ¬ m.full id) :
    (m.increment id).Counts limit (id :: ids) := by
  obtain ⟨l, hl⟩ := Option.isSome_iff_exists.mp (AList.lookup_isSome.mpr hmem)
  have hlt : l.active < l.limit := by simpa [full, hl] using hfull
  rw [SlotLimiters.increment, modifyKey, hl]
  refine ⟨?_, fun id' => ?_, fun id' => ?_⟩
  · rw [length_cons, ← h.total]
    exact valueSum_insert_of_share (by rw [hl]; rfl)
  · have := h.each id'
    grind [lookup_insert_eq_ite]
  · have := h.within id'
    grind [lookup_insert_eq_ite]

theorem Counts.decrement (h : m.Counts limit (id :: ids)) :
    (m.decrement id).Counts limit ids
      ∧ ∀ id', (m.decrement id).full id' ↔ m.full id' ∧ id' ≠ id := by
  have hpos := h.each id
  rw [count_cons_self] at hpos
  obtain ⟨l, hl⟩ : ∃ l, m.lookup id = some l := by
    refine Option.ne_none_iff_exists'.mp fun hnone => ?_
    rw [hnone] at hpos
    exact absurd hpos (by simp)
  rw [hl, Option.elim_some] at hpos
  have hle := (h.within id l hl).1
  rw [SlotLimiters.decrement, modifyKey, hl]
  refine ⟨⟨?_, fun id' => ?_, fun id' => ?_⟩, fun id' => ?_⟩
  · have htotal := h.total
    rw [SlotLimiters.total, valueSum_eq_lookup_add _ id, hl, Option.elim_some, length_cons] at htotal
    rw [SlotLimiters.total, valueSum_insert]
    dsimp only
    omega
  · have := h.each id'
    grind [lookup_insert_eq_ite]
  · have := h.within id'
    grind [lookup_insert_eq_ite]
  · simp only [full, lookup_insert_eq_ite]
    by_cases hid : id' = id
    · simp only [hid, if_pos, Option.any_some]
      simp
      omega
    · simp [hid]

theorem mem_decrement {id' : UInt64} : id' ∈ m.decrement id ↔ id' ∈ m := by
  rw [← AList.lookup_isSome, ← AList.lookup_isSome, SlotLimiters.decrement, lookup_modifyKey]
  split
  · next heq => rw [heq, Option.isSome_map]
  · rfl

theorem Counts.mem_of_total (h : m.Counts limit ids)
    (htotal : (m.increment id).total = (ids.length + 1) % 2 ^ 64) : id ∈ m := by
  by_contra hmem
  rw [SlotLimiters.increment, modifyKey, AList.lookup_eq_none.mpr hmem, h.total] at htotal
  omega

end SlotLimiters

/-! ### Runs -/

namespace LimiterRun

open WorkflowConcurrencyLimiter SlotLimiters

variable {s : WorkflowConcurrencyLimiter} {admitted : List (UInt64 × UInt64)} {typeId ns : UInt64}

structure Kept (s : LimiterRun) : Prop where
  types : s.limiter.perType.Counts s.limiter.config.maxPerType (s.admitted.map Prod.fst)
  namespaces :
    s.limiter.perNamespace.Counts s.limiter.config.maxPerNamespace (s.admitted.map Prod.snd)
  global : s.limiter.globalActive = s.admitted.length
  room : s.limiter.globalActive ≤ s.limiter.config.maxGlobal.toNat

theorem Kept.enforced {s : LimiterRun} (h : s.Kept) : s.Enforced := by
  have hwithin : ∀ {m : SlotLimiters} {limit ids}, m.Counts limit ids →
      ∀ id, ∀ l ∈ m.lookup id, l.active ≤ limit.toNat :=
    fun hm id l hl => (hm.within id l hl).1.trans_eq (hm.within id l hl).2
  refine ⟨h.global, ?_, ?_, hwithin h.types, hwithin h.namespaces, h.room⟩
  · rw [h.types.total, length_map, h.global]
  · rw [h.namespaces.total, length_map, h.global]

theorem Kept.commitAcquire (h : Kept ⟨s, admitted⟩)
    (htype : typeId ∈ s.perType ∧ ¬ s.perType.full typeId)
    (hns : ns ∈ s.perNamespace ∧ ¬ s.perNamespace.full ns)
    (hroom : s.globalActive < s.config.maxGlobal.toNat) :
    Kept ⟨s.commitAcquire typeId ns, (typeId, ns) :: admitted⟩ := by
  obtain ⟨htypes, hnamespaces, hglobal, -⟩ := h
  have hlt := s.config.maxGlobal.toNat_lt
  have hadd : (s.globalActive + 1) % 2 ^ 64 = s.globalActive + 1 := Nat.mod_eq_of_lt (by omega)
  refine ⟨htypes.increment htype.1 htype.2, hnamespaces.increment hns.1 hns.2, ?_, ?_⟩
  · exact hadd.trans (congrArg (· + 1) hglobal)
  · exact hadd.trans_le hroom

theorem Kept.overflow {s' : WorkflowConcurrencyLimiter} {key : UInt64} {priority : UInt8}
    (h : Kept ⟨s', admitted⟩)
    (hover : s.acquire key typeId ns priority = s'.handleOverflow key typeId ns priority) :
    Kept (step ⟨s, admitted⟩ (.acquire key typeId ns priority)) := by
  simp only [step, hover, handleOverflow]
  cases s'.config.overflowPolicy with
  | reject | preempt => exact h
  | queue =>
    by_cases hdepth : s'.queue.length ≥ s'.config.maxQueueDepth.toNat
    · simpa only [if_pos hdepth] using h
    · simp only [if_neg hdepth]
      exact ⟨h.types, h.namespaces, h.global, h.room⟩

theorem Kept.acquire (h : Kept ⟨s, admitted⟩) (key typeId ns : UInt64) (priority : UInt8) :
    Kept (step ⟨s, admitted⟩ (.acquire key typeId ns priority)) := by
  by_cases hglobal : s.globalActive ≥ s.config.maxGlobal.toNat
  · exact h.overflow (if_pos hglobal)
  have htyped : Kept ⟨{ s with perType := s.perType.orInsert typeId s.config.maxPerType },
      admitted⟩ := ⟨h.types.orInsert, h.namespaces, h.global, h.room⟩
  by_cases htype : (s.perType.orInsert typeId s.config.maxPerType).full typeId
  · exact htyped.overflow ((if_neg hglobal).trans (if_pos htype))
  have hnamed : Kept ⟨{ s with
      perType := s.perType.orInsert typeId s.config.maxPerType
      perNamespace := s.perNamespace.orInsert ns s.config.maxPerNamespace }, admitted⟩ :=
    ⟨htyped.types, h.namespaces.orInsert, h.global, h.room⟩
  by_cases hns : (s.perNamespace.orInsert ns s.config.maxPerNamespace).full ns
  · exact hnamed.overflow ((if_neg hglobal).trans ((if_neg htype).trans (if_pos hns)))
  have hkept := hnamed.commitAcquire ⟨mem_orInsert, htype⟩ ⟨mem_orInsert, hns⟩
    (Nat.lt_of_not_le hglobal)
  simp only [step, WorkflowConcurrencyLimiter.acquire, if_neg hglobal, if_neg htype, if_neg hns]
  exact hkept

theorem Kept.giveBack (h : Kept ⟨s, admitted⟩) (hmem : (typeId, ns) ∈ admitted) :
    Kept ⟨s.giveBack typeId ns, admitted.erase (typeId, ns)⟩
      ∧ (s.giveBack typeId ns).globalActive < s.config.maxGlobal.toNat
      ∧ (∀ id, (s.giveBack typeId ns).perType.full id ↔ s.perType.full id ∧ id ≠ typeId)
      ∧ ∀ id, (s.giveBack typeId ns).perNamespace.full id ↔ s.perNamespace.full id ∧ id ≠ ns := by
  obtain ⟨htypes, hnamespaces, hglobal, hroom⟩ := h
  have hperm := perm_cons_erase hmem
  have htypes := (htypes.perm (hperm.map Prod.fst)).decrement
  have hnamespaces := (hnamespaces.perm (hperm.map Prod.snd)).decrement
  have hlength := hperm.length_eq
  rw [length_cons] at hlength
  have hlt := s.config.maxGlobal.toNat_lt
  dsimp only at hglobal hroom
  have hsub : (s.globalActive + (2 ^ 64 - 1)) % 2 ^ 64 = (admitted.erase (typeId, ns)).length := by
    omega
  refine ⟨⟨htypes.1, hnamespaces.1, hsub, hsub.trans_le ?_⟩, hsub.trans_lt ?_, htypes.2,
    hnamespaces.2⟩
  · show _ ≤ s.config.maxGlobal.toNat
    omega
  · omega

theorem tryDequeue_cases (s : WorkflowConcurrencyLimiter) :
    (s.tryDequeue = (none, s) ∧ (s.globalActive < s.config.maxGlobal.toNat →
      ∀ q ∈ s.queue.head?, s.perType.full q.workflowTypeId ∨ s.perNamespace.full q.namespaceId))
    ∨ ∃ q rest, s.queue = q :: rest ∧ ¬ s.perType.full q.workflowTypeId
      ∧ ¬ s.perNamespace.full q.namespaceId ∧ s.tryDequeue = (some q,
        { s with queue := rest }.commitAcquire q.workflowTypeId q.namespaceId) := by
  rw [tryDequeue]
  cases hqueue : s.queue with
  | nil => exact .inl ⟨rfl, by simp⟩
  | cons q rest => grind

theorem Kept.release_iff (h : Kept ⟨s, admitted⟩) (hmem : (typeId, ns) ∈ admitted) :
    (CountersMade ⟨s, admitted⟩ (.release typeId ns) →
        Kept (step ⟨s, admitted⟩ (.release typeId ns)))
      ∧ (Enforced (step ⟨s, admitted⟩ (.release typeId ns)) →
        CountersMade ⟨s, admitted⟩ (.release typeId ns)) := by
  obtain ⟨hkept, hroom, htype, hns⟩ := h.giveBack hmem
  rcases tryDequeue_cases (s.giveBack typeId ns) with
    ⟨hnone, hfull⟩ | ⟨q, rest, hqueue, hnotType, hnotNs, hsome⟩
  · have hfull := hfull hroom
    simp only [htype, hns] at hfull
    simp only [step, release, hnone]
    exact ⟨fun _ => hkept, fun _ q hq => .inr (hfull q hq)⟩
  · -- The counters of `q` are the same before the slot was given back.
    have hmemType : q.workflowTypeId ∈ (s.giveBack typeId ns).perType
        ↔ q.workflowTypeId ∈ s.perType := mem_decrement
    have hmemNs : q.namespaceId ∈ (s.giveBack typeId ns).perNamespace
        ↔ q.namespaceId ∈ s.perNamespace := mem_decrement
    have hfull := not_or.mpr ⟨mt (htype _).mpr hnotType, mt (hns _).mpr hnotNs⟩
    have hmade : CountersMade ⟨s, admitted⟩ (.release typeId ns)
        ↔ q.workflowTypeId ∈ s.perType ∧ q.namespaceId ∈ s.perNamespace := by
      have hhead : s.queue.head? = some q := by
        rw [show s.queue = q :: rest from hqueue, head?_cons]
      simp only [CountersMade, hhead, Option.mem_some_iff, forall_eq', or_iff_left hfull]
    rw [hmade]
    simp only [step, release, hsome]
    refine ⟨fun ⟨hq, hqn⟩ => Kept.commitAcquire
      ⟨hkept.types, hkept.namespaces, hkept.global, hkept.room⟩ ⟨hmemType.mpr hq, hnotType⟩
      ⟨hmemNs.mpr hqn, hnotNs⟩ hroom, fun henforced => ⟨?_, ?_⟩⟩
    · refine hmemType.mp (hkept.types.mem_of_total ?_)
      rw [length_map, ← hkept.global]
      exact henforced.2.1
    · refine hmemNs.mp (hkept.namespaces.mem_of_total ?_)
      rw [length_map, ← hkept.global]
      exact henforced.2.2.1

/-- **Limits** hold iff no release admits a request without counters. -/
theorem enforced_iff (config : ConcurrencyConfig) {ops : List LimiterOp}
    (hreleases : StepsMeet step Releases ⟨.new config, []⟩ ops) :
    (∀ ps, ps <+: ops → Enforced (ps.foldl step ⟨.new config, []⟩))
      ↔ StepsMeet step CountersMade ⟨.new config, []⟩ ops := by
  refine forall_prefixes_iff_stepsMeet (I := Kept) (fun _ h => h.enforced) (fun s op h hrel hop => ?_)
    (fun s op h hrel henforced => ?_) ⟨⟨rfl, ?_, ?_⟩, ⟨rfl, ?_, ?_⟩, rfl, Nat.zero_le _⟩ hreleases
  · cases op with
    | acquire key typeId ns priority => exact h.acquire key typeId ns priority
    | release typeId ns => exact (h.release_iff hrel).1 hop
  · cases op with
    | acquire key typeId ns priority => trivial
    | release typeId ns => exact (h.release_iff hrel).2 henforced
  all_goals simp [WorkflowConcurrencyLimiter.new]

theorem enforced_iff_queued :
    (∀ ps, ps <+: [.acquire 1 7 5 0, .acquire 2 7 5 0, .release 7 5] →
        Enforced (ps.foldl step ⟨.new ⟨1, 1, 1, .queue, 9⟩, []⟩))
      ↔ StepsMeet step CountersMade ⟨.new ⟨1, 1, 1, .queue, 9⟩, []⟩
        [.acquire 1 7 5 0, .acquire 2 7 5 0, .release 7 5] :=
  enforced_iff _ ⟨trivial, trivial, mem_cons_self, trivial⟩

theorem not_enforced_uncounted :
    StepsMeet step Releases ⟨.new ⟨1, 1, 1, .queue, 9⟩, []⟩
        [.acquire 1 7 5 0, .acquire 2 8 5 0, .release 7 5]
      ∧ ¬ Enforced ([LimiterOp.acquire 1 7 5 0, .acquire 2 8 5 0, .release 7 5].foldl step
        ⟨.new ⟨1, 1, 1, .queue, 9⟩, []⟩) := by
  refine ⟨⟨trivial, trivial, mem_cons_self, trivial⟩, fun h => ?_⟩
  exact absurd h.2.1 (by decide)

end LimiterRun

end Velocity
