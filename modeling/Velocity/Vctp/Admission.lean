import Velocity.Vctp.Reassembly
import Velocity.Vctp.Requests

namespace Velocity.Vctp

open Lib List VctpPacket VctpRpcServer

/-!
# Admission of fragmented requests

A request in fragments passes the security checks only.
-/

namespace VctpRpcServer

variable {Addr : Type} [Sha256] [VctpCodec] [DecidableEq Addr]

/-! ### What the checks ask -/

/-- The checks that both paths make. -/
def Passes (s : VctpRpcServer Addr) (clock : Clock) (addr : Addr) (request : VctpRpcRequest) :
    Prop :=
  (s.checkRateLimit addr clock).1 = .ok () ∧ s.checkAuth request clock = .ok ()
    ∧ ∀ key, request.idempotencyKey = some key → s.idempotencyCache key = none

/-- The payload parses and passes the checks that both paths make. -/
def Admits (s : VctpRpcServer Addr) (clock : Clock) (addr : Addr) (payload : Bytes) : Prop :=
  ∃ request, VctpCodec.parseRequest payload = .ok request ∧ s.Passes clock addr request

/-- The circuit is not open, or its cooldown is over. -/
def CircuitAllows (s : VctpRpcServer Addr) (clock : Clock) : Prop :=
  s.circuitState = .opened → s.cooledDown clock = true

variable (s : VctpRpcServer Addr)

omit [Sha256] [VctpCodec] in
theorem checkRateLimit_snd (addr : Addr) (clock : Clock) :
    ∃ rateState, (s.checkRateLimit addr clock).2 = { s with rateState := rateState } := by
  simp only [checkRateLimit]
  split_ifs <;> exact ⟨_, rfl⟩

omit [Sha256] [VctpCodec] in
theorem checkRateLimit_fst_congr {s s' : VctpRpcServer Addr} (hsec : s'.security = s.security)
    (hrate : s'.rateState = s.rateState) (addr : Addr) (clock : Clock) :
    (s'.checkRateLimit addr clock).1 = (s.checkRateLimit addr clock).1 := by
  simp only [checkRateLimit, hsec, hrate]
  split_ifs <;> rfl

omit [Sha256] [VctpCodec] [DecidableEq Addr] in
theorem checkIdempotency_ok_iff (request : VctpRpcRequest) (seq : UInt64) :
    (s.checkIdempotency request seq).1 = .ok ()
      ↔ ∀ key, request.idempotencyKey = some key → s.idempotencyCache key = none := by
  unfold checkIdempotency
  cases request.idempotencyKey with
  | none => simp
  | some key => cases hcache : s.idempotencyCache key <;> simp [hcache]

omit [Sha256] in
theorem passes_congr {s s' : VctpRpcServer Addr} (hsec : s'.security = s.security)
    (hrate : s'.rateState = s.rateState) (hcache : s'.idempotencyCache = s.idempotencyCache)
    (clock : Clock) (addr : Addr) (request : VctpRpcRequest) :
    s'.Passes clock addr request ↔ s.Passes clock addr request := by
  simp only [Passes, checkRateLimit_fst_congr hsec hrate, checkAuth, hsec, hcache]

omit [Sha256] in
theorem admits_fragBuf (buf : FragBuf Addr) (clock : Clock) (addr : Addr) (payload : Bytes) :
    Admits { s with fragBuf := buf } clock addr payload ↔ s.Admits clock addr payload :=
  exists_congr (fun request => and_congr_right (fun _ => by apply passes_congr <;> rfl))

variable (clock : Clock)

omit [Sha256] in
theorem checkSecurity_none_iff (addr : Addr) (request : VctpRpcRequest) (seq : UInt64) :
    (s.checkSecurity clock addr request seq).1 = none ↔ s.Passes clock addr request := by
  obtain ⟨rateState, hsnd⟩ := s.checkRateLimit_snd addr clock
  have hauth : (s.checkRateLimit addr clock).2.checkAuth request clock
      = s.checkAuth request clock := by
    rw [hsnd]
    rfl
  have hkey : ((s.checkRateLimit addr clock).2.checkIdempotency request seq).1 = .ok ()
      ↔ ∀ key, request.idempotencyKey = some key → s.idempotencyCache key = none := by
    rw [checkIdempotency_ok_iff, hsnd]
  unfold checkSecurity Passes
  rw [← hkey, ← hauth]
  rcases s.checkRateLimit addr clock with ⟨_ | _, s'⟩
  · simp
  · simp only
    rcases s'.checkAuth request clock with _ | _
    · simp
    · rcases s'.checkIdempotency request seq with ⟨_ | _, s''⟩ <;> simp

omit [Sha256] [VctpCodec] [DecidableEq Addr] in
theorem checkCircuit_spec : ((s.checkCircuit clock).1 = .ok () ↔ s.CircuitAllows clock)
      ∧ (s.checkCircuit clock).2.security = s.security
      ∧ (s.checkCircuit clock).2.rateState = s.rateState
      ∧ (s.checkCircuit clock).2.idempotencyCache = s.idempotencyCache := by
  unfold checkCircuit CircuitAllows
  cases s.circuitState with
  | closed | halfOpen => simp
  | opened => cases s.cooledDown clock <;> simp

/-! ### The two paths -/

theorem isDispatched_processRequest_iff (payload : Bytes) (addr : Addr) :
    (s.processRequest clock payload addr).1.isDispatched = true
      ↔ (s.draining = false ∧ s.CircuitAllows clock) ∧ s.Admits clock addr payload := by
  obtain ⟨hcircuit, hsec, hrate, hcache⟩ := s.checkCircuit_spec clock
  unfold processRequest Admits
  cases hparse : VctpCodec.parseRequest payload with
  | error e => split_ifs <;> simp [Outcome.isDispatched]
  | ok request =>
    have hpasses := (checkSecurity_none_iff _ clock addr request request.method).trans
      (passes_congr hsec hrate hcache clock addr request)
    rw [← hcircuit]
    simp only [Except.ok.injEq, exists_eq_left']
    rw [← hpasses]
    by_cases hdrain : s.draining = true
    · simp [hdrain, Outcome.isDispatched]
    · rcases s.checkCircuit clock with ⟨_ | _, s'⟩
      · simp [hdrain, Outcome.isDispatched]
      · rcases hcheck : s'.checkSecurity clock addr request request.method with ⟨_ | response, s''⟩
        · simp [hdrain, hcheck, Outcome.isDispatched]
        · simp [hdrain, hcheck, Outcome.isDispatched]

theorem isDispatched_processComplete_iff (payload : Bytes) (addr : Addr) (seq : UInt64) :
    (s.processComplete clock payload addr seq).1.isDispatched = true
      ↔ s.Admits clock addr payload := by
  unfold processComplete Admits
  cases VctpCodec.parseRequest payload with
  | error e => simp [Outcome.isDispatched]
  | ok request =>
    simp only [Except.ok.injEq, exists_eq_left']
    rw [← checkSecurity_none_iff s clock addr request seq]
    rcases s.checkSecurity clock addr request seq with ⟨_ | response, s'⟩
    · simp [Outcome.isDispatched]
    · simp [Outcome.isDispatched]

end VctpRpcServer

/-! ### Sets of fragments -/

def VctpPacket.fragment (packet : VctpPacket) : UInt16 × UInt16 × Bytes :=
  ((decodeFragmentMeta packet.slabOffset).1, (decodeFragmentMeta packet.slabOffset).2,
    packet.payload)

/-- The packets of a payload in two or more, as they arrive. -/
structure FragmentSet (payload : Bytes) where
  total : UInt16
  chunk : UInt16 → Bytes
  earlier : List (Clock × VctpPacket)
  last : VctpPacket
  one_lt : 1 < total
  whole : (indices total).flatMap chunk = payload
  perm : ((earlier.map Prod.snd ++ [last]).map fragment).Perm
    ((indices total).map (fun i => (i, total, chunk i)))

namespace FragmentSet

variable {payload : Bytes}

def before (f : FragmentSet payload) : List (UInt16 × UInt16 × Bytes) :=
  (f.earlier.map Prod.snd).map fragment

def fragments (f : FragmentSet payload) : List (UInt16 × UInt16 × Bytes) :=
  f.before ++ [f.last.fragment]

variable (f : FragmentSet payload)

theorem perm_fragments :
    f.fragments.Perm ((indices f.total).map (fun i => (i, f.total, f.chunk i))) := by
  have := f.perm
  rwa [map_append, map_singleton] at this

theorem total_of_mem {p : UInt16 × UInt16 × Bytes} (hp : p ∈ f.fragments) : p.2.1 = f.total := by
  obtain ⟨i, _, rfl⟩ := mem_map.mp (f.perm_fragments.mem_iff.mp hp)
  rfl

theorem isFragment_of_mem {packet : VctpPacket}
    (hp : packet.fragment ∈ f.fragments) : packet.isFragment = true := by
  have htotal := f.total_of_mem hp
  have hone := f.one_lt
  simp only [fragment] at htotal
  simp [isFragment, htotal, hone]

theorem perm_fed :
    (f.fragments.map (fun p => (p.1, p.2.2))).Perm
      ((indices f.total).map (fun i => (i, f.chunk i))) := by
  have := f.perm_fragments.map (fun p => (p.1, p.2.2))
  simpa [Function.comp_def] using this

theorem count_before :
    ((f.before.map (fun p => (p.1, p.2.2))).map Prod.fst).count f.last.fragment.1 = 0 := by
  have hfst := f.perm_fed.map Prod.fst
  simp only [fragments, map_append, map_singleton, map_map,
    Function.comp_def, map_id'] at hfst ⊢
  have hnodup := hfst.nodup_iff.mpr (nodup_indices _)
  refine count_eq_zero_of_not_mem (fun hmem => ?_)
  exact (nodup_append.mp hnodup).2.2 _ hmem _ (mem_singleton_self _) rfl

theorem collect {Addr : Type} [DecidableEq Addr] {addr : Addr}
    {buf : FragBuf Addr} (hbuf : buf addr = none ∨ buf addr = some (∅, f.total)) :
    (collectAll addr buf f.before).1 = []
    ∧ (collectFragment (collectAll addr buf f.before).2 addr f.last.fragment.1
        f.last.fragment.2.1 f.last.fragment.2.2).1 = some payload := by
  have hpos : 0 < f.total.toNat := by
    have hlt := UInt16.lt_iff_toNat_lt.mp f.one_lt
    exact Nat.lt_of_le_of_lt (Nat.zero_le _) hlt
  have hlast : f.last.fragment.1 < f.total := by
    have hmem : f.last.fragment ∈ f.fragments := mem_append_right _ (mem_singleton_self _)
    obtain ⟨i, hi, heq⟩ := mem_map.mp (f.perm_fragments.mem_iff.mp hmem)
    rw [← heq]
    exact mem_indices.mp hi
  have hall := collectAll_ready addr hbuf (fun p hp => f.total_of_mem hp)
  rw [feedAll_message f.perm_fed hpos, f.whole] at hall
  have hnone : (collectAll addr buf f.before).1 = [] := by
    rw [collectAll_ready addr hbuf (fun p hp => f.total_of_mem (mem_append_left _ hp))]
    have hle := length_feedAll_le hlast (f.before.map (fun p => (p.1, p.2.2))) ∅
    rw [f.count_before] at hle
    have hzero : held ∅ f.last.fragment.1 = 0 := rfl
    exact eq_nil_of_length_eq_zero (by omega)
  refine ⟨hnone, ?_⟩
  rw [fragments, collectAll_append, hnone] at hall
  simpa [collectAll] using hall

end FragmentSet

namespace VctpRpcServer

variable {Addr : Type} [Sha256] [VctpCodec] [DecidableEq Addr]

def answerAll (addr : Addr) : VctpRpcServer Addr → List (Clock × VctpPacket) →
    List Outcome × VctpRpcServer Addr
  | s, [] => ([], s)
  | s, (clock, packet) :: rest =>
    let r := s.answer clock addr packet
    (r.1 :: (answerAll addr r.2 rest).1, (answerAll addr r.2 rest).2)

theorem answer_single (s : VctpRpcServer Addr) (clock : Clock) (addr : Addr) (seq : UInt64)
    (payload : Bytes) :
    s.answer clock addr ⟨seq, 0, payload⟩ = s.processRequest clock payload addr :=
  if_neg (by simp [isFragment, decodeFragmentMeta])

theorem answer_of_isFragment {packet : VctpPacket} (h : packet.isFragment = true)
    (s : VctpRpcServer Addr) (clock : Clock) (addr : Addr) :
    s.answer clock addr packet = s.handleFragment clock addr packet.fragment.1
      packet.fragment.2.1 packet :=
  if_pos h

theorem answer_of_complete {s : VctpRpcServer Addr} {packet : VctpPacket} {addr : Addr}
    {payload : Bytes} (hfrag : packet.isFragment = true)
    (h : (collectFragment s.fragBuf addr packet.fragment.1 packet.fragment.2.1
      packet.fragment.2.2).1 = some payload) (clock : Clock) :
    s.answer clock addr packet
      = processComplete { s with fragBuf := (collectFragment s.fragBuf addr packet.fragment.1
          packet.fragment.2.1 packet.fragment.2.2).2 } clock payload addr
          packet.sequenceNumber := by
  rw [answer_of_isFragment hfrag, handleFragment]
  simp only [fragment] at h ⊢
  rw [h]

theorem answerAll_silent (addr : Addr) :
    ∀ {packets : List (Clock × VctpPacket)} (s : VctpRpcServer Addr),
      (∀ p ∈ packets, p.2.isFragment = true) →
      (collectAll addr s.fragBuf ((packets.map Prod.snd).map fragment)).1 = [] →
      answerAll addr s packets = (packets.map (fun _ => .silent),
        { s with fragBuf :=
          (collectAll addr s.fragBuf ((packets.map Prod.snd).map fragment)).2 })
  | [], s, _, _ => rfl
  | (clock, packet) :: rest, s, hfrag, hnone => by
    simp only [map_cons, fragment, collectAll, append_eq_nil_iff,
      Option.toList_eq_nil_iff] at hnone
    have hstep : s.answer clock addr packet = (.silent, { s with fragBuf :=
        (collectFragment s.fragBuf addr packet.fragment.1 packet.fragment.2.1
          packet.payload).2 }) := by
      rw [answer_of_isFragment (hfrag _ mem_cons_self)]
      simp only [handleFragment, fragment, hnone.1]
    rw [answerAll, hstep]
    simp only
    rw [answerAll_silent addr _ (fun p hp => hfrag p (mem_cons_of_mem _ hp)) hnone.2]
    rfl

theorem answerAll_append (addr : Addr) (s : VctpRpcServer Addr)
    (ps qs : List (Clock × VctpPacket)) :
    answerAll addr s (ps ++ qs)
      = ((answerAll addr s ps).1 ++ (answerAll addr (answerAll addr s ps).2 qs).1,
        (answerAll addr (answerAll addr s ps).2 qs).2) := by
  induction ps generalizing s with
  | nil => rfl
  | cons p ps ih => simp only [cons_append, answerAll, ih]

theorem dispatched_answerAll_iff {payload : Bytes} (f : FragmentSet payload) {addr : Addr}
    {s : VctpRpcServer Addr}
    (hbuf : s.fragBuf addr = none ∨ s.fragBuf addr = some (∅, f.total)) (clock : Clock) :
    (∃ o ∈ (answerAll addr s (f.earlier ++ [(clock, f.last)])).1, o.isDispatched = true)
      ↔ s.Admits clock addr payload := by
  obtain ⟨hnone, hlast⟩ := f.collect hbuf
  have hfrag : ∀ p ∈ f.earlier, p.2.isFragment = true := by
    intro p hp
    refine f.isFragment_of_mem (mem_append_left _ ?_)
    exact mem_map_of_mem (mem_map_of_mem hp)
  have hfragLast : f.last.isFragment = true :=
    f.isFragment_of_mem (mem_append_right _ (mem_singleton_self _))
  have hsilent := answerAll_silent addr s hfrag hnone
  have hcomplete := answer_of_complete (s := { s with fragBuf :=
    (collectAll addr s.fragBuf f.before).2 }) hfragLast hlast clock
  have hout : ∀ o ∈ f.earlier.map (fun _ => Outcome.silent), o.isDispatched = false := by
    intro o ho
    obtain ⟨_, _, rfl⟩ := mem_map.mp ho
    rfl
  rw [← admits_fragBuf s (collectFragment (collectAll addr s.fragBuf f.before).2 addr
      f.last.fragment.1 f.last.fragment.2.1 f.last.fragment.2.2).2,
    ← isDispatched_processComplete_iff _ clock payload addr f.last.sequenceNumber, ← hcomplete,
    answerAll_append, hsilent, answerAll]
  constructor
  · rintro ⟨o, ho, hdisp⟩
    rcases mem_append.mp ho with ho | ho
    · exact absurd hdisp (by simp [hout o ho])
    · rwa [mem_singleton.mp ho] at hdisp
  · intro hdisp
    exact ⟨_, mem_append_right _ (mem_singleton_self _), hdisp⟩

/-- **Admission** is alike iff the server is open, or both paths refuse. -/
theorem dispatches_alike_iff {payload : Bytes} (f : FragmentSet payload) {addr : Addr}
    {s : VctpRpcServer Addr}
    (hbuf : s.fragBuf addr = none ∨ s.fragBuf addr = some (∅, f.total)) (clock : Clock)
    (seq : UInt64) :
    ((s.answer clock addr ⟨seq, 0, payload⟩).1.isDispatched = true
      ↔ ∃ o ∈ (answerAll addr s (f.earlier ++ [(clock, f.last)])).1, o.isDispatched = true)
    ↔ (s.draining = false ∧ s.CircuitAllows clock) ∨ ¬ s.Admits clock addr payload := by
  rw [answer_single, isDispatched_processRequest_iff, dispatched_answerAll_iff f hbuf]
  tauto

end VctpRpcServer

def healthCheckFragments : FragmentSet healthCheckJson where
  total := 2
  chunk i := if i = 0 then healthCheckJson.take 5 else healthCheckJson.drop 5
  earlier := [(⟨0, 0⟩, ⟨1, encodeFragmentMeta 1 2, healthCheckJson.drop 5⟩)]
  last := ⟨2, encodeFragmentMeta 0 2, healthCheckJson.take 5⟩
  one_lt := by decide
  whole := by simp [indices, List.range_succ]
  perm := by
    simp only [fragment, decode_encodeFragmentMeta, List.map_cons, List.map_nil,
      List.cons_append, List.nil_append]
    exact List.Perm.swap _ _ _

section HealthCheck

attribute [local instance] healthCheckCodec

theorem admits_healthCheck {s : VctpRpcServer Nat} (hrate : s.security.rateLimitRps = 0)
    (hauth : s.security.authRequired = false) (clock : Clock) (addr : Nat) :
    s.Admits clock addr healthCheckJson := by
  refine ⟨{ method := VctpMethods.healthCheck }, if_pos rfl, ?_, ?_, ?_⟩
  · rw [checkRateLimit, if_pos hrate]
  · rw [checkAuth, hauth]
    rfl
  · simp

theorem dispatches_alike_healthCheck :
    let s : VctpRpcServer Nat := .new (.new none .strict 0)
    s.fragBuf 7 = none ∧ ((s.answer ⟨0, 0⟩ 7 ⟨1, 0, healthCheckJson⟩).1.isDispatched = true
      ↔ ∃ o ∈ (s.answerAll 7 (healthCheckFragments.earlier
          ++ [(⟨0, 0⟩, healthCheckFragments.last)])).1, o.isDispatched = true) :=
  ⟨rfl, (dispatches_alike_iff healthCheckFragments (.inl rfl) ⟨0, 0⟩ 1).mpr
    (.inl ⟨rfl, fun h => by simp [new, withSecurity] at h⟩)⟩

theorem draining_takes_fragments :
    let s : VctpRpcServer Nat := (new (.new none .strict 0)).beginDrain
    (s.answer ⟨0, 0⟩ 7 ⟨1, 0, healthCheckJson⟩).1.isDispatched = false
    ∧ ∃ o ∈ (s.answerAll 7 (healthCheckFragments.earlier
        ++ [(⟨0, 0⟩, healthCheckFragments.last)])).1, o.isDispatched = true := by
  intro s
  refine ⟨?_, (dispatched_answerAll_iff healthCheckFragments (.inl rfl) ⟨0, 0⟩).mpr
    (admits_healthCheck rfl rfl _ _)⟩
  rw [answer_single, ← Bool.not_eq_true,
    isDispatched_processRequest_iff]
  simp [s, beginDrain]

end HealthCheck

end Velocity.Vctp
