import Velocity.Lib.Run
import Velocity.Nmcp.Shmem

namespace Velocity.Nmcp

open Lib ClientPc ShmemSystem

/-!
# What a shared-memory call returns

A posted request belongs to the server, a ready response to the client.

* `ShmemSystem`: the client, the server and the slots, one access at a time.
* `Inv`: who owns a slot in each state; every step keeps it.
* `returned_answer`: what a call returns answers its own request.
-/

def Slot.Carries (slot : Slot) (bytes : Bytes) : Prop :=
  slot.len.toNat = bytes.length ∧ slot.payload.take bytes.length = bytes

theorem Slot.take_writePayload (slot : Slot) (data : Bytes) :
    (slot.writePayload data).payload.take data.length = data := by
  simp [Slot.writePayload]

theorem toNat_ofNat_of_le {n : Nat} (hn : n ≤ maxReqPayload) : (UInt32.ofNat n).toNat = n := by
  unfold maxReqPayload at hn
  rw [UInt32.toNat_ofNat', Nat.mod_eq_of_lt (by omega)]

namespace ClientPc

def fills : ClientPc → Option Nat
  | .writeSeq idx | .writePayload idx | .writeLen idx | .markReady idx => some idx
  | _ => none

def awaits : ClientPc → Option Nat
  | .advance idx | .waitRes idx _ => some idx
  | _ => none

def reads : ClientPc → Option Nat
  | .readLen idx | .readPayload idx _ | .markEmpty idx _ => some idx
  | _ => none

theorem only_awaits {pc : ClientPc} {idx : Nat} (h : pc.awaits = some idx) :
    pc.fills = none ∧ pc.reads = none := by
  cases pc with
  | advance | waitRes => exact ⟨rfl, rfl⟩
  | _ => simp [awaits] at h

def Free (pc : ClientPc) : Prop := pc.awaits = none ∧ pc.reads = none

theorem free_of_fills {pc : ClientPc} {idx : Nat} (h : pc.fills = some idx) : pc.Free := by
  cases pc with
  | writeSeq | writePayload | writeLen | markReady => exact ⟨rfl, rfl⟩
  | _ => simp [fills] at h

end ClientPc

namespace ServerPc

def cleared : ServerPc → Nat
  | .initIdx => 0
  | .initSlot i => i
  | _ => ringSlots

def busy : ServerPc → Bool
  | .initIdx | .initSlot _ | .waitReq | .waitConsumed | .stopped => false
  | _ => true

end ServerPc

namespace ShmemSystem

variable {ρ : Type}

variable (s : ShmemSystem ρ) (dispatch : ρ → NmcpFrame → NmcpFrame × ρ)

def Fresh : Prop := s.log.length = s.client.since

/-- The router dispatched the call's request and responded so. -/
def Answered (bytes : Bytes) : Prop :=
  ∃ resp : NmcpFrame, resp.payload.length < 2 ^ 32
    ∧ s.log.drop s.client.since = [(s.client.request, resp)] ∧ bytes = resp.toBytes

def ClientFacts : Prop :=
  let bytes := s.client.request.toBytes
  let fits := bytes.length ≤ maxReqPayload
  match s.client.pc with
  | .idle => True
  | .readIdx | .waitEmpty _ _ | .writeSeq _ | .writePayload _ => fits ∧ s.Fresh
  | .writeLen idx => fits ∧ s.Fresh ∧ (s.slot idx).payload.take bytes.length = bytes
  | .markReady idx => fits ∧ s.Fresh ∧ (s.slot idx).Carries bytes
  | .advance _ | .waitRes _ _ => fits
  | .readLen idx =>
    ∃ resp, s.Answered resp ∧ (s.slot idx).Carries (resp.take maxResPayload)
  | .readPayload idx len =>
    ∃ resp, s.Answered resp ∧ (s.slot idx).Carries (resp.take maxResPayload)
      ∧ len = (s.slot idx).len
  | .markEmpty _ data => ∃ resp, s.Answered resp ∧ data = resp.take maxResPayload
  | .returned result =>
    ∀ frame, result = .ok frame → s.log.drop s.client.since = [(s.client.request, frame)]

def ServerFacts (pc : ServerPc) (slot : Slot) : Prop :=
  let bytes := s.client.request.toBytes
  match pc with
  | .markProcessing => slot.state = slotReqReady ∧ s.Fresh ∧ slot.Carries bytes
  | .readSeq | .readLen _ => slot.state = slotProcessing ∧ s.Fresh ∧ slot.Carries bytes
  | .readPayload _ len =>
    slot.state = slotProcessing ∧ s.Fresh ∧ slot.Carries bytes ∧ len = slot.len
  | .dispatch _ data => slot.state = slotProcessing ∧ s.Fresh ∧ data = bytes
  | .writeLen _ resp => slot.state = slotProcessing ∧ s.Answered resp
  | .writePayload _ resp =>
    slot.state = slotProcessing ∧ s.Answered resp
      ∧ slot.len.toNat = (resp.take maxResPayload).length
  | .writeSeq _ | .markReady =>
    slot.state = slotProcessing
      ∧ ∃ resp, s.Answered resp ∧ slot.Carries (resp.take maxResPayload)
  | _ => False

def Posted (idx : Nat) : Prop :=
  ((s.slot idx).state = slotEmpty ∧ s.Fresh)
  ∨ ((s.slot idx).state = slotReqReady ∧ s.Fresh
      ∧ (s.slot idx).Carries s.client.request.toBytes)
  ∨ ((s.slot idx).state = slotResReady ∧ s.server.pc.cleared = ringSlots
      ∧ ∃ resp, s.Answered resp ∧ (s.slot idx).Carries (resp.take maxResPayload))

structure Quiet (s : ShmemSystem ρ) : Prop where
  others : ∀ k < s.server.pc.cleared, (s.slot k).state = slotEmpty
    ∨ s.client.pc.awaits = some k ∨ s.client.pc.reads = some k
  filling : ∀ idx, s.client.pc.fills = some idx → (s.slot idx).state = slotEmpty
  posted : ∀ idx, s.client.pc.awaits = some idx → s.Posted idx
  reading : ∀ idx, s.client.pc.reads = some idx →
    (s.slot idx).state = slotResReady ∧ s.server.pc.cleared = ringSlots

/-- The client waits in its slot, and the others are empty. -/
structure Working (s : ShmemSystem ρ) : Prop where
  awaits : s.client.pc.awaits = some s.server.readIdx
  facts : s.ServerFacts s.server.pc (s.slot s.server.readIdx)
  others : ∀ k < ringSlots, k ≠ s.server.readIdx → (s.slot k).state = slotEmpty

structure Inv (s : ShmemSystem ρ) : Prop where
  readIdx_lt : s.server.readIdx < ringSlots
  init_lt : ∀ i, s.server.pc = .initSlot i → i < ringSlots
  client : s.ClientFacts
  quiet : s.server.pc.busy = false → s.Quiet
  working : s.server.pc.busy = true → s.Working

/-- No wait of the client runs into its poll limit. -/
def WaitSeen : ShmemEvent → Prop
  | .client =>
    match s.client.pc with
    | .waitEmpty idx polls => (s.slot idx).state = slotEmpty ∨ polls + 1 < pollLimit
    | .waitRes idx polls =>
      (s.slot idx).state = slotResReady ∨ (s.slot idx).state = slotError
        ∨ polls + 1 < pollLimit
    | _ => True
  | _ => True

instance (s : ShmemSystem ρ) (ev : ShmemEvent) : Decidable (s.WaitSeen ev) := by
  unfold WaitSeen
  split
  · split <;> infer_instance
  · infer_instance

theorem inv_start (mem : Shmem) (router : ρ) : (start mem router).Inv where
  readIdx_lt := (by decide : 0 < ringSlots)
  init_lt := fun i hi => by simp [start] at hi
  client := trivial
  quiet _ :=
    { others := fun k hk => absurd hk (Nat.not_lt_zero k)
      filling := fun idx h => by simp [start, fills] at h
      posted := fun idx h => by simp [start, awaits] at h
      reading := fun idx h => by simp [start, reads] at h }
  working h := by simp [start, ServerPc.busy] at h

/-! ### Slots after a write -/

theorem slot_clientWrites (k : Nat) (f : Slot → Slot) (pc : ClientPc)
    (j : Nat) : (s.clientWrites k f pc).slot j = if j = k then f (s.slot k) else s.slot j :=
  Function.update_apply s.mem.slots k (f (s.slot k)) j

@[simp] theorem slot_clientWrites_self (k : Nat) (f : Slot → Slot)
    (pc : ClientPc) : (s.clientWrites k f pc).slot k = f (s.slot k) := by
  rw [slot_clientWrites, if_pos rfl]

theorem state_clientWrites (k : Nat) {f : Slot → Slot}
    (hf : ∀ slot, (f slot).state = slot.state) (pc : ClientPc) (j : Nat) :
    ((s.clientWrites k f pc).slot j).state = (s.slot j).state := by
  rw [slot_clientWrites]
  split
  · next hj => rw [hf, hj]
  · rfl

/-! ### Steps of the client -/

variable {s}

theorem Inv.quiet_of_awaits (h : s.Inv) (hpc : s.client.pc.awaits = none) :
    s.server.pc.busy = false ∧ s.Quiet := by
  cases hbusy : s.server.pc.busy with
  | false => exact ⟨rfl, h.quiet hbusy⟩
  | true =>
    have hawaits := (h.working hbusy).awaits
    rw [hpc] at hawaits
    exact absurd hawaits (by simp)

theorem Quiet.empty (q : s.Quiet) (hpc : s.client.pc.Free) {k : Nat}
    (hk : k < s.server.pc.cleared) : (s.slot k).state = slotEmpty := by
  have := q.others k hk
  rw [hpc.1, hpc.2] at this
  simpa using this

theorem inv_of_free (hlt : s.server.readIdx < ringSlots)
    (hinit : ∀ i, s.server.pc = .initSlot i → i < ringSlots)
    (hbusy : s.server.pc.busy = false) (hpc : s.client.pc.Free) (hclient : s.ClientFacts)
    (hempty : ∀ k < s.server.pc.cleared, (s.slot k).state = slotEmpty)
    (hfill : ∀ idx, s.client.pc.fills = some idx → (s.slot idx).state = slotEmpty) :
    s.Inv where
  readIdx_lt := hlt
  init_lt := hinit
  client := hclient
  quiet _ :=
    { others := fun k hk => .inl (hempty k hk)
      filling := hfill
      posted := fun idx h => by rw [hpc.1] at h; exact absurd h (by simp)
      reading := fun idx h => by rw [hpc.2] at h; exact absurd h (by simp) }
  working h := by rw [hbusy] at h; exact absurd h (by simp)

theorem Inv.free_to (h : s.Inv) (hpc : s.client.pc.Free) {pc : ClientPc}
    (hpc' : pc.Free) (hclient : (s.clientTo pc).ClientFacts)
    (hfill : ∀ idx, pc.fills = some idx → (s.slot idx).state = slotEmpty) :
    (s.clientTo pc).Inv := by
  obtain ⟨hbusy, q⟩ := h.quiet_of_awaits hpc.1
  exact inv_of_free h.readIdx_lt h.init_lt hbusy hpc' hclient (fun k hk => q.empty hpc hk) hfill

variable {idx : Nat}

theorem Inv.fill (h : s.Inv) (hidx : s.client.pc.fills = some idx) (f : Slot → Slot)
    (hf : ∀ slot, (f slot).state = slot.state) (pc : ClientPc) (hfills : pc.fills = some idx)
    (hclient : (s.clientWrites idx f pc).ClientFacts) : (s.clientWrites idx f pc).Inv := by
  have hpc := free_of_fills hidx
  obtain ⟨hbusy, q⟩ := h.quiet_of_awaits hpc.1
  refine inv_of_free h.readIdx_lt h.init_lt hbusy (free_of_fills hfills) hclient
    (fun k hk => ?_) (fun j hj => ?_)
  · rw [state_clientWrites s idx hf]
    exact q.empty hpc hk
  · obtain rfl : idx = j := Option.some.inj (hfills.symm.trans hj)
    rw [state_clientWrites s idx hf]
    exact q.filling idx hidx

theorem Inv.awaits_to (h : s.Inv) {pc : ClientPc}
    (hpc : pc.awaits = s.client.pc.awaits) (hfills : pc.fills = none)
    (hreads : pc.reads = s.client.pc.reads) (writeIdx : UInt32)
    (hclient : ClientFacts { s.clientTo pc with mem := { s.mem with writeIdx := writeIdx } }) :
    Inv { s.clientTo pc with mem := { s.mem with writeIdx := writeIdx } } where
  readIdx_lt := h.readIdx_lt
  init_lt := h.init_lt
  client := hclient
  quiet hbusy :=
    { others := fun k hk => by
        show _ ∨ pc.awaits = some k ∨ pc.reads = some k
        rw [hpc, hreads]
        exact (h.quiet hbusy).others k hk
      filling := fun idx hidx => absurd (hfills.symm.trans hidx) (by simp)
      posted := fun idx hidx => (h.quiet hbusy).posted idx (hpc.symm.trans hidx)
      reading := fun idx hidx => (h.quiet hbusy).reading idx (hreads.symm.trans hidx) }
  working hbusy :=
    { awaits := hpc.trans (h.working hbusy).awaits
      facts := (h.working hbusy).facts
      others := (h.working hbusy).others }

theorem Inv.post (h : s.Inv) (hpc : s.client.pc = .markReady idx) :
    (s.clientWrites idx (fun slot => { slot with state := slotReqReady }) (.advance idx)).Inv := by
  have hfacts := h.client
  simp only [ClientFacts, hpc] at hfacts
  obtain ⟨hfits, hfresh, hcarries⟩ := hfacts
  have hfree : s.client.pc.Free := by rw [hpc]; exact ⟨rfl, rfl⟩
  obtain ⟨hbusy, q⟩ := h.quiet_of_awaits hfree.1
  refine ⟨h.readIdx_lt, h.init_lt, hfits, fun _ => ⟨?_, ?_, ?_, ?_⟩, fun hb => ?_⟩
  · intro k hk
    rw [slot_clientWrites]
    split
    · next hk => exact .inr (.inl (by rw [hk]; rfl))
    · exact .inl (q.empty hfree hk)
  · intro j hj
    exact absurd hj (by simp [clientWrites, clientTo, fills])
  · intro j hj
    obtain rfl : idx = j := Option.some.inj hj
    refine .inr (.inl ?_)
    rw [slot_clientWrites_self]
    exact ⟨rfl, hfresh, hcarries⟩
  · intro j hj
    exact absurd hj (by simp [clientWrites, clientTo, reads])
  · exact absurd (hbusy.symm.trans hb) (by simp)

theorem Working.state (w : s.Working) :
    (s.slot s.server.readIdx).state = slotReqReady
      ∨ (s.slot s.server.readIdx).state = slotProcessing := by
  have hfacts := w.facts
  unfold ServerFacts at hfacts
  split at hfacts
  · exact .inl hfacts.1
  all_goals first
    | exact .inr hfacts.1
    | exact hfacts.elim

theorem Inv.awaited (h : s.Inv) (hpc : s.client.pc.awaits = some idx) :
    ((s.slot idx).state = slotReqReady ∨ (s.slot idx).state = slotProcessing)
      ∨ (s.server.pc.busy = false ∧ s.Quiet ∧ s.Posted idx) := by
  cases hbusy : s.server.pc.busy with
  | false => exact .inr ⟨rfl, h.quiet hbusy, (h.quiet hbusy).posted idx hpc⟩
  | true =>
    have w := h.working hbusy
    obtain rfl : s.server.readIdx = idx := Option.some.inj (w.awaits.symm.trans hpc)
    exact .inl w.state

theorem Inv.state_ne_error (h : s.Inv)
    (hpc : s.client.pc.awaits = some idx) : (s.slot idx).state ≠ slotError := by
  intro herror
  rcases h.awaited hpc with (hs | hs) | ⟨_, _, ⟨hs, _⟩ | ⟨hs, _⟩ | ⟨hs, _⟩⟩
  all_goals exact absurd (hs.symm.trans herror) (by decide)

theorem Inv.see (h : s.Inv) {polls : Nat}
    (hpc : s.client.pc = .waitRes idx polls) (hstate : (s.slot idx).state = slotResReady) :
    (s.clientTo (.readLen idx)).Inv := by
  have hawaits : s.client.pc.awaits = some idx := by rw [hpc]; rfl
  rcases h.awaited hawaits with (hs | hs) | ⟨hbusy, q, ⟨hs, _⟩ | ⟨hs, _⟩ | ⟨_, hcleared, hresp⟩⟩
  iterate 4 exact absurd (hs.symm.trans hstate) (by decide)
  · refine ⟨h.readIdx_lt, h.init_lt, hresp, fun _ => ⟨?_, ?_, ?_, ?_⟩, fun hb => ?_⟩
    · intro k hk
      rcases q.others k hk with hempty | hk | hk
      · exact .inl hempty
      · rw [hawaits, Option.some.injEq] at hk
        exact .inr (.inr (by rw [← hk]; rfl))
      · rw [hpc] at hk
        exact absurd hk (by simp [reads])
    · exact fun j hj => absurd hj (by simp [clientTo, fills])
    · exact fun j hj => absurd hj (by simp [clientTo, awaits])
    · intro j hj
      obtain rfl : idx = j := Option.some.inj hj
      exact ⟨hstate, hcleared⟩
    · exact absurd (hbusy.symm.trans hb) (by simp)

theorem eq_of_fromBytes_take {resp frame : NmcpFrame} (hsmall : resp.payload.length < 2 ^ 32)
    (h : NmcpFrame.fromBytes (resp.toBytes.take maxResPayload) = some frame) : frame = resp := by
  by_cases hlen : resp.toBytes.length ≤ maxResPayload
  · rw [List.take_of_length_le hlen, NmcpFrame.fromBytes_toBytes hsmall] at h
    exact (Option.some.inj h).symm
  · rw [NmcpFrame.fromBytes_take hsmall (by decide) (by omega)] at h
    exact absurd h (by simp)

theorem Inv.giveBack (h : s.Inv) {data : Bytes}
    (hpc : s.client.pc = .markEmpty idx data) : s.clientStep.Inv := by
  have hfacts := h.client
  simp only [ClientFacts, hpc] at hfacts
  obtain ⟨_, ⟨resp, hsmall, hlog, rfl⟩, rfl⟩ := hfacts
  obtain ⟨hbusy, q⟩ := h.quiet_of_awaits (by rw [hpc]; rfl)
  simp only [clientStep, hpc]
  refine inv_of_free h.readIdx_lt h.init_lt hbusy ⟨rfl, rfl⟩ ?_ ?_ (fun j hj => ?_)
  · intro frame hframe
    split at hframe
    · next parsed hparsed =>
      rw [Except.ok.injEq] at hframe
      rw [← hframe, eq_of_fromBytes_take hsmall hparsed]
      exact hlog
    · exact absurd hframe (by simp)
  · intro k hk
    rw [slot_clientWrites]
    split
    · rfl
    · next hne =>
      have hothers := q.others k hk
      rw [hpc] at hothers
      simpa [awaits, reads, Ne.symm hne] using hothers
  · exact absurd hj (by simp [clientWrites, clientTo, fills])

theorem Inv.clientStep (h : s.Inv) (hseen : s.WaitSeen .client) : s.clientStep.Inv := by
  have hfacts := h.client
  unfold ClientFacts at hfacts
  unfold ShmemSystem.clientStep
  cases hpc : s.client.pc with
  | idle | returned result => exact h
  | readIdx =>
    simp only [hpc] at hfacts ⊢
    exact h.free_to (by rw [hpc]; exact ⟨rfl, rfl⟩) ⟨rfl, rfl⟩ hfacts
      (fun j hj => by simp [ClientPc.fills] at hj)
  | waitEmpty idx polls =>
    have hfree : s.client.pc.Free := by rw [hpc]; exact ⟨rfl, rfl⟩
    simp only [WaitSeen, hpc] at hfacts hseen ⊢
    by_cases hempty : (s.slot idx).state = slotEmpty
    · rw [if_pos hempty]
      refine h.free_to hfree ⟨rfl, rfl⟩ hfacts (fun j hj => ?_)
      obtain rfl : idx = j := Option.some.inj hj
      exact hempty
    · rw [if_neg hempty, if_pos (hseen.resolve_left hempty)]
      exact h.free_to hfree ⟨rfl, rfl⟩ hfacts (fun j hj => by simp [ClientPc.fills] at hj)
  | writeSeq idx =>
    simp only [hpc] at hfacts ⊢
    exact h.fill (by rw [hpc]; rfl) _ (by intro; rfl) (.writePayload idx) rfl hfacts
  | writePayload idx =>
    simp only [hpc] at hfacts ⊢
    refine h.fill (by rw [hpc]; rfl) _ (by intro; rfl) (.writeLen idx) rfl
      ⟨hfacts.1, hfacts.2, ?_⟩
    rw [slot_clientWrites_self]
    exact Slot.take_writePayload _ _
  | writeLen idx =>
    simp only [hpc] at hfacts ⊢
    refine h.fill (by rw [hpc]; rfl) _ (by intro; rfl) (.markReady idx) rfl
      ⟨hfacts.1, hfacts.2.1, ?_⟩
    rw [slot_clientWrites_self]
    exact ⟨toNat_ofNat_of_le hfacts.1, hfacts.2.2⟩
  | markReady idx => exact h.post hpc
  | advance idx =>
    simp only [hpc] at hfacts ⊢
    exact h.awaits_to (by rw [hpc]; rfl) rfl (by rw [hpc]; rfl) _ hfacts
  | waitRes idx polls =>
    simp only [WaitSeen, hpc] at hfacts hseen ⊢
    have hawaits : s.client.pc.awaits = some idx := by rw [hpc]; rfl
    by_cases hres : (s.slot idx).state = slotResReady
    · rw [if_pos hres]
      exact h.see hpc hres
    · have herror := h.state_ne_error hawaits
      have hmore : polls + 1 < pollLimit := (hseen.resolve_left hres).resolve_left herror
      rw [if_neg hres, if_neg herror, if_pos hmore]
      exact h.awaits_to (by rw [hpc]; rfl) rfl (by rw [hpc]; rfl) s.mem.writeIdx hfacts
  | readLen idx =>
    simp only [hpc] at hfacts ⊢
    obtain ⟨resp, hanswered, hcarries⟩ := hfacts
    exact h.awaits_to (by rw [hpc]; rfl) rfl (by rw [hpc]; rfl) s.mem.writeIdx
      ⟨resp, hanswered, hcarries, rfl⟩
  | readPayload idx len =>
    simp only [hpc] at hfacts ⊢
    obtain ⟨resp, hanswered, ⟨hlen, htake⟩, rfl⟩ := hfacts
    refine h.awaits_to (by rw [hpc]; rfl) rfl (by rw [hpc]; rfl) s.mem.writeIdx
      ⟨resp, hanswered, ?_⟩
    rw [hlen, htake]
  | markEmpty idx data =>
    have hback := h.giveBack hpc
    rwa [ShmemSystem.clientStep, hpc] at hback

/-! ### Steps of the server -/

theorem slot_serverWrites (s : ShmemSystem ρ) (f : Slot → Slot) (pc : ServerPc) (j : Nat) :
    (s.serverWrites f pc).slot j
      = if j = s.server.readIdx then f (s.slot s.server.readIdx) else s.slot j :=
  Function.update_apply s.mem.slots s.server.readIdx (f (s.slot s.server.readIdx)) j

@[simp] theorem slot_serverWrites_self (s : ShmemSystem ρ) (f : Slot → Slot) (pc : ServerPc) :
    (s.serverWrites f pc).slot s.server.readIdx = f (s.slot s.server.readIdx) := by
  rw [slot_serverWrites, if_pos rfl]

theorem clientFacts_iff_of_awaits (hpc : s.client.pc.awaits = some idx) :
    s.ClientFacts ↔ s.client.request.toBytes.length ≤ maxReqPayload := by
  unfold ClientFacts
  cases hc : s.client.pc with
  | advance | waitRes => exact Iff.rfl
  | _ => simp [hc, awaits] at hpc

theorem ClientFacts.of_awaits {t : ShmemSystem ρ} (h : s.ClientFacts)
    (hpc : s.client.pc.awaits = some idx) (hclient : t.client = s.client) : t.ClientFacts := by
  have hfits := (clientFacts_iff_of_awaits hpc).mp h
  rw [← hclient] at hpc hfits
  exact (clientFacts_iff_of_awaits hpc).mpr hfits

theorem ClientFacts.congr {t : ShmemSystem ρ} (h : s.ClientFacts) (hclient : t.client = s.client)
    (hlog : t.log = s.log) (hpayload : ∀ k, (t.slot k).payload = (s.slot k).payload)
    (hlen : ∀ k, (t.slot k).len = (s.slot k).len) : t.ClientFacts := by
  have hcarries : ∀ k bytes, (t.slot k).Carries bytes ↔ (s.slot k).Carries bytes := by
    intro k bytes
    simp only [Slot.Carries, hpayload, hlen]
  unfold ClientFacts Fresh Answered at h ⊢
  simp only [hclient, hlog, hpayload, hlen, hcarries]
  exact h

theorem Inv.idle_to (h : s.Inv) (hbusy : s.server.pc.busy = false) {r : Nat}
    (hr : r < ringSlots) {pc : ServerPc} (hpc : pc.busy = false)
    (hinit : ∀ i, pc = .initSlot i → i < ringSlots)
    (hcleared : pc.cleared = s.server.pc.cleared) (writeIdx : UInt32) :
    Inv { s with server := ⟨r, pc⟩, mem := { s.mem with writeIdx := writeIdx } } where
  readIdx_lt := hr
  init_lt := hinit
  client := h.client.congr rfl rfl (fun _ => rfl) (fun _ => rfl)
  quiet _ :=
    { others := fun k hk => (h.quiet hbusy).others k (hcleared ▸ hk)
      filling := (h.quiet hbusy).filling
      posted := fun idx hidx => by
        have := (h.quiet hbusy).posted idx hidx
        unfold Posted at this ⊢
        simp only [hcleared]
        exact this
      reading := fun idx hidx => by
        have := (h.quiet hbusy).reading idx hidx
        simp only [hcleared]
        exact this }
  working hb := absurd (hpc.symm.trans hb) (by simp)

theorem inv_of_working (hlt : s.server.readIdx < ringSlots)
    (hbusy : s.server.pc.busy = true) (hclient : s.ClientFacts) (w : s.Working) : s.Inv where
  readIdx_lt := hlt
  init_lt i hi := by rw [hi] at hbusy; exact absurd hbusy (by simp [ServerPc.busy])
  client := hclient
  quiet hb := absurd (hbusy.symm.trans hb) (by simp)
  working _ := w

theorem Inv.work (h : s.Inv) (hbusy : s.server.pc.busy = true)
    (f : Slot → Slot) (pc : ServerPc) (hpc : pc.busy = true)
    (hfacts : s.ServerFacts pc (f (s.slot s.server.readIdx))) : (s.serverWrites f pc).Inv := by
  have w := h.working hbusy
  refine inv_of_working h.readIdx_lt hpc (h.client.of_awaits w.awaits rfl)
    ⟨w.awaits, ?_, fun k hk hne => ?_⟩
  · show s.ServerFacts pc ((s.serverWrites f pc).slot s.server.readIdx)
    rw [slot_serverWrites_self]
    exact hfacts
  · have hother : (s.serverWrites f pc).slot k = s.slot k := by
      rw [slot_serverWrites]
      exact if_neg hne
    rw [hother]
    exact w.others k hk hne

theorem Inv.work_to (h : s.Inv) (hbusy : s.server.pc.busy = true)
    (pc : ServerPc) (hpc : pc.busy = true) (router : ρ) (log : List (NmcpFrame × NmcpFrame))
    (hfacts : ServerFacts { s with log := log } pc (s.slot s.server.readIdx)) :
    Inv { s.serverTo pc with router := router, log := log } :=
  have w := h.working hbusy
  inv_of_working h.readIdx_lt hpc (h.client.of_awaits w.awaits rfl) ⟨w.awaits, hfacts, w.others⟩

theorem Inv.clear (h : s.Inv) {i : Nat} (hpc : s.server.pc = .initSlot i)
    {pc : ServerPc} (hbusy : pc.busy = false) (hcleared : pc.cleared = i + 1)
    (hinit : ∀ j, pc = .initSlot j → j < ringSlots) :
    Inv { s.serverTo pc with
      mem := s.mem.modify i (fun slot => { slot with state := slotEmpty }) } := by
  have hi := h.init_lt i hpc
  have hold : s.server.pc.busy = false := by rw [hpc]; rfl
  have hnot : s.server.pc.cleared ≠ ringSlots := by
    rw [hpc]
    exact Nat.ne_of_lt hi
  have q := h.quiet hold
  have hslot : ∀ k, slot { s.serverTo pc with
      mem := s.mem.modify i (fun slot => { slot with state := slotEmpty }) } k
      = if k = i then { s.slot i with state := slotEmpty } else s.slot k :=
    fun k => Function.update_apply s.mem.slots i _ k
  refine ⟨h.readIdx_lt, hinit, ?_, fun _ => ⟨?_, ?_, ?_, ?_⟩, fun hb => ?_⟩
  · refine h.client.congr rfl rfl (fun k => ?_) (fun k => ?_)
    all_goals
      rw [hslot]
      split
      · next hk => rw [hk]
      · rfl
  · intro k hk
    have hk : k < i + 1 := hcleared ▸ hk
    rw [hslot]
    split
    · exact .inl rfl
    · refine q.others k ?_
      rw [hpc]
      show k < i
      omega
  · intro j hj
    rw [hslot]
    split
    · rfl
    · exact q.filling j hj
  · intro j hj
    unfold Posted
    rw [hslot]
    rcases q.posted j hj with ⟨hs, hfresh⟩ | ⟨hs, hfresh, hcarries⟩ | ⟨_, hfull, _⟩
    · refine .inl ⟨?_, hfresh⟩
      split
      · rfl
      · exact hs
    · split
      · exact .inl ⟨rfl, hfresh⟩
      · exact .inr (.inl ⟨hs, hfresh, hcarries⟩)
    · exact absurd hfull hnot
  · intro j hj
    exact absurd (q.reading j hj).2 hnot
  · exact absurd (hbusy.symm.trans hb) (by simp)

theorem Inv.pickUp (h : s.Inv) (hpc : s.server.pc = .waitReq)
    (hstate : (s.slot s.server.readIdx).state = slotReqReady) :
    (s.serverTo .markProcessing).Inv := by
  have hold : s.server.pc.busy = false := by rw [hpc]; rfl
  have hfull : s.server.pc.cleared = ringSlots := by rw [hpc]; rfl
  have q := h.quiet hold
  have hlt := h.readIdx_lt
  -- only a client that waits has a request in a slot
  have hawaits : s.client.pc.awaits = some s.server.readIdx := by
    rcases q.others s.server.readIdx (hfull ▸ hlt) with hs | hs | hs
    · exact absurd (hs.symm.trans hstate) (by decide)
    · exact hs
    · exact absurd ((q.reading _ hs).1.symm.trans hstate) (by decide)
  refine inv_of_working hlt rfl (h.client.of_awaits hawaits rfl) ⟨hawaits, ?_, ?_⟩
  · rcases q.posted _ hawaits with ⟨hs, _⟩ | ⟨hs, hfresh, hcarries⟩ | ⟨hs, _⟩
    · exact absurd (hs.symm.trans hstate) (by decide)
    · exact ⟨hs, hfresh, hcarries⟩
    · exact absurd (hs.symm.trans hstate) (by decide)
  · intro k hk hne
    have hne : s.server.readIdx ≠ k := Ne.symm hne
    have hothers := q.others k (hfull ▸ hk)
    rw [hawaits, (only_awaits hawaits).2] at hothers
    show (s.slot k).state = slotEmpty
    simpa [hne] using hothers

theorem Inv.answer (h : s.Inv) (hpc : s.server.pc = .markReady) :
    (s.serverWrites (fun slot => { slot with state := slotResReady }) .waitConsumed).Inv := by
  have w := h.working (by rw [hpc]; rfl)
  have hfacts := w.facts
  simp only [ServerFacts, hpc] at hfacts
  have hself := slot_serverWrites_self s (fun slot => { slot with state := slotResReady })
    .waitConsumed
  refine ⟨h.readIdx_lt, fun i hi => by simp [serverWrites, serverTo] at hi,
    h.client.of_awaits w.awaits rfl, fun _ => ⟨?_, ?_, ?_, ?_⟩,
    fun hb => by simp [serverWrites, serverTo, ServerPc.busy] at hb⟩
  · intro k hk
    by_cases hne : k = s.server.readIdx
    · exact .inr (.inl (hne ▸ w.awaits))
    · rw [slot_serverWrites, if_neg hne]
      exact .inl (w.others k hk hne)
  · intro j hj
    exact absurd ((only_awaits w.awaits).1.symm.trans hj) (by simp)
  · intro j hj
    obtain rfl : s.server.readIdx = j := Option.some.inj (w.awaits.symm.trans hj)
    refine .inr (.inr ?_)
    rw [hself]
    exact ⟨rfl, rfl, hfacts.2⟩
  · intro j hj
    exact absurd ((only_awaits w.awaits).2.symm.trans hj) (by simp)

theorem Inv.beginCall (h : s.Inv) (hpc : s.client.pc.Free)
    (frameType : UInt32) (payload : Bytes) : (s.beginCall frameType payload).Inv := by
  obtain ⟨hbusy, q⟩ := h.quiet_of_awaits hpc.1
  unfold ShmemSystem.beginCall
  simp only
  split
  · refine inv_of_free h.readIdx_lt h.init_lt hbusy ⟨rfl, rfl⟩ ?_ (fun k hk => q.empty hpc hk) ?_
    · exact fun frame hframe => absurd hframe (by simp)
    · exact fun idx hidx => absurd hidx (by simp [fills])
  · next hfits =>
    refine inv_of_free h.readIdx_lt h.init_lt hbusy ⟨rfl, rfl⟩ ⟨Nat.le_of_not_gt hfits, rfl⟩
      (fun k hk => q.empty hpc hk) ?_
    exact fun idx hidx => absurd hidx (by simp [fills])

/-- A frame returned is the answer to the call's own request. -/
def ReturnsAnswer (s : ShmemSystem ρ) : Prop :=
  ∀ frame, s.client.pc = .returned (.ok frame) →
    s.log.drop s.client.since = [(s.client.request, frame)]

theorem fromBytes_request {f : NmcpFrame} (hfits : f.toBytes.length ≤ maxReqPayload) :
    NmcpFrame.fromBytes f.toBytes = some f := by
  refine NmcpFrame.fromBytes_toBytes ?_
  rw [NmcpFrame.length_toBytes] at hfits
  unfold maxReqPayload at hfits
  omega

section Dispatch

variable [NmcpCodec] {dispatch : ρ → NmcpFrame → NmcpFrame × ρ}

variable {s : ShmemSystem ρ}

theorem Inv.workStep (h : s.Inv) (hbusy : s.server.pc.busy = true)
    (hready : s.server.pc ≠ .markReady) (hsmall : ∀ r f, (dispatch r f).1.payload.length < 2 ^ 32) :
    (s.serverStep dispatch).Inv := by
  have w := h.working hbusy
  have hfits := (clientFacts_iff_of_awaits w.awaits).mp h.client
  have hfacts := w.facts
  unfold ServerFacts at hfacts
  unfold serverStep
  cases hpc : s.server.pc with
  | markProcessing =>
    simp only [hpc] at hfacts ⊢
    exact h.work hbusy _ .readSeq rfl ⟨rfl, hfacts.2⟩
  | readSeq =>
    simp only [hpc] at hfacts ⊢
    exact h.work_to hbusy (.readLen _) rfl s.router s.log hfacts
  | readLen seq =>
    simp only [hpc] at hfacts ⊢
    have hlen : ¬ (s.slot s.server.readIdx).len.toNat > maxReqPayload := by
      rw [hfacts.2.2.1]
      omega
    rw [if_neg hlen]
    exact h.work_to hbusy (.readPayload _ _) rfl s.router s.log
      ⟨hfacts.1, hfacts.2.1, hfacts.2.2, rfl⟩
  | readPayload seq len =>
    simp only [hpc] at hfacts ⊢
    obtain ⟨hstate, hfresh, ⟨hlen, htake⟩, rfl⟩ := hfacts
    rw [hlen, htake]
    exact h.work_to hbusy (.dispatch _ _) rfl s.router s.log ⟨hstate, hfresh, rfl⟩
  | dispatch seq data =>
    simp only [hpc] at hfacts ⊢
    obtain ⟨hstate, hfresh, rfl⟩ := hfacts
    simp only [respond, fromBytes_request hfits]
    refine h.work_to hbusy (.writeLen _ _) rfl _ _ ⟨hstate, _, hsmall _ _, ?_, rfl⟩
    rw [← hfresh, List.drop_left]
  | writeLen seq resp =>
    simp only [hpc] at hfacts ⊢
    refine h.work hbusy _ (.writePayload _ _) rfl ⟨hfacts.1, hfacts.2, ?_⟩
    rw [List.length_take, Nat.min_comm maxResPayload]
    exact toNat_ofNat_of_le (Nat.min_le_right _ _)
  | writePayload seq resp =>
    simp only [hpc] at hfacts ⊢
    obtain ⟨hstate, hanswered, hlen⟩ := hfacts
    refine h.work hbusy _ (.writeSeq _) rfl ⟨hstate, resp, hanswered, hlen, ?_⟩
    have htake : resp.take (min resp.length maxResPayload) = resp.take maxResPayload := by
      simp [Nat.min_comm]
    rw [htake]
    exact Slot.take_writePayload _ _
  | writeSeq seq =>
    simp only [hpc] at hfacts ⊢
    exact h.work hbusy _ .markReady rfl hfacts
  | markReady => exact absurd hpc hready
  | markError => simp only [hpc] at hfacts
  | _ => simp [hpc, ServerPc.busy] at hbusy

theorem Inv.serverStep (h : s.Inv) (hsmall : ∀ r f, (dispatch r f).1.payload.length < 2 ^ 32) :
    (s.serverStep dispatch).Inv := by
  have hlt := h.readIdx_lt
  unfold ShmemSystem.serverStep
  cases hpc : s.server.pc with
  | initIdx =>
    exact h.idle_to (by rw [hpc]; rfl) hlt rfl (fun i hi => by cases hi; decide)
      (by rw [hpc]; rfl) 0
  | initSlot i =>
    have hi := h.init_lt i hpc
    dsimp only
    split
    · next hmore =>
      exact h.clear hpc rfl rfl (fun j hj => by cases hj; exact hmore)
    · next hlast =>
      refine h.clear hpc rfl ?_ (fun j hj => by cases hj)
      show ringSlots = i + 1
      omega
  | waitReq =>
    dsimp only
    split
    · next hstate => exact h.pickUp hpc hstate
    · exact h
  | markReady => exact h.answer hpc
  | waitConsumed =>
    dsimp only
    split
    · exact h.idle_to (by rw [hpc]; rfl) (Nat.mod_lt _ (by decide)) rfl
        (fun i hi => by cases hi) (by rw [hpc]; rfl) s.mem.writeIdx
    · exact h
  | stopped => exact h
  | _ =>
    have hwork := h.workStep (by rw [hpc]; rfl) (by rw [hpc]; simp) hsmall
    rwa [ShmemSystem.serverStep, hpc] at hwork

theorem Inv.step (h : s.Inv) {ev : ShmemEvent} (hseen : s.WaitSeen ev)
    (hsmall : ∀ r f, (dispatch r f).1.payload.length < 2 ^ 32) : (s.step dispatch ev).Inv := by
  cases ev with
  | call frameType payload =>
    simp only [ShmemSystem.step]
    split
    · next hpc => exact h.beginCall (by rw [hpc]; exact ⟨rfl, rfl⟩) frameType payload
    · next hpc => exact h.beginCall (by rw [hpc]; exact ⟨rfl, rfl⟩) frameType payload
    · exact h
  | client => exact h.clientStep hseen
  | server => exact h.serverStep hsmall
  | stop =>
    -- the server is seen to stop at either of its waits
    have hstop : s.server.pc.busy = false → s.server.pc.cleared = ringSlots →
        (s.serverTo .stopped).Inv := fun hbusy hcleared =>
      h.idle_to hbusy h.readIdx_lt rfl (fun i hi => by cases hi)
        (show ServerPc.stopped.cleared = _ from hcleared.symm) s.mem.writeIdx
    simp only [ShmemSystem.step]
    split
    · next hpc => exact hstop (by rw [hpc]; rfl) (by rw [hpc]; rfl)
    · next hpc => exact hstop (by rw [hpc]; rfl) (by rw [hpc]; rfl)
    · exact h

/-- **Calls** whose waits saw what they waited for return the answer to their own request. -/
theorem returned_answer (hsmall : ∀ r f, (dispatch r f).1.payload.length < 2 ^ 32) (mem : Shmem)
    (router : ρ) (events : List ShmemEvent)
    (hseen : StepsMeet (step dispatch) WaitSeen (start mem router) events) :
    (events.foldl (step dispatch) (start mem router)).ReturnsAnswer := by
  have hstep : ∀ (s : ShmemSystem ρ) ev, s.Inv → s.WaitSeen ev → (s.step dispatch ev).Inv :=
    fun _ _ h hev => h.step hev hsmall
  have hinv := foldl_invariant hstep events _ (inv_start mem router) hseen
  intro frame hframe
  have hclient := hinv.client
  simp only [ClientFacts, hframe] at hclient
  exact hclient frame rfl

end Dispatch

/-! ### A server that is too slow -/

theorem foldl_polls [NmcpCodec] (hres : (s.slot idx).state ≠ slotResReady)
    (herror : (s.slot idx).state ≠ slotError) {n polls : Nat} (hn : polls + n < pollLimit) :
    (List.replicate n ShmemEvent.client).foldl (step dispatch)
      (s.clientTo (.waitRes idx polls)) = s.clientTo (.waitRes idx (polls + n)) := by
  induction n generalizing polls with
  | zero => rfl
  | succ n ih =>
    have hpoll : (s.clientTo (.waitRes idx polls)).step dispatch .client
        = s.clientTo (.waitRes idx (polls + 1)) := by
      have hmore : polls + 1 < pollLimit := by omega
      exact (if_neg hres).trans ((if_neg herror).trans (if_pos hmore))
    rw [List.replicate_succ, List.foldl_cons, hpoll, ih (by omega)]
    congr 2
    omega

theorem foldl_all_polls [NmcpCodec] (hpc : s.client.pc = .waitRes idx 0)
    (hres : (s.slot idx).state ≠ slotResReady) (herror : (s.slot idx).state ≠ slotError) :
    (List.replicate pollLimit ShmemEvent.client).foldl (step dispatch) s
      = s.clientTo (.readLen idx) := by
  have hself : s = s.clientTo (.waitRes idx 0) := by
    rw [← hpc]
    rfl
  have hsplit : List.replicate pollLimit ShmemEvent.client
      = List.replicate (pollLimit - 1) .client ++ [.client] :=
    (List.replicate_succ' : List.replicate (pollLimit - 1 + 1) ShmemEvent.client = _)
  have hlast : ¬ pollLimit - 1 + 1 < pollLimit := by decide
  rw [hsplit, List.foldl_append, hself, foldl_polls dispatch hres herror (by decide),
    Nat.zero_add]
  exact (if_neg hres).trans ((if_neg herror).trans (if_neg hlast))

end ShmemSystem

section Demo

def zeroFile : Shmem := ⟨0, fun _ => ⟨0, 0, 0, List.replicate maxReqPayload 0⟩⟩

def emptyRouter (_ : Unit) (f : NmcpFrame) : NmcpFrame × Unit := (⟨0, f.sequenceId, [123, 125]⟩, ())

@[reducible] def silentCodec : NmcpCodec := ⟨fun _ => .error "", fun _ => []⟩

attribute [local instance] silentCodec

def demo (events : List ShmemEvent) : ShmemSystem Unit :=
  events.foldl (step emptyRouter) (.start zeroFile ())

def servedCall : List ShmemEvent :=
  List.replicate 65 .server ++ [.call 80 []] ++ List.replicate 7 .client
    ++ List.replicate 10 .server ++ List.replicate 4 .client

theorem returned_answer_served :
    (demo servedCall).client.pc = .returned (.ok ⟨0, 1, [123, 125]⟩)
      ∧ (demo servedCall).ReturnsAnswer :=
  ⟨by decide +kernel, returned_answer (fun _ _ => by simp [emptyRouter]) zeroFile ()
    servedCall (by decide +kernel)⟩

def slowCall : List ShmemEvent :=
  .call 80 [] :: (List.replicate 7 .client
    ++ (List.replicate pollLimit .client ++ List.replicate 3 .client))

theorem call_returns_request :
    (demo slowCall).client.pc = .returned (.ok (demo slowCall).client.request)
      ∧ (demo slowCall).log = [] := by
  have hrun : demo slowCall = (List.replicate 3 ShmemEvent.client).foldl
      (step emptyRouter)
      ((demo (.call 80 [] :: List.replicate 7 .client)).clientTo (.readLen 0)) := by
    rw [← foldl_all_polls emptyRouter (by decide +kernel) (by decide +kernel)
      (by decide +kernel), demo, demo, slowCall, ← List.cons_append, List.foldl_append,
      List.foldl_append]
  rw [hrun]
  decide +kernel

end Demo

end Velocity.Nmcp
