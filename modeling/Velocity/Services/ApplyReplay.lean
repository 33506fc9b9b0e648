import Mathlib.Data.List.Sigma
import Velocity.Services.Replay
import Velocity.Store.SlotQueues

namespace Velocity

open Lib List

/-!
# Contexts from replay results

`apply_replay` goes through hash maps, and the slab header depends on the order.
-/

namespace SlotVec

variable {V : Type} {s : SlotVec V}

def Compact (s : SlotVec V) : Prop := ∀ key, (s.slotsOf key).tail.flatten = []

theorem compact_withCapacity (capacity : Nat) : (withCapacity capacity : SlotVec V).Compact := by
  intro key
  rw [flatten_eq_nil_iff]
  intro values hvalues
  obtain ⟨slot, hslot, rfl⟩ := mem_map.mp (mem_of_mem_tail hvalues)
  rw [(mem_replicate.mp (mem_of_mem_filter hslot)).2]

theorem Compact.push (h : s.Compact) (key : UInt64) (value : V) :
    (s.push key value).Compact
      ∧ ∀ k, (s.push key value).queued k = s.queued k ++ if k = key then [value] else [] := by
  refine ⟨fun k => ?_, fun k => ?_⟩
  · by_cases hk : k = key
    · subst hk
      rw [slotsOf_push_self]
      exact h k
    · rw [flatten_eq_nil_iff]
      intro values hvalues
      exact flatten_eq_nil_iff.mp (h k) values ((slotsOf_push_of_ne hk value).tail.subset hvalues)
  · by_cases hk : k = key
    · subst hk
      rw [if_pos rfl, queued_push_self_iff, h k]
      simp
    · rw [if_neg hk, append_nil, queued_push_of_ne s hk]

theorem Compact.pushAll (h : s.Compact) (key : UInt64) (values : List V) :
    (values.foldl (SlotVec.push · key ·) s).Compact
      ∧ ∀ k, (values.foldl (SlotVec.push · key ·) s).queued k
        = s.queued k ++ if k = key then values else [] := by
  induction values generalizing s with
  | nil => exact ⟨h, by simp⟩
  | cons value values ih =>
    obtain ⟨hnext, hpush⟩ := h.push key value
    obtain ⟨hlast, hrest⟩ := ih hnext
    refine ⟨hlast, fun k => ?_⟩
    rw [foldl_cons, hrest, hpush]
    split <;> simp

end SlotVec

abbrev StepOrder := List ((_ : UInt32) × Bytes)

abbrev SignalOrder := List ((_ : UInt64) × List Bytes)

section Contexts

variable [Sha256]

namespace WorkflowContext

def restoreSteps (ctx : WorkflowContext) (steps : StepOrder) : WorkflowContext :=
  steps.foldl (fun ctx entry => ctx.completeStep entry.1 entry.2) ctx

def restoreSignals (ctx : WorkflowContext) (signals : SignalOrder) :
    WorkflowContext :=
  signals.foldl (fun ctx entry =>
    entry.2.foldl (fun ctx payload => ctx.signal entry.1 payload) ctx) ctx

end WorkflowContext

/-- The number of steps is wrapped as in a release build. -/
def ReplayResult.newContext (result : ReplayResult) (now : Nat)
    (steps : StepOrder) : WorkflowContext :=
  let totalSteps := steps.foldl (fun total entry => max total (entry.1.toNat + 1)) 0
  { WorkflowContext.new (result.workflowKey &&& 0xFFFFFFFF) 0 0 0 (UInt32.ofNat totalSteps) now with
    status := result.status }

def ReplayResult.apply (result : ReplayResult) (now : Nat) (steps : StepOrder)
    (signals : SignalOrder) : Option WorkflowContext :=
  if !result.success then none
  else some (((result.newContext now steps).restoreSteps steps).restoreSignals signals)

end Contexts

/-- Two contexts that no reader of slab, results or signals tells apart. -/
structure WorkflowContext.Alike (c c' : WorkflowContext) : Prop where
  stepBitmask : c.slab.stepBitmask = c'.slab.stepBitmask
  currentStep : c.slab.currentStep = c'.slab.currentStep
  prevMerkleRoot : c.slab.prevMerkleRoot = c'.slab.prevMerkleRoot
  merkleRoot : c.slab.merkleRoot = c'.slab.merkleRoot
  stepResults : ∀ step, c.getStepResult step = c'.getStepResult step
  signals : ∀ id, c.signalBuffer.queued id = c'.signalBuffer.queued id

/-! ### What the loops leave -/

section Orders

variable [Sha256]

namespace WorkflowContext

variable {ctx : WorkflowContext}

theorem signalBuffer_restoreSteps (steps : StepOrder) (ctx : WorkflowContext) :
    (ctx.restoreSteps steps).signalBuffer = ctx.signalBuffer := by
  induction steps generalizing ctx with
  | nil => rfl
  | cons entry steps ih => exact ih _

theorem getStepResult_restoreSteps {steps : StepOrder} (h : steps.NodupKeys)
    (ctx : WorkflowContext) (step : UInt32) :
    (ctx.restoreSteps steps).getStepResult step
      = (dlookup step steps).or (ctx.getStepResult step) := by
  induction steps generalizing ctx with
  | nil => rfl
  | cons entry steps ih =>
    obtain ⟨s, data⟩ := entry
    rw [nodupKeys_cons] at h
    rw [restoreSteps, foldl_cons, ← restoreSteps, ih h.2, getStepResult_completeStep]
    by_cases hs : step = s
    · subst hs
      rw [dlookup_eq_none.mpr h.1, dlookup_cons_eq]
      simp
    · rw [dlookup_cons_ne _ _ hs, if_neg hs]

theorem slab_restoreSteps (steps : StepOrder) (ctx : WorkflowContext) :
    (ctx.restoreSteps steps).slab = (steps.filter (·.1 < 256)).foldl
      (fun slab entry => (slab.markStepCompleted entry.1.toNat).2) ctx.slab := by
  induction steps generalizing ctx with
  | nil => rfl
  | cons entry steps ih =>
    rw [restoreSteps, foldl_cons, ← restoreSteps, ih, completeStep]
    by_cases hlt : entry.1 < 256
    · rw [filter_cons_of_pos (by simpa using hlt), foldl_cons]
    · rw [filter_cons_of_neg (by simpa using hlt), SlabHeader.markStepCompleted_of_ge]
      simpa [UInt32.le_iff_toNat_le] using hlt

omit [Sha256] in
theorem restoreSignals_spec {signals : SignalOrder} (h : signals.NodupKeys)
    (hctx : ctx.signalBuffer.Compact) :
    (ctx.restoreSignals signals).slab = ctx.slab
      ∧ (ctx.restoreSignals signals).stepResults = ctx.stepResults
      ∧ ∀ id, (ctx.restoreSignals signals).signalBuffer.queued id
        = ctx.signalBuffer.queued id ++ (dlookup id signals).getD [] := by
  induction signals generalizing ctx with
  | nil => simp [restoreSignals]
  | cons entry signals ih =>
    obtain ⟨name, payloads⟩ := entry
    rw [nodupKeys_cons] at h
    have hone : ∀ (payloads : List Bytes) (ctx : WorkflowContext),
        let ctx' := payloads.foldl (fun ctx payload => ctx.signal name payload) ctx
        ctx'.slab = ctx.slab ∧ ctx'.stepResults = ctx.stepResults
          ∧ ctx'.signalBuffer = payloads.foldl (SlotVec.push · name ·) ctx.signalBuffer := by
      intro payloads
      induction payloads with
      | nil => exact fun ctx => ⟨rfl, rfl, rfl⟩
      | cons payload payloads ih => exact fun ctx => ih (ctx.signal name payload)
    obtain ⟨hslab, hresults, hbuffer⟩ := hone payloads ctx
    obtain ⟨hcompact, hqueued⟩ := hctx.pushAll name payloads
    rw [← hbuffer] at hcompact hqueued
    obtain ⟨hslab', hresults', hqueued'⟩ := ih h.2 hcompact
    rw [restoreSignals, foldl_cons, ← restoreSignals]
    refine ⟨hslab'.trans hslab, hresults'.trans hresults, fun id => ?_⟩
    rw [hqueued', hqueued]
    by_cases hid : id = name
    · subst hid
      simp [dlookup_eq_none.mpr h.1]
    · simp [hid, dlookup_cons_ne]

end WorkflowContext

open WorkflowContext

theorem ReplayResult.slab_newContext (result : ReplayResult) (now now' : Nat)
    {steps steps' : StepOrder} (h : steps.Perm steps') :
    (result.newContext now steps).slab = (result.newContext now' steps').slab := by
  have htotal := h.foldl_eq' (f := fun total entry => max total (entry.1.toNat + 1))
    (fun _ _ _ _ _ => by omega) 0
  rw [newContext, htotal]
  rfl

theorem ReplayResult.compact_restoreSteps (result : ReplayResult) (now : Nat)
    (steps steps' : StepOrder) :
    ((result.newContext now steps).restoreSteps steps').signalBuffer.Compact := by
  rw [signalBuffer_restoreSteps]
  exact SlotVec.compact_withCapacity 16

omit [Sha256] in
theorem eq_of_perm_of_length_le_one {α : Type*} {l l' : List α} (h : l.Perm l')
    (hl : l'.length ≤ 1) : l = l' := by
  cases l' with
  | nil => exact h.eq_nil
  | cons a l' =>
    obtain rfl : l' = [] := by simpa using hl
    exact perm_singleton.mp h

theorem currentStep_restoreSteps_concat (ctx : WorkflowContext)
    (steps : StepOrder) {entry : (_ : UInt32) × Bytes} (h : entry.1 < 256) :
    (ctx.restoreSteps (steps ++ [entry])).slab.currentStep = UInt32.ofNat (entry.1.toNat + 1) := by
  rw [restoreSteps, foldl_append, foldl_cons, foldl_nil,
    completeStep,
    SlabHeader.markStepCompleted_of_lt _ (UInt32.lt_iff_toNat_lt.mp h)]
  rfl

/-- **Orders of iteration** do not matter iff the result failed or has at most one step below
    256. -/
theorem alike_apply_iff (result : ReplayResult) (now now' : Nat) :
    (∀ steps steps' signals signals', steps.Perm result.stepResults.entries →
        steps'.Perm result.stepResults.entries → signals.Perm result.pendingSignals.entries →
        signals'.Perm result.pendingSignals.entries →
        ∀ c ∈ result.apply now steps signals, ∀ c' ∈ result.apply now' steps' signals', c.Alike c')
      ↔ (result.success = true →
        (result.stepResults.entries.filter (·.1 < 256)).length ≤ 1) := by
  have hkeys := result.stepResults.nodupKeys
  have hnames := result.pendingSignals.nodupKeys
  constructor
  · intro h hsuccess
    by_contra hlen
    rcases hfilter : result.stepResults.entries.filter (·.1 < 256) with _ | ⟨x, _ | ⟨y, l⟩⟩
    · simp [hfilter] at hlen
    · simp [hfilter] at hlen
    have hbelow : ∀ entry ∈ x :: y :: l, entry.1 < 256 := fun entry hentry => by
      rw [← hfilter] at hentry
      simpa using (mem_filter.mp hentry).2
    have hsub : x :: y :: l <+ result.stepResults.entries := hfilter ▸ filter_sublist
    obtain ⟨rest, hperm⟩ := hsub.exists_perm_append
    have hne : x.1 ≠ y.1 := by
      have hnodup := (perm_nodupKeys hperm).mp hkeys
      rw [cons_append, nodupKeys_cons] at hnodup
      exact fun heq => hnodup.1 (by simp [heq])
    -- the same order, but for the two steps at its end
    have hxy : (l ++ rest ++ [x] ++ [y]).Perm result.stepResults.entries := by
      rw [append_assoc]
      exact perm_append_comm.trans hperm.symm
    have hyx : (l ++ rest ++ [y] ++ [x]).Perm result.stepResults.entries := by
      rw [append_assoc]
      exact perm_append_comm.trans ((Perm.swap x y (l ++ rest)).trans hperm.symm)
    have happly : ∀ now steps, ((result.newContext now steps).restoreSteps steps).restoreSignals
        result.pendingSignals.entries ∈ result.apply now steps result.pendingSignals.entries := by
      simp [ReplayResult.apply, hsuccess]
    have halike :=
      (h _ _ _ _ hxy hyx (.refl _) (.refl _) _ (happly _ _) _ (happly _ _)).currentStep
    rw [(restoreSignals_spec hnames (result.compact_restoreSteps _ _ _)).1,
      (restoreSignals_spec hnames (result.compact_restoreSteps _ _ _)).1,
      currentStep_restoreSteps_concat _ _ (hbelow y (by simp)),
      currentStep_restoreSteps_concat _ _ (hbelow x (by simp))] at halike
    have hbound : ∀ entry ∈ x :: y :: l, entry.1.toNat + 1 < UInt32.size := fun entry hentry =>
      Nat.lt_of_le_of_lt (UInt32.lt_iff_toNat_lt.mp (hbelow entry hentry)) (by decide)
    have hsame := congrArg UInt32.toNat halike
    rw [UInt32.toNat_ofNat_of_lt' (hbound y (by simp)),
      UInt32.toNat_ofNat_of_lt' (hbound x (by simp))] at hsame
    exact hne (UInt32.toNat_inj.mp (Nat.succ.inj hsame).symm)
  · intro h steps steps' signals signals' hsteps hsteps' hsignals hsignals' c hc c' hc'
    simp only [ReplayResult.apply] at hc hc'
    split at hc
    · cases hc
    next hsuccess =>
    rw [if_neg hsuccess] at hc'
    cases hc
    cases hc'
    have hnodup := (perm_nodupKeys hsteps).mpr hkeys
    have hnodup' := (perm_nodupKeys hsteps').mpr hkeys
    have hnames' := (perm_nodupKeys hsignals').mpr hnames
    replace hnames := (perm_nodupKeys hsignals).mpr hnames
    obtain ⟨hslab, hresults, hqueued⟩ := restoreSignals_spec hnames
      (result.compact_restoreSteps now steps steps)
    obtain ⟨hslab', hresults', hqueued'⟩ := restoreSignals_spec hnames'
      (result.compact_restoreSteps now' steps' steps')
    have hperm := hsteps.trans hsteps'.symm
    have hsame : (((result.newContext now steps).restoreSteps steps).restoreSignals signals).slab
        = (((result.newContext now' steps').restoreSteps steps').restoreSignals signals').slab := by
      rw [hslab, hslab', slab_restoreSteps, slab_restoreSteps,
        result.slab_newContext now now' hperm,
        eq_of_perm_of_length_le_one (hsteps.filter _) (h (by simpa using hsuccess)),
        eq_of_perm_of_length_le_one (hsteps'.filter _) (h (by simpa using hsuccess))]
    refine ⟨congrArg _ hsame, congrArg _ hsame, congrArg _ hsame, congrArg _ hsame,
      fun step => ?_, fun id => ?_⟩
    · rw [getStepResult, getStepResult, hresults, hresults',
        ← getStepResult, ← getStepResult,
        getStepResult_restoreSteps hnodup,
        getStepResult_restoreSteps hnodup', perm_dlookup step hnodup hperm]
      rfl
    · rw [hqueued, hqueued', signalBuffer_restoreSteps,
        signalBuffer_restoreSteps,
        perm_dlookup id hnames (hsignals.trans hsignals'.symm)]
      rfl

end Orders

def twoSteps : ReplayResult :=
  ⟨1, 2, 2, 2, .running, ⟨[⟨0, [7]⟩, ⟨1, [8]⟩], by simp [NodupKeys]⟩, ∅, [], [], [], 0, true, none⟩

theorem currentStep_swapped :
    (twoSteps.apply 0 twoSteps.stepResults.entries []).map (·.slab.currentStep) = some 2
      ∧ (twoSteps.apply 0 twoSteps.stepResults.entries.reverse []).map (·.slab.currentStep)
        = some 1 := by
  decide +kernel

end Velocity
