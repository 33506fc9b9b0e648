import Velocity.Embedded.Durable
import Velocity.Lib.WordBits

namespace Velocity.Embedded

open List Function JournalEntry DurableContext EmbeddedEngine StorageBackend

/-!
# Replay of journaled steps

The counters are always ahead of the journal (`Ahead`), so no entry is ever found.
-/

variable {σ W O I R : Type}

/-- Exactly the journaled calls are answered without an invocation. -/
def ReplaysJournaled (journaled calls : List (StepCall O)) : Prop :=
  (calls.take journaled.length).map (·.result) = journaled.map (·.result)
    ∧ (∀ call ∈ calls.take journaled.length, call.invoked = false)
    ∧ ∀ call ∈ calls.drop journaled.length, call.invoked = true

/-! ### Counters -/

def Ahead (ctx : DurableContext) (counters : String → UInt64) : Prop :=
  ∀ entry ∈ ctx.journal,
    entry.sequence.toNat < (counters (seqKey ctx.workflowId entry.functionName)).toNat

def Below (n : Nat) (counters : String → UInt64) : Prop := ∀ key, (counters key).toNat ≤ n

variable {n : Nat}

theorem toNat_add_one {x : UInt64} (hx : x.toNat < n) (hn : n < 2 ^ 64) :
    (x + 1).toNat = x.toNat + 1 :=
  Lib.toNat_add_one_of_lt (by omega)

theorem toNat_add_one_le (x : UInt64) : (x + 1).toNat ≤ x.toNat + 1 := by
  rw [UInt64.toNat_add]
  exact Nat.mod_le _ _

theorem Below.bump {counters : String → UInt64} (h : Below n counters) (key : String) :
    Below (n + 1) (update counters key (counters key + 1)) := by
  intro k
  by_cases hk : k = key
  · rw [hk, update_self]
    exact Nat.le_trans (toNat_add_one_le _) (Nat.succ_le_succ (h key))
  · rw [update_of_ne hk]
    exact Nat.le_succ_of_le (h k)

section Restore

variable {n : Nat} {workflowId : String} {counters : String → UInt64} {entry : JournalEntry}

theorem Below.restoreCounter (h : Below n counters) (hentry : entry.sequence.toNat < n) :
    Below n (restoreCounter workflowId counters entry) := by
  intro key
  simp only [Velocity.Embedded.restoreCounter]
  split
  · by_cases hkey : key = seqKey workflowId entry.functionName
    · rw [hkey, update_self]
      exact Nat.le_trans (toNat_add_one_le _) hentry
    · rw [update_of_ne hkey]
      exact h key
  · exact h key

theorem le_restoreCounter (hn : n < 2 ^ 64) (hentry : entry.sequence.toNat < n) (key : String) :
    (counters key).toNat ≤ (restoreCounter workflowId counters entry key).toNat := by
  simp only [restoreCounter]
  split
  · next hge =>
    by_cases hkey : key = seqKey workflowId entry.functionName
    -- one above the entry is no step back
    · have hle := UInt64.le_iff_toNat_le.mp hge
      rw [hkey, update_self, toNat_add_one hentry hn]
      omega
    · exact Nat.le_of_eq (congrArg UInt64.toNat (update_of_ne hkey ..)).symm
  · exact Nat.le_refl _

theorem lt_restoreCounter (hn : n < 2 ^ 64) (hentry : entry.sequence.toNat < n) :
    entry.sequence.toNat
      < (restoreCounter workflowId counters entry
          (seqKey workflowId entry.functionName)).toNat := by
  simp only [restoreCounter]
  split
  · rw [update_self, toNat_add_one hentry hn]
    omega
  · next hlt => exact UInt64.lt_iff_toNat_lt.mp (UInt64.not_le.mp hlt)

variable {journal : List JournalEntry}

theorem Below.foldl_restoreCounter (h : Below n counters)
    (hfit : ∀ entry ∈ journal, entry.sequence.toNat < n) :
    Below n (journal.foldl (Velocity.Embedded.restoreCounter workflowId) counters) := by
  induction journal generalizing counters with
  | nil => exact h
  | cons entry journal ih =>
    exact ih (h.restoreCounter (hfit entry mem_cons_self))
      (fun e he => hfit e (mem_cons_of_mem entry he))

theorem le_foldl_restoreCounter (hn : n < 2 ^ 64)
    (hfit : ∀ entry ∈ journal, entry.sequence.toNat < n) (key : String) :
    (counters key).toNat ≤ (journal.foldl (restoreCounter workflowId) counters key).toNat := by
  induction journal generalizing counters with
  | nil => exact Nat.le_refl _
  | cons entry journal ih =>
    exact Nat.le_trans (le_restoreCounter hn (hfit entry mem_cons_self) key)
      (ih (fun e he => hfit e (mem_cons_of_mem entry he)))

theorem lt_foldl_restoreCounter (hn : n < 2 ^ 64)
    (hfit : ∀ entry ∈ journal, entry.sequence.toNat < n) (hentry : entry ∈ journal) :
    entry.sequence.toNat < (journal.foldl (restoreCounter workflowId) counters
      (seqKey workflowId entry.functionName)).toNat := by
  induction journal generalizing counters with
  | nil => cases hentry
  | cons head journal ih =>
    have hrest := fun e he => hfit e (mem_cons_of_mem head he)
    rcases mem_cons.mp hentry with rfl | htail
    · -- later turns of the loop only raise the counter of this entry
      exact Nat.lt_of_lt_of_le (lt_restoreCounter hn (hfit entry mem_cons_self))
        (le_foldl_restoreCounter hn hrest _)
    · exact ih hrest htail

end Restore

/-! ### No call finds its entry -/

variable {ctx : DurableContext}

theorem Ahead.push {counters : String → UInt64} (h : Ahead ctx counters)
    (hbelow : Below n counters) (hn : n + 1 < 2 ^ 64) (stepName : String)
    (output : Value) :
    Ahead
      { ctx with
        journal := ctx.journal ++
          [step (counters (seqKey ctx.workflowId stepName)) stepName output] }
      (update counters (seqKey ctx.workflowId stepName)
        (counters (seqKey ctx.workflowId stepName) + 1)) := by
  have hnext : (counters (seqKey ctx.workflowId stepName) + 1).toNat
      = (counters (seqKey ctx.workflowId stepName)).toNat + 1 :=
    toNat_add_one (Nat.lt_succ_of_le (hbelow _)) hn
  intro entry hentry
  rcases mem_append.mp hentry with hold | hnew
  -- an older entry of the same counter only falls further behind
  · have hlt := h entry hold
    by_cases hkey : seqKey ctx.workflowId entry.functionName = seqKey ctx.workflowId stepName
    · rw [hkey] at hlt
      rw [hkey, update_self, hnext]
      omega
    · rw [update_of_ne hkey]
      exact hlt
  · rw [mem_singleton.mp hnew, step, update_self, hnext]
    exact Nat.lt_succ_self _

variable {e : EmbeddedEngine σ}

/-- **Nothing is ever found**: the entries' numbers lie below the counter. -/
theorem Ahead.cached_eq_none
    (h : Ahead ctx e.sequenceCounters) (stepName : String) (serde : Serde O) :
    ctx.cached e stepName serde = none := by
  have hfind : ctx.journal.find? (fun entry =>
      entry.sequence == e.sequenceCounters (seqKey ctx.workflowId stepName)
        && entry.functionName == stepName && entry.completed) = none := by
    rw [find?_eq_none]
    intro entry hentry hmatch
    simp only [Bool.and_eq_true, beq_iff_eq] at hmatch
    obtain ⟨⟨hseq, hname⟩, -⟩ := hmatch
    have hlt := h entry hentry
    rw [hname, hseq] at hlt
    exact Nat.lt_irrefl _ hlt
  simp only [cached, hfind, Option.bind_none]

theorem existing_withStorage (storage : σ) (workflowId : String) (outputSerde : Serde R) :
    (withStorage storage).existing workflowId outputSerde = none := rfl

variable [StorageBackend σ]

@[simp] theorem sequenceCounters_saveEntry (ctx : DurableContext) (e : EmbeddedEngine σ)
    (entry : Value) : (ctx.saveEntry e entry).sequenceCounters = e.sequenceCounters := by
  unfold saveEntry
  split <;> rfl

theorem Below.run (h : Below n e.sequenceCounters)
    (ctx : DurableContext) (stepName : String) (serde : Serde O) (handler : W → O × W) (world : W) :
    Below (n + 1) (ctx.run e stepName serde handler world).2.2.1.sequenceCounters
      ∧ ∀ v ∈ (ctx.run e stepName serde handler world).1.stored,
          (ofValue v).sequence.toNat ≤ n := by
  have hsame : Below (n + 1) e.sequenceCounters := fun key => Nat.le_succ_of_le (h key)
  simp only [DurableContext.run]
  cases ctx.cached e stepName serde with
  | some result => exact ⟨hsame, fun v hv => absurd hv (Option.not_mem_none v)⟩
  | none =>
    cases serde.toValue (handler world).1 with
    -- an unwritable output moves no counter
    | error msg => exact ⟨hsame, fun v hv => absurd hv (Option.not_mem_none v)⟩
    | ok output =>
      simp only [sequenceCounters_saveEntry]
      refine ⟨h.bump _, ?_⟩
      rintro v ⟨⟩
      exact h _

theorem Ahead.run (h : Ahead ctx e.sequenceCounters) (hbelow : Below n e.sequenceCounters)
    (hn : n + 1 < 2 ^ 64) (stepName : String) (serde : Serde O) (handler : W → O × W) (world : W) :
    (ctx.run e stepName serde handler world).1.invoked = true
      ∧ Ahead (ctx.run e stepName serde handler world).2.1
          (ctx.run e stepName serde handler world).2.2.1.sequenceCounters := by
  simp only [DurableContext.run, h.cached_eq_none]
  cases serde.toValue (handler world).1 with
  | error msg => exact ⟨rfl, h⟩
  | ok output =>
    refine ⟨rfl, ?_⟩
    simp only [sequenceCounters_saveEntry]
    exact h.push hbelow hn stepName output

theorem Ahead.invoked_of_mem_exec (handler : Handler W O R) (h : Ahead ctx e.sequenceCounters)
    (hbelow : Below n e.sequenceCounters) (world : W)
    (hn : n + (handler.exec ctx e world).1.length < 2 ^ 64) :
    ∀ call ∈ (handler.exec ctx e world).1, call.invoked = true := by
  induction handler generalizing ctx e world n with
  | done result =>
    intro call hcall
    cases hcall
  -- `Ahead` and the bound both move on by one call
  | run stepName serde step next ih =>
    simp only [Handler.exec, length_cons] at hn ⊢
    obtain ⟨hinvoked, hahead⟩ := h.run hbelow (by omega) stepName serde step world
    intro call hcall
    rcases mem_cons.mp hcall with rfl | hrest
    · exact hinvoked
    · refine ih _ hahead (hbelow.run ctx stepName serde step world).1 _ ?_ call hrest
      rw [Nat.add_assoc, Nat.add_comm 1]
      exact hn

/-! ### Crashes -/

theorem Below.sequence_lt_of_mem_execFor (k : Nat) (handler : Handler W O R)
    (ctx : DurableContext) (h : Below n e.sequenceCounters) (world : W) :
    ∀ v ∈ (handler.execFor k ctx e world).1.filterMap (·.stored),
      (ofValue v).sequence.toNat < n + k := by
  induction handler generalizing k ctx e world n with
  | done result => cases k <;> simp [Handler.execFor]
  | run stepName serde step next ih =>
    cases k with
    | zero => simp [Handler.execFor]
    | succ k =>
      obtain ⟨hbelow, hstored⟩ := h.run ctx stepName serde step world
      intro v hv
      obtain ⟨call, hcall, hv⟩ := mem_filterMap.mp hv
      rcases mem_cons.mp hcall with rfl | hrest
      · have hle := hstored v hv
        omega
      · have hlt := ih _ k _ hbelow _ v (mem_filterMap.mpr ⟨call, hrest, hv⟩)
        omega

variable {journal : List Value}

theorem loadJournal_saveEntry [LawfulStorage σ] (ctx : DurableContext) (e : EmbeddedEngine σ)
    (entry : Value) (hload : loadJournal e.storage ctx.workflowId = .ok journal) :
    loadJournal (ctx.saveEntry e entry).storage ctx.workflowId
      = .ok (journal ++ [entry]) := by
  obtain ⟨storage', hsave, hjournal⟩ :=
    LawfulStorage.loadJournal_saveJournalEntry e.storage ctx.workflowId entry
  simp only [saveEntry, hsave]
  exact hjournal journal hload

theorem loadJournal_run [LawfulStorage σ] (ctx : DurableContext) (e : EmbeddedEngine σ)
    (stepName : String) (serde : Serde O) (handler : W → O × W) (world : W)
    (hload : loadJournal e.storage ctx.workflowId = .ok journal) :
    (ctx.run e stepName serde handler world).2.1.workflowId = ctx.workflowId
      ∧ loadJournal (ctx.run e stepName serde handler world).2.2.1.storage
          ctx.workflowId
        = .ok (journal ++ (ctx.run e stepName serde handler world).1.stored.toList) := by
  simp only [run]
  cases ctx.cached e stepName serde with
  | some result => simpa using hload
  | none =>
    cases serde.toValue (handler world).1 with
    | error msg => simpa using hload
    | ok output =>
      refine ⟨rfl, ?_⟩
      exact loadJournal_saveEntry
        { ctx with journal := ctx.journal ++ [step _ stepName output] }
        { e with sequenceCounters := _ } _ hload

/-- **What a crash leaves**: what the calls before it stored, in order. -/
theorem loadJournal_execFor [LawfulStorage σ] (k : Nat) (handler : Handler W O R)
    (ctx : DurableContext) (e : EmbeddedEngine σ) (world : W)
    (hload : loadJournal e.storage ctx.workflowId = .ok journal) :
    loadJournal (handler.execFor k ctx e world).2.storage ctx.workflowId
      = .ok (journal ++ (handler.execFor k ctx e world).1.filterMap (·.stored)) := by
  induction handler generalizing k ctx e world journal with
  | done result => cases k <;> simpa [Handler.execFor] using hload
  | run stepName serde step next ih =>
    cases k with
    | zero => simpa [Handler.execFor] using hload
    | succ k =>
      obtain ⟨hid, hjournal⟩ := loadJournal_run ctx e stepName serde step world hload
      have hrest := ih (ctx.run e stepName serde step world).1.result k
        (ctx.run e stepName serde step world).2.1 (ctx.run e stepName serde step world).2.2.1
        (ctx.run e stepName serde step world).2.2.2 (hid ▸ hjournal)
      rw [hid] at hrest
      refine hrest.trans ?_
      simp only [Handler.execFor, filterMap_cons, append_assoc]
      cases (ctx.run e stepName serde step world).1.stored <;> rfl

/-! ### Re-execution -/

section Execute

variable [LawfulStorage σ] (workflowId functionName : String) (input : I) (inputSerde : Serde I)
  (outputSerde : Serde R) (handler : I → Handler W O R)

theorem enter_of_loadJournal (e : EmbeddedEngine σ) (inputValue : Value) {journal : List Value}
    (hload : loadJournal e.storage workflowId = .ok journal) :
    (e.enter workflowId functionName inputValue).1
        = ⟨workflowId, journal.map ofValue⟩
      ∧ (e.enter workflowId functionName inputValue).2.sequenceCounters
        = (journal.map ofValue).foldl (restoreCounter workflowId)
            e.sequenceCounters
      ∧ loadJournal (e.enter workflowId functionName inputValue).2.storage
          workflowId = .ok journal := by
  obtain ⟨storage', hsave, hsame⟩ :=
    LawfulStorage.loadJournal_saveWorkflow e.storage workflowId functionName .null
  have hload' := (hsame workflowId).trans hload
  simp only [enter, hsave, new, hload', Except.toOption,
    Option.getD_some, and_self]

theorem loadJournal_executeFor {storage : σ} (k : Nat) (world : W)
    (hfresh : loadJournal storage workflowId = .ok []) :
    ∃ journal,
      loadJournal ((withStorage storage).executeFor k workflowId
          functionName input inputSerde outputSerde handler world).2.storage workflowId
        = .ok journal
      ∧ ∀ v ∈ journal, (ofValue v).sequence.toNat < k := by
  simp only [executeFor, existing_withStorage]
  cases inputSerde.toValue input with
  | error msg => exact ⟨[], hfresh, fun v hv => absurd hv not_mem_nil⟩
  | ok inputValue =>
    obtain ⟨hctx, hcounters, hload⟩ := enter_of_loadJournal workflowId functionName
      (withStorage storage) inputValue hfresh
    dsimp only
    generalize (withStorage storage).enter workflowId functionName inputValue
      = entered at hctx hcounters hload ⊢
    obtain ⟨ctx, e⟩ := entered
    obtain rfl : ctx = ⟨workflowId, []⟩ := hctx
    -- without a journal all counters are zero
    have hbelow : Below 0 e.sequenceCounters := by
      rw [hcounters]
      exact fun _ => Nat.le_refl 0
    refine ⟨_, loadJournal_execFor k (handler input) _ e world hload, fun v hv => ?_⟩
    rw [nil_append] at hv
    have hlt := hbelow.sequence_lt_of_mem_execFor k (handler input) _ world v hv
    omega

theorem invoked_of_mem_execute {storage : σ} {journal : List Value} {n : Nat} (world : W)
    (hload : loadJournal storage workflowId = .ok journal)
    (hfit : ∀ v ∈ journal, (ofValue v).sequence.toNat < n)
    (hfew : n + ((withStorage storage).execute workflowId functionName input
      inputSerde outputSerde handler world).1.length < 2 ^ 64) :
    ∀ call ∈ ((withStorage storage).execute workflowId functionName input
      inputSerde outputSerde handler world).1, call.invoked = true := by
  simp only [execute, existing_withStorage] at hfew ⊢
  cases hinput : inputSerde.toValue input with
  | error msg =>
    intro call hcall
    cases hcall
  | ok inputValue =>
    simp only [hinput] at hfew
    obtain ⟨hctx, hcounters, -⟩ := enter_of_loadJournal workflowId functionName
      (withStorage storage) inputValue hload
    dsimp only
    generalize (withStorage storage).enter workflowId functionName inputValue
      = entered at hctx hcounters hfew ⊢
    obtain ⟨ctx, e⟩ := entered
    obtain rfl : ctx = ⟨workflowId, journal.map ofValue⟩ := hctx
    have hentries : ∀ entry ∈ journal.map ofValue, entry.sequence.toNat < n := by
      intro entry hentry
      obtain ⟨v, hv, rfl⟩ := mem_map.mp hentry
      exact hfit v hv
    have hzero : Below n (withStorage storage).sequenceCounters :=
      fun _ => Nat.zero_le n
    refine Ahead.invoked_of_mem_exec (handler input) ?_ ?_ world hfew
    · intro entry hentry
      rw [hcounters]
      exact lt_foldl_restoreCounter (by omega) hentries hentry
    · rw [hcounters]
      exact hzero.foldl_restoreCounter hentries

end Execute

/-- **Replay after a crash** behind `k` step calls replays these calls iff `k` is zero. -/
theorem replaysJournaled_iff [LawfulStorage σ] (storage : σ) (workflowId functionName : String)
    (input : I) (inputSerde : Serde I) (outputSerde : Serde R) (handler : I → Handler W O R)
    (world world' : W) (k : Nat) (hfresh : loadJournal storage workflowId = .ok [])
    (hk : ((withStorage storage).executeFor k workflowId functionName input
      inputSerde outputSerde handler world).1.length = k) :
    let crashed := (withStorage storage).executeFor k workflowId functionName input
      inputSerde outputSerde handler world
    let calls := ((withStorage crashed.2.storage).execute workflowId functionName
      input inputSerde outputSerde handler world').1
    k + calls.length < 2 ^ 64 → (ReplaysJournaled crashed.1 calls ↔ k = 0) := by
  intro crashed calls hfew
  obtain ⟨journal, hload, hfit⟩ := loadJournal_executeFor workflowId functionName input inputSerde
    outputSerde handler k world hfresh
  have hinvoked : ∀ call ∈ calls, call.invoked = true :=
    invoked_of_mem_execute workflowId functionName input inputSerde outputSerde handler world'
      hload hfit hfew
  have hlen : crashed.1.length = k := hk
  unfold ReplaysJournaled
  rw [hlen]
  constructor
  · rintro ⟨hresults, hquiet, -⟩
    -- a replayed call would be one that is not invoked
    have hcount := congrArg List.length hresults
    rw [length_map, length_map, hlen] at hcount
    by_contra hne
    obtain ⟨call, hcall⟩ := exists_mem_of_length_pos (l := calls.take k) (by omega)
    have hfalse := hquiet call hcall
    rw [hinvoked call (mem_of_mem_take hcall)] at hfalse
    cases hfalse
  · rintro rfl
    have hnil : crashed.1 = [] := length_eq_zero_iff.mp hlen
    refine ⟨by simp [hnil], by simp, fun call hcall => hinvoked call ?_⟩
    rwa [drop_zero] at hcall

/-! ### A workflow of one step -/

def countHandler (_ : UInt64) : Handler UInt64 UInt64 UInt64 :=
  .run "count" u64Serde (fun world => (world, world + 1)) .done

def countCrash (k : Nat) : List (StepCall UInt64) × EmbeddedEngine InMemoryStorage :=
  (withStorage InMemoryStorage.new).executeFor k "wf" "count" 0 u64Serde u64Serde
    countHandler 0

def countAgain (k : Nat) : List (StepCall UInt64) :=
  ((withStorage (countCrash k).2.storage).execute "wf" "count" 0 u64Serde u64Serde
    countHandler 7).1

theorem replaysJournaled_count : ReplaysJournaled (countCrash 0).1 (countAgain 0)
    ∧ ¬ ReplaysJournaled (countCrash 1).1 (countAgain 1) := by
  constructor
  · exact (replaysJournaled_iff InMemoryStorage.new "wf" "count" 0 u64Serde u64Serde countHandler
      0 7 0 rfl rfl (by decide +kernel)).mpr rfl
  · intro hreplays
    exact absurd ((replaysJournaled_iff InMemoryStorage.new "wf" "count" 0 u64Serde u64Serde
      countHandler 0 7 1 rfl rfl (by decide +kernel)).mp hreplays) (by decide)

theorem not_replaysJournaled_count :
    (countCrash 1).1.map (·.result.toOption) = [some 0]
    ∧ ((countCrash 1).2.storage.journals "wf").map
        (fun entry => ((entry.get "function_name").bind Value.asStr,
          (entry.get "output").bind Value.asU64)) = [(some "count", some 0)]
    ∧ (countAgain 1).map (·.invoked) = [true]
    ∧ (countAgain 1).map (·.result.toOption) = [some 7] := by
  decide +kernel

end Velocity.Embedded
