import Velocity.Embedded.Durable
import Velocity.Lib.Interleaving

namespace Velocity.Embedded

open Lib DurableContext Function JournalEntry

/-!
# Two workflows on one engine

Contexts share storage and counters. A step is a stretch of code without an `await`.

* `Process`: a handler between two steps; `exists_alone_eq_exec` ties it to `exec`.
* `independent_iff`: when two never see each other.
-/

section Process

variable {σ W O R : Type} [StorageBackend σ]

def DurableContext.record (ctx : DurableContext) (e : EmbeddedEngine σ) (stepName : String)
    (serde : Serde O) (result : O) : StepCall O × DurableContext × EmbeddedEngine σ :=
  match serde.toValue result with
  | .error msg => (⟨stepName, true, .error (.serialization msg), none⟩, ctx, e)
  | .ok output =>
    let key := seqKey ctx.workflowId stepName
    let seq := e.sequenceCounters key
    let e := { e with sequenceCounters := update e.sequenceCounters key (seq + 1) }
    let ctx := { ctx with journal := ctx.journal ++ [step seq stepName output] }
    let entry := stepValue seq stepName output
    (⟨stepName, true, .ok result, some entry⟩, ctx, ctx.saveEntry e entry)

theorem run_of_cached {ctx : DurableContext} {e : EmbeddedEngine σ}
    {stepName : String} {serde : Serde O} {result : O}
    (hcached : ctx.cached e stepName serde = some result) (handler : W → O × W) (world : W) :
    ctx.run e stepName serde handler world
      = (⟨stepName, false, .ok result, none⟩, ctx, e, world) := by
  rw [DurableContext.run, hcached]

theorem run_of_not_cached {ctx : DurableContext} {e : EmbeddedEngine σ}
    {stepName : String} {serde : Serde O} (hcached : ctx.cached e stepName serde = none)
    (handler : W → O × W) (world : W) :
    ctx.run e stepName serde handler world
      = ((ctx.record e stepName serde (handler world).1).1,
          (ctx.record e stepName serde (handler world).1).2.1,
          (ctx.record e stepName serde (handler world).1).2.2, (handler world).2) := by
  rw [DurableContext.run, hcached, DurableContext.record]
  dsimp only
  cases serde.toValue (handler world).1 <;> rfl

@[simp] theorem workflowId_record (ctx : DurableContext) (e : EmbeddedEngine σ)
    (stepName : String) (serde : Serde O) (result : O) :
    (ctx.record e stepName serde result).2.1.workflowId = ctx.workflowId := by
  rw [DurableContext.record]
  cases serde.toValue result <;> rfl

inductive Phase (W O R : Type) where
  | entering (handler : Handler W O R)
  | between (journal : List JournalEntry) (handler : Handler W O R)
  | awaited (journal : List JournalEntry) (stepName : String) (serde : Serde O) (result : O)
      (next : Except EmbeddedError O → Handler W O R)

structure Process (W O R : Type) where
  phase : Phase W O R
  world : W
  calls : List (StepCall O)

namespace Process

def step (workflowId : String) (p : Process W O R) (e : EmbeddedEngine σ) :
    Process W O R × EmbeddedEngine σ :=
  match p.phase with
  | .entering handler =>
    let (ctx, e) := DurableContext.new workflowId e
    ({ p with phase := .between ctx.journal handler }, e)
  | .between _ (.done _) => (p, e)
  | .between journal (.run stepName serde handler next) =>
    match DurableContext.cached ⟨workflowId, journal⟩ e stepName serde with
    | some result =>
      ({ p with
          phase := .between journal (next (.ok result))
          calls := p.calls ++ [⟨stepName, false, .ok result, none⟩] }, e)
    | none =>
      let (result, world) := handler p.world
      ({ p with phase := .awaited journal stepName serde result next, world := world }, e)
  | .awaited journal stepName serde result next =>
    let (call, ctx, e) := DurableContext.record ⟨workflowId, journal⟩ e stepName serde result
    ({ p with phase := .between ctx.journal (next call.result), calls := p.calls ++ [call] }, e)

/-! ### A process alone -/

theorem exists_alone_eq_run (workflowId : String) (journal : List JournalEntry)
    (e : EmbeddedEngine σ) (stepName : String) (serde : Serde O) (handler : W → O × W)
    (next : Except EmbeddedError O → Handler W O R) (world : W) (calls : List (StepCall O)) :
    ∃ n call ctx e' world',
      DurableContext.run ⟨workflowId, journal⟩ e stepName serde handler world
          = (call, ctx, e', world')
        ∧ ctx.workflowId = workflowId
        ∧ alone (step workflowId) n (⟨.between journal (.run stepName serde handler next), world,
            calls⟩, e) = (⟨.between ctx.journal (next call.result), world', calls ++
            [call]⟩, e') := by
  cases hcached : cached ⟨workflowId, journal⟩ e stepName serde with
  | some result =>
    refine ⟨1, _, _, _, _, run_of_cached hcached handler world, rfl, ?_⟩
    rw [alone_succ, alone_zero, step]
    dsimp only
    rw [hcached]
  | none =>
    refine ⟨2, _, _, _, _, run_of_not_cached hcached handler world, by simp, ?_⟩
    rw [alone_succ, step]
    dsimp only
    rw [hcached]
    rfl

theorem exists_alone_between_eq_exec (handler : Handler W O R) (ctx : DurableContext)
    (e : EmbeddedEngine σ) (world : W) (before : List (StepCall O)) :
    ∃ n journal calls result e' world',
      handler.exec ctx e world = (calls, result, e', world')
        ∧ alone (step ctx.workflowId) n (⟨.between ctx.journal handler, world, before⟩, e)
          = (⟨.between journal (.done result), world', before ++ calls⟩, e') := by
  induction handler generalizing ctx e world before with
  | done result =>
    exact ⟨0, ctx.journal, [], result, e, world, rfl, by rw [alone_zero, List.append_nil]⟩
  | run stepName serde body next ih =>
    obtain ⟨m, call, ctx', e₁, world₁, hrun, hctx, hcall⟩ :=
      exists_alone_eq_run ctx.workflowId ctx.journal e stepName serde body next world before
    obtain ⟨n, journal, calls, result, e₂, world₂, hexec, hrest⟩ :=
      ih call.result ctx' e₁ world₁ (before ++ [call])
    refine ⟨m + n, journal, call :: calls, result, e₂, world₂, ?_, ?_⟩
    · rw [Handler.exec, hrun]
      dsimp only
      rw [hexec]
    · rw [hctx] at hrest
      rw [alone_add, hcall, hrest, List.append_assoc]
      rfl

/-- **Alone**, a process ends as `exec` does. -/
theorem exists_alone_eq_exec (workflowId : String) (handler : Handler W O R)
    (e : EmbeddedEngine σ) (world : W) :
    ∃ n journal calls result e' world',
      handler.exec (DurableContext.new workflowId e).1 (DurableContext.new workflowId e).2 world
          = (calls, result, e', world')
        ∧ alone (step workflowId) n (⟨.entering handler, world, []⟩, e)
          = (⟨.between journal (.done result), world', calls⟩, e') := by
  obtain ⟨n, journal, calls, result, e', world', hexec, hrest⟩ := exists_alone_between_eq_exec
    handler (DurableContext.new workflowId e).1 (DurableContext.new workflowId e).2 world []
  -- the first step makes the context
  exact ⟨n + 1, journal, calls, result, e', world', hexec, hrest⟩

end Process

end Process

open Process

/-! ### What a workflow sees -/

def ownPart (workflowId : String) (e : EmbeddedEngine InMemoryStorage) :
    (String → UInt64) × List Value :=
  (fun stepName => e.sequenceCounters (seqKey workflowId stepName),
    e.storage.journals workflowId)

def DisjointKeys (w w' : String) : Prop :=
  ∀ stepName stepName', seqKey w stepName ≠ seqKey w' stepName'

section Restore

variable {workflowId : String} {counters counters' : String → UInt64}

theorem foldl_restoreCounter_congr (journal : List JournalEntry)
    (hsame : ∀ stepName, counters (seqKey workflowId stepName)
      = counters' (seqKey workflowId stepName)) (stepName : String) :
    journal.foldl (restoreCounter workflowId) counters (seqKey workflowId stepName)
      = journal.foldl (restoreCounter workflowId) counters' (seqKey workflowId stepName) := by
  induction journal generalizing counters counters' with
  | nil => exact hsame stepName
  | cons entry journal ih =>
    refine ih (fun stepName => ?_)
    rw [restoreCounter, restoreCounter, hsame]
    split
    · rw [update_apply, update_apply, hsame]
    · exact hsame stepName

theorem foldl_restoreCounter_of_ne {key : String}
    (hkey : ∀ stepName, key ≠ seqKey workflowId stepName) (journal : List JournalEntry) :
    journal.foldl (restoreCounter workflowId) counters key = counters key := by
  induction journal generalizing counters with
  | nil => rfl
  | cons entry journal ih =>
    rw [List.foldl_cons, ih, restoreCounter]
    split
    · exact update_of_ne (hkey _) _ _
    · rfl

end Restore

section Parts

variable {w w' : String} {e e' : EmbeddedEngine InMemoryStorage} {O : Type}

theorem new_inMemory (w : String) (e : EmbeddedEngine InMemoryStorage) :
    DurableContext.new w e
      = (⟨w, (e.storage.journals w).map ofValue⟩,
          { e with
            sequenceCounters := ((e.storage.journals w).map ofValue).foldl
              (restoreCounter w) e.sequenceCounters }) := rfl

theorem ownPart_new_congr (hsame : ownPart w e = ownPart w e') :
    (DurableContext.new w e).1 = (DurableContext.new w e').1
      ∧ ownPart w (DurableContext.new w e).2 = ownPart w (DurableContext.new w e').2 := by
  obtain ⟨hcounters, hjournal⟩ := Prod.mk.inj hsame
  rw [new_inMemory, new_inMemory, hjournal]
  refine ⟨rfl, Prod.ext (funext fun stepName => ?_) hjournal⟩
  exact foldl_restoreCounter_congr _ (congrFun hcounters) stepName

theorem cached_congr (hsame : ownPart w e = ownPart w e') (journal : List JournalEntry)
    (stepName : String) (serde : Serde O) :
    cached ⟨w, journal⟩ e stepName serde
      = cached ⟨w, journal⟩ e' stepName serde := by
  have hcounter : e.sequenceCounters (seqKey w stepName) = e'.sequenceCounters (seqKey w stepName) :=
    congrFun (Prod.mk.inj hsame).1 stepName
  rw [cached, cached, hcounter]

theorem ownPart_record_congr (hsame : ownPart w e = ownPart w e') (journal : List JournalEntry)
    (stepName : String) (serde : Serde O) (result : O) :
    (DurableContext.record ⟨w, journal⟩ e stepName serde result).1
        = (DurableContext.record ⟨w, journal⟩ e' stepName serde result).1
      ∧ (DurableContext.record ⟨w, journal⟩ e stepName serde result).2.1
        = (DurableContext.record ⟨w, journal⟩ e' stepName serde result).2.1
      ∧ ownPart w (DurableContext.record ⟨w, journal⟩ e stepName serde result).2.2
        = ownPart w (DurableContext.record ⟨w, journal⟩ e' stepName serde result).2.2 := by
  obtain ⟨hcounters, hjournal⟩ := Prod.mk.inj hsame
  have hcounter : ∀ stepName, e.sequenceCounters (seqKey w stepName)
      = e'.sequenceCounters (seqKey w stepName) := congrFun hcounters
  rw [DurableContext.record, DurableContext.record]
  cases serde.toValue result with
  | error msg => exact ⟨rfl, rfl, hsame⟩
  | ok output =>
    dsimp only
    rw [hcounter]
    refine ⟨rfl, rfl, Prod.ext (funext fun stepName' => ?_) ?_⟩
    · show update e.sequenceCounters _ _ _ = update e'.sequenceCounters _ _ _
      rw [update_apply, update_apply, hcounter stepName']
    · show update e.storage.journals w _ w = update e'.storage.journals w _ w
      rw [update_self, update_self, hjournal]

theorem ownPart_new_of_disjoint (hkeys : DisjointKeys w w') :
    ownPart w (DurableContext.new w' e).2 = ownPart w e :=
  Prod.ext (funext fun stepName => foldl_restoreCounter_of_ne (hkeys stepName) _) rfl

theorem ownPart_record_of_disjoint (hne : w ≠ w') (hkeys : DisjointKeys w w')
    (journal : List JournalEntry) (stepName : String) (serde : Serde O) (result : O) :
    ownPart w (DurableContext.record ⟨w', journal⟩ e stepName serde result).2.2 = ownPart w e := by
  rw [DurableContext.record]
  cases serde.toValue result with
  | error msg => rfl
  | ok output =>
    exact Prod.ext (funext fun stepName' => update_of_ne (hkeys stepName' stepName) _ _)
      (update_of_ne hne _ _)

end Parts

namespace Process

variable {W O R : Type}

theorem seesOnly_step (w : String) :
    SeesOnly (step w : Process W O R → EmbeddedEngine InMemoryStorage → _) (ownPart w) := by
  rintro ⟨phase, world, calls⟩ e e' hsame
  cases phase with
  | entering handler =>
    obtain ⟨hctx, hpart⟩ := ownPart_new_congr hsame
    refine ⟨?_, hpart⟩
    rw [step, step]
    dsimp only
    rw [hctx]
  | between journal handler =>
    cases handler with
    | done result => exact ⟨rfl, hsame⟩
    | run stepName serde body next =>
      rw [step, step]
      dsimp only
      rw [cached_congr hsame]
      cases cached ⟨w, journal⟩ e' stepName serde with
      | some result | none => exact ⟨rfl, hsame⟩
  | awaited journal stepName serde result next =>
    obtain ⟨hcall, hctx, hpart⟩ := ownPart_record_congr hsame journal stepName serde result
    refine ⟨?_, hpart⟩
    rw [step, step]
    dsimp only
    rw [hcall, hctx]

theorem keeps_step {w w' : String} (hne : w ≠ w') (hkeys : DisjointKeys w w') :
    Keeps (step w' : Process W O R → EmbeddedEngine InMemoryStorage → _) (ownPart w) := by
  rintro ⟨phase, world, calls⟩ e
  cases phase with
  | entering handler => exact ownPart_new_of_disjoint hkeys
  | between journal handler =>
    cases handler with
    | done result => rfl
    | run stepName serde body next =>
      rw [step]
      dsimp only
      cases cached ⟨w', journal⟩ e stepName serde <;> rfl
  | awaited journal stepName serde result next =>
    exact ownPart_record_of_disjoint hne hkeys journal stepName serde result

end Process

/-! ### Independence -/

/-- Each ends up as its own steps alone would have it. -/
def Independent (w w' : String) : Prop :=
  ∀ (W O R W' O' R' : Type) (p : Process W O R) (p' : Process W' O' R')
    (e : EmbeddedEngine InMemoryStorage) (schedule : List Side),
    let both := interleave (step w) (step w') schedule ⟨p, p', e⟩
    let own := alone (step w) (schedule.count .first) (p, e)
    let own' := alone (step w') (schedule.count .second) (p', e)
    (both.first = own.1 ∧ both.shared.storage.journals w = own.2.storage.journals w)
      ∧ (both.second = own'.1 ∧ both.shared.storage.journals w' = own'.2.storage.journals w')

theorem DisjointKeys.symm {w w' : String} (h : DisjointKeys w w') : DisjointKeys w' w :=
  fun stepName stepName' heq => h stepName' stepName heq.symm

theorem DisjointKeys.independent {w w' : String} (hne : w ≠ w') (hkeys : DisjointKeys w w') :
    Independent w w' := by
  intro W O R W' O' R' p p' e schedule
  have hfirst := interleave_first_eq_alone (seesOnly_step w)
    (keeps_step hne hkeys) schedule ⟨p, p', e⟩ rfl
  have hsecond := interleave_second_eq_alone (seesOnly_step w')
    (keeps_step hne.symm hkeys.symm) schedule ⟨p, p', e⟩ rfl
  exact ⟨⟨hfirst.1, congrArg Prod.snd hfirst.2⟩, hsecond.1, congrArg Prod.snd hsecond.2⟩

/-! ### A common counter -/

def oneStep (stepName : String) : Process Unit UInt64 Unit :=
  ⟨.entering (.run stepName u64Serde (fun _ => (0, ())) fun _ => .done (.ok ())), (), []⟩

theorem alone_oneStep {w : String} {e : EmbeddedEngine InMemoryStorage}
    (hjournal : e.storage.journals w = []) (stepName : String) :
    (alone (step w) 3 (oneStep stepName, e)).2.sequenceCounters
        = update e.sequenceCounters (seqKey w stepName)
            (e.sequenceCounters (seqKey w stepName) + 1)
      ∧ (alone (step w) 3 (oneStep stepName, e)).2.storage.journals
        = update e.storage.journals w
            [stepValue (e.sequenceCounters (seqKey w stepName)) stepName
              (.number (.posInt 0))] := by
  have hnew : DurableContext.new w e = (⟨w, []⟩, e) := by
    rw [new_inMemory, hjournal]
    rfl
  have hentered : alone (step w) 3 (oneStep stepName, e)
      = alone (step w) 2
          (⟨.between [] (.run stepName u64Serde (fun _ => (0, ())) fun _ => .done (.ok ())), (), []⟩,
            e) := by
    rw [alone_succ, oneStep, Process.step]
    dsimp only
    rw [hnew]
  rw [hentered]
  refine ⟨rfl, ?_⟩
  show update e.storage.journals w (e.storage.journals w ++ _) = _
  rw [hjournal]
  rfl

theorem journals_alone_after_oneStep {w w' stepName stepName' : String} (hne : w ≠ w')
    (hkey : seqKey w stepName = seqKey w' stepName') {e : EmbeddedEngine InMemoryStorage}
    (hjournal : e.storage.journals w = []) (hjournal' : e.storage.journals w' = []) :
    (alone (step w') 3
        (oneStep stepName', (alone (step w) 3 (oneStep stepName, e)).2)).2.storage.journals w'
      = [stepValue (e.sequenceCounters (seqKey w' stepName') + 1) stepName'
          (.number (.posInt 0))] := by
  obtain ⟨hcounters, hjournals⟩ := alone_oneStep hjournal stepName
  have hnone : (alone (step w) 3 (oneStep stepName, e)).2.storage.journals w' = [] := by
    rw [hjournals, update_of_ne hne.symm, hjournal']
  rw [(alone_oneStep hnone stepName').2, update_self, hcounters, hkey,
    update_self]

theorem not_independent_of_seqKey_eq {w w' stepName stepName' : String} (hne : w ≠ w')
    (hkey : seqKey w stepName = seqKey w' stepName') : ¬ Independent w w' := by
  intro hind
  obtain ⟨-, -, hsame⟩ := hind _ _ _ _ _ _ (oneStep stepName) (oneStep stepName')
    (.withStorage InMemoryStorage.new) [.first, .first, .first, .second, .second, .second]
  change (alone (step w') 3 (oneStep stepName', (alone (step w) 3
      (oneStep stepName, .withStorage InMemoryStorage.new)).2)).2.storage.journals w'
    = (alone (step w') 3
        (oneStep stepName', .withStorage InMemoryStorage.new)).2.storage.journals w' at hsame
  rw [journals_alone_after_oneStep hne hkey rfl rfl, (alone_oneStep rfl stepName').2,
    update_self] at hsame
  -- the stored entries carry the numbers 1 and 0
  have hnumbers : [(0 + 1 : UInt64)] = [0] :=
    congrArg (List.map fun v => (ofValue v).sequence) hsame
  exact absurd hnumbers (by decide)

/-! ### Ids with a common counter -/

/-- The id `w'` begins with `w` and a colon. -/
def Extends (w w' : String) : Prop := w.toList ++ [':'] <+: w'.toList

instance (w w' : String) : Decidable (Extends w w') :=
  inferInstanceAs (Decidable (_ <+: _))

theorem toList_seqKey (w stepName : String) :
    (seqKey w stepName).toList = w.toList ++ ':' :: stepName.toList := by
  show (w ++ ":" ++ stepName).toList = _
  rw [String.toList_append, String.toList_append, List.append_assoc]
  rfl

theorem Extends.exists_seqKey_eq {w w' : String} (h : Extends w w') :
    ∃ stepName stepName', seqKey w stepName = seqKey w' stepName' := by
  obtain ⟨rest, hrest⟩ := h
  refine ⟨String.ofList (rest ++ [':']), "", String.toList_inj.mp ?_⟩
  rw [toList_seqKey, toList_seqKey, ← hrest]
  simp

theorem disjointKeys_iff {w w' : String} (hne : w ≠ w') :
    DisjointKeys w w' ↔ ¬ Extends w w' ∧ ¬ Extends w' w := by
  constructor
  · refine fun h => ⟨fun hext => ?_, fun hext => ?_⟩
    · obtain ⟨stepName, stepName', heq⟩ := hext.exists_seqKey_eq
      exact h _ _ heq
    · obtain ⟨stepName, stepName', heq⟩ := hext.exists_seqKey_eq
      exact h _ _ heq.symm
  · rintro ⟨hleft, hright⟩ stepName stepName' heq
    have hlists := congrArg String.toList heq
    rw [toList_seqKey, toList_seqKey, List.append_eq_append_iff] at hlists
    -- the longer id takes in the colon of the shorter one
    obtain ⟨rest, hid, hname⟩ | ⟨rest, hid, hname⟩ := hlists
    · cases rest with
      | nil => exact hne (String.toList_inj.mp (by simpa using hid.symm))
      | cons c rest =>
        obtain ⟨rfl, -⟩ := List.cons.inj hname
        exact hleft ⟨rest, by simp [hid]⟩
    · cases rest with
      | nil => exact hne (String.toList_inj.mp (by simpa using hid))
      | cons c rest =>
        obtain ⟨rfl, -⟩ := List.cons.inj hname
        exact hright ⟨rest, by simp [hid]⟩

/-- **Independence.** Two ids never interfere iff neither starts with the other one and a colon. -/
theorem independent_iff {w w' : String} (hne : w ≠ w') :
    Independent w w' ↔ ¬ Extends w w' ∧ ¬ Extends w' w := by
  rw [← disjointKeys_iff hne]
  refine ⟨fun hind stepName stepName' hkey => ?_, fun hkeys => hkeys.independent hne⟩
  exact not_independent_of_seqKey_eq hne hkey hind

theorem independent_order_payment : Independent "order" "payment" :=
  (independent_iff (by decide)).mpr (by decide)

theorem not_independent_order_item : "order" ≠ "order:item" ∧ ¬ Independent "order" "order:item" :=
  ⟨by decide, not_independent_of_seqKey_eq (by decide)
    (show seqKey "order" "item:charge" = seqKey "order:item" "charge" by decide)⟩

end Velocity.Embedded
