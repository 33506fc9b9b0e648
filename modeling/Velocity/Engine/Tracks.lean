import Velocity.Engine.KeyReplay
import Velocity.Engine.RunConditions

namespace Velocity

open Lib List WorkflowEngine WorkflowContextPool

/-!
# Logs that track a workflow

`Tracks v P now k held records`: rests of the log with a start replay to the view `v` of `held`.

* `MovesTrack`: the moves of an operation keep the log tracking.
* `TracksLog.recovered`: so a recovery finds the view again.
-/

variable [Sha256] {V : Type} {v : WorkflowContext → V} {P : WorkflowContext → Prop}

structure Tracks (v : WorkflowContext → V) (P : WorkflowContext → Prop) (now : Nat) (k : UInt64)
    (held : Option WorkflowContext) (records : List WalRecord) : Prop where
  alike : ∀ s s', s <:+ records → s' <:+ records → HasStart k s → HasStart k s' →
    (replayKeyOn now k none s).map v = (replayKeyOn now k none s').map v
  live : ∀ c, held = some c → P c → ∀ s, s <:+ records → HasStart k s →
    (replayKeyOn now k none s).map v = some (v c)

namespace Tracks

variable {now : Nat} {k : UInt64} {held held' : Option WorkflowContext}
  {records : List WalRecord}

theorem nil (held : Option WorkflowContext) : Tracks v P now k held [] where
  alike s _ hs _ hstart _ := by
    obtain ⟨r, hr, _⟩ := hstart
    rw [suffix_nil.mp hs] at hr
    cases hr
  live _ _ _ s hs hstart := by
    obtain ⟨r, hr, _⟩ := hstart
    rw [suffix_nil.mp hs] at hr
    cases hr

theorem suffix (h : Tracks v P now k held records) {records' : List WalRecord}
    (hs : records' <:+ records) : Tracks v P now k held records' where
  alike s s' h1 h2 := h.alike s s' (h1.trans hs) (h2.trans hs)
  live c hc hP s h1 := h.live c hc hP s (h1.trans hs)

theorem silent (h : Tracks v P now k held records)
    (hheld : ∀ c', held' = some c' → P c' → ∃ c, held = some c ∧ P c ∧ v c = v c') :
    Tracks v P now k held' records where
  alike := h.alike
  live c' hc' hP' s hs hstart := by
    obtain ⟨c, hc, hP, hview⟩ := hheld c' hc' hP'
    rw [h.live c hc hP s hs hstart, hview]

theorem replayKeyOn_concat (held : Option WorkflowContext) (s : List WalRecord) (r : WalRecord) :
    replayKeyOn now k held (s ++ [r]) = replayKey now k (replayKeyOn now k held s) r := by
  rw [replayKeyOn_append]
  rfl

variable {r : WalRecord}

theorem concat (hv : ReplayView v) (h : Tracks v P now k held records) (hr : ¬ r.IsStartOf k)
    (hheld : ∀ c', held' = some c' → P c' → ∃ c, held = some c ∧ P c
      ∧ ∀ d, v d = v c → (replayKey now k (some d) r).map v = some (v c')) :
    Tracks v P now k held' (records ++ [r]) where
  alike := by
    intro s s' hs hs' hstart hstart'
    rcases suffix_concat_iff.mp hs with rfl | ⟨t, rfl, ht⟩
    · obtain ⟨r, hr, _⟩ := hstart
      cases hr
    rcases suffix_concat_iff.mp hs' with rfl | ⟨t', rfl, ht'⟩
    · obtain ⟨r, hr, _⟩ := hstart'
      cases hr
    -- both rests end with `r`, which does the same to equal views
    rw [replayKeyOn_concat, replayKeyOn_concat]
    exact hv.map_replayKey
      (h.alike t t' ht ht' (hstart.of_concat hr) (hstart'.of_concat hr)) r
  live := by
    intro c' hc' hP' s hs hstart
    obtain ⟨c, hc, hP, hview⟩ := hheld c' hc' hP'
    rcases suffix_concat_iff.mp hs with rfl | ⟨t, rfl, ht⟩
    · obtain ⟨r, hr, _⟩ := hstart
      cases hr
    have hrest := h.live c hc hP t ht (hstart.of_concat hr)
    obtain ⟨d, hd, hdc⟩ := Option.map_eq_some_iff.mp hrest
    rw [replayKeyOn_concat, hd]
    exact hview d hdc

theorem other (hv : ReplayView v) (h : Tracks v P now k held records)
    (hk : r.workflowKey ≠ k) : Tracks v P now k held (records ++ [r]) := by
  refine h.concat hv (fun hstart => hk hstart.1) (fun c hc hP => ⟨c, hc, hP, fun d hd => ?_⟩)
  rw [replayKey_of_ne hk, Option.map_some, hd]

theorem start (h : Tracks v P now k held records) {fields : StartFields}
    (hk : r.workflowKey = k) (hr : r.eventType = .workflowStarted)
    (hfields : StartFields.ofData r.data = some fields) (hbefore : ¬ HasStart k records
      ∨ ∃ c, held = some c ∧ P c ∧ v c = v (replayContext k fields now))
    (hheld : ∀ c', held' = some c' → v c' = v (replayContext k fields now)) :
    Tracks v P now k held' (records ++ [r]) := by
  -- every rest shows a fresh workflow
  have hfresh : ∀ s, s <:+ records ++ [r] → HasStart k s →
      (replayKeyOn now k none s).map v = some (v (replayContext k fields now)) := by
    intro s hs hstart
    rcases suffix_concat_iff.mp hs with rfl | ⟨t, rfl, ht⟩
    · obtain ⟨r, hr, _⟩ := hstart
      cases hr
    rw [replayKeyOn_concat]
    -- ignored if a start was met before
    by_cases hstarted : HasStart k t
    · rcases hbefore with hno | ⟨c, hc, hP, hview⟩
      · obtain ⟨r', hr', hs'⟩ := hstarted
        exact absurd ⟨r', ht.mem hr', hs'⟩ hno
      · have hrest := h.live c hc hP t ht hstarted
        obtain ⟨d, hd, hdc⟩ := Option.map_eq_some_iff.mp hrest
        rw [hd, replayKey_start_some hr, Option.map_some, hdc, hview]
    · rw [replayKeyOn_none_of_no_start now hstarted, replayKey_start_none hk hr hfields,
        Option.map_some]
  refine ⟨fun s s' hs hs' hstart hstart' => ?_, fun c' hc' _ s hs hstart => ?_⟩
  · rw [hfresh s hs hstart, hfresh s' hs' hstart']
  · rw [hfresh s hs hstart, hheld c' hc']

end Tracks

/-! ### Moves -/

/-- The move keeps the pool well formed and the log tracking. -/
def MoveTracks (v : WorkflowContext → V) (P : WorkflowContext → Prop) (now : Nat)
    (p : WorkflowContextPool WorkflowContext) (records : List WalRecord) (move : Move) : Prop :=
  (Effect.apply p move.effect).WellFormed ∧ ∀ k, Tracks v P now k (p.lookup k) records →
    Tracks v P now k ((Effect.apply p move.effect).lookup k) (records ++ move.record.toList)

def MovesTrack (v : WorkflowContext → V) (P : WorkflowContext → Prop) (now : Nat) :
    WorkflowContextPool WorkflowContext → List WalRecord → List Move → Prop
  | _, _, [] => True
  | p, records, move :: moves =>
    MoveTracks v P now p records move
      ∧ MovesTrack v P now (Effect.apply p move.effect) (records ++ move.record.toList) moves

variable {now : Nat} {p : WorkflowContextPool WorkflowContext} {records : List WalRecord}

theorem MovesTrack.tracks {moves : List Move}
    (h : MovesTrack v P now p records moves) (hp : p.WellFormed)
    (htracks : ∀ k, Tracks v P now k (p.lookup k) records) :
    ((moves.map (·.effect)).foldl Effect.apply p).WellFormed ∧ ∀ k, Tracks v P now k
      (((moves.map (·.effect)).foldl Effect.apply p).lookup k)
      (records ++ moves.filterMap (·.record)) := by
  induction moves generalizing p records with
  | nil =>
    refine ⟨hp, fun k => ?_⟩
    rw [filterMap_nil, append_nil]
    exact htracks k
  | cons move moves ih =>
    have hrest := ih h.2 h.1.1 (fun k => h.1.2 k (htracks k))
    have hrecords : records ++ (move :: moves).filterMap (·.record)
        = records ++ move.record.toList ++ moves.filterMap (·.record) := by
      rw [filterMap_cons, append_assoc]
      cases move.record <;> rfl
    rw [hrecords]
    exact hrest

theorem movesTrack_of_invariant {Q : WorkflowContextPool WorkflowContext → Prop} {moves : List Move}
    (h : ∀ move ∈ moves, ∀ p : WorkflowContextPool WorkflowContext, p.WellFormed → Q p →
      (∀ records, MoveTracks v P now p records move) ∧ Q (Effect.apply p move.effect))
      (hp : p.WellFormed) (hQ : Q p)
    (records : List WalRecord) : MovesTrack v P now p records moves := by
  induction moves generalizing p records with
  | nil => trivial
  | cons move moves ih =>
    obtain ⟨hhead, hkeeps⟩ := h move mem_cons_self p hp hQ
    have hrest := ih (fun m hm => h m (mem_cons_of_mem move hm)) (hhead records).1 hkeeps
    exact ⟨hhead records, hrest _⟩

theorem moveTracks_logged (hv : ReplayView v) (hp : p.WellFormed)
    {u : CtxUpdate} {r : WalRecord} (hr : r.eventType ≠ .workflowStarted)
    (hu : ∀ c, p.lookup r.workflowKey = some c → P (u.apply c) → P c
      ∧ ∀ d, v d = v c → v (replayContextUpdate now r d) = v (u.apply c)) :
    MoveTracks v P now p records (.logged (.update r.workflowKey u) r) := by
  refine ⟨hp.withMut r.workflowKey _ _, fun k htracks => ?_⟩
  show Tracks v P now k ((p.withMut r.workflowKey () _).2.lookup k) (records ++ [r])
  rw [lookup_withMut]
  -- the record speaks of its own key only
  by_cases hk : k = r.workflowKey
  · subst hk
    rw [if_pos rfl]
    refine htracks.concat hv (fun hstart => hr hstart.2.1) (fun c' hc' hP' => ?_)
    obtain ⟨c, hc, rfl⟩ := Option.map_eq_some_iff.mp hc'
    obtain ⟨hP, hview⟩ := hu c hc hP'
    refine ⟨c, hc, hP, fun d hd => ?_⟩
    rw [replayKey_update rfl hr, Option.map_some, Option.map_some, hview d hd]
  · rw [if_neg hk]
    exact htracks.other hv (fun h => hk h.symm)

theorem moveTracks_silent (hp : p.WellFormed) {u : CtxUpdate} {key : UInt64}
    (hu : ∀ c, p.lookup key = some c → P (u.apply c) → P c ∧ v c = v (u.apply c)) :
    MoveTracks v P now p records (.silent (.update key u)) := by
  refine ⟨hp.withMut key _ _, fun k htracks => ?_⟩
  show Tracks v P now k ((p.withMut key () _).2.lookup k) (records ++ [])
  rw [lookup_withMut, append_nil]
  by_cases hk : k = key
  · subst hk
    rw [if_pos rfl]
    refine htracks.silent (fun c' hc' hP' => ?_)
    obtain ⟨c, hc, rfl⟩ := Option.map_eq_some_iff.mp hc'
    exact ⟨c, hc, hu c hc hP'⟩
  · rw [if_neg hk]
    exact htracks

theorem moveTracks_startMove (hv : ReplayView v) {e : WorkflowEngine}
    (hp : e.workflows.WellFormed) {w t ns tq : UInt64} {total : UInt32} {input : Option Bytes}
    (hfresh : v (startContext w e.nextRunId t ns tq total input e.now)
      = v (replayContext (workflowKey ns w) ⟨w, t, ns, tq, total⟩ now))
    (hbefore : ¬ HasStart (workflowKey ns w) records
      ∨ ∃ c, e.workflows.lookup (workflowKey ns w) = some c ∧ P c
          ∧ v c = v (replayContext (workflowKey ns w) ⟨w, t, ns, tq, total⟩ now)) :
    MoveTracks v P now e.workflows records (e.startMove w t ns tq total input) := by
  refine ⟨hp.insert _ _, fun k htracks => ?_⟩
  show Tracks v P now k ((e.workflows.insert (workflowKey ns w) _).2.lookup k)
    (records ++ [startRecord w t ns tq total])
  rw [hp.lookup_insert]
  by_cases hk : k = workflowKey ns w
  · subst hk
    refine htracks.start rfl rfl (StartFields.ofData_startData w t ns tq total) hbefore ?_
    intro c' hc'
    split at hc'
    · cases hc'
      exact hfresh
    · next hfull =>
      -- a refused start leaves the key absent
      cases hheld : e.workflows.lookup (workflowKey ns w) with
      | none =>
        rw [hheld] at hc'
        cases hc'
      | some c => exact absurd ⟨rfl, Or.inl (by rw [hheld]; rfl)⟩ hfull
  · rw [if_neg (fun h => hk h.1)]
    exact htracks.other hv (fun h => hk h.symm)

theorem moveTracks_remove (hp : p.WellFormed) {key : UInt64}
    (halone : p.lookup key = none ∨ ∀ k idx, p.slotHolds k idx = true →
      bucket k = bucket key → k = key) :
    MoveTracks v P now p records (.silent (.remove key)) := by
  rcases halone with hnone | halone
  · have hsame : Effect.apply p (.remove key) = p := by
      show (p.remove key).2 = p
      rw [remove_of_none (hp.lookup_eq_none.mp hnone)]
    refine ⟨?_, fun k htracks => ?_⟩
    · show (Effect.apply p (.remove key)).WellFormed
      rw [hsame]
      exact hp
    · show Tracks v P now k ((Effect.apply p (.remove key)).lookup k) (records ++ [])
      rw [hsame, append_nil]
      exact htracks
  · refine ⟨hp.remove halone, fun k htracks => ?_⟩
    show Tracks v P now k ((p.remove key).2.lookup k) (records ++ [])
    rw [hp.lookup_remove halone, append_nil]
    split
    -- the records stay, but nothing is held
    · exact htracks.silent (fun c' hc' => by cases hc')
    · exact htracks

theorem movesTrack_of_isClosingOp (hv : ReplayView v) {e : WorkflowEngine}
    (hp : e.workflows.WellFormed) {op : EngineOp} (hop : op.IsClosingOp)
    (hclose : ∀ {u t}, WorkflowEngine.IsClose e.now u t → ∀ k c, P (u.apply c) → P c
      ∧ ∀ d, v d = v c → v (replayContextUpdate now ⟨t, k, []⟩ d) = v (u.apply c))
    (records : List WalRecord) : MovesTrack v P now e.workflows records (e.moves op) := by
  refine movesTrack_of_invariant (Q := fun _ => True) (fun move hmove p hp _ => ?_) hp trivial
    records
  obtain ⟨k, u, t, hu, rfl⟩ := exists_isClose_of_mem_moves hop hmove
  exact ⟨fun records => moveTracks_logged (r := ⟨t, k, []⟩) hv hp hu.ne_started
    (fun c _ => hclose hu k c), trivial⟩

/-! ### A log that tracks -/

structure TracksLog (v : WorkflowContext → V) (P : WorkflowContext → Prop) (now : Nat)
    (e : WorkflowEngine) (w : WalManager) : Prop where
  wal : e.wal = some w
  holds : w.Holds
  fits : ∀ r ∈ w.log.visible w.retainCount, r.Fits
  wellFormed : e.workflows.WellFormed
  tracks : ∀ k, Tracks v P now k (e.workflows.lookup k) (w.log.visible w.retainCount)

namespace TracksLog

variable {now : Nat} {e : WorkflowEngine} {w : WalManager}

theorem retained_eq (h : TracksLog v P now e w) : e.retained = w.log.visible w.retainCount := by
  rw [retained, h.wal]
  rfl

theorem withWal (maxFileSize retainCount : Nat) (config : DurabilityConfig) (start now : Nat) :
    TracksLog v P now (WorkflowEngine.withWal maxFileSize retainCount config start)
      (WalManager.withRetention (fun _ => none) maxFileSize retainCount) where
  wal := rfl
  holds := WalManager.holds_withRetention maxFileSize retainCount
  fits r hr := by
    rw [show WalManager.log _ = SegmentedLog.empty from rfl, SegmentedLog.visible_empty] at hr
    cases hr
  wellFormed := WorkflowContextPool.wellFormed_new
  tracks k := by
    show Tracks v P now k none (SegmentedLog.empty.visible retainCount)
    rw [SegmentedLog.visible_empty]
    exact Tracks.nil none

theorem step (h : TracksLog v P now e w) {op : EngineOp} (hfits : ∀ r ∈ e.logged op, r.Fits)
    (hwf : (e.step op).workflows.WellFormed)
    (htracks : ∀ k, Tracks v P now k ((e.step op).workflows.lookup k)
      (w.log.visible w.retainCount ++ e.logged op)) :
    ∃ w', TracksLog v P now (e.step op) w' := by
  obtain ⟨w', hw', hgrows⟩ := e.step_logGrows op w h.wal
  refine ⟨w', hw', hgrows.holds h.holds, ?_, hwf, ?_⟩
  · intro r hr
    rcases mem_append.mp (hgrows.visible.mem hr) with hold | hnew
    · exact h.fits r hold
    · exact hfits r hnew
  · intro k
    -- a rotation inside the step is a cut at the front
    exact (htracks k).suffix hgrows.visible

theorem step_of_moves
    (h : TracksLog v P now e w) {op : EngineOp} (hfits : ∀ r ∈ e.logged op, r.Fits)
    (hmoves : MovesTrack v P now e.workflows (w.log.visible w.retainCount) (e.moves op)) :
    ∃ w', TracksLog v P now (e.step op) w' := by
  obtain ⟨hwf, htracks⟩ := hmoves.tracks h.wellFormed h.tracks
  refine h.step hfits ?_ ?_
  · rw [step_workflows]
    exact hwf
  · intro k
    rw [step_workflows]
    exact htracks k

theorem recovered (h : TracksLog v P now e w)
    {k : UInt64} {c : WorkflowContext} (hc : e.workflows.lookup k = some c) (hP : P c)
    (hstart : HasStart k (w.log.visible w.retainCount))
    (hserved : (replayOn now WorkflowContextPool.new (w.log.visible w.retainCount)).lookup k
      = replayKeyOn now k none (w.log.visible w.retainCount)) :
    ∃ d, (e.recovered now).workflows.lookup k = some d ∧ v d = v c := by
  have hview := (h.tracks k).live c hc hP _ suffix_rfl hstart
  rw [recovered_workflows h.wal h.holds h.fits, hserved]
  exact Option.map_eq_some_iff.mp hview

end TracksLog

end Velocity
