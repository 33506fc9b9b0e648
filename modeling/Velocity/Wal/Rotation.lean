import Velocity.Wal.Manager

namespace Velocity

open Lib List SegmentedLog

/-!
# Replays across rotations

Any appends on an empty directory, and the replay of what is left.
-/

theorem eq_of_suffix_of_encodeAll {rs xs ys : List WalRecord} (hxs : xs <:+ rs) (hys : ys <:+ rs)
    (h : encodeAll xs = encodeAll ys) : xs = ys := by
  have hshorter : ∀ {us vs : List WalRecord}, us <:+ vs → encodeAll us = encodeAll vs →
      us = vs := by
    rintro us vs ⟨more, rfl⟩ hbytes
    have hlen := congrArg List.length hbytes
    rw [encodeAll_append, length_append] at hlen
    cases more with
    | nil => rfl
    | cons r more =>
      rw [encodeAll_cons, length_append, r.length_encode] at hlen
      omega
  rcases suffix_or_suffix_of_suffix hxs hys with hsuffix | hsuffix
  · exact hshorter hsuffix h
  · exact (hshorter hsuffix h.symm).symm

namespace WalManager

/-! ### A sequence of appends -/

variable (m : WalManager)

def appendAll (rs : List WalRecord) : WalManager :=
  rs.foldl (fun m r => m.append r.eventType r.workflowKey r.data) m

theorem grows_appendAll (rs : List WalRecord) : m.Grows (m.appendAll rs) rs := by
  induction rs generalizing m with
  | nil => exact Grows.refl m
  | cons r rs ih =>
    exact (grows_append m r.eventType r.workflowKey r.data).trans (ih _)

theorem rotations_append_le (t : WalEventType) (k : UInt64) (d : Bytes) :
    (m.append t k d).rotations ≤ m.rotations + 1 := by
  simp only [append]
  split
  · exact Nat.le_refl _
  · exact Nat.le_succ _

theorem rotations_appendAll_le (rs : List WalRecord) :
    (m.appendAll rs).rotations ≤ m.rotations + rs.length := by
  induction rs generalizing m with
  | nil => exact Nat.le_refl _
  | cons r rs ih =>
    have hone := rotations_append_le m r.eventType r.workflowKey r.data
    have hrest := ih (m.append r.eventType r.workflowKey r.data)
    rw [length_cons]
    show ((m.append r.eventType r.workflowKey r.data).appendAll rs).rotations ≤ _
    omega

/-! ### What a replay can return -/

theorem encodeAll_of_readWalRecords {segment xs : List WalRecord}
    (h : Velocity.readWalRecords (segmentFile segment) = .ok xs) :
    encodeAll xs = encodeAll segment ∧ ∀ r ∈ xs, r.Fits := by
  rw [segmentFile, readWalRecords_header, readRecords_eq_ok] at h
  exact ⟨h.1.symm, h.2⟩

theorem Holds.encodeAll_of_replayRotated {m : WalManager} (h : m.Holds) :
    ∀ n, n ≤ m.retainCount → ∀ {xs : List WalRecord}, WalManager.replayRotated m.disk n = .ok xs →
      encodeAll xs = encodeAll (m.log.closed.take n).reverse.flatten ∧ ∀ r ∈ xs, r.Fits
  | 0, _, xs, hreplay => by
    cases hreplay
    exact ⟨rfl, fun r hr => absurd hr not_mem_nil⟩
  | n + 1, hn, xs, hreplay => by
    rw [WalManager.replayRotated, Disk.pathExists, Disk.readWalRecords, h.rotated n hn] at hreplay
    cases hseg : m.log.closed[n]? with
    -- the number is not in use yet
    | none =>
      rw [hseg] at hreplay
      obtain ⟨_, hnothing, hreplay⟩ := bind_eq_ok.mp hreplay
      obtain ⟨newer, hnewer, hxs⟩ := bind_eq_ok.mp hreplay
      cases hnothing
      cases hxs
      have hlen : m.log.closed.length ≤ n := getElem?_eq_none_iff.mp hseg
      have hbefore := h.encodeAll_of_replayRotated n (by omega) hnewer
      rw [take_of_length_le hlen] at hbefore
      rw [take_of_length_le (by omega)]
      exact hbefore
    | some segment =>
      rw [hseg] at hreplay
      obtain ⟨older, holder, hreplay⟩ := bind_eq_ok.mp hreplay
      obtain ⟨newer, hnewer, hxs⟩ := bind_eq_ok.mp hreplay
      cases hxs
      obtain ⟨hbytes, hfits⟩ := h.encodeAll_of_replayRotated n (by omega) hnewer
      obtain ⟨hsegment, hsegFits⟩ := encodeAll_of_readWalRecords holder
      have htake : m.log.closed.take (n + 1) = m.log.closed.take n ++ [segment] := by
        rw [take_add_one, hseg]
        rfl
      rw [htake, reverse_append, reverse_singleton, singleton_append,
        flatten_cons, encodeAll_append, encodeAll_append, hsegment, hbytes]
      exact ⟨rfl, fun r hr => (mem_append.mp hr).elim (hsegFits r) (hfits r)⟩

theorem Holds.encodeAll_of_replayAll {m : WalManager} (h : m.Holds) {xs : List WalRecord}
    (hreplay : m.replayAll = .ok xs) :
    encodeAll xs = encodeAll (m.log.visible m.retainCount) ∧ ∀ r ∈ xs, r.Fits := by
  rw [WalManager.replayAll, replayOld, replay, Disk.readWalRecords, h.current] at hreplay
  obtain ⟨older, holder, hreplay⟩ := bind_eq_ok.mp hreplay
  obtain ⟨newest, hnewest, hreplay⟩ := bind_eq_ok.mp hreplay
  cases hreplay
  obtain ⟨hbytes, hfits⟩ := h.encodeAll_of_replayRotated _ (Nat.le_refl _) holder
  obtain ⟨hcurrent, hcurrentFits⟩ := encodeAll_of_readWalRecords hnewest
  rw [visible, encodeAll_append, encodeAll_append, hbytes, hcurrent]
  exact ⟨rfl, fun r hr => (mem_append.mp hr).elim (hfits r) (hcurrentFits r)⟩

/-! ### Order -/

/-- An end of `rs`, and all of it up to `retain_count` rotations. -/
def ReplaysSuffix (rs : List WalRecord) : Prop :=
  ∃ xs, m.replayAll = .ok xs ∧ xs <:+ rs ∧ (m.rotations ≤ m.retainCount → xs = rs)

theorem Holds.fits_of_replaysSuffix {m : WalManager} (h : m.Holds)
    (hreplays : m.ReplaysSuffix m.log.all) : ∀ r ∈ m.log.visible m.retainCount, r.Fits := by
  obtain ⟨xs, hreplay, hsuffix, -⟩ := hreplays
  obtain ⟨hbytes, hfits⟩ := h.encodeAll_of_replayAll hreplay
  -- both are ends of the log
  have hvisible : m.log.visible m.retainCount <:+ m.log.all :=
    ⟨_, dropped_append_visible _ _⟩
  rw [← eq_of_suffix_of_encodeAll hsuffix hvisible hbytes]
  exact hfits

theorem Holds.replaysSuffix {m : WalManager} (h : m.Holds)
    (hfits : ∀ r ∈ m.log.visible m.retainCount, r.Fits) : m.ReplaysSuffix m.log.all := by
  have hsplit := dropped_append_visible m.retainCount m.log
  refine ⟨_, h.replayAll hfits, ⟨_, hsplit⟩, fun hrotations => ?_⟩
  rwa [dropped_eq_nil hrotations, nil_append] at hsplit

theorem holds_appendAll (maxFileSize retainCount : Nat) (rs : List WalRecord) :
    ((withRetention (fun _ => none) maxFileSize retainCount).appendAll rs).Holds
      ∧ ((withRetention (fun _ => none) maxFileSize retainCount).appendAll rs).log.all = rs := by
  have hgrows := grows_appendAll (withRetention (fun _ => none) maxFileSize retainCount) rs
  exact ⟨hgrows.holds (holds_withRetention _ _), hgrows.all⟩

/-- **Rotation keeps the order** iff every retained payload is below `2 ^ 32` bytes. -/
theorem replaysSuffix_iff (maxFileSize retainCount : Nat) (rs : List WalRecord) :
    ((withRetention (fun _ => none) maxFileSize retainCount).appendAll rs).ReplaysSuffix rs
      ↔ ∀ r ∈ ((withRetention (fun _ => none) maxFileSize retainCount).appendAll rs).log.visible
          retainCount, r.Fits := by
  obtain ⟨hholds, hall⟩ := holds_appendAll maxFileSize retainCount rs
  have hretain := (grows_appendAll (withRetention (fun _ => none) maxFileSize retainCount)
    rs).retainCount
  have hfits := hholds.fits_of_replaysSuffix
  have hreplays := hholds.replaysSuffix
  rw [hall, hretain] at hfits hreplays
  exact ⟨hfits, hreplays⟩

def wrappedRecord : WalRecord := ⟨.stepCompleted, 1, List.replicate (2 ^ 32) 0⟩

theorem not_replaysSuffix_wrapped :
    ¬ ((withRetention (fun _ => none) 1024 1).appendAll [wrappedRecord]).ReplaysSuffix
        [wrappedRecord] := by
  intro hreplays
  obtain ⟨hholds, hall⟩ := holds_appendAll 1024 1 [wrappedRecord]
  have hretain := (grows_appendAll (withRetention (fun _ => none) 1024 1)
    [wrappedRecord]).retainCount
  -- at most one rotation: nothing was dropped
  have hrotations : ((withRetention (fun _ => none) 1024 1).appendAll [wrappedRecord]).rotations
      ≤ 1 := rotations_appendAll_le _ _
  have hkept := dropped_append_visible 1
    ((withRetention (fun _ => none) 1024 1).appendAll [wrappedRecord]).log
  rw [dropped_eq_nil hrotations, nil_append, hall] at hkept
  have hfits := hholds.fits_of_replaysSuffix (hall.symm ▸ hreplays)
  rw [hretain] at hfits
  have hmem : wrappedRecord ∈ visible 1
      ((withRetention (fun _ => none) 1024 1).appendAll [wrappedRecord]).log := by
    rw [hkept]
    exact mem_cons_self
  have hlength : wrappedRecord.data.length < 2 ^ 32 := hfits _ hmem
  rw [wrappedRecord, length_replicate] at hlength
  exact Nat.lt_irrefl _ hlength

end WalManager

end Velocity
