import Mathlib.Logic.Function.Basic
import Velocity.Wal.Reader

namespace Velocity

open Lib List Function

/-!
# The log manager

`WalManager` rotates its file by size. File operations succeed.

* `SegmentedLog`: the abstract log, in closed segments and a current one.
* `WalManager`: files on a `Disk`, rotated and replayed.
* `Holds`: the files hold the segments, and every operation keeps that.
-/

/-! ### The log as segments -/

structure SegmentedLog where
  closed : List (List WalRecord)
  current : List WalRecord

def segmentFile (records : List WalRecord) : Bytes := walHeader ++ encodeAll records

namespace SegmentedLog

def empty : SegmentedLog := ⟨[], []⟩

variable (log : SegmentedLog) (retain : Nat)

def push (r : WalRecord) : SegmentedLog :=
  ⟨log.closed, log.current ++ [r]⟩

def close : SegmentedLog := ⟨log.current :: log.closed, []⟩

def all : List WalRecord := log.closed.reverse.flatten ++ log.current

def visible (retain : Nat) (log : SegmentedLog) : List WalRecord :=
  (log.closed.take retain).reverse.flatten ++ log.current

def dropped (retain : Nat) (log : SegmentedLog) : List WalRecord :=
  (log.closed.drop retain).reverse.flatten

@[simp] theorem all_push (r : WalRecord) : (log.push r).all = log.all ++ [r] := by
  simp only [all, push, append_assoc]

@[simp] theorem all_close : log.close.all = log.all := by
  simp [all, close]

@[simp] theorem visible_empty : empty.visible retain = [] := by
  simp [visible, empty]

theorem visible_push (log : SegmentedLog) (r : WalRecord) :
    (log.push r).visible retain = log.visible retain ++ [r] := by
  simp only [visible, push, append_assoc]

theorem visible_close_push (log : SegmentedLog) (r : WalRecord) :
    (log.push r).close.visible retain <:+ log.visible retain ++ [r] := by
  cases retain with
  | zero => exact nil_suffix
  | succ n =>
    have hkeep : (log.closed.take n).reverse.flatten
        <:+ (log.closed.take (n + 1)).reverse.flatten := by
      rw [take_add_one, reverse_append, flatten_append]
      exact suffix_append _ _
    obtain ⟨pre, hpre⟩ := hkeep
    refine ⟨pre, ?_⟩
    simp only [visible, close, push, take_succ_cons, reverse_cons, flatten_append,
      flatten_cons, flatten_nil, append_nil, ← hpre, append_assoc]

theorem dropped_append_visible (log : SegmentedLog) :
    log.dropped retain ++ log.visible retain = log.all := by
  rw [dropped, visible, all, ← append_assoc, ← flatten_append, ← reverse_append,
    take_append_drop]

theorem dropped_eq_nil {retain : Nat} {log : SegmentedLog} (h : log.closed.length ≤ retain) :
    log.dropped retain = [] := by
  rw [dropped, drop_of_length_le h]
  rfl

end SegmentedLog

/-! ### Files -/

inductive WalPath where
  | current
  | rotated (n : Nat)
  deriving DecidableEq, Repr

abbrev Disk := WalPath → Option Bytes

def Disk.pathExists (disk : Disk) (path : WalPath) : Bool := (disk path).isSome

def Disk.removeFile (disk : Disk) (path : WalPath) : Disk := update disk path none

def Disk.rename (disk : Disk) (src dst : WalPath) : Disk :=
  update (update disk dst (disk src)) src none

def Disk.readWalRecords (disk : Disk) (path : WalPath) : Except IoError (List WalRecord) :=
  match disk path with
  | none => .error ⟨.notFound, "No such file or directory (os error 2)"⟩
  | some file => Velocity.readWalRecords file

/-! ### Writer and manager -/

structure WalWriter where
  recordCount : Nat
  unsyncedCount : Nat
  deriving DecidableEq, Repr

def WalWriter.openFile (disk : Disk) : WalWriter × Disk :=
  let isNew := (disk .current).getD [] = []
  (⟨0, 0⟩, if isNew then update disk .current (some walHeader) else disk)

/-- `log` is a history variable that no operation reads. -/
structure WalManager where
  disk : Disk
  writer : WalWriter
  maxFileSize : Nat
  retainCount : Nat
  log : SegmentedLog

namespace WalManager

def withRetention (disk : Disk) (maxFileSize retainCount : Nat) : WalManager :=
  let (writer, disk) := WalWriter.openFile disk
  ⟨disk, writer, maxFileSize, retainCount, SegmentedLog.empty⟩

variable (m : WalManager)

def reopen : WalManager :=
  { withRetention m.disk m.maxFileSize m.retainCount with log := m.log }

def rotations : Nat := m.log.closed.length

def sync : WalManager :=
  { m with writer := { m.writer with unsyncedCount := 0 } }

def shiftRotated (disk : Disk) : Nat → Disk
  | 0 => disk
  | n + 1 =>
    let src := WalPath.rotated (n + 1)
    let dst := WalPath.rotated (n + 2)
    shiftRotated (if disk.pathExists src then disk.rename src dst else disk) n

/-- What `rotate` does to the files. -/
def rotateFiles (disk : Disk) (retainCount : Nat) : Disk :=
  let oldest := WalPath.rotated retainCount
  -- with `retain_count = 0` this is `.0`
  let disk := if disk.pathExists oldest then disk.removeFile oldest else disk
  let disk := shiftRotated disk (retainCount - 1)
  disk.rename .current (.rotated 1)

def rotate : WalManager :=
  let m := m.sync
  let (writer, disk) := WalWriter.openFile (rotateFiles m.disk m.retainCount)
  { m with disk := disk, writer := writer, log := m.log.close }

def currentLen : Nat := ((m.disk .current).getD []).length

def appendEvent (eventType : WalEventType) (workflowKey : UInt64) (data : Bytes) : WalManager :=
  let record : WalRecord := ⟨eventType, workflowKey, data⟩
  { m with
    disk := update m.disk .current (some ((m.disk .current).getD [] ++ record.encode))
    writer := ⟨m.writer.recordCount + 1, m.writer.unsyncedCount + 1⟩
    log := m.log.push record }

def append (eventType : WalEventType) (workflowKey : UInt64) (data : Bytes) : WalManager :=
  let m := m.appendEvent eventType workflowKey data
  -- a segment may end past the limit
  if m.maxFileSize < m.currentLen then m.rotate else m

def replay : Except IoError (List WalRecord) := m.disk.readWalRecords .current

def replayRotated (disk : Disk) : Nat → Except IoError (List WalRecord)
  | 0 => .ok []
  | n + 1 => do
    let path := WalPath.rotated (n + 1)
    let records ← if disk.pathExists path then disk.readWalRecords path else .ok []
    -- one unreadable file fails the whole replay
    let newer ← replayRotated disk n
    .ok (records ++ newer)

def replayOld : Except IoError (List WalRecord) :=
  replayRotated m.disk m.retainCount

def replayAll : Except IoError (List WalRecord) := do
  let records ← m.replayOld
  let newest ← m.replay
  .ok (records ++ newest)

end WalManager

/-! ### Segments -/

namespace WalManager

/-- The files hold the log, as far as files are retained. -/
structure Holds (m : WalManager) : Prop where
  current : m.disk .current = some (segmentFile m.log.current)
  rotated : ∀ i, i < m.retainCount → m.disk (.rotated (i + 1)) = m.log.closed[i]?.map segmentFile

theorem segmentFile_ne_nil (records : List WalRecord) : segmentFile records ≠ [] :=
  append_ne_nil_of_left_ne_nil (cons_ne_nil _ _) _

theorem holds_withRetention (maxFileSize retainCount : Nat) :
    (withRetention (fun _ => none) maxFileSize retainCount).Holds where
  current := rfl
  rotated i _ := by
    simp [withRetention, WalWriter.openFile, SegmentedLog.empty, update]

variable {m : WalManager}

theorem Holds.reopen (h : m.Holds) : m.reopen.Holds := by
  have hdisk : m.reopen.disk = m.disk := by
    simp only [WalManager.reopen, withRetention, WalWriter.openFile, h.current,
      Option.getD_some, segmentFile_ne_nil, if_false]
  refine ⟨?_, fun i hi => ?_⟩
  · rw [hdisk]
    exact h.current
  · rw [hdisk]
    exact h.rotated i hi

theorem shiftRotated_of_outside {path : WalPath} :
    ∀ (n : Nat) (disk : Disk), (∀ j, 1 ≤ j → j ≤ n + 1 → path ≠ .rotated j) →
      shiftRotated disk n path = disk path
  | 0, _, _ => rfl
  | n + 1, disk, hout => by
    rw [shiftRotated, shiftRotated_of_outside n _ (fun j h1 h2 => hout j h1 (by omega))]
    have hsrc : path ≠ .rotated (n + 1) := hout (n + 1) (by omega) (by omega)
    have hdst : path ≠ .rotated (n + 2) := hout (n + 2) (by omega) (by omega)
    split
    · rw [Disk.rename, update_of_ne hsrc, update_of_ne hdst]
    · rfl

theorem shiftRotated_succ :
    ∀ (n : Nat) (disk : Disk), disk (.rotated (n + 1)) = none →
      ∀ j, 1 ≤ j → j ≤ n → shiftRotated disk n (.rotated (j + 1)) = disk (.rotated j)
  | 0, _, _, j, h1, h2 => absurd h1 (by omega)
  | n + 1, disk, hfree, j, h1, h2 => by
    rw [shiftRotated]
    -- it leaves its place empty
    have hmove : ∀ i, (if disk.pathExists (.rotated (n + 1))
          then disk.rename (.rotated (n + 1)) (.rotated (n + 2)) else disk) (.rotated i)
        = if i = n + 1 then none else if i = n + 2 then disk (.rotated (n + 1))
          else disk (.rotated i) := by
      intro i
      by_cases hexists : disk.pathExists (.rotated (n + 1)) = true
      · rw [if_pos hexists, Disk.rename]
        by_cases hi : i = n + 1
        · rw [if_pos hi, hi, update_self]
        · rw [if_neg hi, update_of_ne (by simpa using hi)]
          by_cases hi2 : i = n + 2
          · rw [if_pos hi2, hi2, update_self]
          · rw [if_neg hi2, update_of_ne (by simpa using hi2)]
      · have hnone : disk (.rotated (n + 1)) = none := by
          simpa [Disk.pathExists] using hexists
        rw [if_neg hexists]
        by_cases hi : i = n + 1
        · rw [if_pos hi, hi, hnone]
        · rw [if_neg hi]
          by_cases hi2 : i = n + 2
          · rw [if_pos hi2, hi2, hfree, hnone]
          · rw [if_neg hi2]
    -- the rest no longer touches `.n + 2`
    rcases Nat.lt_or_ge j (n + 1) with hlt | hge
    · have hempty := hmove (n + 1)
      rw [if_pos rfl] at hempty
      rw [shiftRotated_succ n _ hempty j h1 (by omega), hmove, if_neg (by omega),
        if_neg (by omega)]
    · have hj : j = n + 1 := by omega
      subst hj
      rw [shiftRotated_of_outside n _ (fun i _ h2 hi => by cases hi; omega), hmove,
        if_neg (by omega), if_pos rfl]

theorem rotateFiles_current (disk : Disk) (retainCount : Nat) :
    rotateFiles disk retainCount .current = none := by
  simp only [rotateFiles, Disk.rename, update_self]

theorem rotateFiles_one (disk : Disk) (retainCount : Nat) :
    rotateFiles disk retainCount (.rotated 1) = disk .current := by
  simp only [rotateFiles, Disk.rename]
  rw [update_of_ne (by simp), update_self,
    shiftRotated_of_outside _ _ (fun j _ _ h => by cases h)]
  split
  · exact update_of_ne (by simp) ..
  · rfl

theorem rotateFiles_succ (disk : Disk) {retainCount i : Nat} (h1 : 1 ≤ i) (h2 : i < retainCount) :
    rotateFiles disk retainCount (.rotated (i + 1)) = disk (.rotated i) := by
  simp only [rotateFiles, Disk.rename]
  rw [update_of_ne (by simp), update_of_ne (by simp; omega)]
  have hslot : retainCount - 1 + 1 = retainCount := by omega
  -- only the oldest file is deleted
  by_cases hexists : disk.pathExists (.rotated retainCount) = true
  · rw [if_pos hexists]
    rw [shiftRotated_succ _ _ (by rw [hslot]; exact update_self ..) i h1 (by omega)]
    exact update_of_ne (by simp; omega) ..
  · rw [if_neg hexists]
    rw [shiftRotated_succ _ _ (by rw [hslot]; simpa [Disk.pathExists] using hexists) i h1
      (by omega)]

theorem rotate_disk (m : WalManager) :
    m.rotate.disk
      = update (rotateFiles m.disk m.retainCount) .current (some walHeader) := by
  simp only [rotate, sync, WalWriter.openFile, rotateFiles_current, Option.getD_none, if_true]

theorem Holds.rotate (h : m.Holds) : m.rotate.Holds where
  current := by
    rw [rotate_disk, update_self]
    rfl
  rotated i hi := by
    rw [rotate_disk, update_of_ne (by simp)]
    cases i with
    -- `.1` is the segment that was current
    | zero => rw [rotateFiles_one, h.current]; rfl
    | succ i =>
      have hi' : i + 1 < m.retainCount := hi
      rw [rotateFiles_succ m.disk (Nat.succ_pos i) hi', h.rotated i (Nat.lt_of_succ_lt hi')]
      rfl

theorem Holds.appendEvent (h : m.Holds) (eventType : WalEventType)
    (workflowKey : UInt64) (data : Bytes) :
    (m.appendEvent eventType workflowKey data).Holds where
  current := by
    simp only [WalManager.appendEvent, SegmentedLog.push, update_self, h.current,
      Option.getD_some, segmentFile, encodeAll_append, append_assoc]
    simp
  rotated i hi := by
    simp only [WalManager.appendEvent]
    rw [update_of_ne (by simp)]
    exact h.rotated i hi

theorem Holds.append (h : m.Holds) (eventType : WalEventType)
    (workflowKey : UInt64) (data : Bytes) : (m.append eventType workflowKey data).Holds := by
  simp only [WalManager.append]
  split
  · exact (h.appendEvent eventType workflowKey data).rotate
  · exact h.appendEvent eventType workflowKey data

theorem Holds.currentLen_eq (h : m.Holds) :
    m.currentLen = 8 + (encodeAll m.log.current).length := by
  rw [currentLen, h.current, Option.getD_some, segmentFile, length_append]
  rfl

theorem append_of_le {t : WalEventType} {k : UInt64} {d : Bytes}
    (h : (m.appendEvent t k d).currentLen ≤ m.maxFileSize) :
    m.append t k d = m.appendEvent t k d := by
  simp only [append]
  exact if_neg (Nat.not_lt.mpr h)

/-- It took the records `rs`, and dropped old ones at most. -/
structure Grows (m m' : WalManager) (rs : List WalRecord) : Prop where
  holds : m.Holds → m'.Holds
  all : m'.log.all = m.log.all ++ rs
  retainCount : m'.retainCount = m.retainCount
  visible : m'.log.visible m'.retainCount <:+ m.log.visible m.retainCount ++ rs

theorem Grows.refl (m : WalManager) : m.Grows m [] where
  holds h := h
  all := (append_nil _).symm
  retainCount := rfl
  visible := (append_nil (m.log.visible m.retainCount)).symm ▸ suffix_rfl

theorem Grows.trans {m' m'' : WalManager} {rs rs' : List WalRecord} (h : m.Grows m' rs)
    (h' : m'.Grows m'' rs') : m.Grows m'' (rs ++ rs') where
  holds hm := h'.holds (h.holds hm)
  all := by rw [h'.all, h.all, append_assoc]
  retainCount := h'.retainCount.trans h.retainCount
  visible := by
    rw [← append_assoc]
    refine h'.visible.trans ?_
    obtain ⟨pre, hpre⟩ := h.visible
    exact ⟨pre, by rw [← append_assoc, hpre]⟩

theorem grows_sync (m : WalManager) : m.Grows m.sync [] where
  holds h := ⟨h.current, h.rotated⟩
  all := (append_nil _).symm
  retainCount := rfl
  visible := (Grows.refl m).visible

/-- **An append takes one record**, and may drop the oldest. -/
theorem grows_append (m : WalManager) (eventType : WalEventType) (workflowKey : UInt64)
    (data : Bytes) :
    m.Grows (m.append eventType workflowKey data) [⟨eventType, workflowKey, data⟩] where
  holds hm := hm.append eventType workflowKey data
  all := by
    simp only [append]
    split
    · show (m.log.push _).close.all = _
      rw [SegmentedLog.all_close, SegmentedLog.all_push]
    · exact SegmentedLog.all_push _ _
  retainCount := by
    simp only [append]
    split <;> rfl
  visible := by
    simp only [append]
    split
    · show (m.log.push _).close.visible m.retainCount <:+ _
      exact SegmentedLog.visible_close_push _ _ _
    · show (m.log.push _).visible m.retainCount <:+ _
      exact SegmentedLog.visible_push _ _ _ ▸ suffix_rfl

theorem Holds.replayRotated {m : WalManager} (h : m.Holds)
    (hfits : ∀ r ∈ m.log.visible m.retainCount, r.Fits) :
    ∀ n, n ≤ m.retainCount →
      replayRotated m.disk n = .ok (m.log.closed.take n).reverse.flatten
  | 0, _ => rfl
  | n + 1, hn => by
    have hfile := h.rotated n hn
    rw [WalManager.replayRotated, h.replayRotated hfits n (by omega), Disk.pathExists,
      Disk.readWalRecords, hfile]
    cases hseg : m.log.closed[n]? with
    -- the number is not in use yet
    | none =>
      have hlen : m.log.closed.length ≤ n := getElem?_eq_none_iff.mp hseg
      rw [take_of_length_le hlen, take_of_length_le (by omega)]
      rfl
    | some segment =>
      have hmem : segment ∈ m.log.closed.take m.retainCount := by
        rw [mem_take_iff_getElem]
        obtain ⟨hlt, hget⟩ := List.getElem?_eq_some_iff.mp hseg
        exact ⟨n, by omega, hget⟩
      have hsegFits : ∀ r ∈ segment, r.Fits := fun r hr =>
        hfits r (mem_append_left _ (mem_flatten.mpr
          ⟨segment, mem_reverse.mpr hmem, hr⟩))
      have htake : m.log.closed.take (n + 1) = m.log.closed.take n ++ [segment] := by
        rw [take_add_one, hseg]
        rfl
      show (do
        let records ← Velocity.readWalRecords (segmentFile segment)
        Except.ok (records ++ (m.log.closed.take n).reverse.flatten) : Except IoError _) = _
      rw [segmentFile, readWalRecords_header, readRecords_encodeAll hsegFits, htake]
      simp [bind, Except.bind]

theorem Holds.replayAll (h : m.Holds) (hfits : ∀ r ∈ m.log.visible m.retainCount, r.Fits) :
    m.replayAll = .ok (m.log.visible m.retainCount) := by
  have hcurrent : ∀ r ∈ m.log.current, r.Fits := fun r hr =>
    hfits r (mem_append_right _ hr)
  rw [WalManager.replayAll, replayOld, h.replayRotated hfits _ (Nat.le_refl _), replay,
    Disk.readWalRecords, h.current]
  show (do
    let newest ← Velocity.readWalRecords (segmentFile m.log.current)
    Except.ok ((m.log.closed.take m.retainCount).reverse.flatten ++ newest) : Except IoError _)
      = _
  rw [segmentFile, readWalRecords_header, readRecords_encodeAll hcurrent]
  rfl

end WalManager

end Velocity
