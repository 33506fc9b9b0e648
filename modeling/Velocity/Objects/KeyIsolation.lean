import Velocity.Objects.Runtime

namespace Velocity.Objects

open Lib

/-!
# Isolation of objects

Objects are kept under their type and key joined by a slash.

* `SameAt`, `SameReads`: two runtimes alike for one object.
* `isolated_iff`: which objects no call on another can change.
-/

namespace VirtualObjectRuntime

variable {r r' : VirtualObjectRuntime}

structure SameAt (fullKey : String) (r r' : VirtualObjectRuntime) : Prop where
  state : r'.keyState.lookup fullKey = r.keyState.lookup fullKey
  queue : r'.keyQueues.lookup fullKey = r.keyQueues.lookup fullKey
  lock : r'.keyLocks.lookup fullKey = r.keyLocks.lookup fullKey

structure SameReads (k : ObjectKey) (r r' : VirtualObjectRuntime) : Prop where
  stateGet : ∀ stateKey, r'.stateGet k stateKey = r.stateGet k stateKey
  stateKeys : r'.stateKeys k = r.stateKeys k
  isKeyBusy : r'.isKeyBusy k = r.isKeyBusy k
  keyQueueDepth : r'.keyQueueDepth k = r.keyQueueDepth k

/-- A call on an object, or the end of an invocation of it. -/
def On (k : ObjectKey) (r : VirtualObjectRuntime) : ObjectOp → Prop
  | .invoke target _ _ _ => target = k
  | .stateSet target _ _ => target = k
  | .stateClear target _ => target = k
  | .completeInvocation i _ => ∀ inv, r.invocations.lookup i = some inv → inv.target = k
  | .failInvocation i _ => ∀ inv, r.invocations.lookup i = some inv → inv.target = k
  | _ => False

theorem SameAt.refl (fullKey : String) (r : VirtualObjectRuntime) : r.SameAt fullKey r :=
  ⟨rfl, rfl, rfl⟩

theorem SameAt.trans {fullKey : String} {r'' : VirtualObjectRuntime} (h : SameAt fullKey r r')
    (h' : SameAt fullKey r' r'') : SameAt fullKey r r'' :=
  ⟨h'.state.trans h.state, h'.queue.trans h.queue, h'.lock.trans h.lock⟩

variable {k : ObjectKey}

theorem SameAt.sameReads (h : SameAt k.fullKey r r') : SameReads k r r' where
  stateGet stateKey := by rw [VirtualObjectRuntime.stateGet, VirtualObjectRuntime.stateGet, h.state]
  stateKeys := by rw [VirtualObjectRuntime.stateKeys, VirtualObjectRuntime.stateKeys, h.state]
  isKeyBusy := by rw [VirtualObjectRuntime.isKeyBusy, VirtualObjectRuntime.isKeyBusy, h.lock]
  keyQueueDepth := by
    rw [VirtualObjectRuntime.keyQueueDepth, VirtualObjectRuntime.keyQueueDepth, h.queue]

/-! ### What a call leaves alone -/

variable {k' : String}

theorem sameAt_tryDispatch {k : String} (hk : k' ≠ k) : SameAt k' r (r.tryDispatch k) := by
  rw [tryDispatch]
  split
  · exact .refl k' r
  · split
    · exact ⟨rfl, AList.lookup_insert_ne hk, AList.lookup_insert_ne hk⟩
    · exact .refl k' r

theorem sameAt_enqueue {target : ObjectKey} (hk : k' ≠ target.fullKey)
    (handlerName : String) (input : Bytes) (idempotencyKey : Option String) :
    SameAt k' r (r.enqueue target handlerName input idempotencyKey) := by
  refine ⟨?_, AList.lookup_insert_ne hk, rfl⟩
  simp only [enqueue]
  split
  · rfl
  · exact AList.lookup_insert_ne hk

theorem sameAt_changeState {target : ObjectKey} (hk : k' ≠ target.fullKey)
    (f : AList (fun _ : String => Bytes) → AList (fun _ : String => Bytes)) :
    SameAt k' r (r.changeState target f).2 := by
  rw [changeState]
  split
  · exact .refl k' r
  · exact ⟨AList.lookup_insert_ne hk, rfl, rfl⟩

theorem sameAt_endInvocation {i : UInt64}
    (hk : ∀ inv, r.invocations.lookup i = some inv → k' ≠ inv.target.fullKey)
    (f : HandlerInvocation → HandlerInvocation) : SameAt k' r (r.endInvocation i f).2 := by
  rw [endInvocation]
  split
  · exact .refl k' r
  · next inv hinv =>
    have hunlocked : SameAt k' r
        { r with
          invocations := modifyKey r.invocations i f
          keyLocks := r.keyLocks.erase inv.target.fullKey } :=
      ⟨rfl, rfl, AList.lookup_erase_ne (hk inv hinv)⟩
    exact hunlocked.trans (sameAt_tryDispatch (hk inv hinv))

theorem sameAt_apply (hk : k' ≠ k.fullKey) {op : ObjectOp}
    (hop : On k r op) : SameAt k' r (r.apply op) := by
  cases op with
  | invoke target handlerName input idempotencyKey =>
    have htarget : target = k := hop
    rw [apply, invoke_snd]
    split
    · exact (sameAt_enqueue (htarget ▸ hk) ..).trans (sameAt_tryDispatch (htarget ▸ hk))
    · exact .refl k' r
  | stateSet target stateKey value | stateClear target stateKey =>
    exact sameAt_changeState ((show target = k from hop) ▸ hk) _
  | completeInvocation i output =>
    exact sameAt_endInvocation (fun inv hinv => (hop inv hinv) ▸ hk) _
  | failInvocation i error => exact sameAt_endInvocation (fun inv hinv => (hop inv hinv) ▸ hk) _
  | registerObjectType typeName handlers | suspendInvocation i | resumeInvocation i
  | createAwakeable i | resolveAwakeable awakeableId value | rejectAwakeable awakeableId error =>
    exact hop.elim

theorem sameAt_run (hk : k' ≠ k.fullKey) {ops : List ObjectOp}
    (hops : StepsMeet apply (On k) r ops) : SameAt k' r (r.run ops) :=
  foldl_invariant (I := fun r' => SameAt k' r r')
    (fun _ _ h hop => h.trans (sameAt_apply hk hop)) ops r (.refl k' r) hops

/-- No run on `k` changes what can be read of `k'`. -/
def Isolated (k k' : ObjectKey) : Prop :=
  ∀ before ops, StepsMeet apply (On k) (VirtualObjectRuntime.new.run before) ops →
    SameReads k' (VirtualObjectRuntime.new.run before)
      ((VirtualObjectRuntime.new.run before).run ops)

def oneHandler (typeName : String) : ObjectOp :=
  .registerObjectType typeName [⟨"handle", .workflow, none, none⟩]

theorem lookup_keyLocks_first_invoke (k : ObjectKey) :
    ((VirtualObjectRuntime.new.run [oneHandler k.objectType]).run
      [.invoke k "handle" [] none]).keyLocks.lookup k.fullKey = some 1 := by
  have hop : (VirtualObjectRuntime.new.run [oneHandler k.objectType]).lockOp
      (.invoke k "handle" [] none) = some (.arrive 1 k.fullKey) := by
    refine if_pos ?_
    simp [invokes, run, apply, oneHandler, registerObjectType]
  have hlocks := locks_apply (r := VirtualObjectRuntime.new.run [oneHandler k.objectType])
    (.invoke k "handle" [] none)
  rw [hop, Option.elim_some, LockTable.step] at hlocks
  have hholder := LockTable.holder_dispatch (k := k.fullKey)
    (t := (VirtualObjectRuntime.new.run [oneHandler k.objectType]).locks.enqueue 1 k.fullKey) rfl
  rw [← hlocks] at hholder
  refine hholder.trans ?_
  simp [LockTable.enqueue, locks, run, apply, oneHandler, registerObjectType, new]

end VirtualObjectRuntime

open VirtualObjectRuntime

/-- **Isolation** of two objects holds iff their full keys differ. -/
theorem isolated_iff (k k' : ObjectKey) : Isolated k k' ↔ k.fullKey ≠ k'.fullKey := by
  constructor
  · intro hisolated heq
    have hreads := hisolated [oneHandler k.objectType] [.invoke k "handle" [] none] ⟨rfl, trivial⟩
    have hbusy := hreads.isKeyBusy
    rw [VirtualObjectRuntime.isKeyBusy, ← heq, lookup_keyLocks_first_invoke] at hbusy
    cases hbusy
  · intro hne before ops hops
    exact (sameAt_run hne.symm hops).sameReads

theorem append_separator_inj {c : Char} : ∀ {a b x y : List Char}, c ∉ a → c ∉ b →
    a ++ c :: x = b ++ c :: y → a = b ∧ x = y
  | [], [], _, _, _, _, h => ⟨rfl, List.tail_eq_of_cons_eq h⟩
  | [], d :: b, _, _, _, hb, h => absurd (List.head_eq_of_cons_eq h) (by simp at hb; exact hb.1)
  | d :: a, [], _, _, ha, _, h =>
    absurd (List.head_eq_of_cons_eq h).symm (by simp at ha; exact ha.1)
  | d :: a, e :: b, _, _, ha, hb, h => by
    obtain ⟨hde, hrest⟩ := List.cons_eq_cons.mp h
    obtain ⟨hab, hxy⟩ := append_separator_inj (List.not_mem_of_not_mem_cons ha)
      (List.not_mem_of_not_mem_cons hb) hrest
    exact ⟨by rw [hde, hab], hxy⟩

theorem fullKey_ne_of_no_slash {k k' : ObjectKey} (hk : '/' ∉ k.objectType.toList)
    (hk' : '/' ∉ k'.objectType.toList) (hne : k ≠ k') : k.fullKey ≠ k'.fullKey := by
  intro heq
  have hlist := congrArg String.toList heq
  simp only [ObjectKey.fullKey, String.toList_append, List.append_assoc] at hlist
  obtain ⟨htype, hkey⟩ := append_separator_inj hk hk' hlist
  refine hne ?_
  cases k
  cases k'
  rw [ObjectKey.mk.injEq]
  exact ⟨String.toList_inj.mp htype, String.toList_inj.mp hkey⟩

theorem shared_full_key :
    (VirtualObjectRuntime.new.run [oneHandler "a/b"]).isKeyBusy ⟨"a", "b/c"⟩ = false
      ∧ (VirtualObjectRuntime.new.run [oneHandler "a/b",
          .invoke ⟨"a/b", "c"⟩ "handle" [] none]).isKeyBusy ⟨"a", "b/c"⟩ = true := by
  decide +kernel

end Velocity.Objects
