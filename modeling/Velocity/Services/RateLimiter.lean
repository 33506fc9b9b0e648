import Mathlib.Algebra.Order.Field.Rat
import Mathlib.Data.NNRat.Defs
import Mathlib.Tactic.Linarith
import Mathlib.Tactic.Positivity

namespace Velocity

/-!
# Rate limiters

Token buckets with exact amounts, in seconds.

* `keepsTokens_iff_of_limiters`: when a rejection is free.
* `GrantRun`: a limiter with what it has granted, and the bound on that.
-/

structure ClockedRateLimiter where
  ratePerSec : ℚ
  burst : Nat
  tokens : ℚ
  lastRefill : ℚ

namespace ClockedRateLimiter

def new (ratePerSec : ℚ) (burst : Nat) (now : ℚ) : ClockedRateLimiter :=
  ⟨ratePerSec, burst, burst, now⟩

variable (l : ClockedRateLimiter) (now : ℚ)

def refill : ClockedRateLimiter :=
  let elapsed := max (now - l.lastRefill) 0
  if elapsed > 0 then
    { l with tokens := min (l.tokens + elapsed * l.ratePerSec) l.burst, lastRefill := now }
  else l

def allowN (n : Nat) : Bool × ClockedRateLimiter :=
  let l := l.refill now
  if l.tokens ≥ n then (true, { l with tokens := l.tokens - n }) else (false, l)

def reserveN (n : Nat) : Option ℚ × ClockedRateLimiter :=
  let l := l.refill now
  if l.tokens ≥ n then (some 0, l)
  else if l.ratePerSec > 0 then (some ((n - l.tokens) / l.ratePerSec), l)
  else (none, l)

def recycleToken : ClockedRateLimiter := { l with tokens := min (l.tokens + 1) l.burst }

def waitN (n : Nat) (deadline : ℚ) : Bool × ℚ × ClockedRateLimiter :=
  match l.reserveN now n with
  | (none, l) => (false, 0, l)
  | (some delay, l) =>
    if delay = 0 then (true, 0, l)
    else if delay > deadline then (false, 0, l.recycleToken)
    else (true, delay, l)

def held : ℚ := (l.refill now).tokens

end ClockedRateLimiter

structure TokenBucket where
  capacity : Nat
  tokens : ℚ
  lastRefill : ℚ
  ratePerSecond : ℚ

namespace TokenBucket

variable (b : TokenBucket) (now : ℚ)

def held : ℚ := min (b.tokens + max (now - b.lastRefill) 0 * b.ratePerSecond) b.capacity

def tryAcquire (count : Nat) : Bool × TokenBucket :=
  let b : TokenBucket := { b with tokens := b.held now, lastRefill := now }
  if (count : ℚ) ≤ b.tokens then (true, { b with tokens := b.tokens - count }) else (false, b)

end TokenBucket

/-! ### Several buckets -/

def MultiRateLimiter.allowLoop (now : ℚ) (n : Nat) :
    List ClockedRateLimiter → List ClockedRateLimiter → Bool × List ClockedRateLimiter
  | consumed, [] => (true, consumed)
  | consumed, stage :: rest =>
    if (stage.allowN now n).1 then allowLoop now n (consumed ++ [(stage.allowN now n).2]) rest
    else (false, consumed.map (·.recycleToken) ++ (stage.allowN now n).2 :: rest)

def MultiRateLimiter.allowN (stages : List ClockedRateLimiter) (now : ℚ) (n : Nat) :
    Bool × List ClockedRateLimiter :=
  allowLoop now n [] stages

structure NamespaceRateLimiter where
  global : ClockedRateLimiter
  namespaceLimiters : String → Option ClockedRateLimiter

def NamespaceRateLimiter.allow (r : NamespaceRateLimiter) (now : ℚ) (ns : String)
    (tokens : Nat) : Bool × NamespaceRateLimiter :=
  let nsResult := (r.namespaceLimiters ns).map (·.allowN now tokens)
  let r : NamespaceRateLimiter :=
    ⟨r.global, Function.update r.namespaceLimiters ns (nsResult.map Prod.snd)⟩
  if nsResult.any (!·.1) then (false, r)
  else ((r.global.allowN now tokens).1, { r with global := (r.global.allowN now tokens).2 })

structure RateLimiter where
  globalBucket : TokenBucket
  namespaceBuckets : UInt64 → Option TokenBucket

def RateLimiter.tryAcquire (r : RateLimiter) (now : ℚ) (namespaceId : UInt64) (count : Nat) :
    Bool × RateLimiter :=
  let global := r.globalBucket.tryAcquire now count
  let r := { r with globalBucket := global.2 }
  if !global.1 then (false, r)
  else match r.namespaceBuckets namespaceId with
    | none => (true, r)
    | some bucket =>
      ((bucket.tryAcquire now count).1, ⟨r.globalBucket,
        Function.update r.namespaceBuckets namespaceId (some (bucket.tryAcquire now count).2)⟩)

/-! ### Rejected requests -/

/-- A rejected request leaves every stage what it held. -/
def MultiRateLimiter.KeepsTokens (stages : List ClockedRateLimiter) (now : ℚ) (n : Nat) : Prop :=
  (allowN stages now n).1 = false →
    (allowN stages now n).2.map (·.held now) = stages.map (·.held now)

/-- The same with a limiter for each namespace. -/
def NamespaceRateLimiter.KeepsTokens (r : NamespaceRateLimiter) (now : ℚ) (ns : String)
    (n : Nat) : Prop :=
  (r.allow now ns n).1 = false → (r.allow now ns n).2.global.held now = r.global.held now
    ∧ ∀ ns', ((r.allow now ns n).2.namespaceLimiters ns').map (·.held now)
      = (r.namespaceLimiters ns').map (·.held now)

/-- The same with buckets. -/
def RateLimiter.KeepsTokens (r : RateLimiter) (now : ℚ) (id : UInt64) (n : Nat) : Prop :=
  (r.tryAcquire now id n).1 = false →
    (r.tryAcquire now id n).2.globalBucket.held now = r.globalBucket.held now
    ∧ ∀ id', ((r.tryAcquire now id n).2.namespaceBuckets id').map (·.held now)
      = (r.namespaceBuckets id').map (·.held now)

namespace ClockedRateLimiter

variable {l : ClockedRateLimiter} {now : ℚ}

theorem held_of_le (h : now ≤ l.lastRefill) : l.held now = l.tokens := by
  rw [held, refill, max_eq_right (sub_nonpos.mpr h), if_neg (lt_irrefl _)]

theorem le_lastRefill : now ≤ (l.refill now).lastRefill := by
  unfold refill
  dsimp only
  split
  · exact le_rfl
  · next h => exact sub_nonpos.mp ((le_max_left _ _).trans (not_lt.mp h))

theorem held_allowN (l : ClockedRateLimiter) (now : ℚ) (n : Nat) :
    (l.allowN now n).2.held now = if (l.allowN now n).1 then l.held now - n else l.held now := by
  rw [allowN]
  split
  · exact held_of_le (le_lastRefill (l := l))
  · exact held_of_le le_lastRefill

/-- The limiter holds `n` tokens. -/
def Gives (now : ℚ) (n : Nat) (l : ClockedRateLimiter) : Prop := n ≤ l.held now

instance : DecidablePred (Gives now n) := fun l => inferInstanceAs (Decidable (_ ≤ l.held now))

theorem allowN_fst {n : Nat} : (l.allowN now n).1 ↔ l.Gives now n := by
  rw [allowN, Gives, held]
  split <;> simp_all

def refunded (now : ℚ) (n : Nat) (l : ClockedRateLimiter) : ℚ := min (l.held now - n + 1) l.burst

theorem held_recycleToken {n : Nat} (h : l.Gives now n) :
    (l.allowN now n).2.recycleToken.held now = l.refunded now n := by
  have hburst : (l.refill now).burst = l.burst := by
    unfold refill
    dsimp only
    split <;> rfl
  have hallow : l.allowN now n = (true, { l.refill now with tokens := l.held now - n }) :=
    if_pos h
  rw [hallow, refunded, ← hburst]
  exact held_of_le (le_lastRefill (l := l))

theorem refunded_eq_iff {n : Nat} : l.refunded now n = l.held now
    ↔ n = 1 ∧ l.held now ≤ l.burst ∨ n = 0 ∧ l.held now = l.burst := by
  rw [refunded, min_def]
  rcases n with - | - | n
  · grind
  · grind
  · have hn : (0 : ℚ) ≤ n := n.cast_nonneg
    push_cast
    grind

end ClockedRateLimiter

namespace MultiRateLimiter

open ClockedRateLimiter

variable {now : ℚ} {n : Nat}

variable (consumed stages : List ClockedRateLimiter)

theorem held_allowLoop (hfalse : (allowLoop now n consumed stages).1 = false) :
    (allowLoop now n consumed stages).2.map (held · now)
      = (consumed.map (·.recycleToken)).map (held · now)
        ++ (stages.takeWhile (Gives now n)).map (refunded now n)
        ++ (stages.dropWhile (Gives now n)).map (held · now) := by
  induction stages generalizing consumed with
  | nil => cases hfalse
  | cons stage rest ih =>
    unfold allowLoop at hfalse ⊢
    by_cases hgives : stage.Gives now n
    · rw [if_pos (allowN_fst.mpr hgives)] at hfalse ⊢
      simp [ih _ hfalse, hgives, held_recycleToken hgives]
    · rw [if_neg (mt allowN_fst.mp hgives)] at hfalse ⊢
      have hheld := stage.held_allowN now n
      rw [if_neg (mt allowN_fst.mp hgives)] at hheld
      simp [hgives, hheld]

theorem allowLoop_fst : (allowLoop now n consumed stages).1 = stages.all (Gives now n) := by
  induction stages generalizing consumed with
  | nil => rfl
  | cons stage rest ih =>
    unfold allowLoop
    split
    · next h => simp [ih, allowN_fst.mp h]
    · next h => simp [mt allowN_fst.mpr h]

theorem keepsTokens_iff (stages : List ClockedRateLimiter) :
    KeepsTokens stages now n
      ↔ (∀ l ∈ stages, l.Gives now n) ∨ ∀ l ∈ stages.takeWhile (Gives now n),
          n = 1 ∧ l.held now ≤ l.burst ∨ n = 0 ∧ l.held now = l.burst := by
  have hfst : (allowN stages now n).1 = stages.all (Gives now n) := allowLoop_fst [] stages
  by_cases hall : ∀ l ∈ stages, l.Gives now n
  · exact iff_of_true (fun h => absurd (hfst.symm.trans h) (by simpa using hall)) (.inl hall)
  · have hfalse : (allowN stages now n).1 = false := by simpa [hfst] using hall
    have hheld := held_allowLoop [] stages hfalse
    have hsplit := congrArg (List.map (held · now))
      (stages.takeWhile_append_dropWhile (p := Gives now n))
    rw [List.map_append] at hsplit
    rw [or_iff_right hall, KeepsTokens, forall_prop_of_true hfalse, allowN, hheld, ← hsplit]
    simp [List.map_inj_left, refunded_eq_iff]

end MultiRateLimiter

theorem map_update_iff {α β κ : Type} [DecidableEq κ] {f : κ → Option α} {k : κ} {a b : α}
    (hk : f k = some a) (g : α → β) :
    (∀ k', (Function.update f k (some b) k').map g = (f k').map g) ↔ g b = g a := by
  constructor
  · intro h
    simpa [hk] using h k
  · intro h k'
    rw [Function.update_apply]
    split
    · next heq => simp [heq, hk, h]
    · rfl

variable (now : ℚ) (n : Nat)

theorem NamespaceRateLimiter.keepsTokens_iff (r : NamespaceRateLimiter) (ns : String) :
    r.KeepsTokens now ns n
      ↔ n = 0 ∨ r.global.Gives now n ∨ ∀ l ∈ r.namespaceLimiters ns, ¬ l.Gives now n := by
  have hglobal := r.global.held_allowN now n
  rw [← ClockedRateLimiter.allowN_fst]
  unfold KeepsTokens allow
  cases hns : r.namespaceLimiters ns with
  | none =>
    have hself : Function.update r.namespaceLimiters ns none = r.namespaceLimiters :=
      Function.update_eq_self_iff.mpr hns.symm
    simp +contextual [hself, hglobal]
  | some l =>
    have hlimiter := l.held_allowN now n
    have hfst : (l.allowN now n).1 ↔ l.Gives now n := ClockedRateLimiter.allowN_fst
    by_cases hl : l.Gives now n
    · rw [if_pos (hfst.mpr hl)] at hlimiter
      cases hg : (r.global.allowN now n).1 <;>
        simp_all [map_update_iff hns]
    · rw [if_neg (mt hfst.mp hl)] at hlimiter
      simp_all [map_update_iff hns]

theorem TokenBucket.tryAcquire_fst (b : TokenBucket) :
    (b.tryAcquire now n).1 ↔ n ≤ b.held now := by
  rw [tryAcquire]
  split <;> simp_all

theorem TokenBucket.held_tryAcquire (b : TokenBucket) :
    (b.tryAcquire now n).2.held now
      = if (b.tryAcquire now n).1 then b.held now - n else b.held now := by
  have hcap : b.held now ≤ b.capacity := min_le_right _ _
  have hn : (0 : ℚ) ≤ n := n.cast_nonneg
  rw [tryAcquire]
  dsimp only
  split
  · rw [if_pos rfl]
    simp [held]
  · simp [held]

theorem RateLimiter.keepsTokens_iff (r : RateLimiter) (id : UInt64) :
    r.KeepsTokens now id n
      ↔ n = 0 ∨ r.globalBucket.held now < n ∨ ∀ b ∈ r.namespaceBuckets id, n ≤ b.held now := by
  have hglobal := r.globalBucket.held_tryAcquire now n
  rw [← not_le, ← TokenBucket.tryAcquire_fst]
  unfold KeepsTokens tryAcquire
  cases hg : (r.globalBucket.tryAcquire now n).1 with
  | false => simp_all
  | true =>
    cases hid : r.namespaceBuckets id with
    | none => simp_all
    | some b =>
      have hbucket := b.held_tryAcquire now n
      have hfst := b.tryAcquire_fst now n
      cases hb : (b.tryAcquire now n).1 <;> simp_all [map_update_iff hid]

/-- When a rejected request takes no tokens, for each of the three limiters. -/
theorem keepsTokens_iff_of_limiters (stages : List ClockedRateLimiter) (nr : NamespaceRateLimiter)
    (r : RateLimiter) (ns : String) (id : UInt64) :
    (MultiRateLimiter.KeepsTokens stages now n
        ↔ (∀ l ∈ stages, l.Gives now n) ∨ ∀ l ∈ stages.takeWhile (ClockedRateLimiter.Gives now n),
          n = 1 ∧ l.held now ≤ l.burst ∨ n = 0 ∧ l.held now = l.burst)
      ∧ (nr.KeepsTokens now ns n
        ↔ n = 0 ∨ nr.global.Gives now n ∨ ∀ l ∈ nr.namespaceLimiters ns, ¬ l.Gives now n)
      ∧ (r.KeepsTokens now id n
        ↔ n = 0 ∨ r.globalBucket.held now < n ∨ ∀ b ∈ r.namespaceBuckets id, n ≤ b.held now) :=
  ⟨MultiRateLimiter.keepsTokens_iff stages, nr.keepsTokens_iff now n ns, r.keepsTokens_iff now n id⟩

theorem not_keepsTokens :
    ¬ MultiRateLimiter.KeepsTokens [.new 0 5 0, ⟨0, 5, 0, 0⟩] 0 2
      ∧ ¬ NamespaceRateLimiter.KeepsTokens ⟨⟨0, 5, 0, 0⟩, fun _ => some (.new 0 5 0)⟩ 0 "ns" 1
      ∧ ¬ RateLimiter.KeepsTokens ⟨⟨5, 5, 0, 0⟩, fun _ => some ⟨5, 0, 0, 0⟩⟩ 0 1 1 := by
  rw [MultiRateLimiter.keepsTokens_iff, NamespaceRateLimiter.keepsTokens_iff,
    RateLimiter.keepsTokens_iff]
  norm_num [ClockedRateLimiter.Gives, ClockedRateLimiter.held, ClockedRateLimiter.refill,
    ClockedRateLimiter.new, TokenBucket.held]

/-! ### What a bucket grants -/

inductive GrantOp where
  | allowN (wait : ℚ≥0) (n : Nat)
  | waitN (wait : ℚ≥0) (n : Nat) (deadline overslept : ℚ≥0)

structure GrantRun where
  limiter : ClockedRateLimiter
  clock : ℚ
  granted : Nat

namespace GrantRun

def start (rate : ℚ≥0) (burst : Nat) (created : ℚ) : GrantRun :=
  ⟨.new rate burst created, created, 0⟩

def step (s : GrantRun) : GrantOp → GrantRun
  | .allowN wait n =>
    let result := s.limiter.allowN (s.clock + wait) n
    ⟨result.2, s.clock + wait, s.granted + if result.1 then n else 0⟩
  | .waitN wait n deadline overslept =>
    let result := s.limiter.waitN (s.clock + wait) n deadline
    ⟨result.2.2, s.clock + wait + result.2.1 + overslept, s.granted + if result.1 then n else 0⟩

/-- No more is granted than the burst and what has flowed in since. -/
def Bounded (rate : ℚ≥0) (burst : Nat) (created : ℚ) (ops : List GrantOp) : Prop :=
  let s := ops.foldl step (start rate burst created)
  s.granted ≤ burst + rate * (s.clock - created)

variable {rate : ℚ≥0} {burst : Nat} {c : ℚ} {s : GrantRun}

structure Sane (rate : ℚ≥0) (burst : Nat) (s : GrantRun) : Prop where
  ratePerSec : s.limiter.ratePerSec = rate
  size : s.limiter.burst = burst
  nonneg : 0 ≤ s.limiter.tokens
  le_burst : s.limiter.tokens ≤ burst
  last_le : s.limiter.lastRefill ≤ s.clock

theorem Sane.refill (h : Sane rate burst s) (wait : ℚ≥0) :
    Sane rate burst ⟨s.limiter.refill (s.clock + wait), s.clock + wait, s.granted⟩
      ∧ (s.limiter.refill (s.clock + wait)).tokens
        ≤ s.limiter.tokens + rate * (s.clock + wait - s.limiter.lastRefill)
      ∧ (s.limiter.refill (s.clock + wait)).lastRefill = s.clock + wait := by
  obtain ⟨hrate, hburst, hnonneg, hle, hlast⟩ := h
  have hwait := wait.coe_nonneg
  have hsub : 0 ≤ s.clock + wait - s.limiter.lastRefill := by linarith
  have hmul := mul_nonneg hsub rate.coe_nonneg
  unfold ClockedRateLimiter.refill
  rw [max_eq_left hsub, hrate, hburst]
  dsimp only
  split
  · exact ⟨⟨rfl, rfl, le_min (by linarith) burst.cast_nonneg, min_le_right _ _, le_rfl⟩,
      (min_le_left _ _).trans (by linarith), rfl⟩
  · next hzero => exact ⟨⟨hrate, hburst, hnonneg, hle, by linarith⟩, by linarith, by linarith⟩

theorem Sane.allowN (h : Sane rate burst s) (wait : ℚ≥0) (n : Nat) :
    Sane rate burst (s.step (.allowN wait n))
      ∧ (s.granted + s.limiter.tokens ≤ burst + rate * (s.limiter.lastRefill - c) →
        (s.step (.allowN wait n)).granted + (s.step (.allowN wait n)).limiter.tokens
          ≤ burst + rate * ((s.step (.allowN wait n)).limiter.lastRefill - c)) := by
  obtain ⟨⟨hrate, hburst, hnonneg, hle, hlast⟩, htokens, hnow⟩ := h.refill wait
  simp only [step, ClockedRateLimiter.allowN]
  have hn : (0 : ℚ) ≤ n := n.cast_nonneg
  split
  · next hgives =>
    refine ⟨⟨hrate, hburst, sub_nonneg.mpr hgives, ?_, hlast⟩, fun hgranted => ?_⟩
    · exact (sub_le_self _ hn).trans hle
    · simp only [hnow, if_true, Nat.cast_add]
      linarith
  · refine ⟨⟨hrate, hburst, hnonneg, hle, hlast⟩, fun hgranted => ?_⟩
    simp only [hnow, if_false, Bool.false_eq_true, Nat.add_zero]
    linarith

theorem waitN_dry {l : ClockedRateLimiter} {now : ℚ} (hzero : (l.refill now).tokens = 0) (n : Nat)
    (deadline : ℚ≥0) :
    ((l.waitN now n deadline).2.2 = l.refill now
        ∨ (l.waitN now n deadline).2.2 = (l.refill now).recycleToken)
      ∧ 0 ≤ (l.waitN now n deadline).2.1
      ∧ ((l.waitN now n deadline).1 →
        n ≤ (l.refill now).ratePerSec * (l.waitN now n deadline).2.1) := by
  have hn : (0 : ℚ) ≤ n := n.cast_nonneg
  rw [ClockedRateLimiter.waitN, ClockedRateLimiter.reserveN, hzero, sub_zero]
  by_cases hgives : (0 : ℚ) ≥ n
  · simp [hgives]
  by_cases hr : (l.refill now).ratePerSec > 0
  · have hdelay : n / (l.refill now).ratePerSec ≠ 0 := (div_pos (not_le.mp hgives) hr).ne'
    simp only [if_neg hgives, if_pos hr, if_neg hdelay]
    split
    · simp
    · exact ⟨.inl rfl, div_nonneg hn hr.le, fun _ => (mul_div_cancel₀ _ hr.ne').ge⟩
  · simp [hgives, hr]

theorem Sane.dry (h : Sane rate 0 s) (hgranted : s.granted ≤ rate * (s.clock - c))
    (op : GrantOp) : Sane rate 0 (s.step op)
      ∧ (s.step op).granted ≤ rate * ((s.step op).clock - c) := by
  have hmono : ∀ {d : ℚ}, 0 ≤ d → 0 ≤ rate * d := mul_nonneg rate.coe_nonneg
  cases op with
  | allowN wait n =>
    have hwait := hmono wait.coe_nonneg
    refine ⟨(h.allowN (c := c) wait n).1, ?_⟩
    obtain ⟨hsane, -⟩ := h.refill wait
    simp only [step, ClockedRateLimiter.allowN]
    split
    · next hgives =>
      obtain rfl : n = 0 := Nat.le_zero.mp (by exact_mod_cast hgives.trans hsane.le_burst)
      simp only [if_true, Nat.add_zero]
      linarith
    · simp only [if_false, Bool.false_eq_true, Nat.add_zero]
      linarith
  | waitN wait n deadline overslept =>
    obtain ⟨⟨hrate, hburst, hnonneg, hle, hlast⟩, -⟩ := h.refill wait
    have hover := overslept.coe_nonneg
    have hzero := le_antisymm (hle.trans_eq Nat.cast_zero) hnonneg
    obtain ⟨hlimiter, hslept, htrue⟩ := waitN_dry hzero n deadline
    have hwait := hmono (add_nonneg wait.coe_nonneg hover)
    have hrest := hmono hslept
    dsimp only at hrate hburst hnonneg hle hlast
    simp only [step]
    refine ⟨?_, ?_⟩
    · obtain hkept | hrecycled := hlimiter
      · rw [hkept]
        exact ⟨hrate, hburst, hnonneg, hle, by dsimp only; linarith⟩
      · rw [hrecycled]
        refine ⟨hrate, hburst, le_min ?_ (Nat.cast_nonneg _), ?_, ?_⟩
        · linarith
        · exact (min_le_right _ _).trans_eq (congrArg _ hburst)
        · dsimp only [ClockedRateLimiter.recycleToken]
          linarith
    · push_cast
      split
      · next hgiven =>
        have hn := htrue hgiven
        rw [hrate] at hn
        linarith
      · linarith

theorem foldl_waitN_full (hburst : 1 ≤ burst) (k g : Nat) :
    (List.replicate k (GrantOp.waitN 0 1 0 0)).foldl step ⟨.new rate burst c, c, g⟩
      = ⟨.new rate burst c, c, g + k⟩ := by
  induction k generalizing g with
  | zero => rfl
  | succ k ih =>
    have hone : (1 : ℚ) ≤ burst := by exact_mod_cast hburst
    have hstep : step ⟨.new rate burst c, c, g⟩ (.waitN 0 1 0 0)
        = ⟨.new rate burst c, c, g + 1⟩ := by
      simp [step, ClockedRateLimiter.waitN, ClockedRateLimiter.reserveN, ClockedRateLimiter.new,
        ClockedRateLimiter.refill, hone]
    rw [List.replicate_succ, List.foldl_cons, hstep, ih]
    congr 1
    omega

theorem sane_start : Sane rate burst (start rate burst c) :=
  ⟨rfl, rfl, burst.cast_nonneg, le_rfl, le_rfl⟩

/-- **Grants** are bounded in every run iff the burst is 0, or without `wait_n`. -/
theorem bounded_iff (rate : ℚ≥0) (burst : Nat) (created : ℚ) :
    ((∀ ops, Bounded rate burst created ops) ↔ burst = 0)
      ∧ ∀ ops : List (ℚ≥0 × Nat),
        Bounded rate burst created (ops.map fun op => .allowN op.1 op.2) := by
  refine ⟨⟨fun h => ?_, ?_⟩, fun ops => ?_⟩
  · by_contra hzero
    have hbound := h (List.replicate (burst + 1) (.waitN 0 1 0 0))
    rw [Bounded, start, foldl_waitN_full (by omega)] at hbound
    simp at hbound
    linarith
  · rintro rfl ops
    have hrun := List.foldlRecOn ops step (b := start rate 0 created)
      (motive := fun s => Sane rate 0 s ∧ s.granted ≤ rate * (s.clock - created))
      ⟨sane_start, by simp [start]⟩ fun s hs op _ => hs.1.dry hs.2 op
    simpa [Bounded] using hrun.2
  · have hrun := List.foldlRecOn ops (fun s op => step s (.allowN op.1 op.2))
      (b := start rate burst created)
      (motive := fun s => Sane rate burst s
        ∧ s.granted + s.limiter.tokens ≤ burst + rate * (s.limiter.lastRefill - created))
      ⟨sane_start, by simp [start, ClockedRateLimiter.new]⟩ fun s hs op _ =>
        ⟨(hs.1.allowN (c := created) op.1 op.2).1, (hs.1.allowN op.1 op.2).2 hs.2⟩
    obtain ⟨⟨-, -, hnonneg, -, hlast⟩, hgranted⟩ := hrun
    have hclock := mul_le_mul_of_nonneg_left hlast rate.coe_nonneg
    rw [Bounded, List.foldl_map]
    linarith

theorem not_bounded_waitN :
    ¬ Bounded 0 1 0 [.waitN 0 1 0 0, .waitN 0 1 0 0] := by
  have hrun : [GrantOp.waitN 0 1 0 0, .waitN 0 1 0 0].foldl step (start 0 1 0)
      = ⟨.new 0 1 0, 0, 2⟩ := foldl_waitN_full le_rfl 2 0
  rw [Bounded, hrun]
  norm_num

end GrantRun

end Velocity
