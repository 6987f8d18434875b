import Kallisto.Lib.Runs
import Kallisto.Lib.U64
import Kallisto.Server.RateLimit
import Mathlib.Algebra.Order.Field.Rat
import Mathlib.Tactic.Linarith
import Mathlib.Tactic.Ring

/-!
The bucket on three levels: machine words whose arithmetic may fail, the limiter over the
naturals, and the bucket one has in mind, over the rationals. The words never fail and do what
the limiter does; the limiter keeps to its rate in every stretch of time, and is the ideal
bucket unless its parameters saturate.
-/
namespace Kallisto.Server
open Lib

/-- The fields as the program holds them. -/
structure Bucket where
  capacity : UInt64
  perMillisecond : UInt64
  permits : UInt64
  lastRefillMs : UInt64
  deriving DecidableEq, Repr

namespace Bucket

def new (perSecond burst : UInt64) : Bucket :=
  let capacity := U64.saturatingMul (max burst 1) 1000000
  { capacity
    perMillisecond := U64.saturatingMul (max perSecond 1) 1000000 / 1000
    permits := capacity
    lastRefillMs := 0 }

def refill (l : Bucket) (nowMs : UInt64) : Option Bucket :=
  if nowMs > l.lastRefillMs then do
    let elapsed ← U64.checkedSub nowMs l.lastRefillMs
    let refilled := min (U64.saturatingAdd l.permits (U64.saturatingMul elapsed l.perMillisecond)) l.capacity
    return { l with lastRefillMs := nowMs, permits := refilled }
  else return l

/-- Nothing comes back where an operation overflows, underflows or divides by zero. -/
def tryAcquireAt (l : Bucket) (nowMs : UInt64) : Option (Bucket × Except UInt64 Unit) := do
  let l ← l.refill nowMs
  if l.permits ≥ 1000000 then
    let left ← U64.checkedSub l.permits 1000000
    return ({ l with permits := left }, .ok ())
  else
    let missing ← U64.checkedSub 1000000 l.permits
    let waitMs ← U64.divCeil missing (max l.perMillisecond 1)
    let seconds ← U64.divCeil waitMs 1000
    return (l, .error (max seconds 1))

def acquireAll (l : Bucket) : List UInt64 → Option (Bucket × List (Except UInt64 Unit))
  | [] => some (l, [])
  | nowMs :: times => do
      let (l, outcome) ← l.tryAcquireAt nowMs
      let (l, outcomes) ← l.acquireAll times
      return (l, outcome :: outcomes)

/-- The same amounts, as numbers. -/
def toLimiter (l : Bucket) : RateLimiter :=
  ⟨l.capacity.toNat, l.perMillisecond.toNat, l.permits.toNat, l.lastRefillMs.toNat⟩

theorem toLimiter_new (perSecond burst : UInt64) :
    (new perSecond burst).toLimiter = RateLimiter.new perSecond.toNat burst.toNat := by
  simp only [new, toLimiter, RateLimiter.new, UInt64.toNat_div, U64.toNat_saturatingMul, U64.toNat_max]
  rfl

theorem refill_refines (l : Bucket) (nowMs : UInt64) :
    ∃ l', l.refill nowMs = some l' ∧ l'.toLimiter = l.toLimiter.refill nowMs.toNat := by
  unfold refill RateLimiter.refill
  by_cases hlt : nowMs > l.lastRefillMs
  · have hlt' : nowMs.toNat > l.toLimiter.lastRefillMs := UInt64.lt_iff_toNat_lt.mp hlt
    obtain ⟨hsub, hvalue⟩ := U64.checkedSub_of_le (UInt64.le_of_lt hlt)
    rw [if_pos hlt, if_pos hlt', hsub]
    refine ⟨_, rfl, ?_⟩
    simp only [toLimiter, U64.toNat_min, U64.toNat_saturatingAdd, U64.toNat_saturatingMul, hvalue]
    rfl
  · have hlt' : ¬ nowMs.toNat > l.toLimiter.lastRefillMs := fun h => hlt (UInt64.lt_iff_toNat_lt.mpr h)
    rw [if_neg hlt, if_neg hlt']
    exact ⟨l, rfl, rfl⟩

/-- Every operation of a call stays in range, and the call does what the limiter does. -/
theorem tryAcquireAt_refines (l : Bucket) (nowMs : UInt64) :
    ∃ l' outcome, l.tryAcquireAt nowMs = some (l', outcome) ∧
      l'.toLimiter = (l.toLimiter.tryAcquireAt nowMs.toNat).1 ∧
      outcome.mapError UInt64.toNat = (l.toLimiter.tryAcquireAt nowMs.toNat).2 := by
  obtain ⟨filled, hfilled, hrefill⟩ := refill_refines l nowMs
  unfold tryAcquireAt RateLimiter.tryAcquireAt
  rw [hfilled, ← hrefill]
  dsimp only [Option.bind_eq_bind, Option.bind_some]
  by_cases hp : filled.permits ≥ 1000000
  · have hp' : filled.toLimiter.permits ≥ ONE_PERMIT := UInt64.le_iff_toNat_le.mp hp
    obtain ⟨hsub, hvalue⟩ := U64.checkedSub_of_le hp
    rw [if_pos hp, if_pos hp', hsub]
    refine ⟨_, _, rfl, ?_, rfl⟩
    simp only [toLimiter, hvalue]
    rfl
  · have hp' : ¬ filled.toLimiter.permits ≥ ONE_PERMIT := fun h => hp (UInt64.le_iff_toNat_le.mpr h)
    have hle : filled.permits ≤ 1000000 := UInt64.le_of_lt (UInt64.not_le.mp hp)
    obtain ⟨hsub, hmissing⟩ := U64.checkedSub_of_le hle
    have hrate : max filled.perMillisecond 1 ≠ 0 := by
      intro hzero
      have hnat := congrArg UInt64.toNat hzero
      rw [U64.toNat_max] at hnat
      exact absurd (le_max_right _ _) (not_le.mpr (lt_of_le_of_lt (le_of_eq hnat) (by decide)))
    obtain ⟨waitMs, hwait, hwaitValue⟩ := U64.divCeil_of_pos (a := 1000000 - filled.permits) hrate
    obtain ⟨seconds, hseconds, hsecondsValue⟩ := U64.divCeil_of_pos (a := waitMs) (b := 1000) (by decide)
    rw [if_neg hp, if_neg hp', hsub]
    simp only [Option.bind_some, hwait, hseconds]
    refine ⟨filled, .error (max seconds 1), rfl, rfl, ?_⟩
    rw [U64.toNat_max, hmissing] at hwaitValue
    simp only [Except.mapError, U64.toNat_max, hsecondsValue, hwaitValue]
    rfl

theorem acquireAll_refines (l : Bucket) (times : List UInt64) :
    ∃ final outcomes, l.acquireAll times = some (final, outcomes) ∧
      final.toLimiter = (run RateLimiter.tryAcquireAt l.toLimiter (times.map UInt64.toNat)).1 ∧
      outcomes.map (·.mapError UInt64.toNat) =
        (run RateLimiter.tryAcquireAt l.toLimiter (times.map UInt64.toNat)).2 := by
  induction times generalizing l with
  | nil => exact ⟨l, [], rfl, rfl, rfl⟩
  | cons nowMs times ih =>
      obtain ⟨next, outcome, hstep, hnext, houtcome⟩ := tryAcquireAt_refines l nowMs
      obtain ⟨final, outcomes, hrest, hfinal, houtcomes⟩ := ih next
      rw [hnext] at hfinal houtcomes
      refine ⟨final, outcome :: outcomes, ?_, hfinal, ?_⟩
      · rw [acquireAll, hstep]
        simp only [Option.bind_eq_bind, Option.bind_some, hrest]
        rfl
      · rw [List.map_cons, List.map_cons, houtcome, houtcomes]
        rfl

end Bucket

namespace RateLimiter
variable {l : RateLimiter}

/-- What a limiter is made with and keeps. -/
structure Sound (l : RateLimiter) : Prop where
  capped : l.permits ≤ l.capacity
  room : ONE_PERMIT ≤ l.capacity
  rate : 1 ≤ l.perMillisecond

theorem new_sound (perSecond burst : Nat) : Sound (new perSecond burst) := by
  have hmul : ∀ n : Nat, ONE_PERMIT ≤ satMul (max n 1) ONE_PERMIT := fun n =>
    le_min (Nat.le_mul_of_pos_left _ (le_max_right n 1)) (by decide)
  refine ⟨le_refl _, hmul burst, ?_⟩
  calc 1 ≤ ONE_PERMIT / 1000 := by decide
    _ ≤ satMul (max perSecond 1) ONE_PERMIT / 1000 := Nat.div_le_div_right (hmul perSecond)

theorem refill_capped (h : l.permits ≤ l.capacity) (nowMs : Nat) : (l.refill nowMs).permits ≤ l.capacity := by
  unfold refill
  split_ifs
  · exact min_le_right _ _
  · exact h

theorem tryAcquireAt_constants (l : RateLimiter) (nowMs : Nat) :
    (l.tryAcquireAt nowMs).1.capacity = l.capacity ∧
      (l.tryAcquireAt nowMs).1.perMillisecond = l.perMillisecond ∧
      (l.tryAcquireAt nowMs).1.lastRefillMs = max l.lastRefillMs nowMs := by
  have hlast : (l.refill nowMs).lastRefillMs = max l.lastRefillMs nowMs := by
    unfold refill
    split_ifs with hlt
    · exact (max_eq_right (le_of_lt hlt)).symm
    · exact (max_eq_left (not_lt.mp hlt)).symm
  obtain ⟨hcapacity, hrate⟩ := refill_capacity l nowMs
  rcases tryAcquireAt_cases l nowMs with ⟨-, -, heq⟩ | ⟨-, heq⟩
  · rw [heq]
    exact ⟨hcapacity, hrate, hlast⟩
  · rw [heq]
    exact ⟨hcapacity, hrate, hlast⟩

theorem capped_step (h : l.permits ≤ l.capacity) (nowMs : Nat) :
    (l.tryAcquireAt nowMs).1.permits ≤ (l.tryAcquireAt nowMs).1.capacity := by
  have hp := refill_capped h nowMs
  rw [(tryAcquireAt_constants l nowMs).1]
  rcases tryAcquireAt_cases l nowMs with ⟨-, -, heq⟩ | ⟨-, heq⟩
  · rw [heq]
    exact (Nat.sub_le _ _).trans hp
  · rw [heq]
    exact hp

theorem sound_step (h : Sound l) (nowMs : Nat) : Sound (l.tryAcquireAt nowMs).1 := by
  obtain ⟨hcapacity, hrate, -⟩ := tryAcquireAt_constants l nowMs
  exact ⟨capped_step h.capped nowMs, hcapacity ▸ h.room, hrate ▸ h.rate⟩

theorem run_sound (h : Sound l) (times : List Nat) : Sound (run tryAcquireAt l times).1 :=
  run_invariant (P := fun _ l => Sound l) h (fun _ _ nowMs hl => sound_step hl nowMs) times

/-- The last refill is no later than the last call. -/
theorem run_last {limit : Nat} {times : List Nat} (hl : l.lastRefillMs ≤ limit) (h : ∀ t ∈ times, t ≤ limit) :
    (run tryAcquireAt l times).1.lastRefillMs ≤ limit := by
  induction times generalizing l with
  | nil => exact hl
  | cons nowMs times ih =>
      rw [run]
      refine ih ?_ fun t ht => h t (List.mem_cons_of_mem _ ht)
      rw [(tryAcquireAt_constants l nowMs).2.2]
      exact max_le hl (h nowMs List.mem_cons_self)

section Retry

theorem le_divCeil_mul (a : Nat) {b : Nat} (h : 0 < b) : a ≤ divCeil a b * b := by
  have hdiv := Nat.div_add_mod (a + b - 1) b
  have hmod := Nat.mod_lt (a + b - 1) h
  rw [divCeil, Nat.mul_comm]
  omega

theorem tryAcquireAt_wait {nowMs wait : Nat} (h : (l.tryAcquireAt nowMs).2 = .error wait) :
    (l.refill nowMs).permits < ONE_PERMIT ∧
      wait = max (divCeil (divCeil (ONE_PERMIT - (l.refill nowMs).permits) (max l.perMillisecond 1)) 1000) 1 := by
  unfold tryAcquireAt at h
  dsimp only at h
  split_ifs at h with hp
  rw [(refill_capacity l nowMs).2] at h
  exact ⟨not_le.mp hp, (Except.error.inj h).symm⟩

/-- Whoever waits as long as told is served, if nobody else comes. -/
theorem retry_served (h : Sound l) {nowMs wait : Nat} (hlast : l.lastRefillMs ≤ nowMs)
    (herr : (l.tryAcquireAt nowMs).2 = .error wait) :
    1 ≤ wait ∧ ((l.tryAcquireAt nowMs).1.tryAcquireAt (nowMs + 1000 * wait)).2 = .ok () := by
  obtain ⟨hshort, hwait⟩ := tryAcquireAt_wait herr
  have hone : 1 ≤ wait := hwait ▸ le_max_right _ _
  refine ⟨hone, ?_⟩
  obtain ⟨hcapacity, hrate, hstamp⟩ := tryAcquireAt_constants l nowMs
  rw [max_eq_right hlast] at hstamp
  have hstate := tryAcquireAt_error herr
  generalize (l.tryAcquireAt nowMs).1 = next at *
  subst hstate
  have henough : ONE_PERMIT - (l.refill nowMs).permits ≤ 1000 * wait * l.perMillisecond := by
    have hpos : 0 < max l.perMillisecond 1 := lt_of_lt_of_le Nat.one_pos (le_max_right _ _)
    have hms := le_divCeil_mul (ONE_PERMIT - (l.refill nowMs).permits) hpos
    have hs := le_divCeil_mul (divCeil (ONE_PERMIT - (l.refill nowMs).permits) (max l.perMillisecond 1))
      (by decide : 0 < 1000)
    rw [max_eq_left h.rate] at hms hs hwait
    have hle : divCeil (divCeil (ONE_PERMIT - (l.refill nowMs).permits) l.perMillisecond) 1000 ≤ wait :=
      hwait ▸ le_max_left _ _
    calc _ ≤ divCeil (ONE_PERMIT - (l.refill nowMs).permits) l.perMillisecond * l.perMillisecond := hms
      _ ≤ 1000 * wait * l.perMillisecond := Nat.mul_le_mul_right _ (by omega)
  have hfilled : ONE_PERMIT ≤ ((l.refill nowMs).refill (nowMs + 1000 * wait)).permits := by
    rw [refill, if_pos (by omega : nowMs + 1000 * wait > (l.refill nowMs).lastRefillMs)]
    dsimp only
    rw [hstamp, hrate, hcapacity, Nat.add_sub_cancel_left]
    refine le_min (le_min ?_ (by decide)) h.room
    have hflow : ONE_PERMIT - (l.refill nowMs).permits ≤ satMul (1000 * wait) l.perMillisecond :=
      le_min henough ((Nat.sub_le _ _).trans (by decide))
    omega
  rw [tryAcquireAt]
  simp only [ge_iff_le, if_pos hfilled]

end Retry

section Window
variable {lo len : Nat}

/-- Calls in the window that were let through. -/
def granted {ε : Type} (lo hi : Nat) (calls : List (Nat × Except ε Unit)) : Nat :=
  calls.countP fun call => lo ≤ call.1 ∧ call.1 ≤ hi ∧ call.2.isOk = true

/-- A call before the window takes nothing out of the credit for it. -/
theorem credit_before {nowMs : Nat} (h : nowMs < lo) :
    credit lo len (l.tryAcquireAt nowMs).1 ≤ credit lo len l := by
  obtain ⟨hcapacity, hrate, hlast⟩ := tryAcquireAt_constants l nowMs
  by_cases hold : l.lastRefillMs < lo
  · rw [credit, credit, hlast, if_pos (max_lt hold h), if_pos hold, hcapacity, hrate]
  · have hstamp : max l.lastRefillMs nowMs = l.lastRefillMs := max_eq_left (by omega)
    have hsame : l.refill nowMs = l := if_neg (by omega)
    rw [credit, credit, hlast, hstamp, if_neg hold, if_neg hold, hrate]
    apply Nat.add_le_add_right
    rcases tryAcquireAt_cases l nowMs with ⟨-, -, heq⟩ | ⟨-, heq⟩
    · rw [heq, hsame]
      exact Nat.sub_le _ _
    · rw [heq, hsame]

theorem granted_late {ε : Type} {hi : Nat} {calls : List (Nat × Except ε Unit)} (h : ∀ call ∈ calls, hi < call.1) :
    granted lo hi calls = 0 := by
  rw [granted, List.countP_eq_zero]
  intro call hcall
  have := h call hcall
  simp only [decide_eq_true_eq]
  omega

/-- Inside the window each call spends its own permit; after it none is counted. -/
theorem run_granted (lo len : Nat) {times : List Nat} (h : l.permits ≤ l.capacity) (sorted : times.Pairwise (· ≤ ·)) :
    granted lo (lo + len) (times.zip (run tryAcquireAt l times).2) * ONE_PERMIT ≤ credit lo len l := by
  induction times generalizing l with
  | nil => simp [granted]
  | cons nowMs times ih =>
      obtain ⟨hhead, htail⟩ := List.pairwise_cons.mp sorted
      have hrest := ih (capped_step h nowMs) htail
      rw [run, List.zip_cons_cons]
      by_cases hlate : lo + len < nowMs
      · rw [granted_late, Nat.zero_mul]
        · exact Nat.zero_le _
        · intro call hcall
          rcases List.mem_cons.mp hcall with rfl | hcall
          · exact hlate
          · exact lt_of_lt_of_le hlate (hhead _ (List.of_mem_zip hcall).1)
      · rw [granted, List.countP_cons, Nat.add_mul]
        change granted lo (lo + len) (times.zip (run tryAcquireAt (l.tryAcquireAt nowMs).1 times).2) * ONE_PERMIT + _ ≤ _
        by_cases hearly : nowMs < lo
        · have hcredit : credit lo len (l.tryAcquireAt nowMs).1 ≤ credit lo len l := credit_before hearly
          rw [if_neg (by simp only [decide_eq_true_eq]; omega), Nat.zero_mul, Nat.add_zero]
          exact hrest.trans hcredit
        · have hstep := credit_step h (not_lt.mp hearly) (not_lt.mp hlate)
          refine le_trans ?_ hstep
          rw [Nat.add_comm]
          refine Nat.add_le_add ?_ hrest
          cases hout : (l.tryAcquireAt nowMs).2 with
          | ok u => simp [Except.isOk, Except.toBool, not_lt.mp hearly, not_lt.mp hlate]
          | error wait => simp [Except.isOk, Except.toBool]

end Window

end RateLimiter

/-- The bucket one has in mind: a level that rises at its rate up to its cap. -/
structure Ideal where
  level : ℚ
  last : Nat

def Ideal.acquire (rate cap : Nat) (s : Ideal) (now : Nat) : Ideal × Bool :=
  let level := min (cap : ℚ) (s.level + rate / 1000 * ((now : ℚ) - s.last))
  if 1 ≤ level then (⟨level - 1, now⟩, true) else (⟨level, now⟩, false)

/-- The limiter counts in millionths what the ideal bucket holds. -/
structure Tracks (rate cap : Nat) (l : RateLimiter) (s : Ideal) : Prop where
  capacity : l.capacity = cap * ONE_PERMIT
  rate : l.perMillisecond = rate * 1000
  level : (l.permits : ℚ) = s.level * 1000000
  last : l.lastRefillMs = s.last

section Ideal
variable {rate cap : Nat} {l : RateLimiter} {s : Ideal}

/-- Saturation is hidden by the cap. -/
theorem refill_tracks (h : Tracks rate cap l s) (fits : cap * ONE_PERMIT ≤ U64_MAX)
    (hcapped : l.permits ≤ l.capacity) {now : Nat} (hnow : l.lastRefillMs ≤ now) :
    (l.refill now).permits = min (l.permits + rate * 1000 * (now - l.lastRefillMs)) (cap * ONE_PERMIT) := by
  unfold RateLimiter.refill
  split_ifs with hlt
  · rw [h.capacity, h.rate, satAdd, satMul, Nat.mul_comm (now - l.lastRefillMs)]
    generalize rate * 1000 * (now - l.lastRefillMs) = flow
    dsimp only
    omega
  · rw [show now - l.lastRefillMs = 0 by omega, Nat.mul_zero, Nat.add_zero, min_eq_left (h.capacity ▸ hcapped)]

theorem acquire_tracks (h : Tracks rate cap l s) (fits : cap * ONE_PERMIT ≤ U64_MAX)
    (hcapped : l.permits ≤ l.capacity) {now : Nat} (hnow : l.lastRefillMs ≤ now) :
    Tracks rate cap (l.tryAcquireAt now).1 (s.acquire rate cap now).1 ∧
      (l.tryAcquireAt now).2.isOk = (s.acquire rate cap now).2 := by
  have hpermits := refill_tracks h fits hcapped hnow
  have hlevel : ((l.refill now).permits : ℚ) =
      min (cap : ℚ) (s.level + rate / 1000 * ((now : ℚ) - s.last)) * 1000000 := by
    rw [hpermits, min_comm, Nat.cast_min, min_mul_of_nonneg _ _ (by norm_num : (0 : ℚ) ≤ 1000000), ← h.last]
    push_cast [ONE_PERMIT, Nat.cast_sub hnow, h.level]
    congr 1
    ring
  obtain ⟨hcapacity, hrate, hlast⟩ := RateLimiter.tryAcquireAt_constants l now
  rw [max_eq_right hnow] at hlast
  rw [Ideal.acquire]
  generalize min (cap : ℚ) (s.level + rate / 1000 * ((now : ℚ) - s.last)) = level at hlevel ⊢
  cases hout : (l.tryAcquireAt now).2 with
  | ok u =>
      obtain ⟨henough, heq⟩ := RateLimiter.tryAcquireAt_ok hout
      have hone : (1000000 : ℚ) ≤ level * 1000000 := hlevel ▸ Nat.cast_le.mpr henough
      have hserved : 1 ≤ level := by linarith
      simp only [if_pos hserved]
      refine ⟨⟨hcapacity.trans h.capacity, hrate.trans h.rate, ?_, hlast⟩, rfl⟩
      rw [heq, Nat.cast_sub henough, hlevel, sub_mul, one_mul]
      norm_num [ONE_PERMIT]
  | error wait =>
      have hshort := (RateLimiter.tryAcquireAt_wait hout).1
      have hless : level * 1000000 < 1000000 := hlevel ▸ Nat.cast_lt.mpr hshort
      have hrefused : ¬ 1 ≤ level := by linarith
      simp only [if_neg hrefused]
      refine ⟨⟨hcapacity.trans h.capacity, hrate.trans h.rate, ?_, hlast⟩, rfl⟩
      rw [RateLimiter.tryAcquireAt_error hout, hlevel]

theorem run_tracks {times : List Nat} (h : Tracks rate cap l s) (fits : cap * ONE_PERMIT ≤ U64_MAX)
    (hcapped : l.permits ≤ l.capacity) (sorted : times.Pairwise (· ≤ ·)) (hstart : ∀ t ∈ times, l.lastRefillMs ≤ t) :
    (run RateLimiter.tryAcquireAt l times).2.map Except.isOk = (run (Ideal.acquire rate cap) s times).2 := by
  induction times generalizing l s with
  | nil => rfl
  | cons now times ih =>
      obtain ⟨hhead, htail⟩ := List.pairwise_cons.mp sorted
      have hnow := hstart now List.mem_cons_self
      obtain ⟨hnext, hout⟩ := acquire_tracks h fits hcapped hnow
      rw [run, run, List.map_cons, hout]
      refine congrArg (_ :: ·) (ih hnext (RateLimiter.capped_step hcapped now) htail ?_)
      intro t ht
      rw [(RateLimiter.tryAcquireAt_constants l now).2.2, max_eq_right hnow]
      exact hhead t ht

/-- A new limiter is a full ideal bucket, unless its parameters saturate. -/
theorem new_tracks {perSecond burst : Nat} (hrate : max perSecond 1 ≤ U64_MAX / 1000000)
    (hburst : max burst 1 ≤ U64_MAX / 1000000) :
    Tracks (max perSecond 1) (max burst 1) (.new perSecond burst) ⟨(max burst 1 : Nat), 0⟩ := by
  have hmul : ∀ n, n ≤ U64_MAX / 1000000 → satMul n ONE_PERMIT = n * ONE_PERMIT := fun n hn =>
    min_eq_left ((Nat.le_div_iff_mul_le (by decide)).mp hn)
  refine ⟨hmul _ hburst, ?_, ?_, rfl⟩
  · rw [RateLimiter.new, hmul _ hrate, ONE_PERMIT]
    dsimp only
    omega
  · rw [RateLimiter.new, hmul _ hburst]
    push_cast [ONE_PERMIT]
    rfl

end Ideal

/-- What a bucket is for, over one sequence of calls. -/
structure Regulates (perSecond burst : UInt64) (times : List UInt64) : Prop where
  total : ∀ n, ∃ final outcomes,
    (Bucket.new perSecond burst).acquireAll (times.take n) = some (final, outcomes) ∧ final.permits ≤ final.capacity
  window : ∀ final outcomes, (Bucket.new perSecond burst).acquireAll times = some (final, outcomes) →
    ∀ s t : UInt64, s ≤ t → RateLimiter.granted s.toNat t.toNat ((times.map UInt64.toNat).zip outcomes) ≤
      max burst.toNat 1 + max perSecond.toNat 1 * (t.toNat - s.toNat) / 1000
  ideal : max perSecond.toNat 1 ≤ U64_MAX / 1000000 → max burst.toNat 1 ≤ U64_MAX / 1000000 →
    ∀ final outcomes, (Bucket.new perSecond burst).acquireAll times = some (final, outcomes) →
      outcomes.map Except.isOk =
        (run (Ideal.acquire (max perSecond.toNat 1) (max burst.toNat 1)) ⟨(max burst.toNat 1 : Nat), 0⟩
          (times.map UInt64.toNat)).2
  retry : ∀ before t after final outcomes wait, times = before ++ t :: after →
    (Bucket.new perSecond burst).acquireAll (before ++ [t]) = some (final, outcomes) →
    outcomes.getLast? = some (.error wait) →
    1 ≤ wait ∧ ∀ later, later.toNat = t.toNat + 1000 * wait.toNat →
      ∃ next, final.tryAcquireAt later = some (next, .ok ())

section Machine
variable {perSecond burst : UInt64} {times : List UInt64}

/-- A run of the machine is the run of the limiter. -/
theorem acquireAll_new {final : Bucket} {outcomes : List (Except UInt64 Unit)}
    (h : (Bucket.new perSecond burst).acquireAll times = some (final, outcomes)) :
    final.toLimiter =
        (run RateLimiter.tryAcquireAt (.new perSecond.toNat burst.toNat) (times.map UInt64.toNat)).1 ∧
      outcomes.map (·.mapError UInt64.toNat) =
        (run RateLimiter.tryAcquireAt (.new perSecond.toNat burst.toNat) (times.map UInt64.toNat)).2 := by
  obtain ⟨final', outcomes', hrun, hfinal, houtcomes⟩ := Bucket.acquireAll_refines (.new perSecond burst) times
  rw [h, Option.some.injEq, Prod.mk.injEq] at hrun
  obtain ⟨rfl, rfl⟩ := hrun
  rw [Bucket.toLimiter_new] at hfinal houtcomes
  exact ⟨hfinal, houtcomes⟩

theorem isOk_mapError (outcome : Except UInt64 Unit) : (outcome.mapError UInt64.toNat).isOk = outcome.isOk := by
  cases outcome <;> rfl

theorem granted_mapError (lo hi : Nat) (times : List Nat) (outcomes : List (Except UInt64 Unit)) :
    RateLimiter.granted lo hi (times.zip (outcomes.map (·.mapError UInt64.toNat))) =
      RateLimiter.granted lo hi (times.zip outcomes) := by
  rw [List.zip_map_right, RateLimiter.granted, List.countP_map, RateLimiter.granted]
  congr 1
  funext call
  simp only [Function.comp, Prod.map, id_eq, isOk_mapError]

theorem toNat_increasing (sorted : times.Pairwise (· ≤ ·)) : (times.map UInt64.toNat).Pairwise (· ≤ ·) :=
  List.pairwise_map.mpr (sorted.imp UInt64.le_iff_toNat_le.mp)

theorem window_count (lo len : Nat) {times : List Nat} (sorted : times.Pairwise (· ≤ ·)) (perSecond burst : Nat) :
    RateLimiter.granted lo (lo + len) (times.zip (run RateLimiter.tryAcquireAt (.new perSecond burst) times).2) ≤
      max burst 1 + max perSecond 1 * len / 1000 := by
  have hbounded := RateLimiter.new_bounded perSecond burst
  have hcount := RateLimiter.count_of_credit hbounded (RateLimiter.run_granted lo len hbounded.1 sorted)
  generalize max perSecond 1 * len = flow at hcount ⊢
  omega

/-- What a refused caller is told is enough, where the wait still fits the clock. -/
theorem retry_after {before : List UInt64} {t wait : UInt64} {final : Bucket} {outcomes : List (Except UInt64 Unit)}
    (sorted : (before ++ [t]).Pairwise (· ≤ ·))
    (h : (Bucket.new perSecond burst).acquireAll (before ++ [t]) = some (final, outcomes))
    (hlast : outcomes.getLast? = some (.error wait)) :
    1 ≤ wait ∧ ∀ later, later.toNat = t.toNat + 1000 * wait.toNat →
      ∃ next, final.tryAcquireAt later = some (next, .ok ()) := by
  obtain ⟨hfinal, houtcomes⟩ := acquireAll_new h
  rw [List.map_append, List.map_singleton, run_snoc] at hfinal houtcomes
  have hearlier : ∀ x ∈ before.map UInt64.toNat, x ≤ t.toNat := by
    intro x hx
    obtain ⟨y, hy, rfl⟩ := List.mem_map.mp hx
    exact UInt64.le_iff_toNat_le.mp ((List.pairwise_append.mp sorted).2.2 y hy t (List.mem_singleton_self t))
  have hsound := RateLimiter.run_sound (RateLimiter.new_sound perSecond.toNat burst.toNat) (before.map UInt64.toNat)
  have hstamp : (run RateLimiter.tryAcquireAt (.new perSecond.toNat burst.toNat)
      (before.map UInt64.toNat)).1.lastRefillMs ≤ t.toNat := RateLimiter.run_last (Nat.zero_le _) hearlier
  generalize (run RateLimiter.tryAcquireAt (.new perSecond.toNat burst.toNat) (before.map UInt64.toNat)).1 = l at *
  have herror : (l.tryAcquireAt t.toNat).2 = .error wait.toNat := by
    have hmapped := congrArg List.getLast? houtcomes
    rw [List.getLast?_map, hlast, List.getLast?_concat, Option.map_some, Option.some.injEq] at hmapped
    exact hmapped.symm
  obtain ⟨hone, hserved⟩ := RateLimiter.retry_served hsound hstamp herror
  refine ⟨UInt64.le_iff_toNat_le.mpr hone, ?_⟩
  intro later hlater
  obtain ⟨next, outcome, hstep, -, houtcome⟩ := Bucket.tryAcquireAt_refines final later
  rw [hfinal, hlater, hserved] at houtcome
  cases outcome with
  | ok u => exact ⟨next, hstep⟩
  | error again => cases houtcome

end Machine

/-- The bucket regulates every sequence of calls whose clock does not run backwards. -/
theorem bucket_regulates (perSecond burst : UInt64) {times : List UInt64} (sorted : times.Pairwise (· ≤ ·)) :
    Regulates perSecond burst times := by
  have hsorted := toNat_increasing sorted
  refine ⟨?_, ?_, ?_, ?_⟩
  · intro n
    obtain ⟨final, outcomes, hrun, -⟩ := Bucket.acquireAll_refines (.new perSecond burst) (times.take n)
    obtain ⟨hfinal, -⟩ := acquireAll_new hrun
    have hsound := RateLimiter.run_sound (RateLimiter.new_sound perSecond.toNat burst.toNat)
      ((times.take n).map UInt64.toNat)
    rw [← hfinal] at hsound
    exact ⟨final, outcomes, hrun, UInt64.le_iff_toNat_le.mpr hsound.capped⟩
  · intro final outcomes hrun s t hst
    obtain ⟨-, houtcomes⟩ := acquireAll_new hrun
    have hwindow := window_count s.toNat (t.toNat - s.toNat) hsorted perSecond.toNat burst.toNat
    rwa [← houtcomes, granted_mapError, Nat.add_sub_of_le (UInt64.le_iff_toNat_le.mp hst)] at hwindow
  · intro hrate hburst final outcomes hrun
    obtain ⟨-, houtcomes⟩ := acquireAll_new hrun
    have hfits : max burst.toNat 1 * ONE_PERMIT ≤ U64_MAX := (Nat.le_div_iff_mul_le (by decide)).mp hburst
    rw [← run_tracks (new_tracks hrate hburst) hfits (le_refl _) hsorted (fun _ _ => Nat.zero_le _), ← houtcomes,
      List.map_map]
    exact List.map_congr_left fun outcome _ => (isOk_mapError outcome).symm
  · rintro before t after final outcomes wait rfl hrun hlast
    have hfront : (before ++ [t]).Pairwise (· ≤ ·) := by
      rw [← List.singleton_append, ← List.append_assoc] at sorted
      exact (List.pairwise_append.mp sorted).1
    exact retry_after hfront hrun hlast

theorem bucket_regulates_sample : [0, 0, 1000].Pairwise (fun a b : UInt64 => a ≤ b) ∧ Regulates 1 1 [0, 0, 1000] :=
  ⟨by decide, bucket_regulates 1 1 (by decide)⟩

end Kallisto.Server
