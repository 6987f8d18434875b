import Kallisto.Lib.Text
import Mathlib.Tactic.Ring

/-!
The token bucket each worker owns. Amounts are 64-bit and saturate; a permit is a million
units, so that slow rates refill smoothly.
-/
namespace Kallisto.Server

def U64_MAX : Nat := 2 ^ 64 - 1
def ONE_PERMIT : Nat := 1000000

def satMul (a b : Nat) : Nat := min (a * b) U64_MAX
def satAdd (a b : Nat) : Nat := min (a + b) U64_MAX
def divCeil (a b : Nat) : Nat := (a + b - 1) / b

structure RateLimiter where
  capacity : Nat
  perMillisecond : Nat
  permits : Nat
  lastRefillMs : Nat
  deriving DecidableEq, Repr

def RateLimiter.new (perSecond burst : Nat) : RateLimiter :=
  let capacity := satMul (max burst 1) ONE_PERMIT
  { capacity
    perMillisecond := satMul (max perSecond 1) ONE_PERMIT / 1000
    permits := capacity
    lastRefillMs := 0 }

def RateLimiter.refill (l : RateLimiter) (nowMs : Nat) : RateLimiter :=
  if nowMs > l.lastRefillMs then
    { l with
      lastRefillMs := nowMs
      permits := min (satAdd l.permits (satMul (nowMs - l.lastRefillMs) l.perMillisecond)) l.capacity }
  else l

/-- The error is the number of seconds to wait. -/
def RateLimiter.tryAcquireAt (l : RateLimiter) (nowMs : Nat) : RateLimiter × Except Nat Unit :=
  let l := l.refill nowMs
  if l.permits ≥ ONE_PERMIT then ({ l with permits := l.permits - ONE_PERMIT }, .ok ())
  else
    let missing := ONE_PERMIT - l.permits
    let waitMs := divCeil missing (max l.perMillisecond 1)
    (l, .error (max (divCeil waitMs 1000) 1))

namespace RateLimiter
variable {l : RateLimiter}

theorem tryAcquireAt_ok {nowMs : Nat} (h : (l.tryAcquireAt nowMs).2 = .ok ()) :
    ONE_PERMIT ≤ (l.refill nowMs).permits ∧
      (l.tryAcquireAt nowMs).1 = { l.refill nowMs with permits := (l.refill nowMs).permits - ONE_PERMIT } := by
  unfold tryAcquireAt at h ⊢
  dsimp only at h ⊢
  split_ifs at h ⊢ with hp
  · exact ⟨hp, rfl⟩

theorem tryAcquireAt_error {nowMs wait : Nat} (h : (l.tryAcquireAt nowMs).2 = .error wait) :
    (l.tryAcquireAt nowMs).1 = l.refill nowMs := by
  unfold tryAcquireAt at h ⊢
  dsimp only at h ⊢
  split_ifs at h ⊢
  rfl

/-- A permit that was taken shows: either the amount or the time stamp has moved. -/
theorem tryAcquireAt_ok_ne {nowMs : Nat} (h : (l.tryAcquireAt nowMs).2 = .ok ()) :
    (l.tryAcquireAt nowMs).1 ≠ l := by
  obtain ⟨hp, heq⟩ := tryAcquireAt_ok h
  rw [heq]
  unfold refill at hp ⊢
  split_ifs at hp ⊢ with hlt
  · intro hsame
    have ht := congrArg lastRefillMs hsame
    simp only at ht
    omega
  · intro hsame
    have hc := congrArg permits hsame
    simp only [ONE_PERMIT] at hp hc
    omega

/-- Never more than the burst in hand. -/
def Bounded (perSecond burst : Nat) (l : RateLimiter) : Prop :=
  l.permits ≤ l.capacity ∧ l.capacity ≤ max burst 1 * ONE_PERMIT ∧
    l.perMillisecond * 1000 ≤ max perSecond 1 * ONE_PERMIT

theorem new_bounded (perSecond burst : Nat) : Bounded perSecond burst (new perSecond burst) := by
  refine ⟨le_refl _, min_le_left _ _, ?_⟩
  calc satMul (max perSecond 1) ONE_PERMIT / 1000 * 1000
      ≤ satMul (max perSecond 1) ONE_PERMIT := Nat.div_mul_le_self _ _
    _ ≤ max perSecond 1 * ONE_PERMIT := min_le_left _ _

theorem refill_capacity (l : RateLimiter) (nowMs : Nat) :
    (l.refill nowMs).capacity = l.capacity ∧ (l.refill nowMs).perMillisecond = l.perMillisecond := by
  unfold refill
  split_ifs <;> exact ⟨rfl, rfl⟩

/-- The limiter after a call, whatever it answered. -/
theorem tryAcquireAt_cases (l : RateLimiter) (nowMs : Nat) :
    ((l.tryAcquireAt nowMs).2 = .ok () ∧ ONE_PERMIT ≤ (l.refill nowMs).permits ∧
      (l.tryAcquireAt nowMs).1 = { l.refill nowMs with permits := (l.refill nowMs).permits - ONE_PERMIT }) ∨
    ((l.tryAcquireAt nowMs).2 ≠ .ok () ∧ (l.tryAcquireAt nowMs).1 = l.refill nowMs) := by
  cases h : (l.tryAcquireAt nowMs).2 with
  | ok u => exact .inl ⟨rfl, tryAcquireAt_ok h⟩
  | error wait => exact .inr ⟨by simp, tryAcquireAt_error h⟩

/-- What can still be acquired until `lo + len`: what is in hand, plus what will flow in. -/
def credit (lo len : Nat) (l : RateLimiter) : Nat :=
  if l.lastRefillMs < lo then l.capacity + l.perMillisecond * len
  else l.permits + l.perMillisecond * (lo + len - l.lastRefillMs)

theorem credit_refill {lo len nowMs : Nat} (hb : l.permits ≤ l.capacity) (hlo : lo ≤ nowMs)
    (hhi : nowMs ≤ lo + len) :
    (l.refill nowMs).permits ≤ l.capacity ∧ lo ≤ (l.refill nowMs).lastRefillMs ∧
      (l.refill nowMs).permits + l.perMillisecond * (lo + len - (l.refill nowMs).lastRefillMs) ≤
        credit lo len l := by
  unfold refill credit
  by_cases hlt : nowMs > l.lastRefillMs
  · rw [if_pos hlt]
    dsimp only
    have hmin : min (satAdd l.permits (satMul (nowMs - l.lastRefillMs) l.perMillisecond)) l.capacity ≤
        l.permits + l.perMillisecond * (nowMs - l.lastRefillMs) := by
      have hflow : satMul (nowMs - l.lastRefillMs) l.perMillisecond ≤
          l.perMillisecond * (nowMs - l.lastRefillMs) := by
        rw [Nat.mul_comm]
        exact min_le_left _ _
      calc _ ≤ satAdd l.permits (satMul (nowMs - l.lastRefillMs) l.perMillisecond) := min_le_left _ _
        _ ≤ l.permits + satMul (nowMs - l.lastRefillMs) l.perMillisecond := min_le_left _ _
        _ ≤ _ := Nat.add_le_add_left hflow _
    refine ⟨min_le_right _ _, hlo, ?_⟩
    split_ifs with hold
    · exact Nat.add_le_add (min_le_right _ _) (Nat.mul_le_mul_left _ (by omega))
    · calc _ ≤ l.permits + l.perMillisecond * (nowMs - l.lastRefillMs) +
            l.perMillisecond * (lo + len - nowMs) := Nat.add_le_add_right hmin _
        _ = l.permits + l.perMillisecond * (lo + len - l.lastRefillMs) := by
            rw [Nat.add_assoc, ← Nat.mul_add]
            congr 2
            omega
  · rw [if_neg hlt]
    have hge : ¬ l.lastRefillMs < lo := by omega
    rw [if_neg hge]
    exact ⟨hb, by omega, le_refl _⟩

/-- One call inside the window spends its permit out of the credit. -/
theorem credit_step {lo len nowMs : Nat} (hb : l.permits ≤ l.capacity) (hlo : lo ≤ nowMs)
    (hhi : nowMs ≤ lo + len) :
    (if (l.tryAcquireAt nowMs).2 = .ok () then ONE_PERMIT else 0) + credit lo len (l.tryAcquireAt nowMs).1 ≤
      credit lo len l := by
  obtain ⟨hcap, hlast, hcredit⟩ := credit_refill hb hlo hhi
  have hper := (refill_capacity l nowMs).2
  rcases tryAcquireAt_cases l nowMs with ⟨hok, hp, heq⟩ | ⟨hno, heq⟩
  · rw [if_pos hok, heq, credit, if_neg (by simpa using hlast)]
    simp only [hper]
    omega
  · rw [if_neg hno, heq, credit, if_neg (by simpa using hlast), hper]
    omega

theorem bounded_step {perSecond burst : Nat} (h : Bounded perSecond burst l) (nowMs : Nat) :
    Bounded perSecond burst (l.tryAcquireAt nowMs).1 := by
  have hp : (l.refill nowMs).permits ≤ l.capacity := by
    unfold refill
    split_ifs
    · exact min_le_right _ _
    · exact h.1
  obtain ⟨hcap, hper⟩ := refill_capacity l nowMs
  rcases tryAcquireAt_cases l nowMs with ⟨-, -, heq⟩ | ⟨-, heq⟩
  · rw [heq]
    refine ⟨?_, hcap ▸ h.2.1, hper ▸ h.2.2⟩
    simp only [hcap]
    omega
  · rw [heq]
    exact ⟨hcap.symm ▸ hp, hcap ▸ h.2.1, hper ▸ h.2.2⟩

theorem credit_le {perSecond burst lo len : Nat} (h : Bounded perSecond burst l) :
    credit lo len l ≤ l.capacity + l.perMillisecond * len := by
  unfold credit
  split_ifs with hlt
  · exact le_refl _
  · exact Nat.add_le_add h.1 (Nat.mul_le_mul_left _ (by omega))

/-- Permits paid out of the credit: the burst, and the rate times the window's length. -/
theorem count_of_credit {perSecond burst lo len n : Nat} (h : Bounded perSecond burst l)
    (hn : n * ONE_PERMIT ≤ credit lo len l) : n * 1000 ≤ max burst 1 * 1000 + max perSecond 1 * len := by
  have hcredit := hn.trans (credit_le h)
  obtain ⟨-, hcapacity, hrate⟩ := h
  have hscaled : ONE_PERMIT * (n * 1000) ≤ ONE_PERMIT * (max burst 1 * 1000 + max perSecond 1 * len) := by
    calc ONE_PERMIT * (n * 1000) = n * ONE_PERMIT * 1000 := by ring
      _ ≤ (l.capacity + l.perMillisecond * len) * 1000 := Nat.mul_le_mul_right _ hcredit
      _ = l.capacity * 1000 + l.perMillisecond * 1000 * len := by ring
      _ ≤ max burst 1 * ONE_PERMIT * 1000 + max perSecond 1 * ONE_PERMIT * len :=
          Nat.add_le_add (Nat.mul_le_mul_right _ hcapacity) (Nat.mul_le_mul_right _ hrate)
      _ = ONE_PERMIT * (max burst 1 * 1000 + max perSecond 1 * len) := by ring
  exact Nat.le_of_mul_le_mul_left hscaled (by decide)

end RateLimiter

end Kallisto.Server
