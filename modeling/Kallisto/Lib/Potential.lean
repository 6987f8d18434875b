import Kallisto.Lib.Runs
import Mathlib.Algebra.Order.BigOperators.Group.Finset
import Mathlib.Algebra.Order.Ring.Nat

/-!
The potential method for runs of a step function: a step that does not draw on a credit
lowers the potential, so a stretch of steps is as long as its credits allow.
-/
namespace Lib
variable {σ ι ε : Type*}

/-- The credits of a stretch, one for each step. -/
def credits (credit : ι → ε → Nat) (is : List ι) (es : List ε) : Nat := (List.zipWith credit is es).sum

theorem run_amortized {step : σ → ι → σ × ε} {P : σ → Prop} (potential : σ → Nat) (credit : ι → ε → Nat)
    (preserve : ∀ s i, P s → P (step s i).1)
    (pay : ∀ s i, P s → potential (step s i).1 + 1 ≤ potential s + credit i (step s i).2) {s : σ} (hs : P s)
    (is : List ι) :
    potential (run step s is).1 + is.length ≤ potential s + credits credit is (run step s is).2 := by
  induction is generalizing s with
  | nil => simp [credits]
  | cons i is ih =>
      have hpay := pay s i hs
      have hrest := ih (preserve s i hs)
      simp only [run, credits, List.zipWith_cons_cons, List.sum_cons, List.length_cons] at hrest ⊢
      omega

theorem run_length (step : σ → ι → σ × ε) (s : σ) (is : List ι) : (run step s is).2.length = is.length := by
  induction is generalizing s with
  | nil => rfl
  | cons i is ih => simp only [run, List.length_cons, ih]

/-- Two kinds of credit, one for a choice of the environment and one for an event. -/
theorem credits_count (p : ι → Bool) (q : ε → Bool) (a b : Nat) {is : List ι} {es : List ε}
    (hlen : es.length = is.length) :
    credits (fun i e => (if p i then a else 0) + if q e then b else 0) is es =
      a * is.countP p + b * es.countP q := by
  induction is generalizing es with
  | nil =>
      rw [List.length_nil, List.length_eq_zero_iff] at hlen
      subst hlen
      rfl
  | cons i is ih =>
      cases es with
      | nil => cases hlen
      | cons e es =>
          have hrest := ih (Nat.succ.inj hlen)
          simp only [credits, List.zipWith_cons_cons, List.sum_cons, List.countP_cons, Nat.mul_add] at hrest ⊢
          rw [hrest]
          split_ifs <;> omega

/-- One summand moves freely and each other grows by at most `other`. -/
theorem sum_le_of_step {n : Nat} {f g : Fin n → Nat} {t : Fin n} {other : Nat}
    (h : ∀ u, u ≠ t → g u ≤ f u + other) :
    (∑ u, g u) + f t + other ≤ (∑ u, f u) + g t + n * other := by
  have hf := Finset.add_sum_erase Finset.univ f (Finset.mem_univ t)
  have hg := Finset.add_sum_erase Finset.univ g (Finset.mem_univ t)
  have hle : ∑ u ∈ Finset.univ.erase t, g u ≤ ∑ u ∈ Finset.univ.erase t, (f u + other) := by
    apply Finset.sum_le_sum
    intro u hu
    exact h u (Finset.ne_of_mem_erase hu)
  have hcard : (Finset.univ.erase t).card + 1 = n := by
    rw [Finset.card_erase_add_one (Finset.mem_univ t), Finset.card_univ, Fintype.card_fin]
  have hother : n * other = (Finset.univ.erase t).card * other + other := by
    rw [← Nat.succ_mul, Nat.succ_eq_add_one, hcard]
  rw [Finset.sum_add_distrib, Finset.sum_const_nat fun _ _ => rfl] at hle
  omega

end Lib
