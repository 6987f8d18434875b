import Mathlib.Data.Int.CardIntervalMod

/-!
Round robin. How many of the first `n` turns fall to one of `c` places, and to one of `l` seats
of a place when its turns go round the seats in the same way.
-/
namespace Lib

theorem countP_range (p : Nat → Bool) (n : Nat) : (List.range n).countP p = n.count fun w => p w = true := by
  induction n with
  | zero => rfl
  | succ n ih => rw [List.range_succ, List.countP_append, ih, Nat.count_succ, List.countP_singleton]

/-- The turns of place `i` among the first `n`. -/
def turns (n c i : Nat) : Nat := (List.range n).countP fun w => w % c == i

theorem turns_eq (n : Nat) {c i : Nat} (h : i < c) : turns n c i = n / c + if i < n % c then 1 else 0 := by
  have hmod : (fun w => (w % c == i) = true) = fun w => w ≡ i [MOD c] := by
    funext w
    rw [beq_iff_eq, Nat.ModEq, Nat.mod_eq_of_lt h]
  have hcount := Nat.count_modEq_card n (Nat.zero_lt_of_lt h) i
  rw [Nat.mod_eq_of_lt h] at hcount
  rw [turns, countP_range, ← hcount]
  congr

/-- No place is two turns ahead of another. -/
theorem turns_le_succ (n : Nat) {c i j : Nat} (hi : i < c) (hj : j < c) : turns n c i ≤ turns n c j + 1 := by
  rw [turns_eq n hi, turns_eq n hj]
  split_ifs <;> omega

/-- When the last place takes its turn, every other place has had one more. -/
theorem turns_last {n c i : Nat} (hn : n % c = c - 1) (hi : i < c - 1) : turns n c (c - 1) < turns n c i := by
  rw [turns_eq n (by omega), turns_eq n (by omega), hn, if_pos hi, if_neg (lt_irrefl _)]
  exact Nat.lt_succ_self _

/-- Seat `s` of place `i` is one place of a longer round. -/
theorem seat_iff (w : Nat) {c l i s : Nat} (hi : i < c) :
    w % c = i ∧ w / c % l = s ↔ w % (c * l) = i + c * s := by
  rw [Nat.mod_mul]
  constructor
  · rintro ⟨rfl, rfl⟩
    rfl
  · intro h
    have hlow := congrArg (· % c) h
    simp only [Nat.add_mul_mod_self_left, Nat.mod_mod, Nat.mod_eq_of_lt hi] at hlow
    rw [hlow] at h
    exact ⟨hlow, Nat.eq_of_mul_eq_mul_left (Nat.zero_lt_of_lt hi) (Nat.add_left_cancel h)⟩

theorem seat_lt {c l i s : Nat} (hi : i < c) (hs : s < l) : i + c * s < c * l := by
  have hround : c * s + c ≤ c * l := Nat.mul_succ c s ▸ Nat.mul_le_mul_left c hs
  omega

end Lib
