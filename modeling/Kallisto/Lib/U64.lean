import Mathlib.Algebra.Ring.Nat
import Mathlib.Order.Lattice

/-!
Arithmetic on 64-bit words as a checked build runs it: an operation that would leave the range
has no result, a saturating one stops at the range's end.
-/
namespace Lib.U64

def checkedAdd (a b : UInt64) : Option UInt64 := if a.toNat + b.toNat < 2 ^ 64 then some (a + b) else none

def checkedSub (a b : UInt64) : Option UInt64 := if b ≤ a then some (a - b) else none

def checkedDiv (a b : UInt64) : Option UInt64 := if b = 0 then none else some (a / b)

def checkedRem (a b : UInt64) : Option UInt64 := if b = 0 then none else some (a % b)

def saturatingAdd (a b : UInt64) : UInt64 := .ofNat (min (a.toNat + b.toNat) (2 ^ 64 - 1))

def saturatingMul (a b : UInt64) : UInt64 := .ofNat (min (a.toNat * b.toNat) (2 ^ 64 - 1))

/-- `u64::div_ceil`: the quotient, and one more where something is left. -/
def divCeil (a b : UInt64) : Option UInt64 := do
  let quotient ← checkedDiv a b
  let rest ← checkedRem a b
  if rest > 0 then checkedAdd quotient 1 else return quotient

variable {a b : UInt64}

@[simp] theorem toNat_saturatingAdd : (saturatingAdd a b).toNat = min (a.toNat + b.toNat) (2 ^ 64 - 1) :=
  UInt64.toNat_ofNat_of_lt' (lt_of_le_of_lt (min_le_right _ _) (by decide))

@[simp] theorem toNat_saturatingMul : (saturatingMul a b).toNat = min (a.toNat * b.toNat) (2 ^ 64 - 1) :=
  UInt64.toNat_ofNat_of_lt' (lt_of_le_of_lt (min_le_right _ _) (by decide))

theorem toNat_max (a b : UInt64) : (max a b).toNat = max a.toNat b.toNat := by
  change (if a ≤ b then b else a).toNat = max a.toNat b.toNat
  split_ifs with h
  · rw [max_eq_right (UInt64.le_iff_toNat_le.mp h)]
  · rw [max_eq_left (le_of_not_ge fun hle => h (UInt64.le_iff_toNat_le.mpr hle))]

theorem toNat_min (a b : UInt64) : (min a b).toNat = min a.toNat b.toNat := by
  change (if a ≤ b then a else b).toNat = min a.toNat b.toNat
  split_ifs with h
  · rw [min_eq_left (UInt64.le_iff_toNat_le.mp h)]
  · rw [min_eq_right (le_of_not_ge fun hle => h (UInt64.le_iff_toNat_le.mpr hle))]

theorem checkedSub_of_le (h : b ≤ a) : checkedSub a b = some (a - b) ∧ (a - b).toNat = a.toNat - b.toNat :=
  ⟨if_pos h, UInt64.toNat_sub_of_le a b h⟩

theorem ceil_eq {n m : Nat} (h : 0 < m) : (n + m - 1) / m = n / m + if 0 < n % m then 1 else 0 := by
  have hsplit := Nat.div_add_mod n m
  have hmod := Nat.mod_lt n h
  have hsum : n + m - 1 = m * (n / m) + (n % m + m - 1) := by omega
  rw [hsum, Nat.mul_add_div h]
  congr 1
  split_ifs with hrest
  · exact Nat.div_eq_of_lt_le (by omega) (by omega)
  · exact Nat.div_eq_of_lt (by omega)

/-- Rounding up never leaves the range, since it only happens to a proper quotient. -/
theorem divCeil_of_pos (h : b ≠ 0) :
    ∃ c, divCeil a b = some c ∧ c.toNat = (a.toNat + b.toNat - 1) / b.toNat := by
  have hpos : 0 < b.toNat := by
    rw [Nat.pos_iff_ne_zero]
    exact fun hzero => h (UInt64.toNat_inj.mp hzero)
  have hmod := Nat.mod_lt a.toNat hpos
  have hrest : a % b > 0 ↔ 0 < a.toNat % b.toNat := by
    rw [← UInt64.toNat_mod]
    exact UInt64.lt_iff_toNat_lt
  simp only [divCeil, checkedDiv, checkedRem, if_neg h, Option.bind_eq_bind, Option.bind_some]
  rw [ceil_eq hpos]
  by_cases hr : 0 < a.toNat % b.toNat
  · have hhalf : a.toNat / b.toNat ≤ a.toNat / 2 := Nat.div_le_div_left (by omega) (by decide)
    have hlt := a.toNat_lt
    have hfits : a.toNat / b.toNat + 1 < 2 ^ 64 := by omega
    refine ⟨a / b + 1, ?_, ?_⟩
    · rw [if_pos (hrest.mpr hr), checkedAdd, UInt64.toNat_div]
      exact if_pos hfits
    · rw [if_pos hr, UInt64.toNat_add, UInt64.toNat_div]
      exact Nat.mod_eq_of_lt hfits
  · refine ⟨a / b, ?_, ?_⟩
    · rw [if_neg (mt hrest.mp hr)]
      rfl
    · rw [if_neg hr, UInt64.toNat_div, Nat.add_zero]

end Lib.U64
