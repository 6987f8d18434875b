import Mathlib.Order.Monotone.Basic
import Mathlib.Algebra.Order.Ring.Int
import Mathlib.Data.Int.ConditionallyCompleteOrder
import Mathlib.Order.SuccPred.IntervalSucc

/-!
The proleptic Gregorian calendar. Years and months are laid end to end on the line of days;
a day lies in exactly one year and one month, so its number and its date determine each other.
-/
namespace Lib

/-- Consecutive spans, the `i`th from `f i` to `f (i + 1)`, do not overlap. -/
theorem span_unique {f : Int → Int} (mono : Monotone f) {i j x : Int} (hi : f i ≤ x) (hi' : x < f (i + 1))
    (hj : f j ≤ x) (hj' : x < f (j + 1)) : i = j := by
  have aux : ∀ {a b : Int}, f a ≤ x → x < f (b + 1) → a ≤ b := by
    intro a b ha hb
    by_contra hlt
    exact absurd (lt_of_lt_of_le hb (mono (by omega : b + 1 ≤ a))) (not_lt.mpr ha)
  exact le_antisymm (aux hi hj') (aux hj hi')

/-- Consecutive spans leave no gap. -/
theorem exists_span {f : Nat → Nat} {n x : Nat} (h0 : f 0 ≤ x) (hn : x < f n) :
    ∃ i < n, f i ≤ x ∧ x < f (i + 1) := by
  induction n with
  | zero => exact absurd h0 (not_le.mpr hn)
  | succ n ih =>
      by_cases h : x < f n
      · obtain ⟨i, hi, hx⟩ := ih h
        exact ⟨i, Nat.lt_succ_of_lt hi, hx⟩
      · exact ⟨n, Nat.lt_succ_self n, not_lt.mp h, hn⟩

structure Date where
  year : Int
  month : Int
  day : Int
  deriving DecidableEq, Repr

def IsLeap (y : Int) : Prop := y % 4 = 0 ∧ (y % 100 ≠ 0 ∨ y % 400 = 0)

instance (y : Int) : Decidable (IsLeap y) := inferInstanceAs (Decidable (_ ∧ _))

def yearLength (y : Int) : Int := if IsLeap y then 366 else 365

def monthLength (y m : Int) : Int :=
  if m = 2 then if IsLeap y then 29 else 28
  else if m = 4 ∨ m = 6 ∨ m = 9 ∨ m = 11 then 30
  else 31

structure Date.Valid (d : Date) : Prop where
  month_pos : 1 ≤ d.month
  month_le : d.month ≤ 12
  day_pos : 1 ≤ d.day
  day_le : d.day ≤ monthLength d.year d.month

instance (d : Date) : Decidable d.Valid :=
  decidable_of_iff (1 ≤ d.month ∧ d.month ≤ 12 ∧ 1 ≤ d.day ∧ d.day ≤ monthLength d.year d.month)
    ⟨fun h => ⟨h.1, h.2.1, h.2.2.1, h.2.2.2⟩, fun h => ⟨h.1, h.2, h.3, h.4⟩⟩

/-- The day after, as the calendar names it. -/
def Date.tomorrow (d : Date) : Date :=
  if d.day < monthLength d.year d.month then { d with day := d.day + 1 }
  else if d.month < 12 then { d with month := d.month + 1, day := 1 }
  else { year := d.year + 1, month := 1, day := 1 }

/-- Days from the first of January of year 1 to that of year `y`. -/
def daysBeforeYear (y : Int) : Int := 365 * (y - 1) + (y - 1) / 4 - (y - 1) / 100 + (y - 1) / 400

/-- Days of year `y` before its month `m`. -/
def daysBeforeMonth (y m : Int) : Int :=
  ((List.range (m - 1).toNat).map fun i : Nat => monthLength y (i + 1)).sum

/-- Days from 1970-01-01, negative before it. -/
def Date.number (d : Date) : Int :=
  daysBeforeYear d.year - daysBeforeYear 1970 + daysBeforeMonth d.year d.month + (d.day - 1)

def Date.epoch : Date := ⟨1970, 1, 1⟩

theorem daysBeforeYear_succ (y : Int) : daysBeforeYear (y + 1) = daysBeforeYear y + yearLength y := by
  unfold daysBeforeYear yearLength IsLeap
  split_ifs with h <;> omega

theorem monthLength_pos (y m : Int) : 0 < monthLength y m := by
  unfold monthLength
  split_ifs <;> decide

theorem monthLength_le (y m : Int) : monthLength y m ≤ 31 := by
  unfold monthLength
  split_ifs <;> decide

theorem daysBeforeMonth_succ (y : Int) {m : Int} (h : 1 ≤ m) :
    daysBeforeMonth y (m + 1) = daysBeforeMonth y m + monthLength y m := by
  have hm : (m + 1 - 1).toNat = (m - 1).toNat + 1 := by omega
  have hlast : ((m - 1).toNat : Int) + 1 = m := by omega
  rw [daysBeforeMonth, hm, List.range_succ, List.map_append, List.sum_append, List.map_singleton,
    List.sum_singleton, hlast, daysBeforeMonth]

theorem daysBeforeMonth_one (y : Int) : daysBeforeMonth y 1 = 0 := rfl

theorem daysBeforeMonth_end (y : Int) : daysBeforeMonth y 13 = yearLength y := by
  simp only [daysBeforeMonth, yearLength, monthLength]
  split_ifs <;> decide

theorem daysBeforeYear_mono : Monotone daysBeforeYear :=
  monotone_int_of_le_succ fun y => by
    rw [daysBeforeYear_succ, yearLength]
    split_ifs <;> omega

theorem daysBeforeMonth_mono (y : Int) : Monotone (daysBeforeMonth y) :=
  monotone_int_of_le_succ fun m => by
    by_cases h : 1 ≤ m
    · rw [daysBeforeMonth_succ y h]
      have := monthLength_pos y m
      omega
    · have hm : (m + 1 - 1).toNat = 0 ∧ (m - 1).toNat = 0 := by omega
      rw [daysBeforeMonth, daysBeforeMonth, hm.1, hm.2]

section Number
variable {d e : Date}

/-- A day falls in its month. -/
theorem Date.Valid.month_span (h : d.Valid) :
    daysBeforeMonth d.year d.month ≤ daysBeforeMonth d.year d.month + (d.day - 1) ∧
      daysBeforeMonth d.year d.month + (d.day - 1) < daysBeforeMonth d.year (d.month + 1) := by
  have := h.day_pos
  have := h.day_le
  rw [daysBeforeMonth_succ _ h.month_pos]
  omega

/-- A day falls in its year. -/
theorem Date.Valid.year_span (h : d.Valid) :
    daysBeforeYear d.year ≤ d.number + daysBeforeYear 1970 ∧
      d.number + daysBeforeYear 1970 < daysBeforeYear (d.year + 1) := by
  have hspan := h.month_span
  have hfirst := daysBeforeMonth_mono d.year h.month_pos
  have hlast := daysBeforeMonth_mono d.year (by have := h.month_le; omega : d.month + 1 ≤ 13)
  rw [daysBeforeMonth_one] at hfirst
  rw [daysBeforeMonth_end] at hlast
  rw [daysBeforeYear_succ, Date.number]
  omega

theorem Date.Valid.year_ge (h : d.Valid) (hn : 0 ≤ d.number) : 1970 ≤ d.year := by
  have hspan := h.year_span.2
  by_contra hlt
  have := daysBeforeYear_mono (by omega : d.year + 1 ≤ 1970)
  omega

/-- No two dates share a number. -/
theorem Date.number_injective (hd : d.Valid) (he : e.Valid) (h : d.number = e.number) : d = e := by
  obtain ⟨dy, dm, dd⟩ := d
  obtain ⟨ey, em, ed⟩ := e
  have hyear := he.year_span
  rw [← h] at hyear
  obtain rfl : dy = ey := span_unique daysBeforeYear_mono hd.year_span.1 hd.year_span.2 hyear.1 hyear.2
  have hin : daysBeforeMonth dy dm + (dd - 1) = daysBeforeMonth dy em + (ed - 1) := by
    simp only [Date.number] at h
    omega
  have hmonth := he.month_span
  simp only [← hin] at hmonth
  obtain rfl : dm = em :=
    span_unique (daysBeforeMonth_mono dy) hd.month_span.1 hd.month_span.2 hmonth.1 hmonth.2
  obtain rfl : dd = ed := by omega
  rfl

theorem Date.number_epoch : Date.epoch.number = 0 := by decide

theorem Date.epoch_valid : Date.epoch.Valid := ⟨by decide, by decide, by decide, by decide⟩

theorem Date.tomorrow_valid (h : d.Valid) : d.tomorrow.Valid := by
  have hday := h.day_pos
  have hmonth := h.month_pos
  have hpos := monthLength_pos
  unfold Date.tomorrow
  split_ifs with hlt hm
  · exact ⟨hmonth, h.month_le, by simp only; omega, by simp only; omega⟩
  · exact ⟨by simp only; omega, by simp only; omega, le_rfl, hpos _ _⟩
  · exact ⟨le_rfl, (by decide : (1 : Int) ≤ 12), le_rfl, hpos _ _⟩

/-- The number counts days one by one. -/
theorem Date.number_tomorrow (h : d.Valid) : d.tomorrow.number = d.number + 1 := by
  unfold Date.tomorrow
  split_ifs with hlt hm
  · simp only [Date.number]
    omega
  · have hday : d.day = monthLength d.year d.month := le_antisymm h.day_le (not_lt.mp hlt)
    simp only [Date.number, daysBeforeMonth_succ _ h.month_pos, hday]
    omega
  · have hday : d.day = monthLength d.year d.month := le_antisymm h.day_le (not_lt.mp hlt)
    have hdec : d.month = 12 := le_antisymm h.month_le (not_lt.mp hm)
    have hyear := daysBeforeMonth_succ d.year h.month_pos
    rw [hdec, show (12 : Int) + 1 = 13 from rfl, daysBeforeMonth_end] at hyear
    simp only [Date.number, daysBeforeYear_succ, daysBeforeMonth_one, hday, hdec]
    omega

/-- The date with number `n` is the one `n` days after 1970-01-01. -/
theorem Date.tomorrow_iterate (n : Nat) :
    (Date.tomorrow^[n] Date.epoch).Valid ∧ (Date.tomorrow^[n] Date.epoch).number = n := by
  induction n with
  | zero => exact ⟨Date.epoch_valid, Date.number_epoch⟩
  | succ n ih =>
      rw [Function.iterate_succ_apply']
      refine ⟨Date.tomorrow_valid ih.1, ?_⟩
      rw [Date.number_tomorrow ih.1, ih.2, Int.natCast_succ]

end Number

end Lib
