import Kallisto.Server.TimeFormat
import Kallisto.Lib.Calendar
import Mathlib.Tactic.IntervalCases

/-!
The calendar arithmetic is exact. The source counts years from March, so that the leap day
comes last, and years within an era of four hundred; here its numbers are shown to stay inside
their words and to name the date whose day number they came from.
-/
namespace Kallisto.Server
open Lib

/-- An `i64`, or `none` where the operation overflows. -/
def i64 (n : Int) : Option Int := if -(2 ^ 63) ≤ n ∧ n < 2 ^ 63 then some n else none

/-- A cast `as u32`, or `none` where it loses something. -/
def castU32 (n : Int) : Option UInt32 := if 0 ≤ n ∧ n < 2 ^ 32 then some (UInt32.ofInt n) else none

def addU32 (a b : UInt32) : Option UInt32 := if a.toNat + b.toNat < 2 ^ 32 then some (a + b) else none
def subU32 (a b : UInt32) : Option UInt32 := if b.toNat ≤ a.toNat then some (a - b) else none
def mulU32 (a b : UInt32) : Option UInt32 := if a.toNat * b.toNat < 2 ^ 32 then some (a * b) else none

/-- `civilFromEpochSecs` with every sum, difference, product and cast checked. -/
def civilFromEpochSecsChecked (totalSecs : UInt64) : Option CivilTime := do
  let days := totalSecs / 86400
  let remSecs := totalSecs % 86400
  let z ← i64 ((← i64 days.toNat) + 719468)
  let shifted ← if z ≥ 0 then some z else i64 (z - 146096)
  let era ← i64 (shifted.tdiv 146097)
  let doe ← castU32 (← i64 (z - (← i64 (era * 146097))))
  let yoe := (← subU32 (← addU32 (← subU32 doe (doe / 1460)) (doe / 36524)) (doe / 146096)) / 365
  let y ← i64 (yoe.toNat + (← i64 (era * 400)))
  let doy ← subU32 doe (← subU32 (← addU32 (← mulU32 365 yoe) (yoe / 4)) (yoe / 100))
  let mp := (← addU32 (← mulU32 5 doy) 2) / 153
  let d ← addU32 (← subU32 doy ((← addU32 (← mulU32 153 mp) 2) / 5)) 1
  let month ← i64 (mp.toNat + (if mp < 10 then 3 else -9))
  let year ← i64 (y + (if month ≤ 2 then 1 else 0))
  return {
    year
    month
    day := d
    hour := remSecs / 3600
    minute := (remSecs % 3600) / 60
    second := remSecs % 60 }

def CivilTime.date (t : CivilTime) : Date := ⟨t.year, t.month, t.day.toNat⟩

structure CivilTime.Valid (t : CivilTime) : Prop where
  date : t.date.Valid
  hour : t.hour.toNat < 24
  minute : t.minute.toNat < 60
  second : t.second.toNat < 60

/-- Seconds from 1970-01-01T00:00:00Z. -/
def CivilTime.epochSecs (t : CivilTime) : Int :=
  t.date.number * 86400 + (t.hour.toNat * 3600 + t.minute.toNat * 60 + t.second.toNat : Nat)

/-- The day of its era on which the March year `y` starts. -/
def eraDay (y : Nat) : Nat := 365 * y + y / 4 - y / 100 + y / 400

/-- The March year of an era that holds day `doe`. -/
def yearOfEra (doe : Nat) : Nat := (doe - doe / 1460 + doe / 36524 - doe / 146096) / 365

theorem yearOfEra_mono {a b : Nat} (hab : a ≤ b) (hb : b < 146097) : yearOfEra a ≤ yearOfEra b := by
  apply Nat.div_le_div_right
  omega

theorem yearOfEra_ends : ∀ y < 400, yearOfEra (eraDay y) = y ∧ yearOfEra (eraDay (y + 1) - 1) = y := by
  decide +kernel

/-- The source's formula finds the year: it is monotone, and right at both ends of each. -/
theorem yearOfEra_span {doe : Nat} (h : doe < 146097) :
    yearOfEra doe < 400 ∧ eraDay (yearOfEra doe) ≤ doe ∧ doe < eraDay (yearOfEra doe + 1) := by
  obtain ⟨y, hy, hle, hlt⟩ := exists_span (f := eraDay) (n := 400) (x := doe) (Nat.zero_le _) h
  have hlast : eraDay (y + 1) ≤ 146097 := by
    unfold eraDay
    omega
  have hfirst := yearOfEra_mono hle h
  have hend := yearOfEra_mono (Nat.le_sub_one_of_lt hlt) (by omega)
  rw [(yearOfEra_ends y hy).1] at hfirst
  rw [(yearOfEra_ends y hy).2] at hend
  obtain rfl : yearOfEra doe = y := le_antisymm hend hfirst
  exact ⟨hy, hle, hlt⟩

/-- A March year starts where the sum of the years before it ends. -/
theorem daysBeforeYear_era (era : Int) {yoe : Nat} (h : yoe < 400) :
    daysBeforeYear (yoe + era * 400 + 1) = era * 146097 + eraDay yoe := by
  unfold daysBeforeYear eraDay
  omega

theorem eraDay_succ (era : Int) {yoe : Nat} (h : yoe < 400) :
    (eraDay (yoe + 1) : Int) = eraDay yoe + yearLength (yoe + era * 400 + 1) := by
  unfold eraDay yearLength IsLeap
  split_ifs with hleap <;> omega

theorem daysBeforeMonth_march (y : Int) {k : Nat} (h : k < 10) :
    daysBeforeMonth y (k + 3) = yearLength y - 306 + ((153 * k + 2) / 5 : Nat) := by
  simp only [daysBeforeMonth, yearLength, monthLength]
  interval_cases k <;> split_ifs <;> rfl

/-- Month and day of the month from the day of a March year: months of 31, 30, 31, 30 and 31
days repeat, and 153 is their sum. -/
theorem march_day {doy : Nat} (h : doy < 366) :
    (5 * doy + 2) / 153 < 12 ∧ (153 * ((5 * doy + 2) / 153) + 2) / 5 ≤ doy ∧
      doy < (153 * ((5 * doy + 2) / 153 + 1) + 2) / 5 := by
  omega

theorem monthLength_march (y : Int) {k : Nat} (h : k < 10) :
    monthLength y (k + 3) = ((153 * (k + 1) + 2) / 5 : Nat) - ((153 * k + 2) / 5 : Nat) := by
  simp only [monthLength]
  interval_cases k <;> rfl

theorem monthLength_feb (y : Int) : monthLength y 2 = yearLength y - 337 := by
  simp only [monthLength, yearLength, if_true]
  split_ifs <;> rfl

/-- The date named by a day of a March year has that day's number. -/
theorem march_date (era : Int) {yoe doy : Nat} (hyoe : yoe < 400)
    (hdoy : eraDay yoe + doy < eraDay (yoe + 1)) :
    let mp := (5 * doy + 2) / 153
    let month : Int := mp + if mp < 10 then 3 else -9
    let date : Date :=
      ⟨yoe + era * 400 + (if month ≤ 2 then 1 else 0), month, (doy - (153 * mp + 2) / 5 + 1 : Nat)⟩
    date.Valid ∧ date.number = era * 146097 + eraDay yoe + doy - 719468 := by
  have hlen := eraDay_succ era hyoe
  have hstart := daysBeforeYear_era era hyoe
  have h1970 : daysBeforeYear 1970 = 719162 := by decide
  have hyear : doy < 366 := by
    have : yearLength (yoe + era * 400 + 1) ≤ 366 := by
      unfold yearLength
      split_ifs <;> decide
    omega
  obtain ⟨hmp, hle, hlt⟩ := march_day hyear
  intro mp month date
  change mp < 12 at hmp
  change (153 * mp + 2) / 5 ≤ doy at hle
  change doy < (153 * (mp + 1) + 2) / 5 at hlt
  by_cases hm : mp < 10
  · have hmonth : month = mp + 3 := by
      simp only [month, if_pos hm]
    have hdate : date = ⟨yoe + era * 400, mp + 3, (doy - (153 * mp + 2) / 5 + 1 : Nat)⟩ := by
      simp only [date, hmonth, if_neg (by omega : ¬ (mp : Int) + 3 ≤ 2), Int.add_zero]
    have hprev := daysBeforeYear_succ (yoe + era * 400)
    rw [hdate]
    refine ⟨⟨by simp only; omega, by simp only; omega, by simp only; omega, ?_⟩, ?_⟩
    · simp only [monthLength_march _ hm]
      omega
    · simp only [Date.number, daysBeforeMonth_march _ hm, h1970]
      omega
  · have hmonth : month = mp - 9 := by
      simp only [month, if_neg hm]
      rfl
    have hdate : date = ⟨yoe + era * 400 + 1, mp - 9, (doy - (153 * mp + 2) / 5 + 1 : Nat)⟩ := by
      simp only [date, hmonth, if_pos (by omega : (mp : Int) - 9 ≤ 2)]
    rw [hdate]
    obtain h10 | h11 : mp = 10 ∨ mp = 11 := by omega
    · have hjan : (mp : Int) - 9 = 1 := by omega
      have hlen1 : monthLength (yoe + era * 400 + 1) 1 = 31 := rfl
      rw [hjan]
      refine ⟨⟨le_rfl, (by decide : (1 : Int) ≤ 12), by simp only; omega, ?_⟩, ?_⟩
      · simp only [hlen1]
        omega
      · simp only [Date.number, daysBeforeMonth_one, hstart, h1970]
        omega
    · have hfeb : (mp : Int) - 9 = 2 := by omega
      have hbefore2 : daysBeforeMonth (yoe + era * 400 + 1) 2 = 31 := rfl
      rw [hfeb]
      refine ⟨⟨(by decide : (1 : Int) ≤ 2), (by decide : (2 : Int) ≤ 12), by simp only; omega, ?_⟩, ?_⟩
      · simp only [monthLength_feb]
        omega
      · simp only [Date.number, hbefore2, hstart, h1970]
        omega

theorem i64_of {n : Int} (h : -(2 ^ 63) ≤ n) (h' : n < 2 ^ 63) : i64 n = some n := if_pos ⟨h, h'⟩

theorem addU32_of {a b : UInt32} (h : a.toNat + b.toNat < 2 ^ 32) :
    addU32 a b = some (a + b) ∧ (a + b).toNat = a.toNat + b.toNat :=
  ⟨if_pos h, by rw [UInt32.toNat_add, Nat.mod_eq_of_lt h]⟩

theorem subU32_of {a b : UInt32} (h : b.toNat ≤ a.toNat) :
    subU32 a b = some (a - b) ∧ (a - b).toNat = a.toNat - b.toNat :=
  ⟨if_pos h, UInt32.toNat_sub_of_le a b (UInt32.le_iff_toNat_le.mpr h)⟩

theorem mulU32_of {a b : UInt32} (h : a.toNat * b.toNat < 2 ^ 32) :
    mulU32 a b = some (a * b) ∧ (a * b).toNat = a.toNat * b.toNat :=
  ⟨if_pos h, by rw [UInt32.toNat_mul, Nat.mod_eq_of_lt h]⟩

/-- The year of the era, in words. -/
theorem yoe_words {doe : UInt32} (h : doe.toNat < 146097) :
    subU32 doe (doe / 1460) = some (doe - doe / 1460) ∧
      addU32 (doe - doe / 1460) (doe / 36524) = some (doe - doe / 1460 + doe / 36524) ∧
      subU32 (doe - doe / 1460 + doe / 36524) (doe / 146096) =
        some (doe - doe / 1460 + doe / 36524 - doe / 146096) ∧
      ((doe - doe / 1460 + doe / 36524 - doe / 146096) / 365).toNat = yearOfEra doe.toNat := by
  have h1460 : (doe / 1460).toNat = doe.toNat / 1460 := UInt32.toNat_div ..
  have h36524 : (doe / 36524).toNat = doe.toNat / 36524 := UInt32.toNat_div ..
  have h146096 : (doe / 146096).toNat = doe.toNat / 146096 := UInt32.toNat_div ..
  have first := subU32_of (a := doe) (b := doe / 1460) (by omega)
  have second := addU32_of (a := doe - doe / 1460) (b := doe / 36524) (by omega)
  have third := subU32_of (a := doe - doe / 1460 + doe / 36524) (b := doe / 146096) (by omega)
  refine ⟨first.1, second.1, third.1, ?_⟩
  rw [UInt32.toNat_div, third.2, second.2, first.2, h1460, h36524, h146096]
  rfl

/-- The day of the March year, in words. -/
theorem doy_words {doe yoe : UInt32} (hyoe : yoe.toNat < 400) (hle : eraDay yoe.toNat ≤ doe.toNat) :
    mulU32 365 yoe = some (365 * yoe) ∧
      addU32 (365 * yoe) (yoe / 4) = some (365 * yoe + yoe / 4) ∧
      subU32 (365 * yoe + yoe / 4) (yoe / 100) = some (365 * yoe + yoe / 4 - yoe / 100) ∧
      subU32 doe (365 * yoe + yoe / 4 - yoe / 100) = some (doe - (365 * yoe + yoe / 4 - yoe / 100)) ∧
      (doe - (365 * yoe + yoe / 4 - yoe / 100)).toNat = doe.toNat - eraDay yoe.toNat := by
  have h365 : (365 : UInt32).toNat = 365 := rfl
  have h4 : (yoe / 4).toNat = yoe.toNat / 4 := UInt32.toNat_div ..
  have h100 : (yoe / 100).toNat = yoe.toNat / 100 := UInt32.toNat_div ..
  have first := mulU32_of (a := 365) (b := yoe) (by rw [h365]; omega)
  rw [h365] at first
  have second := addU32_of (a := 365 * yoe) (b := yoe / 4) (by omega)
  have third := subU32_of (a := 365 * yoe + yoe / 4) (b := yoe / 100) (by omega)
  have hday : (365 * yoe + yoe / 4 - yoe / 100).toNat = eraDay yoe.toNat := by
    unfold eraDay
    omega
  have fourth := subU32_of (a := doe) (b := 365 * yoe + yoe / 4 - yoe / 100) (by omega)
  exact ⟨first.1, second.1, third.1, fourth.1, by rw [fourth.2, hday]⟩

/-- Month and day of the month, in words. -/
theorem month_words {doy : UInt32} (h : doy.toNat < 366) :
    mulU32 5 doy = some (5 * doy) ∧ addU32 (5 * doy) 2 = some (5 * doy + 2) ∧
      ((5 * doy + 2) / 153).toNat = (5 * doy.toNat + 2) / 153 ∧
      mulU32 153 ((5 * doy + 2) / 153) = some (153 * ((5 * doy + 2) / 153)) ∧
      addU32 (153 * ((5 * doy + 2) / 153)) 2 = some (153 * ((5 * doy + 2) / 153) + 2) ∧
      subU32 doy ((153 * ((5 * doy + 2) / 153) + 2) / 5) =
        some (doy - (153 * ((5 * doy + 2) / 153) + 2) / 5) ∧
      addU32 (doy - (153 * ((5 * doy + 2) / 153) + 2) / 5) 1 =
        some (doy - (153 * ((5 * doy + 2) / 153) + 2) / 5 + 1) ∧
      (doy - (153 * ((5 * doy + 2) / 153) + 2) / 5 + 1).toNat =
        doy.toNat - (153 * ((5 * doy.toNat + 2) / 153) + 2) / 5 + 1 := by
  obtain ⟨hmp, hle, -⟩ := march_day h
  have lit : (5 : UInt32).toNat = 5 ∧ (2 : UInt32).toNat = 2 ∧ (153 : UInt32).toNat = 153 ∧
      (1 : UInt32).toNat = 1 := ⟨rfl, rfl, rfl, rfl⟩
  have five := mulU32_of (a := 5) (b := doy) (by rw [lit.1]; omega)
  rw [lit.1] at five
  have two := addU32_of (a := 5 * doy) (b := 2) (by omega)
  have hmonth : ((5 * doy + 2) / 153).toNat = (5 * doy.toNat + 2) / 153 := by
    rw [UInt32.toNat_div, two.2, five.2]
    rfl
  generalize (5 * doy + 2) / 153 = mp at hmonth ⊢
  rw [← hmonth] at hmp hle ⊢
  have many := mulU32_of (a := 153) (b := mp) (by rw [lit.2.2.1]; omega)
  rw [lit.2.2.1] at many
  have more := addU32_of (a := 153 * mp) (b := 2) (by omega)
  have hbefore : ((153 * mp + 2) / 5).toNat = (153 * mp.toNat + 2) / 5 := by
    rw [UInt32.toNat_div, more.2, many.2]
    rfl
  have less := subU32_of (a := doy) (b := (153 * mp + 2) / 5) (by omega)
  have last := addU32_of (a := doy - (153 * mp + 2) / 5) (b := 1) (by omega)
  exact ⟨five.1, two.1, rfl, many.1, more.1, less.1, last.1, by rw [last.2, less.2, hbefore, lit.2.2.2]⟩

theorem castU32_of {n : Int} (h : 0 ≤ n) (h' : n < 2 ^ 32) :
    castU32 n = some (UInt32.ofInt n) ∧ ((UInt32.ofInt n).toNat : Int) = n := by
  refine ⟨if_pos ⟨h, h'⟩, ?_⟩
  have hmod : n % 2 ^ 32 = n := Int.emod_eq_of_lt h h'
  have hlt : n.toNat < 2 ^ 32 := by omega
  rw [UInt32.ofInt, hmod, UInt32.toNat_ofNat_of_lt' hlt]
  omega

/-- No operation overflows and no cast loses anything, and the date is the one of that day. -/
theorem civil_date (totalSecs : UInt64) :
    civilFromEpochSecsChecked totalSecs = some (civilFromEpochSecs totalSecs) ∧
      (civilFromEpochSecs totalSecs).date.Valid ∧
      (civilFromEpochSecs totalSecs).date.number = (totalSecs.toNat / 86400 : Nat) := by
  have hdays : (totalSecs / 86400).toNat = totalSecs.toNat / 86400 := UInt64.toNat_div ..
  have hmax := totalSecs.toNat_lt
  simp only [civilFromEpochSecsChecked, civilFromEpochSecs, CivilTime.date, hdays]
  rw [Option.bind_eq_bind, Option.bind_eq_bind]
  generalize hn : totalSecs.toNat / 86400 = n
  have hn' : n < 2 ^ 48 := by omega
  have hz : (n : Int) + 719468 ≥ 0 := by omega
  rw [i64_of (n := n) (by omega) (by omega), Option.bind_some, i64_of (by omega) (by omega),
    Option.bind_some, if_pos hz, if_pos hz, Option.bind_some, Int.tdiv_eq_ediv_of_nonneg hz]
  obtain ⟨era, hera⟩ : ∃ era, ((n : Int) + 719468) / 146097 = era := ⟨_, rfl⟩
  have hera0 : 0 ≤ era ∧ era < 2 ^ 48 := by omega
  obtain ⟨hdoe, hdoe'⟩ : 0 ≤ (n : Int) + 719468 - era * 146097 ∧ (n : Int) + 719468 - era * 146097 < 146097 := by
    omega
  obtain ⟨hcast, hcast'⟩ := castU32_of hdoe (by omega)
  rw [hera, i64_of (n := era) (by omega) (by omega), Option.bind_some,
    i64_of (n := era * 146097) (by omega) (by omega), Option.bind_some, i64_of (by omega) (by omega),
    Option.bind_some, hcast, Option.bind_some]
  generalize UInt32.ofInt ((n : Int) + 719468 - era * 146097) = doe at hcast' ⊢
  have hdoe : doe.toNat < 146097 := by omega
  obtain ⟨hy1, hy2, hy3, hyoe⟩ := yoe_words hdoe
  obtain ⟨hlt, hle, hend⟩ := yearOfEra_span hdoe
  rw [hy1, Option.bind_some, hy2, Option.bind_some, hy3, Option.bind_some]
  generalize (doe - doe / 1460 + doe / 36524 - doe / 146096) / 365 = yoe at hyoe ⊢
  rw [← hyoe] at hlt hle hend
  obtain ⟨hd1, hd2, hd3, hd4, hdoy⟩ := doy_words hlt hle
  rw [i64_of (n := era * 400) (by omega) (by omega), Option.bind_some, i64_of (by omega) (by omega),
    Option.bind_some, hd1, Option.bind_some, hd2, Option.bind_some, hd3, Option.bind_some, hd4,
    Option.bind_some]
  generalize doe - (365 * yoe + yoe / 4 - yoe / 100) = doy at hdoy ⊢
  have hwithin : eraDay yoe.toNat + doy.toNat < eraDay (yoe.toNat + 1) := by omega
  have hdate := march_date era hlt hwithin
  have hyear : doy.toNat < 366 := by
    have hlen := eraDay_succ 0 hlt
    have hbound : yearLength (yoe.toNat + 0 * 400 + 1) ≤ 366 := by
      unfold yearLength
      split_ifs <;> decide
    omega
  obtain ⟨hm1, hm2, hmp, hm3, hm4, hm5, hm6, hday⟩ := month_words hyear
  obtain ⟨hmplt, -, -⟩ := march_day hyear
  rw [hm1, Option.bind_some, hm2, Option.bind_some, hm3, Option.bind_some, hm4, Option.bind_some, hm5,
    Option.bind_some, hm6, Option.bind_some]
  generalize doy - (153 * ((5 * doy + 2) / 153) + 2) / 5 + 1 = d at hday ⊢
  generalize (5 * doy + 2) / 153 = mp at hmp ⊢
  have hlt10 : mp < 10 ↔ (5 * doy.toNat + 2) / 153 < 10 := by
    rw [← hmp]
    exact UInt32.lt_iff_toNat_lt
  rw [← hmp] at hday hmplt hlt10
  simp only [← hmp, ← hday] at hdate
  simp only [hlt10]
  generalize hmonth : (mp.toNat : Int) + (if mp.toNat < 10 then 3 else -9) = month at hdate ⊢
  have hmonth' : 0 ≤ month ∧ month ≤ 14 := by
    rw [← hmonth]
    split_ifs <;> omega
  have hyear' : -(2 ^ 63) ≤ (yoe.toNat : Int) + era * 400 + (if month ≤ 2 then 1 else 0) ∧
      (yoe.toNat : Int) + era * 400 + (if month ≤ 2 then 1 else 0) < 2 ^ 63 := by
    split_ifs <;> omega
  rw [i64_of (n := month) (by omega) (by omega), Option.bind_some, i64_of hyear'.1 hyear'.2, Option.bind_some]
  refine ⟨rfl, hdate.1, hdate.2.trans ?_⟩
  omega

theorem civil_time (totalSecs : UInt64) :
    (civilFromEpochSecs totalSecs).hour.toNat = totalSecs.toNat % 86400 / 3600 ∧
      (civilFromEpochSecs totalSecs).minute.toNat = totalSecs.toNat % 86400 % 3600 / 60 ∧
      (civilFromEpochSecs totalSecs).second.toNat = totalSecs.toNat % 86400 % 60 := by
  have hrem : (totalSecs % 86400).toNat = totalSecs.toNat % 86400 := UInt64.toNat_mod ..
  have hhour : (totalSecs % 86400 / 3600).toNat = totalSecs.toNat % 86400 / 3600 := by
    rw [UInt64.toNat_div, hrem]
    rfl
  have hminute : (totalSecs % 86400 % 3600 / 60).toNat = totalSecs.toNat % 86400 % 3600 / 60 := by
    rw [UInt64.toNat_div, UInt64.toNat_mod, hrem]
    rfl
  have hsecond : (totalSecs % 86400 % 60).toNat = totalSecs.toNat % 86400 % 60 := by
    rw [UInt64.toNat_mod, hrem]
    rfl
  exact ⟨hhour, hminute, hsecond⟩

theorem civil_valid (totalSecs : UInt64) : (civilFromEpochSecs totalSecs).Valid := by
  obtain ⟨hhour, hminute, hsecond⟩ := civil_time totalSecs
  exact ⟨(civil_date totalSecs).2.1, by omega, by omega, by omega⟩

theorem civil_epochSecs (totalSecs : UInt64) : (civilFromEpochSecs totalSecs).epochSecs = totalSecs.toNat := by
  obtain ⟨hhour, hminute, hsecond⟩ := civil_time totalSecs
  rw [CivilTime.epochSecs, (civil_date totalSecs).2.2, hhour, hminute, hsecond]
  omega

theorem civil_year (totalSecs : UInt64) : 1970 ≤ (civilFromEpochSecs totalSecs).year := by
  apply (civil_valid totalSecs).date.year_ge
  rw [(civil_date totalSecs).2.2]
  exact Int.natCast_nonneg _

/-- Year and month as naturals, month and day of two digits at most. -/
theorem CivilTime.Valid.fields {t : CivilTime} (ht : t.Valid) (hyear : 0 ≤ t.year) :
    ∃ y m : Nat, t.year = y ∧ t.month = m ∧ m < 100 ∧ t.day.toNat < 100 := by
  obtain ⟨y, hy⟩ := Int.eq_ofNat_of_zero_le hyear
  obtain ⟨m, hm⟩ := Int.eq_ofNat_of_zero_le (le_trans (by decide) ht.date.month_pos : 0 ≤ t.month)
  have hmonth : t.month ≤ 12 := ht.date.month_le
  have hday : (t.day.toNat : Int) ≤ monthLength t.date.year t.date.month := ht.date.day_le
  have hlen := monthLength_le t.date.year t.date.month
  exact ⟨y, m, hy, hm, by omega, by omega⟩

/-- A civil time is determined by its second. -/
theorem epochSecs_injective {t u : CivilTime} (ht : t.Valid) (hu : u.Valid) (h : t.epochSecs = u.epochSecs) :
    t = u := by
  obtain ⟨ty, tm, td, th, tmin, ts⟩ := t
  obtain ⟨uy, um, ud, uh, umin, us⟩ := u
  obtain ⟨htd, hth, htmin, hts⟩ := ht
  obtain ⟨hud, huh, humin, hus⟩ := hu
  simp only [CivilTime.epochSecs] at h hth htmin hts huh humin hus
  have hdate := Date.number_injective htd hud (by omega)
  rw [hdate] at h
  simp only [CivilTime.date, Date.mk.injEq] at hdate
  obtain ⟨rfl, rfl, hday⟩ := hdate
  obtain rfl : td = ud := UInt32.toNat.inj (Int.ofNat.inj hday)
  obtain rfl : th = uh := UInt64.toNat.inj (by omega)
  obtain rfl : tmin = umin := UInt64.toNat.inj (by omega)
  obtain rfl : ts = us := UInt64.toNat.inj (by omega)
  rfl

end Kallisto.Server
