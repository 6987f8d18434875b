import Kallisto.Server.Civil
import Kallisto.Lib.Json

/-!
Timestamps read back. The reader takes a year of four digits or more, as the writer gives one
past 9999, two digits for every other field and three for the milliseconds, which may be absent.
-/
namespace Kallisto.Server
open Lib

/-- A run of digits of an allowed length, and what follows it. -/
def readField (width : Nat → Bool) (s : Text) : Option (Nat × Text) :=
  let digits := s.takeWhile Char.isDigit
  if width digits.length then some (Nat.ofDigitChars 10 digits 0, s.drop digits.length) else none

def expect (c : Char) : Text → Option Text
  | d :: s => if d = c then some s else none
  | [] => none

/-- Milliseconds from 1970-01-01T00:00:00Z. -/
def rfc3339ToMs (s : Text) : Option Int := do
  let (year, s) ← readField (4 ≤ ·) s
  let s ← expect '-' s
  let (month, s) ← readField (· == 2) s
  let s ← expect '-' s
  let (day, s) ← readField (· == 2) s
  let s ← expect 'T' s
  let (hour, s) ← readField (· == 2) s
  let s ← expect ':' s
  let (minute, s) ← readField (· == 2) s
  let s ← expect ':' s
  let (second, s) ← readField (· == 2) s
  let (fraction, s) ← if s.head? = some '.' then readField (· == 3) s.tail else some (0, s)
  let date : Date := ⟨year, month, day⟩
  if s = ['Z'] ∧ date.Valid ∧ hour < 24 ∧ minute < 60 ∧ second < 60 then
    some ((date.number * 86400 + (hour * 3600 + minute * 60 + second : Nat)) * 1000 + fraction)
  else none

section Padded
variable {w n : Nat}

theorem padded_natCast (w n : Nat) :
    padded w (n : Int) = List.replicate (w - (decimal n).length) '0' ++ decimal n := by
  simp only [padded, Int.natAbs_natCast, if_neg (not_lt.mpr (Int.natCast_nonneg n))]

theorem padded_digits : ∀ c ∈ padded w (n : Int), c.isDigit = true := by
  intro c hc
  rw [padded_natCast, List.mem_append] at hc
  rcases hc with hzero | hdigit
  · rw [List.eq_of_mem_replicate hzero]
    rfl
  · exact Json.decimal_all_digits n c hdigit

theorem padded_value : Nat.ofDigitChars 10 (padded w (n : Int)) 0 = n := by
  rw [padded_natCast, Nat.ofDigitChars_append, Nat.ofDigitChars_replicate_zero, Nat.mul_zero]
  exact Nat.ofDigitChars_ten_toDigits

theorem padded_inj {m : Nat} (h : padded w (n : Int) = padded w (m : Int)) : n = m := by
  rw [← padded_value (w := w) (n := n), h, padded_value]

theorem padded_length_ge : w ≤ (padded w (n : Int)).length := by
  rw [padded_natCast, List.length_append, List.length_replicate]
  omega

theorem padded_length (hw : 0 < w) (h : n < 10 ^ w) : (padded w (n : Int)).length = w := by
  have hlen : (decimal n).length ≤ w := (Nat.length_toDigits_le_iff (by decide) hw).mpr h
  rw [padded_natCast, List.length_append, List.length_replicate]
  omega

/-- A padded number is read back up to the first character that is no digit. -/
theorem readField_padded {width : Nat → Bool} (hwidth : width (padded w (n : Int)).length = true) {c : Char}
    (hc : c.isDigit = false) (s : Text) : readField width (padded w (n : Int) ++ c :: s) = some (n, c :: s) := by
  have htake : (padded w (n : Int) ++ c :: s).takeWhile Char.isDigit = padded w (n : Int) := by
    rw [List.takeWhile_append_of_pos padded_digits, List.takeWhile_cons_of_neg (by rw [hc]; decide),
      List.append_nil]
  simp only [readField, htake]
  rw [if_pos hwidth, padded_value, List.drop_left]

theorem readField_year (n : Nat) {c : Char} (hc : c.isDigit = false) (s : Text) :
    readField (4 ≤ ·) (padded 4 (n : Int) ++ c :: s) = some (n, c :: s) := by
  apply readField_padded _ hc s
  exact decide_eq_true padded_length_ge

theorem readField_three (h : n < 1000) {c : Char} (hc : c.isDigit = false) (s : Text) :
    readField (· == 3) (padded 3 (n : Int) ++ c :: s) = some (n, c :: s) := by
  apply readField_padded _ hc s
  rw [padded_length (by decide) h]
  rfl

theorem readField_two (h : n < 100) {c : Char} (hc : c.isDigit = false) (s : Text) :
    readField (· == 2) (padded 2 (n : Int) ++ c :: s) = some (n, c :: s) := by
  apply readField_padded _ hc s
  rw [padded_length (by decide) h]
  rfl

end Padded

theorem expect_cons (c : Char) (s : Text) : expect c (c :: s) = some s := if_pos rfl

theorem bind_some {α β : Type} {x : Option α} {a : α} {f : α → Option β} {b : β} (hx : x = some a)
    (hf : f a = some b) : x >>= f = some b := by
  rw [hx]
  exact hf

/-- What follows the seconds. -/
def readFraction (s : Text) : Option (Nat × Text) :=
  if s.head? = some '.' then readField (· == 3) s.tail else some (0, s)

theorem rfc3339ToMs_fields {s₀ s₁ s₂ s₃ s₄ s₅ s₆ : Text} {y m d hh mm ss fraction : Nat}
    (hyear : readField (4 ≤ ·) s₀ = some (y, '-' :: s₁)) (hmonth : readField (· == 2) s₁ = some (m, '-' :: s₂))
    (hday : readField (· == 2) s₂ = some (d, 'T' :: s₃)) (hhour : readField (· == 2) s₃ = some (hh, ':' :: s₄))
    (hminute : readField (· == 2) s₄ = some (mm, ':' :: s₅)) (hsecond : readField (· == 2) s₅ = some (ss, s₆))
    (hfraction : readFraction s₆ = some (fraction, ['Z'])) (hdate : Date.Valid ⟨y, m, d⟩) (hh24 : hh < 24)
    (hmm60 : mm < 60) (hss60 : ss < 60) :
    rfc3339ToMs s₀ =
      some (((Date.mk y m d).number * 86400 + (hh * 3600 + mm * 60 + ss : Nat)) * 1000 + fraction) := by
  refine bind_some hyear (bind_some (expect_cons _ _) ?_)
  refine bind_some hmonth (bind_some (expect_cons _ _) ?_)
  refine bind_some hday (bind_some (expect_cons _ _) ?_)
  refine bind_some hhour (bind_some (expect_cons _ _) ?_)
  refine bind_some hminute (bind_some (expect_cons _ _) ?_)
  refine bind_some hsecond ?_
  change (if s₆.head? = some '.' then _ else _) = _
  rw [readFraction] at hfraction
  split_ifs at hfraction ⊢ with hdot
  · exact bind_some hfraction (if_pos ⟨rfl, hdate, hh24, hmm60, hss60⟩)
  · cases hfraction
    exact if_pos ⟨rfl, hdate, hh24, hmm60, hss60⟩

/-- What `epochMsToRfc3339` writes past the first instant. -/
def stampText (t : CivilTime) (fractionMs : Nat) : Text :=
  padded 4 t.year ++ '-' :: (padded 2 t.month ++ '-' :: (padded 2 t.day.toNat ++ 'T' ::
    (padded 2 t.hour.toNat ++ ':' :: (padded 2 t.minute.toNat ++ ':' :: (padded 2 t.second.toNat ++
      ((if fractionMs > 0 then '.' :: padded 3 fractionMs else []) ++ ['Z']))))))

theorem epochMsToRfc3339_eq {ms : UInt64} (h : ms ≠ 0) :
    epochMsToRfc3339 ms = stampText (civilFromEpochSecs (ms / 1000)) (ms.toNat % 1000) := by
  have hmod : (ms % 1000).toNat = ms.toNat % 1000 := UInt64.toNat_mod ..
  have hpos : ms % 1000 > 0 ↔ ms.toNat % 1000 > 0 := by
    rw [← hmod]
    exact UInt64.lt_iff_toNat_lt
  have hassoc : ∀ y m d hh mm ss f : Text,
      y ++ ['-'] ++ m ++ ['-'] ++ d ++ ['T'] ++ (hh ++ [':'] ++ mm ++ [':'] ++ ss) ++ f ++ ['Z'] =
        y ++ '-' :: (m ++ '-' :: (d ++ 'T' :: (hh ++ ':' :: (mm ++ ':' :: (ss ++ (f ++ ['Z'])))))) := by
    intro y m d hh mm ss f
    simp only [List.append_assoc, List.cons_append, List.nil_append]
  rw [epochMsToRfc3339, if_neg h]
  simp only [stampText]
  rw [hassoc]
  by_cases hzero : ms.toNat % 1000 > 0
  · rw [if_pos hzero, if_pos (hpos.mpr hzero), hmod]
  · rw [if_neg hzero, if_neg (mt hpos.mp hzero)]

/-- A valid time from year 0 on, written and read back. -/
theorem rfc3339ToMs_stampText {t : CivilTime} (ht : t.Valid) (hyear : 0 ≤ t.year) {fractionMs : Nat}
    (hfraction : fractionMs < 1000) :
    rfc3339ToMs (stampText t fractionMs) = some (t.epochSecs * 1000 + fractionMs) := by
  obtain ⟨y, m, hy, hm, hmonth, hday⟩ := ht.fields hyear
  have hvalid : Date.Valid ⟨y, m, t.day.toNat⟩ := by
    rw [← hy, ← hm]
    exact ht.date
  have hhour := ht.hour
  have hminute := ht.minute
  have hsecond := ht.second
  have hsecs : t.epochSecs = (Date.mk y m t.day.toNat).number * 86400 +
      (t.hour.toNat * 3600 + t.minute.toNat * 60 + t.second.toNat : Nat) := by
    rw [CivilTime.epochSecs, CivilTime.date, hy, hm]
  have hdash : '-'.isDigit = false := by decide
  have hcolon : ':'.isDigit = false := by decide
  have hT : 'T'.isDigit = false := by decide
  have htail : ∃ c s, c.isDigit = false ∧ (if fractionMs > 0 then '.' :: padded 3 fractionMs else []) ++ ['Z'] = c :: s ∧
      readFraction (c :: s) = some (fractionMs, ['Z']) := by
    by_cases hzero : fractionMs > 0
    · refine ⟨'.', padded 3 fractionMs ++ ['Z'], by decide, by rw [if_pos hzero, List.cons_append], ?_⟩
      exact readField_three hfraction (by decide) []
    · obtain rfl : fractionMs = 0 := by omega
      exact ⟨'Z', [], by decide, rfl, rfl⟩
  obtain ⟨c, s, hc, htail, hread⟩ := htail
  rw [stampText, hy, hm, hsecs, htail]
  exact rfc3339ToMs_fields (readField_year y hdash _) (readField_two hmonth hdash _) (readField_two hday hT _)
    (readField_two (hhour.trans (by decide)) hcolon _) (readField_two (hminute.trans (by decide)) hcolon _)
    (readField_two (hsecond.trans (by decide)) hc _) hread hvalid hhour hminute hsecond

/-- The date is the one reached from 1970-01-01 by as many days. -/
theorem civil_date_iterate (totalSecs : UInt64) :
    (civilFromEpochSecs totalSecs).date = Date.tomorrow^[totalSecs.toNat / 86400] Date.epoch := by
  obtain ⟨-, hvalid, hnumber⟩ := civil_date totalSecs
  obtain ⟨hvalid', hnumber'⟩ := Date.tomorrow_iterate (totalSecs.toNat / 86400)
  exact Date.number_injective hvalid hvalid' (hnumber.trans hnumber'.symm)

/-- Every second of the range is its own valid civil time, found without overflow or a lossy
cast, and every millisecond is read back from its text. -/
theorem calendar_exact :
    (∀ totalSecs : UInt64, civilFromEpochSecsChecked totalSecs = some (civilFromEpochSecs totalSecs) ∧
      (civilFromEpochSecs totalSecs).date = Date.tomorrow^[totalSecs.toNat / 86400] Date.epoch ∧
      ∀ t : CivilTime, t.Valid ∧ t.epochSecs = totalSecs.toNat ↔ t = civilFromEpochSecs totalSecs) ∧
      (∀ ms : UInt64, rfc3339ToMs (epochMsToRfc3339 ms) = some ms.toNat) ∧
      Function.Injective epochMsToRfc3339 := by
  have hread : ∀ ms : UInt64, rfc3339ToMs (epochMsToRfc3339 ms) = some (ms.toNat : Int) := by
    intro ms
    by_cases hzero : ms = 0
    · rw [hzero]
      decide +kernel
    · have hvalid := civil_valid (ms / 1000)
      have hyear := civil_year (ms / 1000)
      have hdiv : (ms / 1000).toNat = ms.toNat / 1000 := UInt64.toNat_div ..
      rw [epochMsToRfc3339_eq hzero, rfc3339ToMs_stampText hvalid (by omega) (Nat.mod_lt _ (by decide)),
        civil_epochSecs, hdiv]
      congr 1
      omega
  refine ⟨fun totalSecs => ⟨(civil_date totalSecs).1, civil_date_iterate totalSecs, fun t => ⟨?_, ?_⟩⟩, hread,
    fun ms ms' h => ?_⟩
  · rintro ⟨hvalid, hsecs⟩
    exact epochSecs_injective hvalid (civil_valid totalSecs) (hsecs.trans (civil_epochSecs totalSecs).symm)
  · rintro rfl
    exact ⟨civil_valid totalSecs, civil_epochSecs totalSecs⟩
  · have hms := (hread ms).symm.trans ((congrArg rfc3339ToMs h).trans (hread ms'))
    exact UInt64.toNat.inj (Int.ofNat.inj (Option.some.inj hms))

end Kallisto.Server
