import Kallisto.Lib.Text

/-!
Timestamps: epoch seconds to a civil date by `civil_from_days`, and the RFC 3339 text that
every reply carries. Unsigned intermediates wrap as in a release build.
-/
namespace Kallisto.Server
open Lib

/-- Nanoseconds since the Unix epoch; a clock may be set before it. -/
abbrev SystemTime := Int

structure CivilTime where
  year : Int
  month : Int
  day : UInt32
  hour : UInt64
  minute : UInt64
  second : UInt64
  deriving DecidableEq, Repr

def civilFromEpochSecs (totalSecs : UInt64) : CivilTime :=
  let days := totalSecs / 86400
  let remSecs := totalSecs % 86400
  let z : Int := (days.toNat : Int) + 719468
  let era : Int := (if z ≥ 0 then z else z - 146096).tdiv 146097
  let doe : UInt32 := UInt32.ofInt (z - era * 146097)
  let yoe := (doe - doe / 1460 + doe / 36524 - doe / 146096) / 365
  let y : Int := (yoe.toNat : Int) + era * 400
  let doy := doe - (365 * yoe + yoe / 4 - yoe / 100)
  let mp := (5 * doy + 2) / 153
  let d := doy - (153 * mp + 2) / 5 + 1
  let month : Int := (mp.toNat : Int) + (if mp < 10 then 3 else -9)
  { year := y + (if month ≤ 2 then 1 else 0)
    month
    day := d
    hour := remSecs / 3600
    minute := (remSecs % 3600) / 60
    second := remSecs % 60 }

/-- `{:0width}` of a number. -/
def padded (width : Nat) (n : Int) : Text :=
  let digits := decimal n.natAbs
  if n < 0 then '-' :: (List.replicate (width - 1 - digits.length) '0' ++ digits)
  else List.replicate (width - digits.length) '0' ++ digits

def epochMsToRfc3339 (ms : UInt64) : Text :=
  if ms = 0 then "1970-01-01T00:00:00Z".toList
  else
    let t := civilFromEpochSecs (ms / 1000)
    let fractionMs := ms % 1000
    let date := padded 4 t.year ++ ['-'] ++ padded 2 t.month ++ ['-'] ++ padded 2 t.day.toNat
    let time := padded 2 t.hour.toNat ++ [':'] ++ padded 2 t.minute.toNat ++ [':'] ++ padded 2 t.second.toNat
    let fraction := if fractionMs > 0 then '.' :: padded 3 fractionMs.toNat else []
    date ++ ['T'] ++ time ++ fraction ++ ['Z']

def rfc3339FromSystemTime (t : SystemTime) : Text :=
  let ms := if t < 0 then 0 else UInt64.ofInt (t / 1000000)
  epochMsToRfc3339 ms

example : epochMsToRfc3339 1672531200123 = "2023-01-01T00:00:00.123Z".toList := by decide +kernel

end Kallisto.Server
