import Kallisto.Lib.Text

/-!
IP addresses and the parser `IpAddr::from_str` runs: dotted decimal first, then groups of four
hexadecimal digits with at most one `::`.
-/
namespace Lib

inductive IpAddr where
  | v4 (a b c d : UInt8)
  | v6 (bits : BitVec 128)
  deriving DecidableEq, Repr

namespace IpAddr

def isLoopback : IpAddr → Bool
  | .v4 a _ _ _ => a = 127
  | .v6 bits => bits = 1#128

def toDigit (radix : Nat) (c : Char) : Option Nat :=
  let n :=
    if c.isDigit then c.toNat - '0'.toNat
    else if 'a' ≤ c ∧ c ≤ 'z' then c.toNat - 'a'.toNat + 10
    else if 'A' ≤ c ∧ c ≤ 'Z' then c.toNat - 'A'.toNat + 10
    else radix
  if n < radix then some n else none

/-- All digits that follow are read before their number and their value are looked at. -/
def readNumber (radix maxDigits bound : Nat) (allowZeroPrefix : Bool) (s : Text) : Option (Nat × Text) :=
  let isDigit := fun c => (toDigit radix c).isSome
  let digits := s.takeWhile isDigit
  let n := digits.foldl (fun n c => n * radix + (toDigit radix c).getD 0) 0
  if digits = [] ∨ maxDigits < digits.length then none
  else if !allowZeroPrefix ∧ digits.head? = some '0' ∧ 1 < digits.length then none
  else if n < bound then some (n, s.dropWhile isDigit) else none

def readGivenChar (c : Char) : Text → Option Text
  | d :: s => if d = c then some s else none
  | [] => none

/-- A separator before every piece but the first. -/
def readSeparator {α : Type} (separator : Char) (first : Bool) (inner : Text → Option (α × Text)) (s : Text) :
    Option (α × Text) :=
  if first then inner s else (readGivenChar separator s).bind inner

def readOctet (first : Bool) : Text → Option (Nat × Text) := readSeparator '.' first (readNumber 10 3 256 false)

def readIpv4Addr (s : Text) : Option ((Nat × Nat × Nat × Nat) × Text) := do
  let (a, s) ← readOctet true s
  let (b, s) ← readOctet false s
  let (c, s) ← readOctet false s
  let (d, s) ← readOctet false s
  some ((a, b, c, d), s)

/-- The groups that are there, whether the last two were dotted, and what is left. -/
def readGroups : Nat → Bool → Text → List Nat × Bool × Text
  | 0, _, s => ([], false, s)
  | left + 1, first, s =>
      match if 0 < left then readSeparator ':' first readIpv4Addr s else none with
      | some ((a, b, c, d), s) => ([a * 256 + b, c * 256 + d], true, s)
      | none =>
          match readSeparator ':' first (readNumber 16 4 65536 true) s with
          | some (group, s) =>
              let (groups, dotted, s) := readGroups left false s
              (group :: groups, dotted, s)
          | none => ([], false, s)

def readIpv6Addr (s : Text) : Option (List Nat × Text) :=
  let (head, dotted, s) := readGroups 8 true s
  if head.length = 8 then some (head, s)
  else if dotted then none
  else do
    let s ← readGivenChar ':' s
    let s ← readGivenChar ':' s
    let (tail, _, s) := readGroups (7 - head.length) true s
    some (head ++ List.replicate (8 - head.length - tail.length) 0 ++ tail, s)

def readIpAddr (s : Text) : Option (IpAddr × Text) :=
  match readIpv4Addr s with
  | some ((a, b, c, d), s) => some (.v4 (.ofNat a) (.ofNat b) (.ofNat c) (.ofNat d), s)
  | none => (readIpv6Addr s).map fun (groups, s) => (.v6 (.ofNat 128 (groups.foldl (· * 65536 + ·) 0)), s)

/-- `IpAddr::from_str`: nothing may be left over. -/
def fromStr (s : Text) : Option IpAddr :=
  match readIpAddr s with
  | some (address, []) => some address
  | _ => none

example : (fromStr "127.0.0.1".toList).map isLoopback = some true := by decide
example : (fromStr "::1".toList).map isLoopback = some true := by decide
example : fromStr "0.0.0.O".toList = none := by decide

end IpAddr

end Lib
