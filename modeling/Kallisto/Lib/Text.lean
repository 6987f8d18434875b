import Mathlib.Algebra.Ring.Nat
import Mathlib.Data.List.Basic
import Mathlib.Data.Char

/-!
Text as the list of its Unicode scalar values, and bytes as octets. Comparing two texts
character by character is comparing their UTF-8 encodings octet by octet, so the order
on lists is the order a program that holds UTF-8 strings sorts by.
-/
namespace Lib

abbrev Text := List Char
abbrev Bytes := List UInt8

/-- An array of exactly `n` octets. -/
abbrev ByteVec (n : Nat) := { b : Bytes // b.length = n }

def utf8 (t : Text) : Bytes := t.flatMap String.utf8EncodeChar

/-- Fails on every octet string that is not the encoding of some text. -/
def fromUtf8 (b : Bytes) : Option Text := b.toByteArray.utf8Decode?.map Array.toList

@[simp] theorem utf8_nil : utf8 [] = [] := rfl

@[simp] theorem utf8_cons (c : Char) (t : Text) :
    utf8 (c :: t) = String.utf8EncodeChar c ++ utf8 t := rfl

@[simp] theorem utf8_append (s t : Text) : utf8 (s ++ t) = utf8 s ++ utf8 t := by
  simp only [utf8, List.flatMap_append]

theorem utf8Encode_eq (t : Text) : t.utf8Encode = (utf8 t).toByteArray := by
  simp only [List.utf8Encode, utf8]

@[simp] theorem fromUtf8_utf8 (t : Text) : fromUtf8 (utf8 t) = some t := by
  simp only [fromUtf8, ← utf8Encode_eq, List.utf8Decode?_utf8Encode, Option.map_some]

theorem or_not_ascii (x : UInt8) {y : UInt8} (h : 0x80 ≤ y) : ¬ x ||| y < 0x80 := by
  have hle : y ≤ x ||| y := by
    rw [UInt8.le_iff_toNat_le, UInt8.toNat_or]
    exact Nat.right_le_or
  exact UInt8.not_lt.mpr (UInt8.le_trans h hle)

/-- The encoding of a character that is not ASCII has no octet below 0x80. -/
theorem utf8EncodeChar_not_ascii {c : Char} (h : ¬ c.val ≤ 127) :
    ∀ b ∈ String.utf8EncodeChar c, ¬ b < 0x80 := by
  intro b hb
  rcases c.utf8Size_eq with hs | hs | hs | hs
  · exact absurd (Char.utf8Size_eq_one_iff.mp hs) h
  · rw [String.utf8EncodeChar_eq_cons_cons hs] at hb
    simp only [List.mem_cons, List.not_mem_nil, or_false] at hb
    rcases hb with rfl | rfl <;> exact or_not_ascii _ (by decide)
  · rw [String.utf8EncodeChar_eq_cons_cons_cons hs] at hb
    simp only [List.mem_cons, List.not_mem_nil, or_false] at hb
    rcases hb with rfl | rfl | rfl <;> exact or_not_ascii _ (by decide)
  · rw [String.utf8EncodeChar_eq_cons_cons_cons_cons hs] at hb
    simp only [List.mem_cons, List.not_mem_nil, or_false] at hb
    rcases hb with rfl | rfl | rfl | rfl <;> exact or_not_ascii _ (by decide)

theorem utf8_injective {s t : Text} (h : utf8 s = utf8 t) : s = t := by
  have hs := fromUtf8_utf8 s
  rw [h, fromUtf8_utf8] at hs
  exact (Option.some.inj hs).symm

/-- The text one octet string spells when every octet is an ASCII character. -/
def ascii (b : Bytes) : Text := b.map fun x => Char.ofNat x.toNat

theorem utf8_singleton_of_ascii {c : Char} (h : c.val ≤ 127) : utf8 [c] = [c.val.toUInt8] := by
  simpa only [utf8_cons, utf8_nil, List.append_nil] using
    String.utf8EncodeChar_eq_singleton (Char.utf8Size_eq_one_iff.mpr h)

/-- What is left of `s` after the prefix `p`. -/
def stripPrefix : Text → Text → Option Text
  | [], s => some s
  | _ :: _, [] => none
  | c :: p, d :: s => if c = d then stripPrefix p s else none

theorem stripPrefix_eq_some {p s r : Text} : stripPrefix p s = some r ↔ s = p ++ r := by
  induction p generalizing s with
  | nil => simp [stripPrefix]
  | cons c p ih =>
      cases s with
      | nil => simp [stripPrefix]
      | cons d s =>
          by_cases h : c = d
          · simp [stripPrefix, h, ih]
          · simp [stripPrefix, h, Ne.symm h]

@[simp] theorem stripPrefix_append (p r : Text) : stripPrefix p (p ++ r) = some r :=
  stripPrefix_eq_some.mpr rfl

theorem stripPrefix_isSome {p s : Text} : (stripPrefix p s).isSome ↔ p <+: s := by
  rw [Option.isSome_iff_exists]
  simp only [stripPrefix_eq_some]
  exact exists_congr fun r => eq_comm

/-- At most `n` pieces, cut at the first `n - 1` separators; the last piece keeps the rest. -/
def splitn (c : Char) : Nat → Text → List Text
  | 0, _ => []
  | 1, s => [s]
  | n + 2, s =>
      match s.dropWhile (· != c) with
      | [] => [s]
      | _ :: rest => s.takeWhile (· != c) :: splitn c (n + 1) rest

/-- The text after the first occurrence of `pat`. -/
def afterFirst (pat : Text) : Text → Option Text
  | [] => stripPrefix pat []
  | c :: s => (stripPrefix pat (c :: s)).orElse fun _ => afterFirst pat s

/-- `s[n..]` with `n` counted in octets; `none` past the end or inside a character. -/
def textFrom : Text → Nat → Option Text
  | s, 0 => some s
  | [], _ + 1 => none
  | c :: s, n + 1 => if c.utf8Size ≤ n + 1 then textFrom s (n + 1 - c.utf8Size) else none

theorem textFrom_zero (s : Text) : textFrom s 0 = some s := by cases s <;> rfl

theorem textFrom_cons (c : Char) (s : Text) (n : Nat) : textFrom (c :: s) (c.utf8Size + n) = textFrom s n := by
  obtain ⟨m, hm⟩ : ∃ m, c.utf8Size + n = m + 1 := ⟨c.utf8Size + n - 1, by have := c.utf8Size_pos; omega⟩
  rw [hm, textFrom, if_pos (by omega), ← hm, Nat.add_sub_cancel_left]

/-- Cutting past a prefix is cutting what follows it. -/
theorem textFrom_append (p s : Text) (n : Nat) : textFrom (p ++ s) ((utf8 p).length + n) = textFrom s n := by
  induction p with
  | nil => rw [utf8_nil, List.nil_append, List.length_nil, Nat.zero_add]
  | cons c p ih =>
      rw [utf8_cons, List.length_append, String.length_utf8EncodeChar, List.cons_append, Nat.add_assoc,
        textFrom_cons, ih]

/-- The characters of the Unicode property `White_Space`. -/
def isWhitespace (c : Char) : Bool :=
  let n := c.toNat
  (9 ≤ n && n ≤ 13) || n == 0x20 || n == 0x85 || n == 0xA0 || n == 0x1680 ||
    (0x2000 ≤ n && n ≤ 0x200A) || n == 0x2028 || n == 0x2029 || n == 0x202F || n == 0x205F ||
    n == 0x3000

def trim (s : Text) : Text :=
  ((s.dropWhile isWhitespace).reverse.dropWhile isWhitespace).reverse

theorem trim_of_no_whitespace {t : Text} (h : ∀ c ∈ t, isWhitespace c = false) : trim t = t := by
  have hdrop : ∀ s : Text, (∀ c ∈ s, isWhitespace c = false) → s.dropWhile isWhitespace = s := by
    intro s hs
    cases s with
    | nil => rfl
    | cons c s => exact List.dropWhile_cons_of_neg (Bool.eq_false_iff.mp (hs c List.mem_cons_self))
  rw [trim, hdrop t h, hdrop t.reverse fun c hc => h c (List.mem_reverse.mp hc), List.reverse_reverse]

def toAsciiLower (s : Text) : Text := s.map Char.toLower

def decimal (n : Nat) : Text := Nat.toDigits 10 n

/-- `b[i..j]`; `none` where the range is not inside `b`. -/
def slice (b : Bytes) (i j : Nat) : Option Bytes :=
  if i ≤ j ∧ j ≤ b.length then some ((b.drop i).take (j - i)) else none

/-- A copy into an array of `n` octets; `none` where the lengths differ. -/
def toArray (n : Nat) (b : Bytes) : Option (ByteVec n) := if h : b.length = n then some ⟨b, h⟩ else none

theorem slice_of_le {b : Bytes} {i j : Nat} (hij : i ≤ j) (hj : j ≤ b.length) :
    slice b i j = some ((b.drop i).take (j - i)) := if_pos ⟨hij, hj⟩

theorem toArray_of_length {n : Nat} {b : Bytes} (h : b.length = n) : toArray n b = some ⟨b, h⟩ := dif_pos h

/-- The `n` low octets of `v`, lowest first. -/
def toLeBytes : Nat → Nat → Bytes
  | 0, _ => []
  | n + 1, v => UInt8.ofNat v :: toLeBytes n (v / 256)

def fromLeBytes : Bytes → Nat
  | [] => 0
  | b :: bs => b.toNat + 256 * fromLeBytes bs

theorem toLeBytes_length (n v : Nat) : (toLeBytes n v).length = n := by
  induction n generalizing v with
  | zero => rfl
  | succ n ih => rw [toLeBytes, List.length_cons, ih]

theorem fromLeBytes_lt (b : Bytes) : fromLeBytes b < 256 ^ b.length := by
  induction b with
  | nil => decide
  | cons x b ih =>
      have hx := x.toNat_lt
      rw [fromLeBytes, List.length_cons, Nat.pow_succ]
      omega

theorem fromLeBytes_toLeBytes {n v : Nat} (h : v < 256 ^ n) : fromLeBytes (toLeBytes n v) = v := by
  induction n generalizing v with
  | zero =>
      rw [Nat.pow_zero] at h
      rw [toLeBytes, fromLeBytes]
      omega
  | succ n ih =>
      rw [Nat.pow_succ] at h
      rw [toLeBytes, fromLeBytes, ih (by omega), UInt8.toNat_ofNat']
      omega

theorem toLeBytes_fromLeBytes (b : Bytes) : toLeBytes b.length (fromLeBytes b) = b := by
  induction b with
  | nil => rfl
  | cons x b ih =>
      have hx := x.toNat_lt
      have hdiv : (x.toNat + 256 * fromLeBytes b) / 256 = fromLeBytes b := by omega
      have hmod : UInt8.ofNat (x.toNat + 256 * fromLeBytes b) = x := by
        apply UInt8.toNat_inj.mp
        rw [UInt8.toNat_ofNat']
        omega
      rw [List.length_cons, fromLeBytes, toLeBytes, hdiv, hmod, ih]

end Lib
