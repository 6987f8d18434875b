import Kallisto.Lib.Text
import Mathlib.Data.List.TakeWhile

/-!
JSON texts in the sense of RFC 8259: values, a reader for every text of the grammar, and a
writer that puts in no white space and escapes only what has to be escaped.
-/
namespace Lib

/-- `N` is what a number is; a reader that does not look inside one leaves its numeral.
Members stay in the order of the text. -/
inductive Json (N : Type) where
  | null
  | bool (b : Bool)
  | num (n : N)
  | str (s : Text)
  | arr (items : List (Json N))
  | obj (members : List (Text × Json N))

namespace Json

section Walks
variable {N M : Type}

mutual
def map (f : N → M) : Json N → Json M
  | .null => .null
  | .bool b => .bool b
  | .num n => .num (f n)
  | .str s => .str s
  | .arr items => .arr (mapItems f items)
  | .obj members => .obj (mapMembers f members)

def mapItems (f : N → M) : List (Json N) → List (Json M)
  | [] => []
  | v :: items => v.map f :: mapItems f items

def mapMembers (f : N → M) : List (Text × Json N) → List (Text × Json M)
  | [] => []
  | (k, v) :: members => (k, v.map f) :: mapMembers f members
end

mutual
/-- Every number by its numeral, or nothing. -/
def traverse (f : N → Option M) : Json N → Option (Json M)
  | .null => some .null
  | .bool b => some (.bool b)
  | .num n => (f n).map .num
  | .str s => some (.str s)
  | .arr items => (traverseItems f items).map .arr
  | .obj members => (traverseMembers f members).map .obj

def traverseItems (f : N → Option M) : List (Json N) → Option (List (Json M))
  | [] => some []
  | v :: items => do return (← v.traverse f) :: (← traverseItems f items)

def traverseMembers (f : N → Option M) : List (Text × Json N) → Option (List (Text × Json M))
  | [] => some []
  | (k, v) :: members => do return (k, ← v.traverse f) :: (← traverseMembers f members)
end

mutual
/-- Every number in the value satisfies `p`. -/
def All (p : N → Prop) : Json N → Prop
  | .null | .bool _ | .str _ => True
  | .num n => p n
  | .arr items => AllItems p items
  | .obj members => AllMembers p members

def AllItems (p : N → Prop) : List (Json N) → Prop
  | [] => True
  | v :: items => v.All p ∧ AllItems p items

def AllMembers (p : N → Prop) : List (Text × Json N) → Prop
  | [] => True
  | (_, v) :: members => v.All p ∧ AllMembers p members
end

mutual
/-- Numbers taken there and back leave the value as it was exactly where each of them comes back. -/
theorem traverse_map {f : N → M} {g : M → Option N} : ∀ v : Json N,
    (v.map f).traverse g = some v ↔ v.All fun n => g (f n) = some n
  | .null | .bool _ | .str _ => by simp [map, traverse, All]
  | .num n => by simp [map, traverse, All]
  | .arr items => by simpa [map, traverse, All] using traverseItems_map items
  | .obj members => by simpa [map, traverse, All] using traverseMembers_map members

theorem traverseItems_map {f : N → M} {g : M → Option N} : ∀ items : List (Json N),
    traverseItems g (mapItems f items) = some items ↔ AllItems (fun n => g (f n) = some n) items
  | [] => by simp [mapItems, traverseItems, AllItems]
  | v :: items => by
      rw [AllItems, ← traverse_map v, ← traverseItems_map items, mapItems, traverseItems]
      cases (v.map f).traverse g <;> cases traverseItems g (mapItems f items) <;> simp

theorem traverseMembers_map {f : N → M} {g : M → Option N} : ∀ members : List (Text × Json N),
    traverseMembers g (mapMembers f members) = some members ↔ AllMembers (fun n => g (f n) = some n) members
  | [] => by simp [mapMembers, traverseMembers, AllMembers]
  | (k, v) :: members => by
      rw [AllMembers, ← traverse_map v, ← traverseMembers_map members, mapMembers, traverseMembers]
      cases (v.map f).traverse g <;> cases traverseMembers g (mapMembers f members) <;> simp
end

mutual
theorem all_of {p : N → Prop} (h : ∀ n, p n) : ∀ v : Json N, v.All p
  | .null | .bool _ | .str _ => trivial
  | .num n => h n
  | .arr items => allItems_of h items
  | .obj members => allMembers_of h members

theorem allItems_of {p : N → Prop} (h : ∀ n, p n) : ∀ items : List (Json N), AllItems p items
  | [] => trivial
  | v :: items => ⟨all_of h v, allItems_of h items⟩

theorem allMembers_of {p : N → Prop} (h : ∀ n, p n) : ∀ members : List (Text × Json N), AllMembers p members
  | [] => trivial
  | (_, v) :: members => ⟨all_of h v, allMembers_of h members⟩
end

mutual
theorem all_map {p : M → Prop} {f : N → M} : ∀ v : Json N, (v.map f).All p ↔ v.All fun n => p (f n)
  | .null | .bool _ | .num _ | .str _ => Iff.rfl
  | .arr items => allItems_map items
  | .obj members => allMembers_map members

theorem allItems_map {p : M → Prop} {f : N → M} : ∀ items : List (Json N),
    AllItems p (mapItems f items) ↔ AllItems (fun n => p (f n)) items
  | [] => Iff.rfl
  | v :: items => and_congr (all_map v) (allItems_map items)

theorem allMembers_map {p : M → Prop} {f : N → M} : ∀ members : List (Text × Json N),
    AllMembers p (mapMembers f members) ↔ AllMembers (fun n => p (f n)) members
  | [] => Iff.rfl
  | (_, v) :: members => and_congr (all_map v) (allMembers_map members)
end

theorem allItems_iff {p : N → Prop} {items : List (Json N)} : AllItems p items ↔ ∀ v ∈ items, v.All p := by
  induction items with
  | nil => simp [AllItems]
  | cons v items ih => rw [AllItems, ih, List.forall_mem_cons]

theorem allMembers_iff {p : N → Prop} {members : List (Text × Json N)} :
    AllMembers p members ↔ ∀ m ∈ members, m.2.All p := by
  induction members with
  | nil => simp [AllMembers]
  | cons m members ih =>
      obtain ⟨k, v⟩ := m
      rw [AllMembers, ih, List.forall_mem_cons]

end Walks

/-! Strings -/

def hexDigit (c : Char) : Option Nat :=
  if '0' ≤ c ∧ c ≤ '9' then some (c.toNat - '0'.toNat)
  else if 'a' ≤ c ∧ c ≤ 'f' then some (c.toNat - 'a'.toNat + 10)
  else if 'A' ≤ c ∧ c ≤ 'F' then some (c.toNat - 'A'.toNat + 10)
  else none

def hexQuad (a b c d : Char) : Option Nat := do
  return (((← hexDigit a) * 16 + (← hexDigit b)) * 16 + (← hexDigit c)) * 16 + (← hexDigit d)

/-- The escapes of two characters. -/
def unescape (c : Char) : Option Char :=
  if c = '"' ∨ c = '\\' ∨ c = '/' then some c
  else if c = 'b' then some '\x08'
  else if c = 't' then some '\t'
  else if c = 'n' then some '\n'
  else if c = 'f' then some '\x0c'
  else if c = 'r' then some '\r'
  else none

def push (c : Char) (tail : Option (Text × Text)) : Option (Text × Text) :=
  tail.map fun (t, s) => (c :: t, s)

/-- The characters up to the closing quote, and what follows it. A surrogate counts only as
half of a pair. -/
def readString : Text → Option (Text × Text)
  | [] => none
  | '"' :: s => some ([], s)
  | '\\' :: 'u' :: a :: b :: c :: d :: s =>
      match hexQuad a b c d with
      | none => none
      | some n =>
          if n < 0xD800 ∨ 0xE000 ≤ n then push (Char.ofNat n) (readString s)
          else
            match s with
            | '\\' :: 'u' :: a :: b :: c :: d :: s =>
                match hexQuad a b c d with
                | none => none
                | some m =>
                    if n < 0xDC00 ∧ 0xDC00 ≤ m ∧ m < 0xE000 then
                      push (Char.ofNat (0x10000 + (n - 0xD800) * 0x400 + (m - 0xDC00))) (readString s)
                    else none
            | _ => none
  | '\\' :: e :: s =>
      match unescape e with
      | none => none
      | some c => push c (readString s)
  | c :: s => if c.toNat < 0x20 then none else push c (readString s)

/-- What may not stand in a string as itself. -/
def mustEscape (c : Char) : Bool := c = '"' || c = '\\' || c.toNat < 0x20

def hexChar (n : Nat) : Char := if n < 10 then Char.ofNat (n + '0'.toNat) else Char.ofNat (n - 10 + 'a'.toNat)

def escapeChar (c : Char) : Text :=
  if c = '"' then ['\\', '"']
  else if c = '\\' then ['\\', '\\']
  else if c = '\x08' then ['\\', 'b']
  else if c = '\t' then ['\\', 't']
  else if c = '\n' then ['\\', 'n']
  else if c = '\x0c' then ['\\', 'f']
  else if c = '\r' then ['\\', 'r']
  else if c.toNat < 0x20 then ['\\', 'u', '0', '0', hexChar (c.toNat / 16), hexChar (c.toNat % 16)]
  else [c]

def escape (t : Text) : Text := t.flatMap escapeChar

def quote (t : Text) : Text := '"' :: (escape t ++ ['"'])

theorem hexDigit_hexChar : ∀ n < 16, hexDigit (hexChar n) = some n := by decide

theorem readString_control {c : Char} (h : c.toNat < 0x20) (s : Text) :
    readString ('\\' :: 'u' :: '0' :: '0' :: hexChar (c.toNat / 16) :: hexChar (c.toNat % 16) :: s) =
      push c (readString s) := by
  have hquad : hexQuad '0' '0' (hexChar (c.toNat / 16)) (hexChar (c.toNat % 16)) = some c.toNat := by
    have hzero : hexDigit '0' = some 0 := rfl
    simp only [hexQuad, hzero, hexDigit_hexChar (c.toNat / 16) (by omega),
      hexDigit_hexChar (c.toNat % 16) (by omega), Option.bind_eq_bind, Option.bind_some, Option.pure_def]
    congr 1
    omega
  simp only [readString, hquad]
  rw [if_pos (by omega), Char.ofNat_toNat]

theorem readString_escapeChar (c : Char) (s : Text) :
    readString (escapeChar c ++ s) = push c (readString s) := by
  unfold escapeChar
  split_ifs with h1 h2 h3 h4 h5 h6 h7 h8
  · subst h1; rfl
  · subst h2; rfl
  · subst h3; rfl
  · subst h4; rfl
  · subst h5; rfl
  · subst h6; rfl
  · subst h7; rfl
  · exact readString_control h8 s
  · rw [List.singleton_append, readString.eq_def]
    split
    · rename_i heq
      cases heq
    · rename_i heq
      cases heq
      exact absurd rfl h1
    · rename_i heq
      cases heq
      exact absurd rfl h2
    · rename_i heq
      cases heq
      exact absurd rfl h2
    · rename_i heq
      cases heq
      rw [if_neg h8]

theorem readString_escape (t s : Text) : readString (escape t ++ '"' :: s) = some (t, s) := by
  induction t with
  | nil => rfl
  | cons c t ih =>
      rw [escape, List.flatMap_cons, List.append_assoc, readString_escapeChar]
      change push c (readString (escape t ++ '"' :: s)) = _
      rw [ih]
      rfl

/-- The escaped text has a backslash exactly where some character had to be escaped. -/
theorem backslash_mem_escapeChar (c : Char) : '\\' ∈ escapeChar c ↔ mustEscape c = true := by
  have hctl : ∀ d : Char, d.toNat < 0x20 → mustEscape d = true := by
    intro d hd
    simp [mustEscape, hd]
  unfold escapeChar
  split_ifs with h1 h2 h3 h4 h5 h6 h7 h8
  · simp [h1, mustEscape]
  · simp [h2, mustEscape]
  · simp [h3, hctl '\x08' (by decide)]
  · simp [h4, hctl '\t' (by decide)]
  · simp [h5, hctl '\n' (by decide)]
  · simp [h6, hctl '\x0c' (by decide)]
  · simp [h7, hctl '\r' (by decide)]
  · simp [hctl c h8]
  · simp [mustEscape, h1, h2, h8, Ne.symm h2]

theorem backslash_mem_escape (t : Text) : '\\' ∈ escape t ↔ ∃ c ∈ t, mustEscape c = true := by
  simp only [escape, List.mem_flatMap, backslash_mem_escapeChar]

/-! Numbers -/

/-- What need not be escaped is no quote, no backslash and no control character. -/
theorem plain_ne {c : Char} (h : mustEscape c = false) : c ≠ '"' ∧ c ≠ '\\' ∧ ∀ d : Char, d.toNat < 0x20 → c ≠ d := by
  have hne : c ≠ '"' ∧ c ≠ '\\' ∧ ¬ c.toNat < 0x20 := by simpa [mustEscape, and_assoc] using h
  refine ⟨hne.1, hne.2.1, ?_⟩
  rintro d hd rfl
  exact hne.2.2 hd

theorem escapeChar_plain {c : Char} (h : mustEscape c = false) : escapeChar c = [c] := by
  obtain ⟨hquote, hslash, hlow⟩ := plain_ne h
  have hcontrol : ¬ c.toNat < 0x20 := fun hc => hlow c hc rfl
  simp only [escapeChar, hquote, hslash, hcontrol, hlow '\n' (by decide), hlow '\r' (by decide), hlow '\t' (by decide),
    hlow '\x08' (by decide), hlow '\x0c' (by decide), if_false]

theorem quote_plain {t : Text} (h : t.all (fun c => !mustEscape c) = true) : quote t = '"' :: (t ++ ['"']) := by
  have hescape : escape t = t.flatMap fun c => [c] := by
    refine List.flatMap_congr fun c hc => escapeChar_plain ?_
    simpa using List.all_eq_true.mp h c hc
  rw [quote, hescape, List.flatMap_singleton']

theorem mustEscape_digit {c : Char} (h : c.isDigit = true) : mustEscape c = false := by
  have hge : 48 ≤ c.toNat := by
    simp only [Char.isDigit, Bool.and_eq_true, decide_eq_true_eq] at h
    exact h.1
  simp only [mustEscape, Bool.or_eq_false_iff, decide_eq_false_iff_not]
  refine ⟨⟨?_, ?_⟩, by omega⟩
  · rintro rfl
    cases h
  · rintro rfl
    cases h

def isNumeralChar (c : Char) : Bool := c.isDigit || c = '-' || c = '+' || c = '.' || c = 'e' || c = 'E'

def exponentOk : Text → Bool
  | [] => true
  | c :: s =>
      let digits := match s with
        | '+' :: s | '-' :: s => s
        | s => s
      (c = 'e' || c = 'E') && digits ≠ [] && digits.all Char.isDigit

def fractionOk : Text → Bool
  | '.' :: s => s.takeWhile Char.isDigit ≠ [] && exponentOk (s.dropWhile Char.isDigit)
  | s => exponentOk s

def unsignedOk (s : Text) : Bool :=
  let digits := s.takeWhile Char.isDigit
  digits ≠ [] && (digits = ['0'] || digits.head? ≠ some '0') && fractionOk (s.dropWhile Char.isDigit)

/-- A minus sign or none, digits without a leading zero, and perhaps a fraction and an
exponent. -/
def isNumeral : Text → Bool
  | '-' :: s => unsignedOk s
  | s => unsignedOk s

theorem all_of_dropWhile_digits {s : Text} (h : (s.dropWhile Char.isDigit).all isNumeralChar) :
    s.all isNumeralChar := by
  induction s with
  | nil => rfl
  | cons c s ih =>
      by_cases hc : c.isDigit = true
      · rw [List.dropWhile_cons_of_pos hc] at h
        rw [List.all_cons, ih h, isNumeralChar, hc]
        rfl
      · rwa [List.dropWhile_cons_of_neg hc] at h

theorem exponentOk_all {s : Text} (h : exponentOk s = true) : s.all isNumeralChar := by
  have hdigits : ∀ t : Text, t.all Char.isDigit = true → t.all isNumeralChar = true := by
    intro t ht
    rw [List.all_eq_true] at ht ⊢
    intro c hc
    rw [isNumeralChar, ht c hc]
    rfl
  cases s with
  | nil => rfl
  | cons c s =>
      simp only [exponentOk, Bool.and_eq_true] at h
      obtain ⟨⟨hc, -⟩, hd⟩ := h
      have hs : s.all isNumeralChar = true := by
        split at hd
        · rw [List.all_cons, hdigits _ hd]
          rfl
        · rw [List.all_cons, hdigits _ hd]
          rfl
        · exact hdigits _ hd
      rw [List.all_cons, hs, Bool.and_true, isNumeralChar]
      simp only [Bool.or_eq_true, decide_eq_true_eq] at hc ⊢
      rcases hc with rfl | rfl <;> simp

theorem fractionOk_all {s : Text} (h : fractionOk s = true) : s.all isNumeralChar := by
  unfold fractionOk at h
  split at h
  · rw [Bool.and_eq_true] at h
    rw [List.all_cons, all_of_dropWhile_digits (exponentOk_all h.2)]
    rfl
  · exact exponentOk_all h

theorem unsignedOk_all {s : Text} (h : unsignedOk s = true) : s ≠ [] ∧ s.all isNumeralChar := by
  simp only [unsignedOk, Bool.and_eq_true] at h
  refine ⟨?_, all_of_dropWhile_digits (fractionOk_all h.2)⟩
  rintro rfl
  simp at h

theorem isNumeral_all {s : Text} (h : isNumeral s = true) : s ≠ [] ∧ s.all isNumeralChar := by
  unfold isNumeral at h
  split at h
  · refine ⟨List.cons_ne_nil _ _, ?_⟩
    rw [List.all_cons, (unsignedOk_all h).2]
    rfl
  · exact unsignedOk_all h

theorem decimal_head {n : Nat} (h : n ≠ 0) : (decimal n).head? ≠ some '0' := by
  induction n using Nat.strongRecOn with
  | ind n ih =>
      unfold decimal at ih ⊢
      by_cases hlt : n < 10
      · rw [Nat.toDigits_of_lt_base hlt]
        simp [h]
      · rw [Nat.toDigits_of_base_le (by decide) (by omega), List.head?_append_of_ne_nil _ Nat.toDigits_ne_nil]
        exact ih (n / 10) (by omega) (by omega)

theorem decimal_all_digits (n : Nat) : ∀ c ∈ decimal n, c.isDigit = true :=
  fun _ hc => Nat.isDigit_of_mem_toDigits (by decide) (by decide) hc

theorem unsignedOk_decimal (n : Nat) : unsignedOk (decimal n) = true := by
  have htake : (decimal n).takeWhile Char.isDigit = decimal n := by
    rw [← List.append_nil (decimal n), List.takeWhile_append_of_pos (decimal_all_digits n)]
    rfl
  have hdrop : (decimal n).dropWhile Char.isDigit = [] := by
    rw [← List.append_nil (decimal n), List.dropWhile_append_of_pos (decimal_all_digits n)]
    rfl
  have hzero : decimal n = ['0'] ∨ (decimal n).head? ≠ some '0' := by
    by_cases h : n = 0
    · exact .inl (h ▸ Nat.toDigits_zero 10)
    · exact .inr (decimal_head h)
  have hne : decimal n ≠ [] := Nat.toDigits_ne_nil
  simp only [unsignedOk, htake, hdrop, fractionOk, exponentOk]
  simp [hne, hzero]

theorem isNumeral_decimal (n : Nat) : isNumeral (decimal n) = true := by
  unfold isNumeral
  split
  · rename_i s heq
    have hminus := decimal_all_digits n '-' (by rw [heq]; exact List.mem_cons_self)
    cases hminus
  · exact unsignedOk_decimal n

/-! Values -/

def isSpace (c : Char) : Bool := c = ' ' || c = '\t' || c = '\n' || c = '\r'

def skipSpace (s : Text) : Text := s.dropWhile isSpace

def readNumeral (s : Text) : Option (Json Text × Text) :=
  let numeral := s.takeWhile isNumeralChar
  if isNumeral numeral then some (.num numeral, s.dropWhile isNumeralChar) else none

mutual
def readValue : Nat → Text → Option (Json Text × Text)
  | 0, _ => none
  | fuel + 1, s =>
      match skipSpace s with
      | 'n' :: 'u' :: 'l' :: 'l' :: s => some (.null, s)
      | 't' :: 'r' :: 'u' :: 'e' :: s => some (.bool true, s)
      | 'f' :: 'a' :: 'l' :: 's' :: 'e' :: s => some (.bool false, s)
      | '"' :: s => (readString s).map fun (t, s) => (.str t, s)
      | '[' :: s =>
          match skipSpace s with
          | ']' :: s => some (.arr [], s)
          | s => (readItems fuel s).map fun (items, s) => (.arr items, s)
      | '\x7b' :: s =>
          match skipSpace s with
          | '\x7d' :: s => some (.obj [], s)
          | s => (readMembers fuel s).map fun (members, s) => (.obj members, s)
      | s => readNumeral s

def readItems : Nat → Text → Option (List (Json Text) × Text)
  | 0, _ => none
  | fuel + 1, s =>
      match readValue fuel s with
      | none => none
      | some (v, s) =>
          match skipSpace s with
          | ',' :: s => (readItems fuel s).map fun (items, s) => (v :: items, s)
          | ']' :: s => some ([v], s)
          | _ => none

def readMembers : Nat → Text → Option (List (Text × Json Text) × Text)
  | 0, _ => none
  | fuel + 1, s =>
      match skipSpace s with
      | '"' :: s =>
          match readString s with
          | none => none
          | some (k, s) =>
              match skipSpace s with
              | ':' :: s =>
                  match readValue fuel s with
                  | none => none
                  | some (v, s) =>
                      match skipSpace s with
                      | ',' :: s => (readMembers fuel s).map fun (members, s) => ((k, v) :: members, s)
                      | '\x7d' :: s => some ([(k, v)], s)
                      | _ => none
              | _ => none
      | _ => none
end

/-- The value a whole text denotes. Every value takes at least one character, so the length
is fuel enough. -/
def parse (s : Text) : Option (Json Text) :=
  match readValue s.length s with
  | none => none
  | some (v, s) => if skipSpace s = [] then some v else none

mutual
def text : Json Text → Text
  | .null => ['n', 'u', 'l', 'l']
  | .bool true => ['t', 'r', 'u', 'e']
  | .bool false => ['f', 'a', 'l', 's', 'e']
  | .num n => n
  | .str s => quote s
  | .arr items => '[' :: (textItems items ++ [']'])
  | .obj members => '\x7b' :: (textMembers members ++ ['\x7d'])

def textItems : List (Json Text) → Text
  | [] => []
  | v :: items =>
      v.text ++ match items with
        | [] => []
        | _ :: _ => ',' :: textItems items

def textMembers : List (Text × Json Text) → Text
  | [] => []
  | (k, v) :: members =>
      quote k ++ ':' :: (v.text ++ match members with
        | [] => []
        | _ :: _ => ',' :: textMembers members)
end

def WellFormed (v : Json Text) : Prop := v.All fun n => isNumeral n = true

/-- Where a value ends: at the end of the text, or before what cannot belong to a numeral. -/
def Ends (s : Text) : Prop := ∀ c ∈ s.head?, isNumeralChar c = false

theorem ends_cons {c : Char} {s : Text} (h : isNumeralChar c = false) : Ends (c :: s) := by
  intro d hd
  cases hd
  exact h

theorem readNumeral_append {n s : Text} (h : isNumeral n = true) (hs : Ends s) :
    readNumeral (n ++ s) = some (.num n, s) := by
  have hall : ∀ c ∈ n, isNumeralChar c = true := List.all_eq_true.mp (isNumeral_all h).2
  have htake : s.takeWhile isNumeralChar = [] ∧ s.dropWhile isNumeralChar = s := by
    cases s with
    | nil => exact ⟨rfl, rfl⟩
    | cons c s =>
        have hc : ¬ isNumeralChar c = true := by simp [hs c rfl]
        exact ⟨List.takeWhile_cons_of_neg hc, List.dropWhile_cons_of_neg hc⟩
  simp only [readNumeral, List.takeWhile_append_of_pos hall, List.dropWhile_append_of_pos hall, htake.1, htake.2,
    List.append_nil, h, if_true]

/-- The characters a value may start with. -/
def opensValue (c : Char) : Bool :=
  c = 'n' || c = 't' || c = 'f' || c = '"' || c = '[' || c = '\x7b' || isNumeralChar c

theorem text_head {v : Json Text} (h : WellFormed v) : ∃ c s, v.text = c :: s ∧ opensValue c = true := by
  cases v with
  | null => exact ⟨_, _, rfl, rfl⟩
  | bool b => cases b <;> exact ⟨_, _, rfl, rfl⟩
  | num n =>
      obtain ⟨hne, hall⟩ := isNumeral_all h
      cases n with
      | nil => exact absurd rfl hne
      | cons c n =>
          rw [List.all_cons, Bool.and_eq_true] at hall
          exact ⟨c, n, rfl, by simp [opensValue, hall.1]⟩
  | str s => exact ⟨_, _, rfl, rfl⟩
  | arr items => exact ⟨_, _, rfl, rfl⟩
  | obj members => exact ⟨_, _, rfl, rfl⟩

theorem skipSpace_cons {c : Char} {s : Text} (h : isSpace c = false) : skipSpace (c :: s) = c :: s :=
  List.dropWhile_cons_of_neg (by simp [h])

theorem opensValue_cases {c : Char} (h : opensValue c = true) : isSpace c = false ∧ c ≠ ']' := by
  refine ⟨?_, ?_⟩
  · rw [← Bool.not_eq_true, isSpace]
    simp only [Bool.or_eq_true, decide_eq_true_eq]
    rintro (((rfl | rfl) | rfl) | rfl) <;> revert h <;> decide
  · rintro rfl
    revert h
    decide

theorem readValue_numeral {c : Char} {s : Text} (h : isNumeralChar c = true) (fuel : Nat) :
    readValue (fuel + 1) (c :: s) = readNumeral (c :: s) := by
  have hspace : isSpace c = false := (opensValue_cases (by simp [opensValue, h])).1
  rw [readValue, skipSpace_cons hspace]
  -- The last arm is the one for numerals; no other opens with such a character.
  split <;> first | rfl | (rename_i heq; cases heq; exact absurd h (by decide))

theorem readValue_items {c : Char} {s : Text} (h : opensValue c = true) (fuel : Nat) :
    readValue (fuel + 1) ('[' :: c :: s) = (readItems fuel (c :: s)).map fun (items, s) => (.arr items, s) := by
  obtain ⟨hspace, hne⟩ := opensValue_cases h
  rw [readValue, skipSpace_cons rfl]
  simp only [skipSpace_cons hspace]
  split
  · rename_i heq
    cases heq
    exact absurd rfl hne
  · rfl

mutual
/-- Reading undoes writing, whatever comes after the value. -/
theorem readValue_text : ∀ (v : Json Text) (fuel : Nat) (s : Text), WellFormed v → v.text.length ≤ fuel →
    Ends s → readValue fuel (v.text ++ s) = some (v, s)
  | .null, fuel + 1, s, _, _, _ => rfl
  | .bool true, fuel + 1, s, _, _, _ => rfl
  | .bool false, fuel + 1, s, _, _, _ => rfl
  | .num n, fuel, s, hwf, hfuel, hs => by
      obtain ⟨hne, hall⟩ := isNumeral_all hwf
      cases n with
      | nil => exact absurd rfl hne
      | cons c n =>
          rw [List.all_cons, Bool.and_eq_true] at hall
          cases fuel with
          | zero => simp [text] at hfuel
          | succ fuel => exact (readValue_numeral hall.1 fuel).trans (readNumeral_append hwf hs)
  | .str t, fuel + 1, s, _, _, _ => by
      have hread : readString (escape t ++ ['"'] ++ s) = some (t, s) := by
        rw [List.append_assoc]
        exact readString_escape t s
      change (readString (escape t ++ ['"'] ++ s)).map _ = _
      rw [hread]
      rfl
  | .arr [], fuel + 1, s, _, _, _ => rfl
  | .arr (v :: items), fuel + 1, s, hwf, hfuel, _ => by
      obtain ⟨c, t, hc, hopen⟩ := text_head hwf.1
      have hlen : (textItems (v :: items)).length + 1 ≤ fuel := by
        simp only [text, List.length_cons, List.length_append, List.length_nil] at hfuel
        omega
      have hitems := readItems_text (v :: items) fuel s hwf (List.cons_ne_nil _ _) hlen
      obtain ⟨t', ht'⟩ : ∃ t', textItems (v :: items) ++ ']' :: s = c :: t' := by
        cases items <;> rw [textItems, hc] <;> exact ⟨_, rfl⟩
      rw [text, List.cons_append, List.append_assoc, List.singleton_append, ht', readValue_items hopen, ← ht', hitems]
      rfl
  | .obj [], fuel + 1, s, _, _, _ => rfl
  | .obj ((k, v) :: members), fuel + 1, s, hwf, hfuel, _ => by
      have hlen : (textMembers ((k, v) :: members)).length + 1 ≤ fuel := by
        simp only [text, List.length_cons, List.length_append, List.length_nil] at hfuel
        omega
      have hmembers := readMembers_text ((k, v) :: members) fuel s hwf (List.cons_ne_nil _ _) hlen
      rw [text, List.cons_append, List.append_assoc, List.singleton_append]
      change (readMembers fuel (textMembers ((k, v) :: members) ++ '\x7d' :: s)).map _ = _
      rw [hmembers]
      rfl

theorem readItems_text : ∀ (items : List (Json Text)) (fuel : Nat) (s : Text),
    AllItems (fun n => isNumeral n = true) items → items ≠ [] → (textItems items).length + 1 ≤ fuel →
    readItems fuel (textItems items ++ ']' :: s) = some (items, s)
  | [], _, _, _, hne, _ => absurd rfl hne
  | [v], fuel + 1, s, hwf, _, hfuel => by
      have hlen : v.text.length ≤ fuel := by simpa [textItems] using hfuel
      have hv := readValue_text v fuel (']' :: s) hwf.1 hlen (ends_cons rfl)
      rw [textItems, List.append_nil, readItems, hv]
      rfl
  | v :: w :: items, fuel + 1, s, hwf, _, hfuel => by
      rw [textItems, List.length_append, List.length_cons] at hfuel
      have hv := readValue_text v fuel (',' :: (textItems (w :: items) ++ ']' :: s)) hwf.1 (by omega) (ends_cons rfl)
      have hrest := readItems_text (w :: items) fuel s hwf.2 (List.cons_ne_nil _ _) (by omega)
      rw [textItems, List.append_assoc, List.cons_append, readItems, hv]
      change (readItems fuel (textItems (w :: items) ++ ']' :: s)).map _ = _
      rw [hrest]
      rfl

theorem readMembers_text : ∀ (members : List (Text × Json Text)) (fuel : Nat) (s : Text),
    AllMembers (fun n => isNumeral n = true) members → members ≠ [] → (textMembers members).length + 1 ≤ fuel →
    readMembers fuel (textMembers members ++ '\x7d' :: s) = some (members, s)
  | [], _, _, _, hne, _ => absurd rfl hne
  | [(k, v)], fuel + 1, s, hwf, _, hfuel => by
      have hlen : v.text.length ≤ fuel := by
        simp only [textMembers, List.length_append, List.length_cons] at hfuel
        omega
      have hv := readValue_text v fuel ('\x7d' :: s) hwf.1 hlen (ends_cons rfl)
      have hkey := readString_escape k (':' :: (v.text ++ '\x7d' :: s))
      rw [textMembers, List.append_nil, quote, List.cons_append, List.cons_append, readMembers,
        skipSpace_cons rfl]
      simp only [List.append_assoc, List.cons_append, List.nil_append, hkey, skipSpace_cons (c := ':') rfl, hv]
      rfl
  | (k, v) :: w :: members, fuel + 1, s, hwf, _, hfuel => by
      rw [textMembers] at hfuel
      simp only [List.length_append, List.length_cons] at hfuel
      have hv := readValue_text v fuel (',' :: (textMembers (w :: members) ++ '\x7d' :: s)) hwf.1 (by omega)
        (ends_cons rfl)
      have hrest := readMembers_text (w :: members) fuel s hwf.2 (List.cons_ne_nil _ _) (by omega)
      have hkey := readString_escape k (':' :: (v.text ++ ',' :: (textMembers (w :: members) ++ '\x7d' :: s)))
      rw [textMembers, quote, List.cons_append, List.cons_append, readMembers, skipSpace_cons rfl]
      simp only [List.append_assoc, List.cons_append, List.nil_append, hkey, skipSpace_cons (c := ':') rfl, hv,
        skipSpace_cons (c := ',') rfl, hrest]
      rfl
end

theorem parse_text {v : Json Text} (h : WellFormed v) : parse v.text = some v := by
  have hread := readValue_text v v.text.length [] h (le_refl _) (by intro c hc; cases hc)
  rw [List.append_nil] at hread
  rw [parse, hread]
  rfl

end Json
end Lib
