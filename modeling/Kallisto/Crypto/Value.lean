import Kallisto.Crypto.Codec
import Kallisto.Lib.JsonValue

/-!
The owned side of the format: `serde_json::Value` without arbitrary precision, and `Contents`
as it is read from a plaintext file. An integer that fits 64 bits is kept; every other number
becomes the double that serde_json reads.
-/
namespace Kallisto.Crypto
open Lib

/-- Doubles enter as two functions: the finite double that is read for a numeral, and the numeral
one is printed as. Without float_roundtrip reading rounds twice, so what is read need not be the
nearest double, nor the one the numeral was printed from. -/
structure Doubles (F : Type) where
  read : Text → Option F
  print : F → Text

/-- A double is written with a point or an exponent. -/
structure Doubles.Documented {F : Type} (D : Doubles F) : Prop where
  numeral : ∀ f, Json.isNumeral (D.print f) = true
  pointed : ∀ f, Json.integerOf (D.print f) = none

/-- `neg below` is `-1 - below`. -/
inductive Number (F : Type) where
  | pos (v : UInt64)
  | neg (below : Fin (2 ^ 63))
  | float (f : F)
  deriving DecidableEq

section Numbers
variable {F : Type} (D : Doubles F)

def Number.print : Number F → Text
  | .pos v => decimal v.toNat
  | .neg below => '-' :: decimal (below.val + 1)
  | .float f => D.print f

theorem pred_lt_of_fits {P : Prop} {n : Nat} (h : P ∧ 0 < n ∧ n ≤ 2 ^ 63) : n - 1 < 2 ^ 63 := by omega

/-- An integer literal that fits; `-0` is not among them. -/
def exactNumber : Text → Option (Number F)
  | '-' :: s =>
      if h : s.all Char.isDigit ∧ 0 < Json.digits s ∧ Json.digits s ≤ 2 ^ 63 then
        some (.neg ⟨Json.digits s - 1, pred_lt_of_fits h⟩)
      else none
  | s => if s.all Char.isDigit ∧ Json.digits s < 2 ^ 64 then some (.pos (UInt64.ofNat (Json.digits s))) else none

def readNumber (numeral : Text) : Option (Number F) :=
  match exactNumber numeral with
  | some n => some n
  | none => (D.read numeral).map .float

/-- The literal is an integer that `i64` or `u64` holds, other than `-0`. -/
def fits : Text → Bool
  | '-' :: s => s.all Char.isDigit && 0 < Json.digits s && Json.digits s ≤ 2 ^ 63
  | s => s.all Char.isDigit && Json.digits s < 2 ^ 64

theorem exactNumber_isSome (numeral : Text) : (exactNumber numeral : Option (Number F)).isSome = fits numeral := by
  unfold exactNumber fits
  split
  · split_ifs with h
    · simpa [and_assoc] using h
    · simpa [and_assoc] using h
  · split_ifs with h
    · simpa using h
    · simpa using h

theorem integerOf_decimal (n : Nat) : Json.integerOf (decimal n) = some (n : Int) := by
  have hall : (decimal n).all Char.isDigit = true := List.all_eq_true.mpr (Json.decimal_all_digits n)
  have hvalue : Json.digits (decimal n) = n := Nat.ofDigitChars_ten_toDigits
  unfold Json.integerOf
  split
  · rename_i s heq
    rw [heq] at hall
    simp at hall
  · rw [if_pos hall, hvalue]

theorem integerOf_neg (n : Nat) : Json.integerOf ('-' :: decimal n) = some (-(n : Int)) := by
  have hall : (decimal n).all Char.isDigit = true := List.all_eq_true.mpr (Json.decimal_all_digits n)
  have hvalue : Json.digits (decimal n) = n := Nat.ofDigitChars_ten_toDigits
  rw [Json.integerOf, if_pos hall, hvalue]

/-- An integer that is kept is written as itself. -/
theorem exactNumber_integer {numeral : Text} {n : Number F} (h : exactNumber numeral = some n) :
    ∃ k, Json.integerOf numeral = some k ∧ ∀ D : Doubles F, Json.integerOf (n.print D) = some k := by
  unfold exactNumber at h
  split at h
  · rename_i s
    split_ifs at h with hs
    cases h
    refine ⟨-Json.digits s, ?_, ?_⟩
    · rw [Json.integerOf, if_pos hs.1]
    · intro D
      rw [Number.print, integerOf_neg]
      congr 2
      dsimp only
      omega
  · rename_i hsign
    split_ifs at h with hs
    cases h
    refine ⟨(Json.digits numeral : Int), ?_, ?_⟩
    · unfold Json.integerOf
      split
      · rename_i t
        exact absurd rfl (hsign t)
      · rw [if_pos hs.1]
    · intro D
      rw [Number.print, integerOf_decimal, UInt64.toNat_ofNat_of_lt' hs.2]

theorem exactNumber_none {numeral : Text} (h : Json.integerOf numeral = none) :
    (exactNumber numeral : Option (Number F)) = none := by
  cases he : (exactNumber numeral : Option (Number F)) with
  | none => rfl
  | some n =>
      obtain ⟨k, hk, -⟩ := exactNumber_integer he
      rw [h] at hk
      cases hk

variable {D}

theorem print_isNumeral (documented : D.Documented) (n : Number F) : Json.isNumeral (n.print D) = true := by
  cases n with
  | pos v => exact Json.isNumeral_decimal _
  | neg below => exact Json.unsignedOk_decimal _
  | float f => exact documented.numeral f

/-- What a number is written as is read as that number, unless it is a double that is not. -/
theorem readNumber_print (documented : D.Documented) (n : Number F) :
    readNumber D (n.print D) = some n ↔ ∀ f, n = .float f → D.read (D.print f) = some f := by
  cases n with
  | pos v =>
      have hall : (decimal v.toNat).all Char.isDigit = true := List.all_eq_true.mpr (Json.decimal_all_digits _)
      have hvalue : Json.digits (decimal v.toNat) = v.toNat := Nat.ofDigitChars_ten_toDigits
      have hexact : (exactNumber (decimal v.toNat) : Option (Number F)) = some (.pos v) := by
        unfold exactNumber
        split
        · rename_i s heq
          rw [heq] at hall
          simp at hall
        · rw [hvalue, if_pos ⟨hall, v.toNat_lt⟩, UInt64.ofNat_toNat]
      rw [Number.print, readNumber, hexact]
      exact ⟨fun _ => nofun, fun _ => rfl⟩
  | neg below =>
      have hall : (decimal (below.val + 1)).all Char.isDigit = true :=
        List.all_eq_true.mpr (Json.decimal_all_digits _)
      have hvalue : Json.digits (decimal (below.val + 1)) = below.val + 1 := Nat.ofDigitChars_ten_toDigits
      have hexact : (exactNumber ('-' :: decimal (below.val + 1)) : Option (Number F)) = some (.neg below) := by
        simp only [exactNumber]
        rw [dif_pos ⟨hall, by omega, by omega⟩]
        simp only [hvalue, Nat.add_sub_cancel]
      rw [Number.print, readNumber, hexact]
      exact ⟨fun _ => nofun, fun _ => rfl⟩
  | float f =>
      rw [Number.print, readNumber, exactNumber_none (documented.pointed f)]
      simp

end Numbers

/-- Both numerals stand for one number. -/
def SameNumber (a b : Text) : Prop := (Json.numeralValue a).Same (Json.numeralValue b)

/-- Where the first numeral is an integer literal, the second stands for that integer. -/
def SameInteger (a b : Text) : Prop := ∀ n, Json.integerOf a = some n → (Json.numeralValue b).Same ⟨n, 0⟩

/-- Two texts of one value, up to `R` between their numerals. -/
def SameValue (R : Text → Text → Prop) (raw raw' : Text) : Prop :=
  ∃ v v', Json.parse raw = some v ∧ Json.parse raw' = some v' ∧ v.canon.Rel R v'.canon

/-- Nested containers are counted, and the count must stay below this. -/
def RECURSION_LIMIT : Nat := 128

section Values
variable {F : Type} (D : Doubles F)

/-- A `Value`, read below `outer` containers. -/
def readJson (outer : Nat) (v : Json Text) : Option (Json (Number F)) :=
  if outer + v.depth < RECURSION_LIMIT then (v.traverse (readNumber D)).map Json.canon else none

/-- `serde_json::from_str::<Value>`. -/
def valueFromStr (raw : Text) : Option (Json (Number F)) := (Json.parse raw).bind (readJson D 0)

/-- The numeral is kept: it fits, or its double happens to be spelled as the same number. -/
def KeptBy (R : Text → Text → Prop) (numeral : Text) : Prop :=
  fits numeral = true ∨ ∃ f, D.read numeral = some f ∧ R numeral (D.print f)

variable {D}

theorem sameNumber_of_integer {a b : Text} {k : Int} (ha : Json.integerOf a = some k)
    (hb : Json.integerOf b = some k) : SameNumber a b := by
  rw [SameNumber, Json.numeralValue_integer ha, Json.numeralValue_integer hb]
  rfl

theorem sameInteger_of_integer {a b : Text} {k : Int} (ha : Json.integerOf a = some k)
    (hb : Json.integerOf b = some k) : SameInteger a b := by
  intro n hn
  obtain rfl : k = n := Option.some.inj (ha.symm.trans hn)
  rw [Json.numeralValue_integer hb]
  rfl

/-- A numeral survives being read and written again exactly where it is kept. -/
theorem respelled_iff {R : Text → Text → Prop}
    (integers : ∀ {a b k}, Json.integerOf a = some k → Json.integerOf b = some k → R a b) (numeral : Text) :
    (∃ n, readNumber D numeral = some n ∧ R numeral (n.print D)) ↔ KeptBy D R numeral := by
  have hfits := exactNumber_isSome (F := F) numeral
  unfold readNumber KeptBy
  cases he : (exactNumber numeral : Option (Number F)) with
  | some n =>
      obtain ⟨k, hk, hprint⟩ := exactNumber_integer he
      rw [he] at hfits
      simp only [Option.some.injEq, exists_eq_left', ← hfits, Option.isSome_some, true_or, iff_true]
      exact integers hk (hprint D)
  | none =>
      rw [he] at hfits
      simp [← hfits, Number.print]

theorem readNumber_isSome (numeral : Text) :
    (readNumber D numeral).isSome ↔ fits numeral = true ∨ (D.read numeral).isSome := by
  rw [← exactNumber_isSome (F := F) numeral, readNumber]
  cases (exactNumber numeral : Option (Number F)) <;> simp

theorem readNumber_print_isSome (documented : D.Documented) (n : Number F) :
    (readNumber D (n.print D)).isSome ↔ ∀ f, n = .float f → (D.read (D.print f)).isSome := by
  cases n with
  | float f =>
      rw [Number.print, readNumber, exactNumber_none (documented.pointed f)]
      simp
  | pos v => simp [(readNumber_print documented (.pos v)).mpr nofun]
  | neg below => simp [(readNumber_print documented (.neg below)).mpr nofun]

theorem readJson_isSome {outer : Nat} {v : Json Text} : (readJson D outer v).isSome ↔
    outer + v.depth < RECURSION_LIMIT ∧ v.All fun n => fits n = true ∨ (D.read n).isSome := by
  have hall := Json.traverse_isSome (f := readNumber D) v
  simp only [readNumber_isSome] at hall
  unfold readJson
  split_ifs with hdepth
  · simp [hdepth, hall]
  · simp [hdepth]

/-- What `Value` makes of a text, and when that is still the same value. -/
theorem rewritten_iff {R : Text → Text → Prop}
    (integers : ∀ {a b k}, Json.integerOf a = some k → Json.integerOf b = some k → R a b) {v : Json Text}
    {w : Json (Number F)} {outer : Nat} (h : readJson D outer v = some w) :
    v.canon.Rel R (w.map (Number.print D)).canon ↔ v.canon.All (KeptBy D R) := by
  unfold readJson at h
  split_ifs at h
  obtain ⟨u, hu, rfl⟩ := Option.map_eq_some_iff.mp h
  have hread : v.canon.Rel (fun a b => readNumber D a = some b) u.canon := (Json.rel_of_traverse hu).canon
  rw [Json.canon_map_canon, Json.rel_map_right, Json.rel_iff_all hread]
  simp only [respelled_iff integers]

end Values

/-! The plaintext file -/

/-- The fields of `Contents` as they are met; `S` is what the secrets are read as. -/
structure ContentsFields (S : Type) where
  version : Option UInt64
  secrets : Option S
  policies : Option (SortedMap Text (List PolicyRule))
  tokens : Option (SortedMap Text (List Text))
  tokenKey : Option (Option Text)

def readOptional : Json Text → Option (Option Text)
  | .null => some none
  | .str s => some (some s)
  | _ => none

section Reading
variable {S : Type} (secrets : Json Text → Option S)

def ContentsFields.visit (f : ContentsFields S) (member : Text × Json Text) : Option (ContentsFields S) :=
  if member.1 = "version".toList then do return { f with version := ← once f.version (readU64 member.2) }
  else if member.1 = "secrets".toList then do
    return { f with secrets := ← once f.secrets (secrets member.2) }
  else if member.1 = "policies".toList then do
    return { f with policies := ← once f.policies (readMap some readRules member.2) }
  else if member.1 = "tokens".toList then do
    return { f with tokens := ← once f.tokens (readMap some readStrings member.2) }
  else if member.1 = "token_key".toList then do
    return { f with tokenKey := ← once f.tokenKey (readOptional member.2) }
  else none

/-- An object is visited member by member; an array holds the fields in their order, and may
end after any of them. -/
def readFields : Json Text → Option (ContentsFields S)
  | .obj members => members.foldlM (ContentsFields.visit secrets) ⟨none, none, none, none, none⟩
  | .arr items =>
      let names := ["version".toList, "secrets".toList, "policies".toList, "tokens".toList, "token_key".toList]
      if items.length ≤ names.length then
        (names.zip items).foldlM (ContentsFields.visit secrets) ⟨none, none, none, none, none⟩
      else none
  | _ => none

end Reading

def ContentsFields.contents {V : Type} (f : ContentsFields (SortedMap Text V)) : Option (Contents V) := do
  return {
    version := ← f.version
    secrets := f.secrets.getD .empty
    policies := f.policies.getD .empty
    tokens := f.tokens.getD .empty
    tokenKey := f.tokenKey.getD none }

/-- `Contents`, with every secret read by `value`. -/
def Contents.read {V : Type} (value : Json Text → Option V) (j : Json Text) : Option (Contents V) :=
  (readFields (readMap some value) j).bind ContentsFields.contents

/-- `serde_json::from_str::<Contents>`; a secret stands inside two containers. -/
def contentsFromStr {F : Type} (D : Doubles F) (text : Text) : Option (Contents (Json (Number F))) :=
  (Json.parse text).bind (Contents.read (readJson D 2))

/-- The file as its author wrote it: the secrets are left as they stand. -/
def written (text : Text) : Option (Contents (Json Text)) := (Json.parse text).bind (Contents.read some)

section Written
variable {S T V : Type}

/-- The same fields, and secrets that correspond. -/
structure FieldsRel (R : S → T → Prop) (f : ContentsFields S) (g : ContentsFields T) : Prop where
  version : f.version = g.version
  policies : f.policies = g.policies
  tokens : f.tokens = g.tokens
  tokenKey : f.tokenKey = g.tokenKey
  secrets : Option.Rel R f.secrets g.secrets

section Related
variable {R : S → T → Prop} {read : Json Text → Option S} {read' : Json Text → Option T}
  (hread : ∀ j t, read' j = some t → ∃ s, read j = some s ∧ R s t)
include hread

theorem visit_related {f : ContentsFields S} {g g' : ContentsFields T} (h : FieldsRel R f g)
    {member : Text × Json Text} (hv : g.visit read' member = some g') :
    ∃ f', f.visit read member = some f' ∧ FieldsRel R f' g' := by
  unfold ContentsFields.visit at hv ⊢
  split_ifs at hv ⊢
  · obtain ⟨x, hx, hg⟩ := Option.bind_eq_some_iff.mp hv
    cases hg
    rw [h.version, hx]
    exact ⟨_, rfl, { h with version := rfl }⟩
  · obtain ⟨x, hx, hg⟩ := Option.bind_eq_some_iff.mp hv
    cases hg
    obtain ⟨hnone, t, ht, rfl⟩ := once_some hx
    obtain ⟨s, hs, hR⟩ := hread _ _ ht
    have hempty : f.secrets = none := by
      have hrel := h.secrets
      rw [hnone] at hrel
      cases hf : f.secrets with
      | none => rfl
      | some s =>
          rw [hf] at hrel
          cases hrel
    rw [hempty, hs]
    exact ⟨_, rfl, { h with secrets := .some hR }⟩
  · obtain ⟨x, hx, hg⟩ := Option.bind_eq_some_iff.mp hv
    cases hg
    rw [h.policies, hx]
    exact ⟨_, rfl, { h with policies := rfl }⟩
  · obtain ⟨x, hx, hg⟩ := Option.bind_eq_some_iff.mp hv
    cases hg
    rw [h.tokens, hx]
    exact ⟨_, rfl, { h with tokens := rfl }⟩
  · obtain ⟨x, hx, hg⟩ := Option.bind_eq_some_iff.mp hv
    cases hg
    rw [h.tokenKey, hx]
    exact ⟨_, rfl, { h with tokenKey := rfl }⟩

theorem foldlM_related {members : List (Text × Json Text)} {f : ContentsFields S} {g g' : ContentsFields T}
    (h : FieldsRel R f g) (hv : members.foldlM (ContentsFields.visit read') g = some g') :
    ∃ f', members.foldlM (ContentsFields.visit read) f = some f' ∧ FieldsRel R f' g' := by
  induction members generalizing f g with
  | nil =>
      cases hv
      exact ⟨f, rfl, h⟩
  | cons member members ih =>
      rw [List.foldlM_cons] at hv
      obtain ⟨g₁, hg₁, hrest⟩ := Option.bind_eq_some_iff.mp hv
      obtain ⟨f₁, hf₁, hrel⟩ := visit_related hread h hg₁
      obtain ⟨f', hf', hrel'⟩ := ih hrel hrest
      refine ⟨f', ?_, hrel'⟩
      rw [List.foldlM_cons, hf₁]
      exact hf'

theorem readFields_related {j : Json Text} {g : ContentsFields T} (hv : readFields read' j = some g) :
    ∃ f, readFields read j = some f ∧ FieldsRel R f g := by
  have hstart : FieldsRel R (⟨none, none, none, none, none⟩ : ContentsFields S) ⟨none, none, none, none, none⟩ :=
    ⟨rfl, rfl, rfl, rfl, .none⟩
  cases j with
  | obj members => exact foldlM_related hread hstart hv
  | arr items =>
      simp only [readFields] at hv ⊢
      split_ifs at hv ⊢
      exact foldlM_related hread hstart hv
  | _ => cases hv

end Related

theorem readMap_written {value : Json Text → Option V} {j : Json Text} {m : SortedMap Text V}
    (h : readMap some value j = some m) :
    ∃ w, readMap some some j = some w ∧
      List.Forall₂ (SortedMap.Bound fun a b => value a = some b) w.entries m.entries := by
  cases j with
  | obj members =>
      obtain ⟨l, hl, rfl⟩ := Option.map_eq_some_iff.mp h
      refine ⟨.ofList members, ?_, SortedMap.ofList_related ?_⟩
      · have hall : (members.map id).mapM (readEntry some some) = some (members.map id) := mapM_some fun _ _ => rfl
        rw [List.map_id] at hall
        rw [readMap, hall]
        rfl
      · refine (mapM_eq_some.mp hl).imp ?_
        intro e b he
        simp only [readEntry, Option.bind_eq_bind, Option.bind_some] at he
        obtain ⟨v, hv, hb⟩ := Option.bind_eq_some_iff.mp he
        cases hb
        exact ⟨rfl, hv⟩
  | _ => cases h

/-- What was read out of a file is what was written into it, secret by secret. -/
theorem read_written {value : Json Text → Option V} {j : Json Text} {c : Contents V}
    (h : Contents.read value j = some c) :
    ∃ w, Contents.read some j = some w ∧ w.version = c.version ∧ w.policies = c.policies ∧ w.tokens = c.tokens ∧
      w.tokenKey = c.tokenKey ∧
      List.Forall₂ (SortedMap.Bound fun a b => value a = some b) w.secrets.entries c.secrets.entries := by
  obtain ⟨g, hg, hc⟩ := Option.bind_eq_some_iff.mp h
  obtain ⟨f, hf, hrel⟩ := readFields_related (fun j t ht => readMap_written ht) hg
  obtain ⟨version, hversion, hcontents⟩ := Option.bind_eq_some_iff.mp hc
  cases hcontents
  refine ⟨⟨version, f.secrets.getD .empty, g.policies.getD .empty, g.tokens.getD .empty, g.tokenKey.getD none⟩, ?_, rfl,
    rfl, rfl, rfl, ?_⟩
  · rw [Contents.read, hf, Option.bind_some, ContentsFields.contents, hrel.version, hversion, hrel.policies, hrel.tokens,
      hrel.tokenKey]
    rfl
  · have hsecrets := hrel.secrets
    dsimp only
    generalize f.secrets = a at hsecrets ⊢
    generalize g.secrets = b at hsecrets ⊢
    cases hsecrets with
    | none => exact .nil
    | some hR => exact hR

end Written

/-- The writer and the reader over `Number`, in full. -/
def compactValues {F : Type} (D : Doubles F) : SerdeJson (Number F) where
  print := Number.print D
  toVec c := some (utf8 (Json.obj (c.members (Number.print D))).text)
  fromSlice := compactSerde.fromSlice

theorem compactValues_compact {F : Type} {D : Doubles F} (documented : D.Documented) :
    (compactValues D).Compact where
  numeral := print_isNumeral documented
  writes _ := rfl
  reads := compactSerde_compact.reads

/-- The double next to 2^64, which its shortest numeral does not spell out. -/
def oneDouble : Doubles Unit where
  read numeral :=
    if numeral = "18446744073709551616".toList ∨ numeral = "1.8446744073709552e+19".toList then some () else none
  print _ := "1.8446744073709552e+19".toList

theorem oneDouble_documented : oneDouble.Documented where
  numeral := fun () => by decide
  pointed := fun () => by decide

end Kallisto.Crypto
