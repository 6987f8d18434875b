import Kallisto.Lib.Json
import Kallisto.Lib.SortedMap
import Mathlib.Algebra.Ring.Int.Defs

/-!
What a JSON text denotes. Two texts of one value differ in the order of the members of an
object, in members that a later one of the same name replaces, and in the spelling of numbers.
-/
namespace Lib.Json

section Walks
variable {N M L : Type}

mutual
/-- The members of every object in the order of their names, and of two of one name the later. -/
def canon : Json N → Json N
  | .arr items => .arr (canonItems items)
  | .obj members => .obj (SortedMap.ofList (canonMembers members)).entries
  | .null => .null
  | .bool b => .bool b
  | .num n => .num n
  | .str s => .str s

def canonItems : List (Json N) → List (Json N)
  | [] => []
  | v :: items => v.canon :: canonItems items

def canonMembers : List (Text × Json N) → List (Text × Json N)
  | [] => []
  | (k, v) :: members => (k, v.canon) :: canonMembers members
end

mutual
/-- How deep arrays and objects are nested. -/
def depth : Json N → Nat
  | .arr items => depthItems items + 1
  | .obj members => depthMembers members + 1
  | .null | .bool _ | .num _ | .str _ => 0

def depthItems : List (Json N) → Nat
  | [] => 0
  | v :: items => max v.depth (depthItems items)

def depthMembers : List (Text × Json N) → Nat
  | [] => 0
  | (_, v) :: members => max v.depth (depthMembers members)
end

mutual
/-- The same value but for the numbers, which correspond. -/
def Rel (R : N → M → Prop) : Json N → Json M → Prop
  | .null, .null => True
  | .bool a, .bool b => a = b
  | .num n, .num m => R n m
  | .str s, .str t => s = t
  | .arr items, .arr items' => RelItems R items items'
  | .obj members, .obj members' => RelMembers R members members'
  | _, _ => False

def RelItems (R : N → M → Prop) : List (Json N) → List (Json M) → Prop
  | [], [] => True
  | v :: items, w :: items' => v.Rel R w ∧ RelItems R items items'
  | _, _ => False

def RelMembers (R : N → M → Prop) : List (Text × Json N) → List (Text × Json M) → Prop
  | [], [] => True
  | (k, v) :: members, (l, w) :: members' => k = l ∧ v.Rel R w ∧ RelMembers R members members'
  | _, _ => False
end

theorem relMembers_iff {R : N → M → Prop} {members : List (Text × Json N)} {members' : List (Text × Json M)} :
    RelMembers R members members' ↔ List.Forall₂ (SortedMap.Bound fun v w => v.Rel R w) members members' := by
  induction members generalizing members' with
  | nil => cases members' <;> simp [RelMembers]
  | cons m members ih =>
      obtain ⟨k, v⟩ := m
      cases members' with
      | nil => simp [RelMembers]
      | cons m' members' =>
          obtain ⟨l, w⟩ := m'
          rw [RelMembers, List.forall₂_cons, ih, SortedMap.Bound, and_assoc]

mutual
theorem rel_of_traverse {f : N → Option M} : ∀ {v : Json N} {w : Json M}, v.traverse f = some w →
    v.Rel (fun a b => f a = some b) w
  | .null, w, h => by
      cases h
      trivial
  | .bool b, w, h => by
      cases h
      rfl
  | .str s, w, h => by
      cases h
      rfl
  | .num n, w, h => by
      obtain ⟨m, hm, rfl⟩ := Option.map_eq_some_iff.mp h
      exact hm
  | .arr items, w, h => by
      obtain ⟨items', hitems, rfl⟩ := Option.map_eq_some_iff.mp h
      exact relItems_of_traverse hitems
  | .obj members, w, h => by
      obtain ⟨members', hmembers, rfl⟩ := Option.map_eq_some_iff.mp h
      exact relMembers_of_traverse hmembers

theorem relItems_of_traverse {f : N → Option M} : ∀ {items : List (Json N)} {items' : List (Json M)},
    traverseItems f items = some items' → RelItems (fun a b => f a = some b) items items'
  | [], _, h => by
      cases h
      trivial
  | v :: items, items', h => by
      simp only [traverseItems, Option.bind_eq_bind, Option.bind_eq_some_iff] at h
      obtain ⟨w, hw, rest, hrest, hcons⟩ := h
      cases hcons
      exact ⟨rel_of_traverse hw, relItems_of_traverse hrest⟩

theorem relMembers_of_traverse {f : N → Option M} : ∀ {members : List (Text × Json N)}
    {members' : List (Text × Json M)}, traverseMembers f members = some members' →
      RelMembers (fun a b => f a = some b) members members'
  | [], _, h => by
      cases h
      trivial
  | (k, v) :: members, members', h => by
      simp only [traverseMembers, Option.bind_eq_bind, Option.bind_eq_some_iff] at h
      obtain ⟨w, hw, rest, hrest, hcons⟩ := h
      cases hcons
      exact ⟨rfl, rel_of_traverse hw, relMembers_of_traverse hrest⟩
end

mutual
theorem traverse_of_rel {f : N → Option M} : ∀ {v : Json N} {w : Json M}, v.Rel (fun a b => f a = some b) w →
    v.traverse f = some w
  | .null, .null, _ => rfl
  | .bool _, .bool _, h => congrArg (fun b => some (Json.bool b)) h
  | .str _, .str _, h => congrArg (fun s => some (Json.str s)) h
  | .num _, .num _, h => congrArg (Option.map Json.num) h
  | .arr _, .arr _, h => congrArg (Option.map Json.arr) (traverseItems_of_rel h)
  | .obj _, .obj _, h => congrArg (Option.map Json.obj) (traverseMembers_of_rel h)

theorem traverseItems_of_rel {f : N → Option M} : ∀ {items : List (Json N)} {items' : List (Json M)},
    RelItems (fun a b => f a = some b) items items' → traverseItems f items = some items'
  | [], [], _ => rfl
  | v :: items, w :: items', h => by
      rw [traverseItems, traverse_of_rel h.1, traverseItems_of_rel h.2]
      rfl

theorem traverseMembers_of_rel {f : N → Option M} : ∀ {members : List (Text × Json N)}
    {members' : List (Text × Json M)}, RelMembers (fun a b => f a = some b) members members' →
      traverseMembers f members = some members'
  | [], [], _ => rfl
  | (k, v) :: members, (l, w) :: members', h => by
      obtain ⟨rfl, hv, hrest⟩ := h
      rw [traverseMembers, traverse_of_rel hv, traverseMembers_of_rel hrest]
      rfl
end

mutual
theorem traverse_isSome {f : N → Option M} : ∀ v : Json N,
    (v.traverse f).isSome ↔ v.All fun n => (f n).isSome
  | .null | .bool _ | .str _ => by simp [traverse, All]
  | .num n => by simp [traverse, All]
  | .arr items => by simpa [traverse, All] using traverseItems_isSome items
  | .obj members => by simpa [traverse, All] using traverseMembers_isSome members

theorem traverseItems_isSome {f : N → Option M} : ∀ items : List (Json N),
    (traverseItems f items).isSome ↔ AllItems (fun n => (f n).isSome) items
  | [] => by simp [traverseItems, AllItems]
  | v :: items => by
      rw [AllItems, ← traverse_isSome v, ← traverseItems_isSome items, traverseItems]
      cases v.traverse f <;> cases traverseItems f items <;> simp

theorem traverseMembers_isSome {f : N → Option M} : ∀ members : List (Text × Json N),
    (traverseMembers f members).isSome ↔ AllMembers (fun n => (f n).isSome) members
  | [] => by simp [traverseMembers, AllMembers]
  | (k, v) :: members => by
      rw [AllMembers, ← traverse_isSome v, ← traverseMembers_isSome members, traverseMembers]
      cases v.traverse f <;> cases traverseMembers f members <;> simp
end

mutual
theorem Rel.canon {R : N → M → Prop} : ∀ {v : Json N} {w : Json M}, v.Rel R w → v.canon.Rel R w.canon
  | .null, .null, h | .bool _, .bool _, h | .num _, .num _, h | .str _, .str _, h => h
  | .arr _, .arr _, h => RelItems.canon h
  | .obj _, .obj _, h => relMembers_iff.mpr (SortedMap.ofList_related (relMembers_iff.mp (RelMembers.canon h)))

theorem RelItems.canon {R : N → M → Prop} : ∀ {items : List (Json N)} {items' : List (Json M)},
    RelItems R items items' → RelItems R (canonItems items) (canonItems items')
  | [], [], h => h
  | _ :: _, _ :: _, h => ⟨Rel.canon h.1, RelItems.canon h.2⟩

theorem RelMembers.canon {R : N → M → Prop} : ∀ {members : List (Text × Json N)} {members' : List (Text × Json M)},
    RelMembers R members members' → RelMembers R (canonMembers members) (canonMembers members')
  | [], [], h => h
  | (_, _) :: _, (_, _) :: _, h => ⟨h.1, Rel.canon h.2.1, RelMembers.canon h.2.2⟩
end

/-- A value in order is in order after its numbers were replaced. -/
theorem canon_of_traverse {f : N → Option M} {v : Json N} {w : Json M} (hcanon : v.canon = v)
    (h : v.traverse f = some w) : w.canon = w := by
  have hrel : v.canon.Rel (fun a b => f a = some b) w.canon := (rel_of_traverse h).canon
  rw [hcanon] at hrel
  exact Option.some.inj ((traverse_of_rel hrel).symm.trans h)

mutual
theorem rel_map_right {R : N → L → Prop} {g : M → L} : ∀ (v : Json N) (w : Json M),
    v.Rel R (w.map g) ↔ v.Rel (fun a b => R a (g b)) w
  | v, .null => by cases v <;> simp [map, Rel]
  | v, .bool _ => by cases v <;> simp [map, Rel]
  | v, .num _ => by cases v <;> simp [map, Rel]
  | v, .str _ => by cases v <;> simp [map, Rel]
  | v, .arr items' => by
      cases v with
      | arr items => exact relItems_map_right items items'
      | _ => simp [map, Rel]
  | v, .obj members' => by
      cases v with
      | obj members => exact relMembers_map_right members members'
      | _ => simp [map, Rel]

theorem relItems_map_right {R : N → L → Prop} {g : M → L} : ∀ (items : List (Json N)) (items' : List (Json M)),
    RelItems R items (mapItems g items') ↔ RelItems (fun a b => R a (g b)) items items'
  | [], [] | [], _ :: _ | _ :: _, [] => by simp [mapItems, RelItems]
  | v :: items, w :: items' => by
      rw [mapItems, RelItems, RelItems, rel_map_right v w, relItems_map_right items items']

theorem relMembers_map_right {R : N → L → Prop} {g : M → L} :
    ∀ (members : List (Text × Json N)) (members' : List (Text × Json M)),
      RelMembers R members (mapMembers g members') ↔ RelMembers (fun a b => R a (g b)) members members'
  | [], [] | [], (_, _) :: _ | (_, _) :: _, [] => by simp [mapMembers, RelMembers]
  | (k, v) :: members, (l, w) :: members' => by
      rw [mapMembers, RelMembers, RelMembers, rel_map_right v w, relMembers_map_right members members']
end

mutual
/-- Numbers that correspond by a function also correspond by `R` where each of them does. -/
theorem rel_iff_all {f : N → Option M} {R : N → M → Prop} : ∀ {v : Json N} {w : Json M},
    v.Rel (fun a b => f a = some b) w → (v.Rel R w ↔ v.All fun a => ∃ b, f a = some b ∧ R a b)
  | .null, .null, _ => by simp [Rel, All]
  | .bool _, .bool _, h => by simpa [Rel, All] using h
  | .str _, .str _, h => by simpa [Rel, All] using h
  | .num n, .num m, h => by
      have hn : f n = some m := h
      simp [Rel, All, hn]
  | .arr _, .arr _, h => relItems_iff_all h
  | .obj _, .obj _, h => relMembers_iff_all h

theorem relItems_iff_all {f : N → Option M} {R : N → M → Prop} : ∀ {items : List (Json N)} {items' : List (Json M)},
    RelItems (fun a b => f a = some b) items items' →
      (RelItems R items items' ↔ AllItems (fun a => ∃ b, f a = some b ∧ R a b) items)
  | [], [], _ => by simp [RelItems, AllItems]
  | _ :: _, _ :: _, h => by rw [RelItems, AllItems, rel_iff_all h.1, relItems_iff_all h.2]

theorem relMembers_iff_all {f : N → Option M} {R : N → M → Prop} :
    ∀ {members : List (Text × Json N)} {members' : List (Text × Json M)},
      RelMembers (fun a b => f a = some b) members members' →
        (RelMembers R members members' ↔ AllMembers (fun a => ∃ b, f a = some b ∧ R a b) members)
  | [], [], _ => by simp [RelMembers, AllMembers]
  | (_, _) :: _, (_, _) :: _, h => by
      rw [RelMembers, AllMembers, rel_iff_all h.2.1, relMembers_iff_all h.2.2]
      exact and_iff_right h.1
end

theorem mapMembers_eq (g : N → M) (members : List (Text × Json N)) :
    mapMembers g members = members.map fun e => (e.1, e.2.map g) := by
  induction members with
  | nil => rfl
  | cons m members ih =>
      obtain ⟨k, v⟩ := m
      rw [mapMembers, ih, List.map_cons]

theorem canonMembers_fixed {members : List (Text × Json N)} (h : ∀ e ∈ members, e.2.canon = e.2) :
    canonMembers members = members := by
  induction members with
  | nil => rfl
  | cons m members ih =>
      obtain ⟨k, v⟩ := m
      obtain ⟨hv, hrest⟩ := List.forall_mem_cons.mp h
      rw [canonMembers, ih hrest, show v.canon = v from hv]

mutual
/-- Writing out a value in order and collecting it again changes nothing. -/
theorem canon_map_canon (g : N → M) : ∀ v : Json N, (v.canon.map g).canon = v.canon.map g
  | .null | .bool _ | .num _ | .str _ => rfl
  | .arr items => congrArg Json.arr (canonItems_map_canonItems g items)
  | .obj members => by
      let entries := (SortedMap.ofList (canonMembers members)).entries
      have hfixed : ∀ e ∈ mapMembers g entries, e.2.canon = e.2 := by
        intro e he
        rw [mapMembers_eq] at he
        obtain ⟨d, hd, rfl⟩ := List.mem_map.mp he
        exact canonMembers_map_canon g members d (SortedMap.mem_ofList hd)
      have hsorted : (mapMembers g entries).Pairwise fun a b => a.1 < b.1 := by
        rw [mapMembers_eq]
        exact List.pairwise_map.mpr (SortedMap.ofList (canonMembers members)).sorted
      change Json.obj (SortedMap.ofList (canonMembers (mapMembers g entries))).entries =
        Json.obj (mapMembers g entries)
      rw [canonMembers_fixed hfixed, SortedMap.ofList_sorted hsorted]

theorem canonItems_map_canonItems (g : N → M) : ∀ items : List (Json N),
    canonItems (mapItems g (canonItems items)) = mapItems g (canonItems items)
  | [] => rfl
  | v :: items => by
      rw [canonItems, mapItems, canonItems, canon_map_canon g v, canonItems_map_canonItems g items]

theorem canonMembers_map_canon (g : N → M) : ∀ members : List (Text × Json N),
    ∀ e ∈ canonMembers members, (e.2.map g).canon = e.2.map g
  | [] => nofun
  | (k, v) :: members => by
      rw [canonMembers]
      exact List.forall_mem_cons.mpr ⟨canon_map_canon g v, canonMembers_map_canon g members⟩
end

mutual
theorem map_id : ∀ v : Json N, v.map id = v
  | .null | .bool _ | .num _ | .str _ => rfl
  | .arr items => congrArg Json.arr (mapItems_id items)
  | .obj members => congrArg Json.obj (mapMembers_id members)

theorem mapItems_id : ∀ items : List (Json N), mapItems id items = items
  | [] => rfl
  | v :: items => by rw [mapItems, map_id v, mapItems_id items]

theorem mapMembers_id : ∀ members : List (Text × Json N), mapMembers id members = members
  | [] => rfl
  | (k, v) :: members => by rw [mapMembers, map_id v, mapMembers_id members]
end

theorem canon_canon (v : Json N) : v.canon.canon = v.canon := by
  have hcanon := canon_map_canon id v
  rwa [map_id] at hcanon

mutual
theorem depth_map (g : N → M) : ∀ v : Json N, (v.map g).depth = v.depth
  | .null | .bool _ | .num _ | .str _ => rfl
  | .arr items => congrArg (· + 1) (depthItems_map g items)
  | .obj members => congrArg (· + 1) (depthMembers_map g members)

theorem depthItems_map (g : N → M) : ∀ items : List (Json N), depthItems (mapItems g items) = depthItems items
  | [] => rfl
  | v :: items => by rw [mapItems, depthItems, depthItems, depth_map g v, depthItems_map g items]

theorem depthMembers_map (g : N → M) : ∀ members : List (Text × Json N),
    depthMembers (mapMembers g members) = depthMembers members
  | [] => rfl
  | (k, v) :: members => by rw [mapMembers, depthMembers, depthMembers, depth_map g v, depthMembers_map g members]
end

end Walks

/-! Numerals as numbers -/

/-- `mantissa * 10 ^ exponent`. -/
structure Decimal where
  mantissa : Int
  exponent : Int
  deriving DecidableEq, Repr

/-- The same number, brought to the smaller exponent. -/
def Decimal.Same (a b : Decimal) : Prop :=
  a.mantissa * 10 ^ (a.exponent - min a.exponent b.exponent).toNat =
    b.mantissa * 10 ^ (b.exponent - min a.exponent b.exponent).toNat

instance (a b : Decimal) : Decidable (a.Same b) := inferInstanceAs (Decidable (_ = _))

def digits (s : Text) : Nat := Nat.ofDigitChars 10 s 0

def exponentOf : Text → Int
  | [] => 0
  | _ :: '-' :: s => -digits s
  | _ :: '+' :: s => digits s
  | _ :: s => digits s

/-- A fraction is moved into the exponent. -/
def unsignedValue (s : Text) : Decimal :=
  let whole := s.takeWhile Char.isDigit
  match s.dropWhile Char.isDigit with
  | '.' :: rest =>
      let fraction := rest.takeWhile Char.isDigit
      ⟨digits (whole ++ fraction), exponentOf (rest.dropWhile Char.isDigit) - fraction.length⟩
  | rest => ⟨digits whole, exponentOf rest⟩

def numeralValue : Text → Decimal
  | '-' :: s => { unsignedValue s with mantissa := -(unsignedValue s).mantissa }
  | s => unsignedValue s

/-- The integer a numeral without fraction and exponent stands for. -/
def integerOf : Text → Option Int
  | '-' :: s => if s.all Char.isDigit then some (-digits s) else none
  | s => if s.all Char.isDigit then some (digits s) else none

theorem unsignedValue_digits {s : Text} (h : s.all Char.isDigit) : unsignedValue s = ⟨digits s, 0⟩ := by
  have htake : s.takeWhile Char.isDigit = s := List.takeWhile_eq_self_iff.mpr (List.all_eq_true.mp h)
  have hdrop : s.dropWhile Char.isDigit = [] := List.dropWhile_eq_nil_iff.mpr (List.all_eq_true.mp h)
  rw [unsignedValue, hdrop, htake]
  rfl

theorem numeralValue_integer {numeral : Text} {n : Int} (h : integerOf numeral = some n) :
    numeralValue numeral = ⟨n, 0⟩ := by
  unfold integerOf at h
  split at h
  · split_ifs at h with hs
    cases h
    rw [numeralValue, unsignedValue_digits hs]
  · rename_i hsign
    split_ifs at h with hs
    cases h
    rw [numeralValue.eq_def]
    split
    · rename_i s
      exact absurd rfl (hsign s)
    · exact unsignedValue_digits hs

end Lib.Json
