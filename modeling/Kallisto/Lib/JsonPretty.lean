import Kallisto.Lib.JsonReads

/-!
The indented spelling of a value, and that it spells the same value: white space between the
tokens is nothing a reader looks at.
-/
namespace Lib.Json

/-- The end of a line, and the indentation of the next. -/
def newline (n : Nat) : Text := '\n' :: List.replicate (2 * n) ' '

mutual
/-- Items and members on lines of their own, each two columns deeper than what it stands in. -/
def pretty (n : Nat) : Json Text → Text
  | .null => "null".toList
  | .bool b => if b then "true".toList else "false".toList
  | .num s => s
  | .str s => quote s
  | .arr items =>
      if items.isEmpty then "[]".toList
      else '[' :: ([','].intercalate (prettyItems (n + 1) items) ++ (newline n ++ [']']))
  | .obj members =>
      if members.isEmpty then "\x7b\x7d".toList
      else '\x7b' :: ([','].intercalate (prettyMembers (n + 1) members) ++ (newline n ++ ['\x7d']))

def prettyItems (n : Nat) : List (Json Text) → List Text
  | [] => []
  | v :: items => (newline n ++ pretty n v) :: prettyItems n items

def prettyMembers (n : Nat) : List (Text × Json Text) → List Text
  | [] => []
  | (k, v) :: members => (newline n ++ (quote k ++ ':' :: ' ' :: pretty n v)) :: prettyMembers n members
end

theorem newline_space (n : Nat) : ∀ c ∈ newline n, isSpace c = true := by
  intro c hc
  rcases List.mem_cons.mp hc with rfl | hc
  · rfl
  · rw [List.eq_of_mem_replicate hc]
    rfl

theorem quoted_escape (t : Text) : Quoted (escape t ++ ['"']) t := by
  intro r
  rw [List.append_assoc, List.singleton_append, readString_escape]

theorem spells_quote (t : Text) : Spells (quote t) (.str t) := spells_str (quoted_escape t)

theorem nil_space : ∀ c ∈ ([] : Text), isSpace c = true := nofun

/-- The text of a member, up to the comma or the white space that follows it. -/
def SpellsMember (t : Text) (m : Text × Json Text) : Prop :=
  ∃ w q p, (∀ c ∈ w, isSpace c = true) ∧ Quoted q m.1 ∧ Spells p m.2 ∧ t = w ++ '"' :: (q ++ ':' :: p)

/-- The last item is followed by white space, every other by a comma. -/
theorem spellsItems_spaced {ts : List Text} {vs : List (Json Text)} {w : Text} (h : List.Forall₂ Spells ts vs)
    (hne : ts ≠ []) (hw : ∀ c ∈ w, isSpace c = true) : SpellsItems ([','].intercalate ts ++ (w ++ [']'])) vs := by
  induction h with
  | nil => exact absurd rfl hne
  | cons hv hrest ih =>
      cases hrest with
      | nil =>
          rw [List.intercalate_singleton]
          exact spellsItems_last hv hw
      | cons hv' hrest =>
          rw [List.intercalate_cons_cons]
          simp only [List.append_assoc, List.singleton_append]
          exact spellsItems_cons hv nil_space (ih (List.cons_ne_nil _ _))

theorem spellsMembers_spaced {ts : List Text} {ms : List (Text × Json Text)} {w : Text}
    (h : List.Forall₂ SpellsMember ts ms) (hne : ts ≠ []) (hw : ∀ c ∈ w, isSpace c = true) :
    SpellsMembers ([','].intercalate ts ++ (w ++ ['\x7d'])) ms := by
  induction h with
  | nil => exact absurd rfl hne
  | @cons t m ts ms hm hrest ih =>
      obtain ⟨w', q, p, hw', hq, hp, rfl⟩ := hm
      cases hrest with
      | nil =>
          rw [List.intercalate_singleton]
          simp only [List.append_assoc, List.cons_append]
          exact spellsMembers_last hw' hq nil_space hp hw
      | cons hm' hrest =>
          rw [List.intercalate_cons_cons]
          simp only [List.append_assoc, List.cons_append, List.nil_append]
          exact spellsMembers_cons hw' hq nil_space hp nil_space (ih (List.cons_ne_nil _ _))

mutual
theorem spells_pretty : ∀ (v : Json Text) (n : Nat), WellFormed v → Spells (v.pretty n) v
  | .null, _, _ => spells_null
  | .bool b, _, _ => spells_bool b
  | .num _, _, h => spells_num h
  | .str s, _, _ => spells_quote s
  | .arr [], _, _ => spells_arr_nil nil_space
  | .arr (v :: items), n, h =>
      spells_arr (spellsItems_spaced (spells_prettyItems (v :: items) (n + 1) h) (List.cons_ne_nil _ _)
        (newline_space n))
  | .obj [], _, _ => spells_obj_nil nil_space
  | .obj ((k, v) :: members), n, h =>
      spells_obj (spellsMembers_spaced (spells_prettyMembers ((k, v) :: members) (n + 1) h) (List.cons_ne_nil _ _)
        (newline_space n))

theorem spells_prettyItems : ∀ (items : List (Json Text)) (n : Nat), AllItems (fun s => isNumeral s = true) items →
    List.Forall₂ Spells (prettyItems n items) items
  | [], _, _ => .nil
  | v :: items, n, h =>
      .cons (spells_space (newline_space n) (spells_pretty v n h.1)) (spells_prettyItems items n h.2)

theorem spells_prettyMembers : ∀ (members : List (Text × Json Text)) (n : Nat),
    AllMembers (fun s => isNumeral s = true) members → List.Forall₂ SpellsMember (prettyMembers n members) members
  | [], _, _ => .nil
  | (k, v) :: members, n, h => by
      have hspace : ∀ c ∈ [' '], isSpace c = true := by simp [isSpace]
      have hvalue := spells_space hspace (spells_pretty v n h.1)
      refine .cons ⟨newline n, escape k ++ ['"'], ' ' :: pretty n v, newline_space n, quoted_escape k, hvalue, ?_⟩
        (spells_prettyMembers members n h.2)
      simp [quote]
end

/-- A reader of the indented text, with whatever white space at its end, finds the value. -/
theorem parse_pretty {v : Json Text} (h : WellFormed v) {w : Text} (hw : ∀ c ∈ w, isSpace c = true) :
    parse (v.pretty 0 ++ w) = some v :=
  parse_iff.mpr ⟨_, w, rfl, spells_pretty v 0 h, hw⟩

end Lib.Json
