import Kallisto.Lib.Json

/-!
What a text that is read as a value still means inside a longer one: the reader finds the same
value there, so arrays and objects may be put together from texts whoever wrote them.
-/
namespace Lib.Json

/-! White space -/

theorem skipSpace_append {w : Text} (h : ∀ c ∈ w, isSpace c = true) (s : Text) : skipSpace (w ++ s) = skipSpace s :=
  List.dropWhile_append_of_pos h

theorem skipSpace_mark {w : Text} {c : Char} (hw : ∀ c ∈ w, isSpace c = true) (hc : isSpace c = false) (s : Text) :
    skipSpace (w ++ c :: s) = c :: s :=
  (skipSpace_append hw _).trans (skipSpace_cons hc)

theorem exists_space (s : Text) : ∃ w, (∀ c ∈ w, isSpace c = true) ∧ s = w ++ skipSpace s := by
  refine ⟨s.takeWhile isSpace, ?_, List.takeWhile_append_dropWhile.symm⟩
  intro c hc
  exact List.mem_takeWhile_imp hc

theorem skipSpace_idem (s : Text) : skipSpace (skipSpace s) = skipSpace s := by
  obtain ⟨w, hw, hs⟩ := exists_space s
  conv_rhs => rw [hs, skipSpace_append hw]

theorem ends_append {w s : Text} (hw : ∀ c ∈ w, isSpace c = true) (hs : Ends s) : Ends (w ++ s) := by
  cases w with
  | nil => exact hs
  | cons c w =>
      refine ends_cons (Bool.eq_false_iff.mpr ?_)
      intro hc
      have hspace := (opensValue_cases (c := c) (by simp [opensValue, hc])).1
      rw [hw c List.mem_cons_self] at hspace
      cases hspace

/-- No reader looks at the white space before what it reads. -/
theorem readValue_skipSpace (fuel : Nat) (s : Text) : readValue fuel (skipSpace s) = readValue fuel s := by
  cases fuel with
  | zero => rfl
  | succ fuel => rw [readValue, readValue, skipSpace_idem]

theorem readItems_skipSpace (fuel : Nat) (s : Text) : readItems fuel (skipSpace s) = readItems fuel s := by
  cases fuel with
  | zero => rfl
  | succ fuel => rw [readItems, readItems, readValue_skipSpace]

theorem readMembers_skipSpace (fuel : Nat) (s : Text) : readMembers fuel (skipSpace s) = readMembers fuel s := by
  cases fuel with
  | zero => rfl
  | succ fuel => rw [readMembers, readMembers, skipSpace_idem]

/-! Strings -/

/-- After its opening quote the text is read as `t` up to its end, whatever comes next. -/
def Quoted (p t : Text) : Prop := ∀ r, readString (p ++ r) = some (t, r)

theorem push_eq_some {c : Char} {tail : Option (Text × Text)} {t r : Text} (h : push c tail = some (t, r)) :
    ∃ t', tail = some (t', r) ∧ t = c :: t' := by
  obtain ⟨⟨t', r'⟩, htail, heq⟩ := Option.map_eq_some_iff.mp h
  cases heq
  exact ⟨t', htail, rfl⟩

/-- `token` is how the string spells the character. -/
theorem quoted_push (token : Text) (c : Char) {s t r : Text}
    (htoken : ∀ s, readString (token ++ s) = push c (readString s))
    (ih : ∀ {t}, readString s = some (t, r) → ∃ p, s = p ++ r ∧ Quoted p t)
    (h : readString (token ++ s) = some (t, r)) : ∃ p, token ++ s = p ++ r ∧ Quoted p t := by
  rw [htoken] at h
  obtain ⟨t', htail, rfl⟩ := push_eq_some h
  obtain ⟨p, rfl, hp⟩ := ih htail
  refine ⟨token ++ p, (List.append_assoc _ _ _).symm, ?_⟩
  intro r'
  rw [List.append_assoc, htoken, hp]
  rfl

theorem readString_unescape {e c : Char} (h : unescape e = some c) (s : Text) :
    readString ('\\' :: e :: s) = push c (readString s) := by
  have hu : e ≠ 'u' := by
    rintro rfl
    cases h
  rw [readString.eq_4 _ _ (by intro _ _ _ _ _ he; exact absurd he hu)]
  simp only [h]

theorem readString_plain {c : Char} (h : mustEscape c = false) (s : Text) :
    readString (c :: s) = push c (readString s) := by
  have hread := readString_escapeChar c s
  rwa [escapeChar_plain h] at hread

/-- A string that is read is read up to its closing quote, and no further. -/
theorem quoted_of_readString {s t r : Text} (h : readString s = some (t, r)) : ∃ p, s = p ++ r ∧ Quoted p t := by
  induction s using readString.induct generalizing t with
  | case1 => cases h
  | case2 s =>
      cases h
      exact ⟨['"'], rfl, fun _ => rfl⟩
  | case3 a b c d s hquad => simp [readString, hquad] at h
  | case4 a b c d s n hquad hn ih =>
      refine quoted_push ['\\', 'u', a, b, c, d] (Char.ofNat n) ?_ ih h
      intro s
      simp only [List.cons_append, List.nil_append, readString, hquad, if_pos hn]
  | case5 a b c d n hquad hn a' b' c' d' s hquad' => simp [readString, hquad, hquad', hn] at h
  | case6 a b c d n hquad hn a' b' c' d' s m hquad' hm ih =>
      refine quoted_push ['\\', 'u', a, b, c, d, '\\', 'u', a', b', c', d']
        (Char.ofNat (0x10000 + (n - 0xD800) * 0x400 + (m - 0xDC00))) ?_ ih h
      intro s
      simp only [List.cons_append, List.nil_append, readString, hquad, if_neg hn, hquad', if_pos hm]
  | case7 a b c d n hquad hn a' b' c' d' s m hquad' hm => simp [readString, hquad, hquad', hn, hm] at h
  | case8 a b c d s n hquad hn hpair => simp [readString, hquad, hn] at h
  | case9 e s hquad hescape => simp [readString, hescape] at h
  | case10 e s hquad c hescape ih => exact quoted_push ['\\', e] c (readString_unescape hescape) ih h
  | case11 c s hquote hquad hpair hlow => simp [readString, hlow] at h
  | case12 c s hquote hquad hpair hlow ih =>
      have hslash : c ≠ '\\' := by
        rintro rfl
        cases s with
        | nil => cases h
        | cons e s => exact hpair e s rfl rfl
      have hplain : mustEscape c = false := by simpa [mustEscape, hslash, hlow] using hquote
      exact quoted_push [c] c (readString_plain hplain) ih h

/-! What one reader finds, in terms of the others. -/

theorem readItems_last {fuel : Nat} {s s' r : Text} {v : Json Text} (hv : readValue fuel s = some (v, s'))
    (hend : skipSpace s' = ']' :: r) : readItems (fuel + 1) s = some ([v], r) := by
  simp only [readItems, hv, hend]

theorem readItems_cons {fuel : Nat} {s s' s'' r : Text} {v : Json Text} {items : List (Json Text)}
    (hv : readValue fuel s = some (v, s')) (hcomma : skipSpace s' = ',' :: s'')
    (hitems : readItems fuel s'' = some (items, r)) : readItems (fuel + 1) s = some (v :: items, r) := by
  simp only [readItems, hv, hcomma, hitems, Option.map_some]

theorem readItems_cases {fuel : Nat} {s r : Text} {items : List (Json Text)}
    (h : readItems (fuel + 1) s = some (items, r)) : ∃ v s', readValue fuel s = some (v, s') ∧
      ((skipSpace s' = ']' :: r ∧ items = [v]) ∨
        ∃ s'' items', skipSpace s' = ',' :: s'' ∧ readItems fuel s'' = some (items', r) ∧ items = v :: items') := by
  rw [readItems] at h
  split at h
  · cases h
  · rename_i v s' hv
    refine ⟨v, s', hv, ?_⟩
    split at h
    · rename_i s'' hcomma
      obtain ⟨⟨items', r'⟩, hitems, heq⟩ := Option.map_eq_some_iff.mp h
      cases heq
      exact .inr ⟨s'', items', hcomma, hitems, rfl⟩
    · rename_i hend
      cases h
      exact .inl ⟨hend, rfl⟩
    · cases h

theorem readMembers_last {fuel : Nat} {s s₁ s₂ s₃ s₄ r k : Text} {v : Json Text} (hquote : skipSpace s = '"' :: s₁)
    (hk : readString s₁ = some (k, s₂)) (hcolon : skipSpace s₂ = ':' :: s₃) (hv : readValue fuel s₃ = some (v, s₄))
    (hend : skipSpace s₄ = '\x7d' :: r) : readMembers (fuel + 1) s = some ([(k, v)], r) := by
  simp only [readMembers, hquote, hk, hcolon, hv, hend]

theorem readMembers_cons {fuel : Nat} {s s₁ s₂ s₃ s₄ s₅ r k : Text} {v : Json Text}
    {members : List (Text × Json Text)} (hquote : skipSpace s = '"' :: s₁)
    (hk : readString s₁ = some (k, s₂)) (hcolon : skipSpace s₂ = ':' :: s₃) (hv : readValue fuel s₃ = some (v, s₄))
    (hcomma : skipSpace s₄ = ',' :: s₅) (hmembers : readMembers fuel s₅ = some (members, r)) :
    readMembers (fuel + 1) s = some ((k, v) :: members, r) := by
  simp only [readMembers, hquote, hk, hcolon, hv, hcomma, hmembers, Option.map_some]

theorem readMembers_cases {fuel : Nat} {s r : Text} {members : List (Text × Json Text)}
    (h : readMembers (fuel + 1) s = some (members, r)) : ∃ k v s₁ s₂ s₃ s₄, skipSpace s = '"' :: s₁ ∧
      readString s₁ = some (k, s₂) ∧ skipSpace s₂ = ':' :: s₃ ∧ readValue fuel s₃ = some (v, s₄) ∧
      ((skipSpace s₄ = '\x7d' :: r ∧ members = [(k, v)]) ∨
        ∃ s₅ members', skipSpace s₄ = ',' :: s₅ ∧ readMembers fuel s₅ = some (members', r) ∧
          members = (k, v) :: members') := by
  rw [readMembers] at h
  split at h
  · rename_i s₁ hquote
    split at h
    · cases h
    · rename_i k s₂ hk
      split at h
      · rename_i s₃ hcolon
        split at h
        · cases h
        · rename_i v s₄ hv
          refine ⟨k, v, s₁, s₂, s₃, s₄, hquote, hk, hcolon, hv, ?_⟩
          split at h
          · rename_i s₅ hcomma
            obtain ⟨⟨members', r'⟩, hmembers, heq⟩ := Option.map_eq_some_iff.mp h
            cases heq
            exact .inr ⟨s₅, members', hcomma, hmembers, rfl⟩
          · rename_i hend
            cases h
            exact .inl ⟨hend, rfl⟩
          · cases h
      · cases h
  · cases h

theorem readItems_close {fuel : Nat} {s r : Text} (h : skipSpace s = ']' :: r) : readItems fuel s = none := by
  have hvalue : ∀ fuel, readValue fuel s = none := by
    intro fuel
    cases fuel with
    | zero => rfl
    | succ fuel =>
        rw [readValue, h]
        rfl
  cases fuel with
  | zero => rfl
  | succ fuel => simp only [readItems, hvalue]

/-- An array that is not empty opens with its first item. -/
theorem readValue_array {fuel : Nat} {s r : Text} {items : List (Json Text)}
    (h : readItems fuel s = some (items, r)) : readValue (fuel + 1) ('[' :: s) = some (.arr items, r) := by
  rw [← readItems_skipSpace] at h
  rw [readValue, skipSpace_cons rfl]
  simp only
  split
  · rename_i hend
    rw [readItems_skipSpace, readItems_close hend] at h
    cases h
  · rw [h]
    rfl

theorem readValue_object {fuel : Nat} {s r : Text} {members : List (Text × Json Text)}
    (h : readMembers fuel s = some (members, r)) : readValue (fuel + 1) ('\x7b' :: s) = some (.obj members, r) := by
  rw [← readMembers_skipSpace] at h
  rw [readValue, skipSpace_cons rfl]
  simp only
  split
  · rename_i hend
    cases fuel with
    | zero => cases h
    | succ fuel =>
        rw [readMembers_skipSpace, readMembers, hend] at h
        cases h
  · rw [h]
    rfl

theorem readValue_cases {fuel : Nat} {s r : Text} {v : Json Text} (h : readValue (fuel + 1) s = some (v, r)) :
    (∃ p, skipSpace s = p ++ r ∧ ((p = "null".toList ∧ v = .null) ∨ (p = "true".toList ∧ v = .bool true) ∨
      (p = "false".toList ∧ v = .bool false) ∨ (isNumeral p = true ∧ v = .num p))) ∨
    (∃ s' t, skipSpace s = '"' :: s' ∧ readString s' = some (t, r) ∧ v = .str t) ∨
    (∃ s', skipSpace s = '[' :: s' ∧ ((skipSpace s' = ']' :: r ∧ v = .arr []) ∨
      ∃ items, readItems fuel s' = some (items, r) ∧ v = .arr items)) ∨
    (∃ s', skipSpace s = '\x7b' :: s' ∧ ((skipSpace s' = '\x7d' :: r ∧ v = .obj []) ∨
      ∃ members, readMembers fuel s' = some (members, r) ∧ v = .obj members)) := by
  rw [readValue] at h
  split at h
  · rename_i heq
    cases h
    exact .inl ⟨_, heq, .inl ⟨rfl, rfl⟩⟩
  · rename_i heq
    cases h
    exact .inl ⟨_, heq, .inr (.inl ⟨rfl, rfl⟩)⟩
  · rename_i heq
    cases h
    exact .inl ⟨_, heq, .inr (.inr (.inl ⟨rfl, rfl⟩))⟩
  · rename_i s' heq
    obtain ⟨⟨t, r'⟩, hread, heq'⟩ := Option.map_eq_some_iff.mp h
    cases heq'
    exact .inr (.inl ⟨s', t, heq, hread, rfl⟩)
  · rename_i s' heq
    refine .inr (.inr (.inl ⟨s', heq, ?_⟩))
    split at h
    · rename_i hend
      cases h
      exact .inl ⟨hend, rfl⟩
    · obtain ⟨⟨items, r'⟩, hread, heq'⟩ := Option.map_eq_some_iff.mp h
      cases heq'
      rw [readItems_skipSpace] at hread
      exact .inr ⟨items, hread, rfl⟩
  · rename_i s' heq
    refine .inr (.inr (.inr ⟨s', heq, ?_⟩))
    split at h
    · rename_i hend
      cases h
      exact .inl ⟨hend, rfl⟩
    · obtain ⟨⟨members, r'⟩, hread, heq'⟩ := Option.map_eq_some_iff.mp h
      cases heq'
      rw [readMembers_skipSpace] at hread
      exact .inr ⟨members, hread, rfl⟩
  · refine .inl ⟨(skipSpace s).takeWhile isNumeralChar, ?_⟩
    rw [readNumeral] at h
    split at h
    · rename_i hnumeral
      cases h
      exact ⟨List.takeWhile_append_dropWhile.symm, .inr (.inr (.inr ⟨hnumeral, rfl⟩))⟩
    · cases h

/-! The exact stretch of text that a reader takes, and what it takes it for. -/

def Spells (p : Text) (v : Json Text) : Prop :=
  ∀ fuel r, p.length ≤ fuel → Ends r → readValue fuel (p ++ r) = some (v, r)

def SpellsItems (p : Text) (items : List (Json Text)) : Prop :=
  ∀ fuel r, p.length ≤ fuel → readItems fuel (p ++ r) = some (items, r)

def SpellsMembers (p : Text) (members : List (Text × Json Text)) : Prop :=
  ∀ fuel r, p.length ≤ fuel → readMembers fuel (p ++ r) = some (members, r)

section Spelling
variable {p q w w' w'' k : Text} {v : Json Text} {items : List (Json Text)} {members : List (Text × Json Text)}

theorem spells_space (hw : ∀ c ∈ w, isSpace c = true) (h : Spells p v) : Spells (w ++ p) v := by
  intro fuel r hfuel hr
  rw [List.length_append] at hfuel
  rw [List.append_assoc, ← readValue_skipSpace, skipSpace_append hw, readValue_skipSpace, h fuel r (by omega) hr]

theorem spells_null : Spells "null".toList .null := by
  intro fuel r hfuel hr
  cases fuel with
  | zero => cases hfuel
  | succ fuel => rfl

theorem spells_bool (b : Bool) : Spells (if b then "true".toList else "false".toList) (.bool b) := by
  intro fuel r hfuel hr
  cases fuel with
  | zero => cases b <;> cases hfuel
  | succ fuel => cases b <;> rfl

theorem spells_num (h : isNumeral p = true) : Spells p (.num p) := by
  intro fuel r hfuel hr
  exact readValue_text (.num p) fuel r h hfuel hr

theorem spells_str (h : Quoted p k) : Spells ('"' :: p) (.str k) := by
  intro fuel r hfuel hr
  cases fuel with
  | zero => cases hfuel
  | succ fuel =>
      change (readString (p ++ r)).map _ = _
      rw [h r]
      rfl

theorem spells_arr_nil (hw : ∀ c ∈ w, isSpace c = true) : Spells ('[' :: (w ++ [']'])) (.arr []) := by
  intro fuel r hfuel hr
  cases fuel with
  | zero => cases hfuel
  | succ fuel =>
      rw [List.cons_append, List.append_assoc, List.singleton_append, readValue, skipSpace_cons rfl]
      simp only [skipSpace_mark hw (c := ']') rfl]

theorem spells_arr (h : SpellsItems p items) : Spells ('[' :: p) (.arr items) := by
  intro fuel r hfuel hr
  cases fuel with
  | zero => cases hfuel
  | succ fuel => exact readValue_array (h fuel r (Nat.le_of_succ_le_succ hfuel))

theorem spells_obj_nil (hw : ∀ c ∈ w, isSpace c = true) : Spells ('\x7b' :: (w ++ ['\x7d'])) (.obj []) := by
  intro fuel r hfuel hr
  cases fuel with
  | zero => cases hfuel
  | succ fuel =>
      rw [List.cons_append, List.append_assoc, List.singleton_append, readValue, skipSpace_cons rfl]
      simp only [skipSpace_mark hw (c := '\x7d') rfl]

theorem spells_obj (h : SpellsMembers p members) : Spells ('\x7b' :: p) (.obj members) := by
  intro fuel r hfuel hr
  cases fuel with
  | zero => cases hfuel
  | succ fuel => exact readValue_object (h fuel r (Nat.le_of_succ_le_succ hfuel))

/-- A value, white space, and a character that no numeral goes on with. -/
theorem Spells.before {c : Char} (h : Spells p v) (hw : ∀ c ∈ w, isSpace c = true) (hc : isNumeralChar c = false)
    (hs : isSpace c = false) (fuel : Nat) (hfuel : p.length ≤ fuel) (r : Text) :
    ∃ s', readValue fuel (p ++ (w ++ c :: r)) = some (v, s') ∧ skipSpace s' = c :: r := by
  exact ⟨w ++ c :: r, h fuel _ hfuel (ends_append hw (ends_cons hc)), skipSpace_mark hw hs r⟩

theorem spellsItems_last (hv : Spells p v) (hw : ∀ c ∈ w, isSpace c = true) : SpellsItems (p ++ (w ++ [']'])) [v] := by
  intro fuel r hfuel
  simp only [List.length_append, List.length_singleton] at hfuel
  obtain ⟨fuel, rfl⟩ : ∃ n, fuel = n + 1 := ⟨fuel - 1, by omega⟩
  obtain ⟨s', hread, hend⟩ := hv.before hw (c := ']') rfl rfl fuel (by omega) r
  rw [List.append_assoc, List.append_assoc, List.singleton_append]
  exact readItems_last hread hend

theorem spellsItems_cons (hv : Spells p v) (hw : ∀ c ∈ w, isSpace c = true) (hitems : SpellsItems q items) :
    SpellsItems (p ++ (w ++ ',' :: q)) (v :: items) := by
  intro fuel r hfuel
  simp only [List.length_append, List.length_cons] at hfuel
  obtain ⟨fuel, rfl⟩ : ∃ n, fuel = n + 1 := ⟨fuel - 1, by omega⟩
  obtain ⟨s', hread, hcomma⟩ := hv.before hw (c := ',') rfl rfl fuel (by omega) (q ++ r)
  rw [List.append_assoc, List.append_assoc, List.cons_append]
  exact readItems_cons hread hcomma (hitems fuel r (by omega))

theorem spellsMembers_last (hw : ∀ c ∈ w, isSpace c = true) (hk : Quoted q k) (hw' : ∀ c ∈ w', isSpace c = true)
    (hv : Spells p v) (hw'' : ∀ c ∈ w'', isSpace c = true) :
    SpellsMembers (w ++ '"' :: (q ++ (w' ++ ':' :: (p ++ (w'' ++ ['\x7d']))))) [(k, v)] := by
  intro fuel r hfuel
  simp only [List.length_append, List.length_cons, List.length_nil] at hfuel
  obtain ⟨fuel, rfl⟩ : ∃ n, fuel = n + 1 := ⟨fuel - 1, by omega⟩
  obtain ⟨s', hread, hend⟩ := hv.before hw'' (c := '\x7d') rfl rfl fuel (by omega) r
  simp only [List.append_assoc, List.cons_append, List.nil_append]
  exact readMembers_last (skipSpace_mark hw rfl _) (hk _) (skipSpace_mark hw' rfl _) hread hend

theorem spellsMembers_cons {rest : Text} (hw : ∀ c ∈ w, isSpace c = true) (hk : Quoted q k)
    (hw' : ∀ c ∈ w', isSpace c = true) (hv : Spells p v) (hw'' : ∀ c ∈ w'', isSpace c = true)
    (hmembers : SpellsMembers rest members) :
    SpellsMembers (w ++ '"' :: (q ++ (w' ++ ':' :: (p ++ (w'' ++ ',' :: rest))))) ((k, v) :: members) := by
  intro fuel r hfuel
  simp only [List.length_append, List.length_cons] at hfuel
  obtain ⟨fuel, rfl⟩ : ∃ n, fuel = n + 1 := ⟨fuel - 1, by omega⟩
  obtain ⟨s', hread, hcomma⟩ := hv.before hw'' (c := ',') rfl rfl fuel (by omega) (rest ++ r)
  simp only [List.append_assoc, List.cons_append]
  exact readMembers_cons (skipSpace_mark hw rfl _) (hk _) (skipSpace_mark hw' rfl _) hread hcomma
    (hmembers fuel r (by omega))

end Spelling

/-! A reader that finds something has taken a stretch of text that spells it, whatever its fuel. -/

def Faithful {A : Type} (read : Text → Option (A × Text)) (spells : Text → A → Prop) : Prop :=
  ∀ s a r, read s = some (a, r) → ∃ p, s = p ++ r ∧ spells p a

theorem faithful_value {fuel : Nat} (hitems : Faithful (readItems fuel) SpellsItems)
    (hmembers : Faithful (readMembers fuel) SpellsMembers) : Faithful (readValue (fuel + 1)) Spells := by
  intro s v r h
  obtain ⟨w, hw, hs⟩ := exists_space s
  -- The white space before a value is taken with it.
  suffices hlead : ∃ p, skipSpace s = p ++ r ∧ Spells p v by
    obtain ⟨p, hp, hspells⟩ := hlead
    refine ⟨w ++ p, ?_, spells_space hw hspells⟩
    rw [List.append_assoc, ← hp, ← hs]
  rcases readValue_cases h with ⟨p, hp, hcase⟩ | ⟨s', t, hs', hread, rfl⟩ | ⟨s', hs', hcase⟩ | ⟨s', hs', hcase⟩
  · refine ⟨p, hp, ?_⟩
    rcases hcase with ⟨rfl, rfl⟩ | ⟨rfl, rfl⟩ | ⟨rfl, rfl⟩ | ⟨hnum, rfl⟩
    · exact spells_null
    · exact spells_bool true
    · exact spells_bool false
    · exact spells_num hnum
  · obtain ⟨p, rfl, hp⟩ := quoted_of_readString hread
    exact ⟨'"' :: p, hs', spells_str hp⟩
  · rcases hcase with ⟨hend, rfl⟩ | ⟨items, hread, rfl⟩
    · obtain ⟨w', hw', heq⟩ := exists_space s'
      refine ⟨'[' :: (w' ++ [']']), ?_, spells_arr_nil hw'⟩
      rw [hs', heq, hend]
      simp
    · obtain ⟨p, rfl, hp⟩ := hitems s' items r hread
      exact ⟨'[' :: p, hs', spells_arr hp⟩
  · rcases hcase with ⟨hend, rfl⟩ | ⟨members, hread, rfl⟩
    · obtain ⟨w', hw', heq⟩ := exists_space s'
      refine ⟨'\x7b' :: (w' ++ ['\x7d']), ?_, spells_obj_nil hw'⟩
      rw [hs', heq, hend]
      simp
    · obtain ⟨p, rfl, hp⟩ := hmembers s' members r hread
      exact ⟨'\x7b' :: p, hs', spells_obj hp⟩

theorem faithful_items {fuel : Nat} (hvalue : Faithful (readValue fuel) Spells)
    (hitems : Faithful (readItems fuel) SpellsItems) : Faithful (readItems (fuel + 1)) SpellsItems := by
  intro s items r h
  obtain ⟨v, s', hread, hcase⟩ := readItems_cases h
  obtain ⟨p, rfl, hp⟩ := hvalue s v s' hread
  obtain ⟨w, hw, hs'⟩ := exists_space s'
  rcases hcase with ⟨hend, rfl⟩ | ⟨s'', items', hcomma, hrest, rfl⟩
  · refine ⟨p ++ (w ++ [']']), ?_, spellsItems_last hp hw⟩
    rw [hs', hend]
    simp
  · obtain ⟨q, rfl, hq⟩ := hitems s'' items' r hrest
    refine ⟨p ++ (w ++ ',' :: q), ?_, spellsItems_cons hp hw hq⟩
    rw [hs', hcomma]
    simp

theorem faithful_members {fuel : Nat} (hvalue : Faithful (readValue fuel) Spells)
    (hmembers : Faithful (readMembers fuel) SpellsMembers) : Faithful (readMembers (fuel + 1)) SpellsMembers := by
  intro s members r h
  obtain ⟨k, v, s₁, s₂, s₃, s₄, hquote, hk, hcolon, hread, hcase⟩ := readMembers_cases h
  obtain ⟨w, hw, hs⟩ := exists_space s
  obtain ⟨q, rfl, hq⟩ := quoted_of_readString hk
  obtain ⟨w', hw', hs₂⟩ := exists_space s₂
  obtain ⟨p, rfl, hp⟩ := hvalue s₃ v s₄ hread
  obtain ⟨w'', hw'', hs₄⟩ := exists_space s₄
  rcases hcase with ⟨hend, rfl⟩ | ⟨s₅, members', hcomma, hrest, rfl⟩
  · refine ⟨_, ?_, spellsMembers_last hw hq hw' hp hw''⟩
    rw [hs, hquote, hs₂, hcolon, hs₄, hend]
    simp
  · obtain ⟨rest, rfl, hspells⟩ := hmembers s₅ members' r hrest
    refine ⟨_, ?_, spellsMembers_cons hw hq hw' hp hw'' hspells⟩
    rw [hs, hquote, hs₂, hcolon, hs₄, hcomma]
    simp

theorem readers_faithful (fuel : Nat) : Faithful (readValue fuel) Spells ∧ Faithful (readItems fuel) SpellsItems ∧
    Faithful (readMembers fuel) SpellsMembers := by
  induction fuel with
  | zero => refine ⟨?_, ?_, ?_⟩ <;> intro s a r h <;> cases h
  | succ fuel ih =>
      obtain ⟨hvalue, hitems, hmembers⟩ := ih
      exact ⟨faithful_value hitems hmembers, faithful_items hvalue hitems, faithful_members hvalue hmembers⟩

/-- A whole text is read as a value exactly where it spells it, up to white space at its end. -/
theorem parse_iff {t : Text} {v : Json Text} :
    parse t = some v ↔ ∃ p w, t = p ++ w ∧ Spells p v ∧ ∀ c ∈ w, isSpace c = true := by
  constructor
  · intro h
    rw [parse] at h
    split at h
    · cases h
    · rename_i v' s hread
      split at h
      · rename_i hspace
        cases h
        obtain ⟨p, hp, hspells⟩ := (readers_faithful _).1 _ _ _ hread
        exact ⟨p, s, hp, hspells, List.dropWhile_eq_nil_iff.mp hspace⟩
      · cases h
  · rintro ⟨p, w, rfl, hspells, hw⟩
    have hends : Ends w := List.append_nil w ▸ ends_append hw (s := []) (by intro c hc; cases hc)
    have hread := hspells (p ++ w).length w (by simp) hends
    have hspace : skipSpace w = [] := List.dropWhile_eq_nil_iff.mpr hw
    rw [parse, hread]
    simp only [hspace, if_true]

theorem parse_of_spells {p : Text} {v : Json Text} (h : Spells p v) : parse p = some v :=
  parse_iff.mpr ⟨p, [], (List.append_nil p).symm, h, by intro c hc; cases hc⟩

/-- The text of a string: a quote, and what is read as the string up to the quote that closes it. -/
theorem parse_str {t k : Text} (h : parse t = some (.str k)) :
    ∃ w q w', (∀ c ∈ w, isSpace c = true) ∧ Quoted q k ∧ (∀ c ∈ w', isSpace c = true) ∧ t = w ++ '"' :: (q ++ w') := by
  obtain ⟨p, w', rfl, hspells, hw'⟩ := parse_iff.mp h
  have hread := hspells (p.length + 1) [] (Nat.le_succ _) (by intro c hc; cases hc)
  rw [List.append_nil] at hread
  obtain ⟨w, hw, hp⟩ := exists_space p
  rcases readValue_cases hread with ⟨_, -, hcase⟩ | ⟨s', t, hs', hquoted, heq⟩ | ⟨_, -, hcase⟩ | ⟨_, -, hcase⟩
  · rcases hcase with ⟨-, hv⟩ | ⟨-, hv⟩ | ⟨-, hv⟩ | ⟨-, hv⟩ <;> cases hv
  · cases heq
    obtain ⟨q, rfl, hq⟩ := quoted_of_readString hquoted
    refine ⟨w, q, w', hw, hq, hw', ?_⟩
    rw [hp, hs']
    simp
  · rcases hcase with ⟨-, hv⟩ | ⟨_, -, hv⟩ <;> cases hv
  · rcases hcase with ⟨-, hv⟩ | ⟨_, -, hv⟩ <;> cases hv

/-! Texts put together. -/

def arrayText (items : List Text) : Text := '[' :: ([','].intercalate items ++ [']'])

def objectText (members : List (Text × Text)) : Text :=
  '\x7b' :: ([','].intercalate (members.map fun m => m.1 ++ ':' :: m.2) ++ ['\x7d'])

theorem spellsItems_intercalate {ts : List Text} {vs : List (Json Text)}
    (h : List.Forall₂ (fun t v => parse t = some v) ts vs) (hne : ts ≠ []) :
    SpellsItems ([','].intercalate ts ++ [']']) vs := by
  induction h with
  | nil => exact absurd rfl hne
  | cons hv hrest ih =>
      obtain ⟨p, w, rfl, hp, hw⟩ := parse_iff.mp hv
      cases hrest with
      | nil =>
          rw [List.intercalate_singleton, List.append_assoc]
          exact spellsItems_last hp hw
      | cons hv' hrest =>
          rw [List.intercalate_cons_cons]
          simp only [List.append_assoc, List.singleton_append]
          exact spellsItems_cons hp hw (ih (List.cons_ne_nil _ _))

theorem parse_arrayText {ts : List Text} {vs : List (Json Text)}
    (h : List.Forall₂ (fun t v => parse t = some v) ts vs) : parse (arrayText ts) = some (.arr vs) := by
  cases h with
  | nil => rfl
  | cons hv hrest =>
      exact parse_of_spells (spells_arr (spellsItems_intercalate (.cons hv hrest) (List.cons_ne_nil _ _)))

/-- The texts of a name and of a value. -/
def ReadsMember (m : Text × Text) (n : Text × Json Text) : Prop := parse m.1 = some (.str n.1) ∧ parse m.2 = some n.2

theorem spellsMembers_intercalate {ms : List (Text × Text)} {ns : List (Text × Json Text)}
    (h : List.Forall₂ ReadsMember ms ns) (hne : ms ≠ []) :
    SpellsMembers ([','].intercalate (ms.map fun m => m.1 ++ ':' :: m.2) ++ ['\x7d']) ns := by
  induction h with
  | nil => exact absurd rfl hne
  | @cons m n ms ns hm hrest ih =>
      obtain ⟨k, t⟩ := m
      obtain ⟨w, q, w', hw, hq, hw', rfl⟩ := parse_str hm.1
      obtain ⟨p, w'', rfl, hp, hw''⟩ := parse_iff.mp hm.2
      cases hrest with
      | nil =>
          simp only [List.map_cons, List.map_nil, List.intercalate_singleton, List.append_assoc, List.cons_append]
          exact spellsMembers_last hw hq hw' hp hw''
      | cons hm' hrest =>
          simp only [List.map_cons, List.intercalate_cons_cons, List.append_assoc, List.cons_append, List.nil_append]
          exact spellsMembers_cons hw hq hw' hp hw'' (ih (List.cons_ne_nil _ _))

theorem parse_objectText {ms : List (Text × Text)} {ns : List (Text × Json Text)}
    (h : List.Forall₂ ReadsMember ms ns) : parse (objectText ms) = some (.obj ns) := by
  cases h with
  | nil => rfl
  | cons hm hrest =>
      exact parse_of_spells (spells_obj (spellsMembers_intercalate (.cons hm hrest) (List.cons_ne_nil _ _)))

/-- A text that goes into a longer one as it stands, with what it is read as. -/
structure Verbatim where
  text : Text
  value : Json Text
  reads : parse text = some value

theorem parse_decimal (n : Nat) : parse (decimal n) = some (.num (decimal n)) :=
  parse_of_spells (spells_num (isNumeral_decimal n))

def Verbatim.decimal (n : Nat) : Verbatim := ⟨Lib.decimal n, .num (Lib.decimal n), parse_decimal n⟩

section Writer
variable (string : Text → Text)

mutual
/-- A writer without white space, by its spelling of strings. -/
def write : Json Verbatim → Text
  | .null => "null".toList
  | .bool b => if b then "true".toList else "false".toList
  | .num n => n.text
  | .str s => string s
  | .arr items => arrayText (writeItems items)
  | .obj members => objectText (writeMembers members)

def writeItems : List (Json Verbatim) → List Text
  | [] => []
  | v :: items => write v :: writeItems items

def writeMembers : List (Text × Json Verbatim) → List (Text × Text)
  | [] => []
  | (k, v) :: members => (string k, write v) :: writeMembers members
end

theorem write_eqs : write string .null = "null".toList ∧
    (∀ b, write string (.bool b) = if b then "true".toList else "false".toList) ∧
    (∀ n, write string (.num n) = n.text) ∧ (∀ s, write string (.str s) = string s) ∧
    (∀ items, write string (.arr items) = arrayText (writeItems string items)) ∧
    ∀ members, write string (.obj members) = objectText (writeMembers string members) :=
  ⟨rfl, fun _ => rfl, fun _ => rfl, fun _ => rfl, fun _ => rfl, fun _ => rfl⟩

theorem writeItems_eqs : writeItems string [] = [] ∧
    ∀ v items, writeItems string (v :: items) = write string v :: writeItems string items :=
  ⟨rfl, fun _ _ => rfl⟩

theorem writeMembers_eqs : writeMembers string [] = [] ∧ ∀ k v members,
    writeMembers string ((k, v) :: members) = (string k, write string v) :: writeMembers string members :=
  ⟨rfl, fun _ _ _ => rfl⟩

mutual
/-- The value with everything put in verbatim as what it is read as. -/
def splice : Json Verbatim → Json Text
  | .null => .null
  | .bool b => .bool b
  | .num n => n.value
  | .str s => .str s
  | .arr items => .arr (spliceItems items)
  | .obj members => .obj (spliceMembers members)

def spliceItems : List (Json Verbatim) → List (Json Text)
  | [] => []
  | v :: items => splice v :: spliceItems items

def spliceMembers : List (Text × Json Verbatim) → List (Text × Json Text)
  | [] => []
  | (k, v) :: members => (k, splice v) :: spliceMembers members
end

mutual
theorem parse_write (h : ∀ s, parse (string s) = some (.str s)) :
    ∀ v : Json Verbatim, parse (write string v) = some (splice v)
  | .null => parse_of_spells spells_null
  | .bool b => parse_of_spells (spells_bool b)
  | .num n => n.reads
  | .str s => h s
  | .arr items => parse_arrayText (parse_writeItems h items)
  | .obj members => parse_objectText (parse_writeMembers h members)

theorem parse_writeItems (h : ∀ s, parse (string s) = some (.str s)) :
    ∀ items, List.Forall₂ (fun t v => parse t = some v) (writeItems string items) (spliceItems items)
  | [] => .nil
  | v :: items => .cons (parse_write h v) (parse_writeItems h items)

theorem parse_writeMembers (h : ∀ s, parse (string s) = some (.str s)) :
    ∀ members, List.Forall₂ ReadsMember (writeMembers string members) (spliceMembers members)
  | [] => .nil
  | (k, v) :: members => .cons ⟨h k, parse_write h v⟩ (parse_writeMembers h members)
end

end Writer

end Lib.Json
