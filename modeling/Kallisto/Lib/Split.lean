import Kallisto.Lib.Text
import Mathlib.Data.List.Infix
import Mathlib.Data.List.TakeWhile

/-!
Splitting a list at every occurrence of one separator, putting the pieces back, and searching
a text for a pattern that no separator interrupts.
-/
namespace Lib

section Pieces
variable {α : Type} {sep : α}

theorem intercalate_cons {piece : List α} {pieces : List (List α)} (h : pieces ≠ []) :
    [sep].intercalate (piece :: pieces) = piece ++ sep :: [sep].intercalate pieces := by
  cases pieces with
  | nil => exact absurd rfl h
  | cons next pieces => simp [List.intercalate]

/-- What follows the last separator may be cut off and put back. -/
theorem intercalate_append_tail {pieces tail : List (List α)} (h : tail ≠ []) :
    [sep].intercalate (pieces ++ tail) = [sep].intercalate (pieces ++ [[sep].intercalate tail]) := by
  induction pieces with
  | nil => simp [List.intercalate]
  | cons piece pieces ih =>
      rw [List.cons_append, List.cons_append, intercalate_cons (by simp [h]), intercalate_cons (by simp), ih]

theorem intercalate_concat_append (pieces : List (List α)) (last rest : List α) :
    [sep].intercalate (pieces ++ [last]) ++ rest = [sep].intercalate (pieces ++ [last ++ rest]) := by
  induction pieces with
  | nil => simp [List.intercalate]
  | cons piece pieces ih =>
      rw [List.cons_append, List.cons_append, intercalate_cons (by simp), intercalate_cons (by simp), ← ih,
        List.append_assoc, List.cons_append]

theorem intercalate_concat {pieces : List (List α)} (h : pieces ≠ []) (last : List α) :
    [sep].intercalate (pieces ++ [last]) = [sep].intercalate pieces ++ sep :: last := by
  induction pieces with
  | nil => exact absurd rfl h
  | cons piece pieces ih =>
      cases pieces with
      | nil => simp [List.intercalate]
      | cons next pieces =>
          rw [List.cons_append, intercalate_cons (by simp), ih (List.cons_ne_nil _ _),
            intercalate_cons (List.cons_ne_nil _ _), List.append_assoc, List.cons_append]

theorem not_mem_intercalate {c : α} (hc : c ≠ sep) {pieces : List (List α)} (h : ∀ piece ∈ pieces, c ∉ piece) :
    c ∉ [sep].intercalate pieces := by
  induction pieces with
  | nil => exact List.not_mem_nil
  | cons piece pieces ih =>
      have hpiece := h piece List.mem_cons_self
      cases pieces with
      | nil => rwa [List.intercalate_singleton]
      | cons next pieces =>
          rw [intercalate_cons (List.cons_ne_nil _ _), List.mem_append, List.mem_cons, not_or, not_or]
          exact ⟨hpiece, hc, ih fun p hp => h p (List.mem_cons_of_mem _ hp)⟩

/-- Two lists cut at their first separator are equal piece by piece. -/
theorem append_sep_inj {a b s t : List α} (ha : sep ∉ a) (hb : sep ∉ b) (h : a ++ sep :: s = b ++ sep :: t) :
    a = b ∧ s = t := by
  induction a generalizing b with
  | nil =>
      cases b with
      | nil => exact ⟨rfl, (List.cons.inj h).2⟩
      | cons y b => exact absurd ((List.cons.inj h).1 ▸ List.mem_cons_self) hb
  | cons x a ih =>
      cases b with
      | nil => exact absurd ((List.cons.inj h).1 ▸ List.mem_cons_self) ha
      | cons y b =>
          obtain ⟨rfl, htail⟩ := List.cons.inj h
          obtain ⟨rfl, rfl⟩ := ih (fun hm => ha (List.mem_cons_of_mem _ hm))
            (fun hm => hb (List.mem_cons_of_mem _ hm)) htail
          exact ⟨rfl, rfl⟩

/-- Where each code can be read off the front of whatever follows it, so can a row of codes. -/
theorem flatMap_injective {β : Type} {code : α → List β} (read : List β → Option (α × List β))
    (hread : ∀ a s, read (code a ++ s) = some (a, s)) (hnil : read [] = none) :
    Function.Injective fun l : List α => l.flatMap code := by
  intro l l' h
  simp only at h
  induction l generalizing l' with
  | nil =>
      cases l' with
      | nil => rfl
      | cons a l' =>
          have hcode := hread a (l'.flatMap code)
          rw [← List.flatMap_cons, ← h, List.flatMap_nil, hnil] at hcode
          cases hcode
  | cons a l ih =>
      have hcode := hread a (l.flatMap code)
      rw [← List.flatMap_cons] at hcode
      cases l' with
      | nil =>
          simp only [h, List.flatMap_nil, hnil] at hcode
          cases hcode
      | cons b l' =>
          simp only [h, List.flatMap_cons, hread, Option.some.injEq, Prod.mk.injEq] at hcode
          obtain ⟨rfl, htail⟩ := hcode
          rw [ih htail.symm]

variable [BEq α] [LawfulBEq α]

theorem not_mem_of_mem_splitOn {l piece : List α} (h : piece ∈ l.splitOn sep) : sep ∉ piece := by
  induction l generalizing piece with
  | nil =>
      rw [List.splitOn_nil, List.mem_singleton] at h
      rw [h]
      exact List.not_mem_nil
  | cons x l ih =>
      rw [List.splitOn_cons_eq_if_modifyHead] at h
      split at h
      · rcases List.mem_cons.mp h with rfl | hrest
        · exact List.not_mem_nil
        · exact ih hrest
      · rename_i hx
        obtain ⟨first, rest, hsplit⟩ := List.exists_cons_of_ne_nil (List.splitOn_ne_nil sep l)
        rw [hsplit, List.modifyHead_cons] at h
        rcases List.mem_cons.mp h with rfl | hrest
        · have hfirst := ih (hsplit ▸ List.mem_cons_self)
          rw [List.mem_cons, not_or]
          refine ⟨?_, hfirst⟩
          rintro rfl
          exact hx (beq_self_eq_true _)
        · exact ih (hsplit ▸ List.mem_cons_of_mem _ hrest)

/-- Pieces free of the separator stay pieces in front of whatever follows. -/
theorem splitOn_intercalate_append {pieces : List (List α)} (h : ∀ piece ∈ pieces, sep ∉ piece) (rest : List α) :
    ([sep].intercalate (pieces ++ [rest])).splitOn sep = pieces ++ rest.splitOn sep := by
  induction pieces with
  | nil => simp [List.intercalate]
  | cons piece pieces ih =>
      rw [List.cons_append, intercalate_cons (by simp),
        List.splitOn_append_cons_self_of_not_mem (h piece List.mem_cons_self),
        ih fun p hp => h p (List.mem_cons_of_mem _ hp), List.cons_append]

/-- A list without the separator, or the part up to the first one and what follows it. -/
theorem first_sep (sep : α) (l : List α) : (sep ∉ l ∧ l.dropWhile (· != sep) = []) ∨
    ∃ rest, l.dropWhile (· != sep) = sep :: rest ∧ l = l.takeWhile (· != sep) ++ sep :: rest := by
  have hcut := List.takeWhile_append_dropWhile (p := (· != sep)) (l := l)
  cases hd : l.dropWhile (· != sep) with
  | nil =>
      refine .inl ⟨?_, rfl⟩
      intro hmem
      simpa using List.dropWhile_eq_nil_iff.mp hd sep hmem
  | cons c rest =>
      have hhead := List.head_dropWhile_not (· != sep) (by rw [hd]; exact List.cons_ne_nil c rest)
      have hc : c = sep := by simpa [hd] using hhead
      rw [hd, hc] at hcut
      exact .inr ⟨rest, by rw [hc], hcut.symm⟩

end Pieces

section Search
variable {pat : Text} {sep : Char}

theorem stripPrefix_append_sep (h : sep ∉ pat) (s rest : Text) :
    stripPrefix pat (s ++ sep :: rest) = (stripPrefix pat s).map (· ++ sep :: rest) := by
  induction pat generalizing s with
  | nil => rfl
  | cons c pat ih =>
      rw [List.mem_cons, not_or] at h
      cases s with
      | nil => simp [stripPrefix, Ne.symm h.1]
      | cons d s =>
          by_cases hcd : c = d
          · simp only [List.cons_append, stripPrefix, if_pos hcd, ih h.2]
          · simp only [List.cons_append, stripPrefix, if_neg hcd, Option.map_none]

theorem afterFirst_eq (pat : Text) (c : Char) (s : Text) :
    afterFirst pat (c :: s) = (stripPrefix pat (c :: s)).or (afterFirst pat s) := by
  rw [afterFirst]
  cases stripPrefix pat (c :: s) <;> rfl

theorem afterFirst_append_sep (h : sep ∉ pat) (hne : pat ≠ []) (s rest : Text) :
    afterFirst pat (s ++ sep :: rest) = ((afterFirst pat s).map (· ++ sep :: rest)).or (afterFirst pat rest) := by
  have hnil : stripPrefix pat [] = none := by
    cases pat with
    | nil => exact absurd rfl hne
    | cons c pat => rfl
  induction s with
  | nil =>
      have hstrip := stripPrefix_append_sep h [] rest
      rw [hnil] at hstrip
      rw [afterFirst, hnil, List.nil_append, afterFirst_eq, Option.map_none]
      exact congrArg (Option.or · (afterFirst pat rest)) hstrip
  | cons c s ih =>
      have hstrip := stripPrefix_append_sep h (c :: s) rest
      rw [List.cons_append] at hstrip ⊢
      rw [afterFirst_eq, afterFirst_eq, ih, hstrip, Option.map_or, Option.or_assoc]

theorem afterFirst_eq_some {s t : Text} (h : afterFirst pat s = some t) : ∃ before, s = before ++ (pat ++ t) := by
  induction s with
  | nil =>
      rw [afterFirst, stripPrefix_eq_some] at h
      exact ⟨[], h⟩
  | cons c s ih =>
      rw [afterFirst_eq, Option.or_eq_some_iff, stripPrefix_eq_some] at h
      rcases h with hhere | ⟨-, hrest⟩
      · exact ⟨[], hhere⟩
      · obtain ⟨before, rfl⟩ := ih hrest
        exact ⟨c :: before, rfl⟩

theorem afterFirst_isSome {s : Text} : (afterFirst pat s).isSome ↔ pat <:+: s := by
  induction s with
  | nil => rw [afterFirst, stripPrefix_isSome, List.prefix_nil, List.infix_nil]
  | cons c s ih => rw [afterFirst_eq, Option.isSome_or, Bool.or_eq_true, stripPrefix_isSome, ih, List.infix_cons_iff]

theorem afterFirst_append (pat t : Text) : afterFirst pat (pat ++ t) = some t := by
  have hstrip := stripPrefix_append pat t
  cases hs : pat ++ t with
  | nil => rw [afterFirst, ← hs, hstrip]
  | cons c s => rw [afterFirst_eq, ← hs, hstrip, Option.some_or]

/-- The search finds its pattern in the first piece that has it, and reads on to the end of
that piece. -/
theorem afterFirst_pieces (h : sep ∉ pat) (hne : pat ≠ []) (s : Text) :
    (afterFirst pat s).map (·.takeWhile (· != sep)) = (s.splitOn sep).findSome? (afterFirst pat) := by
  have hpieces : ∀ pieces : List Text, pieces ≠ [] → (∀ piece ∈ pieces, sep ∉ piece) →
      (afterFirst pat ([sep].intercalate pieces)).map (·.takeWhile (· != sep)) =
        pieces.findSome? (afterFirst pat) := by
    intro pieces
    induction pieces with
    | nil => exact fun hnil => absurd rfl hnil
    | cons piece pieces ih =>
        intro _ hfree
        have hwhole : ∀ t, afterFirst pat piece = some t → ∀ c ∈ t, (c != sep) = true := by
          intro t ht c hc
          obtain ⟨before, heq⟩ := afterFirst_eq_some ht
          have hmem : c ∈ piece := by
            rw [heq]
            exact List.mem_append_right _ (List.mem_append_right _ hc)
          simpa using ne_of_mem_of_not_mem hmem (hfree piece List.mem_cons_self)
        rw [List.findSome?_cons]
        by_cases hlast : pieces = []
        · subst hlast
          have hjoin : [sep].intercalate [piece] = piece := by simp [List.intercalate]
          rw [hjoin]
          cases hp : afterFirst pat piece with
          | none => rfl
          | some t => simp only [Option.map_some, List.takeWhile_eq_self_iff.mpr (hwhole t hp)]
        · rw [intercalate_cons hlast, afterFirst_append_sep h hne]
          cases hp : afterFirst pat piece with
          | none => exact ih hlast fun p hmem => hfree p (List.mem_cons_of_mem _ hmem)
          | some t =>
              rw [Option.map_some, Option.some_or, Option.map_some, List.takeWhile_append_of_pos (hwhole t hp)]
              simp
  have hjoined := hpieces (s.splitOn sep) (List.splitOn_ne_nil sep s) fun _ => not_mem_of_mem_splitOn
  rwa [List.intercalate_splitOn] at hjoined

theorem infix_iff_pieces (h : sep ∉ pat) (hne : pat ≠ []) {s : Text} :
    pat <:+: s ↔ ∃ piece ∈ s.splitOn sep, pat <:+: piece := by
  simp only [← afterFirst_isSome, ← List.findSome?_isSome_iff, ← afterFirst_pieces h hne, Option.isSome_map]

end Search

end Lib
