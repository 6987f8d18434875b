import Kallisto.Lib.Split
import Kallisto.Policy.Matcher

/-!
The language of a pattern. The matcher walks split segments and a byte offset; the language
speaks of whole texts: what may be put in place of each `+` and of the final `*`.
-/
namespace Kallisto.Policy
open Lib Kallisto.Crypto

/-- What a segment lets stand in its place. -/
def Stands (segment part : Text) : Prop :=
  if segment = ['+'] then '/' ∉ part else part = segment

def Globbed (pattern : Text) : Prop := pattern.getLast? = some '*'

instance (pattern : Text) : Decidable (Globbed pattern) := inferInstanceAs (Decidable (_ = _))

instance (rule : PolicyRule) (path : Text) : Decidable (Covers rule path) := inferInstanceAs (Decidable (_ = true))

/-- The pattern without its final `*`. -/
def body (pattern : Text) : Text := if Globbed pattern then pattern.dropLast else pattern

/-- The candidate is the pattern with every whole segment `+` in front of the final `*` replaced
by a text without a slash, and the final `*` by any text. -/
def Obtained (pattern candidate : Text) : Prop :=
  ∃ parts rest, List.Forall₂ Stands ((body pattern).splitOn '/') parts ∧ (Globbed pattern ∨ rest = []) ∧
    candidate = ['/'].intercalate parts ++ rest

/-- The same with the segments of the pattern as it is written, so that a final `+*` is no
whole segment `+`. -/
def ObtainedAsWritten (pattern candidate : Text) : Prop :=
  ∃ before last parts part rest, pattern.splitOn '/' = before ++ [last] ∧ List.Forall₂ Stands before parts ∧
    (if Globbed pattern then last = part ++ ['*'] else Stands last part ∧ rest = []) ∧
    candidate = ['/'].intercalate (parts ++ [part]) ++ rest

section Walk

def Segment.Admits : Segment → Text → Prop
  | .literal text, part => text = part
  | .any, _ => True

theorem consume_isSome (consumed : Nat) {segments : List Segment} {parts : List Text}
    (hlen : segments.length ≤ parts.length) :
    (consume consumed (segments.zip parts)).isSome ↔
      List.Forall₂ Segment.Admits segments (parts.take segments.length) := by
  induction segments generalizing consumed parts with
  | nil => simp [consume]
  | cons segment segments ih =>
      cases parts with
      | nil => simp at hlen
      | cons part parts =>
          have hrest := ih (consumed + ((utf8 part).length + 1)) (by simpa using hlen)
          rw [List.zip_cons_cons, List.length_cons, List.take_succ_cons, List.forall₂_cons, ← hrest]
          cases segment with
          | any => simp only [consume, Segment.Admits, true_and]
          | literal text =>
              by_cases heq : text = part
              · simp [consume, Segment.Admits, heq]
              · simp [consume, Segment.Admits, heq]

/-- What is left for the glob, as pieces. -/
def Pattern.Ends (p : Pattern) (tail : List Text) : Prop :=
  match p.glob with
  | none => tail = []
  | some text => tail ≠ [] ∧ text <+: ['/'].intercalate tail

/-- A list cut where the first relation ends. -/
theorem cut_iff {segments : List Segment} {l : List Text} {E : List Text → Prop} :
    (∃ parts tail, l = parts ++ tail ∧ List.Forall₂ Segment.Admits segments parts ∧ E tail) ↔
      segments.length ≤ l.length ∧ List.Forall₂ Segment.Admits segments (l.take segments.length) ∧
        E (l.drop segments.length) := by
  constructor
  · rintro ⟨parts, tail, rfl, hadmits, hend⟩
    rw [hadmits.length_eq, List.take_left, List.drop_left, List.length_append]
    exact ⟨Nat.le_add_right .., hadmits, hend⟩
  · rintro ⟨-, hadmits, hend⟩
    exact ⟨_, _, (List.take_append_drop ..).symm, hadmits, hend⟩

/-- The offset the walk arrives at is the start of the pieces that are left. -/
theorem textFrom_consumed {segments : List Segment} {candidate : Text} {consumed : Nat}
    (hlen : segments.length < (candidate.splitOn '/').length)
    (hc : consume 0 (segments.zip (candidate.splitOn '/')) = some consumed) :
    textFrom candidate consumed = some (['/'].intercalate ((candidate.splitOn '/').drop segments.length)) := by
  have hcut := textFrom_parts hlen
  rwa [List.intercalate_splitOn, ← Nat.zero_add (List.sum _), ← consume_eq (le_of_lt hlen) hc] at hcut

/-- The leading pieces of the candidate stand for the segments, and the pattern ends with the
others. -/
theorem Pattern.matches_iff_split (p : Pattern) (candidate : Text) : p.matches candidate ↔
    ∃ parts tail, candidate.splitOn '/' = parts ++ tail ∧ List.Forall₂ Segment.Admits p.segments parts ∧
      p.Ends tail := by
  have hchecked : p.matches candidate ↔ p.matchesChecked candidate = some true := by
    rw [Pattern.matches, ← Option.some_inj, Option.some_get]
  rw [hchecked, cut_iff, matchesChecked]
  by_cases hlen : (candidate.splitOn '/').length < p.segments.length
  · simp only [if_pos hlen, not_le.mpr hlen, false_and, Option.some.injEq, Bool.false_eq_true]
  · have hle := not_lt.mp hlen
    simp only [if_neg hlen, hle, true_and]
    rw [← consume_isSome 0 hle]
    cases hc : consume 0 (p.segments.zip (candidate.splitOn '/')) with
    | none => simp
    | some consumed =>
        simp only [Option.isSome_some, true_and, Pattern.Ends]
        cases p.glob with
        | none =>
            simp only [Option.some.injEq, decide_eq_true_eq, List.drop_eq_nil_iff]
            omega
        | some text =>
            by_cases heq : (candidate.splitOn '/').length = p.segments.length
            · simp [heq]
            · have hlt := lt_of_le_of_ne hle (Ne.symm heq)
              simp only [if_neg heq, textFrom_consumed hlt hc, Option.map_some, Option.some.injEq, ne_eq,
                List.drop_eq_nil_iff, not_le.mpr hlt, not_false_eq_true, true_and]
              exact stripPrefix_isSome

end Walk

section Compiled

def segmentOf (segment : Text) : Segment := if segment = ['+'] then .any else .literal segment

theorem compile_exact {pattern : Text} (h : ¬ Globbed pattern) :
    Pattern.compile pattern = ⟨((body pattern).splitOn '/').map segmentOf, none⟩ := by
  have hlast : ¬ pattern.getLast? = some '*' := h
  simp only [Pattern.compile, if_neg hlast, Bool.false_eq_true, if_false, body, if_neg h]
  rfl

/-- The final segment is the text the rest has to start with, and a `+` there is none. -/
theorem compile_glob {pattern : Text} (h : Globbed pattern) {before : List Text} {last : Text}
    (hsplit : (body pattern).splitOn '/' = before ++ [last]) :
    Pattern.compile pattern = ⟨before.map segmentOf, some (if last = ['+'] then [] else last)⟩ := by
  have hlast : pattern.getLast? = some '*' := h
  rw [body, if_pos h] at hsplit
  simp only [Pattern.compile, if_pos hlast, if_true, hsplit, List.map_append, List.map_singleton,
    List.dropLast_concat, List.getLast?_concat]
  by_cases hplus : last = ['+']
  · simp only [if_pos hplus]
    rfl
  · simp only [if_neg hplus]
    rfl

theorem admits_iff_stands {segment part : Text} (h : '/' ∉ part) :
    (segmentOf segment).Admits part ↔ Stands segment part := by
  unfold segmentOf Stands
  split_ifs
  · exact ⟨fun _ => h, fun _ => trivial⟩
  · exact eq_comm

theorem forall₂_admits {segments parts : List Text} (h : ∀ part ∈ parts, '/' ∉ part) :
    List.Forall₂ Segment.Admits (segments.map segmentOf) parts ↔ List.Forall₂ Stands segments parts := by
  induction parts generalizing segments with
  | nil => cases segments <;> simp
  | cons part parts ih =>
      cases segments with
      | nil => simp
      | cons segment segments =>
          rw [List.map_cons, List.forall₂_cons, List.forall₂_cons, admits_iff_stands (h part List.mem_cons_self),
            ih fun p hp => h p (List.mem_cons_of_mem _ hp)]

theorem stands_slashless {segments parts : List Text} (h : List.Forall₂ Stands segments parts)
    (hsegments : ∀ segment ∈ segments, '/' ∉ segment) : ∀ part ∈ parts, '/' ∉ part := by
  induction h with
  | nil => simp
  | @cons segment part segments parts hstands _ ih =>
      have hpart : '/' ∉ part := by
        unfold Stands at hstands
        split_ifs at hstands
        · exact hstands
        · exact hstands ▸ hsegments segment List.mem_cons_self
      rw [List.forall_mem_cons]
      exact ⟨hpart, ih fun s hs => hsegments s (List.mem_cons_of_mem _ hs)⟩

theorem stands_concat {before parts : List Text} {last : Text}
    (h : List.Forall₂ Stands (before ++ [last]) parts) :
    ∃ front part, parts = front ++ [part] ∧ List.Forall₂ Stands before front ∧ Stands last part := by
  induction before generalizing parts with
  | nil =>
      cases h with
      | cons hstands hrest =>
          cases hrest
          exact ⟨[], _, rfl, .nil, hstands⟩
  | cons segment before ih =>
      cases h with
      | cons hstands hrest =>
          obtain ⟨front, part, rfl, hfront, hlast⟩ := ih hrest
          exact ⟨_ :: front, part, rfl, .cons hstands hfront, hlast⟩

theorem exact_iff_obtained {pattern : Text} (h : ¬ Globbed pattern) (candidate : Text) :
    (Pattern.compile pattern).matches candidate ↔ Obtained pattern candidate := by
  simp only [Pattern.matches_iff_split, compile_exact h, Pattern.Ends]
  constructor
  · rintro ⟨parts, tail, hsplit, hadmits, rfl⟩
    rw [List.append_nil] at hsplit
    have hfree : ∀ part ∈ parts, '/' ∉ part := fun part hp => not_mem_of_mem_splitOn (hsplit ▸ hp)
    refine ⟨parts, [], (forall₂_admits hfree).mp hadmits, .inr rfl, ?_⟩
    rw [← hsplit, List.intercalate_splitOn, List.append_nil]
  · rintro ⟨parts, rest, hstands, hrest, rfl⟩
    obtain rfl := hrest.resolve_left h
    have hfree := stands_slashless hstands fun _ => not_mem_of_mem_splitOn
    have hne : parts ≠ [] := by
      rintro rfl
      exact List.splitOn_ne_nil _ _ (List.forall₂_nil_right_iff.mp hstands)
    refine ⟨parts, [], ?_, (forall₂_admits hfree).mpr hstands, rfl⟩
    rw [List.append_nil, List.append_nil, List.splitOn_intercalate '/' hfree hne]

theorem glob_iff_obtained {pattern : Text} (h : Globbed pattern) (candidate : Text) :
    (Pattern.compile pattern).matches candidate ↔ Obtained pattern candidate := by
  obtain ⟨before, last, hbody⟩ := (List.eq_nil_or_concat' _).resolve_left
    (List.splitOn_ne_nil '/' (body pattern))
  simp only [Pattern.matches_iff_split, compile_glob h hbody, Pattern.Ends, Obtained, hbody]
  constructor
  · rintro ⟨parts, tail, hsplit, hadmits, hne, rest, hrest⟩
    have hfree : ∀ part ∈ parts, '/' ∉ part := fun part hp =>
      not_mem_of_mem_splitOn (hsplit ▸ List.mem_append_left tail hp)
    refine ⟨parts ++ [if last = ['+'] then [] else last], rest, ?_, .inl h, ?_⟩
    · refine List.rel_append ((forall₂_admits hfree).mp hadmits) (.cons ?_ .nil)
      unfold Stands
      split_ifs <;> simp
    · rw [intercalate_concat_append, hrest, ← intercalate_append_tail hne, ← hsplit, List.intercalate_splitOn]
  · rintro ⟨parts, rest, hstands, -, rfl⟩
    obtain ⟨front, part, rfl, hfront, hlast⟩ := stands_concat hstands
    have hfree := stands_slashless hfront fun segment hs =>
      not_mem_of_mem_splitOn (hbody ▸ List.mem_append_left [last] hs)
    refine ⟨front, (part ++ rest).splitOn '/', ?_, (forall₂_admits hfree).mpr hfront,
      List.splitOn_ne_nil _ _, ?_⟩
    · rw [intercalate_concat_append, splitOn_intercalate_append hfree]
    · rw [List.intercalate_splitOn]
      unfold Stands at hlast
      split_ifs at hlast ⊢
      · exact List.nil_prefix
      · exact hlast ▸ List.prefix_append part rest

end Compiled

/-- Matching decides the language of the pattern, and its slice never panics. -/
theorem matches_iff_obtained (pattern candidate : Text) :
    ((Pattern.compile pattern).matches candidate ↔ Obtained pattern candidate) ∧
      (Pattern.compile pattern).matchesChecked candidate =
        some ((Pattern.compile pattern).matches candidate) := by
  refine ⟨?_, (Option.some_get _).symm⟩
  by_cases h : Globbed pattern
  · exact glob_iff_obtained h candidate
  · exact exact_iff_obtained h candidate

/-- `secret/+*` covers what its `+` does not spell. -/
theorem plus_star_covers : ¬ ∀ pattern candidate : Text,
    ((Pattern.compile pattern).matches candidate ↔ ObtainedAsWritten pattern candidate) := by
  intro hall
  have hmatches : (Pattern.compile "secret/+*".toList).matches "secret/abc".toList = true := by decide
  obtain ⟨before, last, parts, part, rest, hsplit, hstands, hlast, hcandidate⟩ := (hall _ _).mp hmatches
  have hwritten : "secret/+*".toList.splitOn '/' = ["secret".toList] ++ ["+*".toList] := by decide
  obtain ⟨rfl, hplus⟩ := List.append_inj' (hsplit.symm.trans hwritten) rfl
  rw [if_pos (by decide : Globbed "secret/+*".toList), List.singleton_inj.mp hplus] at hlast
  obtain rfl : ['+'] = part := (List.append_inj' hlast rfl).1
  obtain ⟨front, more, hfront, hmore, rfl⟩ := List.forall₂_cons_left_iff.mp hstands
  obtain rfl : front = "secret".toList := by simpa only [Stands, if_neg (by decide : "secret".toList ≠ ['+'])] using hfront
  obtain rfl := List.forall₂_nil_left_iff.mp hmore
  have hseventh := congrArg (·[7]?) hcandidate
  simp [List.intercalate] at hseventh

end Kallisto.Policy
