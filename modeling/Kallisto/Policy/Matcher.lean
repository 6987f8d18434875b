import Kallisto.Crypto.SealedFile

/-!
Policy rules and path patterns. A rule's pattern is compiled once; `allows` walks the rules
of a token with an early return on `deny`, and is shown to be the order-free sentence
"some matching rule grants it and no matching rule denies".
-/
namespace Kallisto.Policy
open Lib Kallisto.Crypto

inductive Capability where
  | read
  | list
  deriving DecidableEq, Repr

inductive Segment where
  | literal (text : Text)
  | any
  deriving DecidableEq, Repr

structure Pattern where
  segments : List Segment
  glob : Option Text
  deriving DecidableEq, Repr

def Pattern.compile (path : Text) : Pattern :=
  let (body, globbed) := if path.getLast? = some '*' then (path.dropLast, true) else (path, false)
  let segments := (body.splitOn '/').map fun s => if s = ['+'] then Segment.any else .literal s
  if globbed then
    { segments := segments.dropLast
      glob := some (match segments.getLast? with
        | some (.literal text) => text
        | some .any | none => []) }
  else { segments, glob := none }

/-- The loop over segments: `none` where a literal differs, else the octets consumed. -/
def consume (consumed : Nat) : List (Segment × Text) → Option Nat
  | [] => some consumed
  | (segment, part) :: rest =>
      match segment with
      | .literal text =>
          if text ≠ part then none else consume (consumed + ((utf8 part).length + 1)) rest
      | .any => consume (consumed + ((utf8 part).length + 1)) rest

/-- `matches` with its slice made visible: `none` where `candidate[consumed..]` would panic. -/
def Pattern.matchesChecked (p : Pattern) (candidate : Text) : Option Bool :=
  let parts := candidate.splitOn '/'
  if parts.length < p.segments.length then some false
  else
    match consume 0 (p.segments.zip parts) with
    | none => some false
    | some consumed =>
        match p.glob with
        | none => some (parts.length = p.segments.length)
        | some text =>
            if parts.length = p.segments.length then some false
            else (textFrom candidate consumed).map fun rest => (stripPrefix text rest).isSome

/-- The octets of the leading parts, each with its separator. -/
theorem consume_eq {consumed total : Nat} {segments : List Segment} {parts : List Text}
    (hlen : segments.length ≤ parts.length) (h : consume consumed (segments.zip parts) = some total) :
    total = consumed + ((parts.take segments.length).map fun part => (utf8 part).length + 1).sum := by
  induction segments generalizing consumed parts with
  | nil => simpa [consume] using h.symm
  | cons segment segments ih =>
      match parts, hlen with
      | part :: parts, hlen =>
          have hrest : consume (consumed + ((utf8 part).length + 1)) (segments.zip parts) = some total := by
            cases segment with
            | any => exact h
            | literal text =>
                simp only [List.zip_cons_cons, consume] at h
                split_ifs at h
                exact h
          rw [ih (by simpa using hlen) hrest, List.length_cons, List.take_succ_cons, List.map_cons,
            List.sum_cons, Nat.add_assoc]

/-- Skipping some but not all parts of a split text ends right after a separator. -/
theorem textFrom_parts {parts : List Text} {k : Nat} (h : k < parts.length) :
    textFrom (['/'].intercalate parts) ((parts.take k).map fun part => (utf8 part).length + 1).sum =
      some (['/'].intercalate (parts.drop k)) := by
  induction k generalizing parts with
  | zero => exact textFrom_zero _
  | succ k ih =>
      match parts, h with
      | a :: b :: parts, h =>
          have hshort : k < (b :: parts).length := by simpa using h
          have hrest := ih hshort
          have hjoin : ['/'].intercalate (a :: b :: parts) = (a ++ ['/']) ++ ['/'].intercalate (b :: parts) := by
            simp [List.intercalate]
          have hone : (utf8 (a ++ ['/'])).length = (utf8 a).length + 1 := by
            rw [utf8_append, List.length_append]
            rfl
          rw [hjoin, List.take_succ_cons, List.map_cons, List.sum_cons, ← hone, textFrom_append, hrest,
            List.drop_succ_cons]
      | [_], h => simp at h
      | [], h => simp at h

/-- The slice is in range and on a character boundary, for every pattern and candidate. -/
theorem Pattern.matchesChecked_total (p : Pattern) (candidate : Text) :
    (p.matchesChecked candidate).isSome := by
  simp only [matchesChecked]
  by_cases hlen : (candidate.splitOn '/').length < p.segments.length
  · rw [if_pos hlen]
    rfl
  rw [if_neg hlen]
  cases hc : consume 0 (p.segments.zip (candidate.splitOn '/')) with
  | none => rfl
  | some consumed =>
      cases p.glob with
      | none => rfl
      | some text =>
          by_cases heq : (candidate.splitOn '/').length = p.segments.length
          · simp only [if_pos heq, Option.isSome_some]
          · have hlt : p.segments.length < (candidate.splitOn '/').length := by omega
            have hcut := textFrom_parts hlt
            rw [List.intercalate_splitOn, ← Nat.zero_add (List.sum _), ← consume_eq (by omega) hc] at hcut
            simp only [if_neg heq, hcut, Option.map_some, Option.isSome_some]

def Pattern.matches (p : Pattern) (candidate : Text) : Bool :=
  (p.matchesChecked candidate).get (p.matchesChecked_total candidate)

def READ : Text := "read".toList
def LIST : Text := "list".toList
def DENY : Text := "deny".toList

structure CompiledRule where
  pattern : Pattern
  read : Bool
  list : Bool
  deny : Bool
  deriving DecidableEq, Repr

def CompiledRule.note (compiled : CompiledRule) (capability : Text) : CompiledRule :=
  if capability = READ then { compiled with read := true }
  else if capability = LIST then { compiled with list := true }
  else if capability = DENY then { compiled with deny := true }
  else compiled

def CompiledRule.compile (rule : PolicyRule) : CompiledRule :=
  rule.capabilities.foldl note { pattern := .compile rule.path, read := false, list := false, deny := false }

def CompiledRule.grants (rule : CompiledRule) : Capability → Bool
  | .read => rule.read
  | .list => rule.list

structure RuleSet where
  rules : List CompiledRule
  deriving DecidableEq, Repr

def RuleSet.fromRules (rules : List PolicyRule) : RuleSet := ⟨rules.map .compile⟩

/-- The loop of `allows`, with what was granted so far. -/
def allowsLoop (path : Text) (capability : Capability) (granted : Bool) : List CompiledRule → Bool
  | [] => granted
  | rule :: rules =>
      if !rule.pattern.matches path then allowsLoop path capability granted rules
      else if rule.deny then false
      else allowsLoop path capability (granted || rule.grants capability) rules

def RuleSet.allows (set : RuleSet) (path : Text) (capability : Capability) : Bool :=
  allowsLoop path capability false set.rules

def Capability.name : Capability → Text
  | .read => READ
  | .list => LIST

theorem note_eq (c : CompiledRule) (capability : Text) :
    c.note capability = { c with
      read := c.read || decide (capability = READ)
      list := c.list || decide (capability = LIST)
      deny := c.deny || decide (capability = DENY) } := by
  have hrl : READ ≠ LIST := by decide
  have hrd : READ ≠ DENY := by decide
  have hld : LIST ≠ DENY := by decide
  unfold CompiledRule.note
  split_ifs with h1 h2 h3
  · subst h1; simp [hrl, hrd]
  · subst h2; simp [hrl.symm, hld]
  · subst h3; simp [hrd.symm, hld.symm]
  · simp [h1, h2, h3]

theorem foldl_note (capabilities : List Text) (c : CompiledRule) :
    capabilities.foldl .note c = { c with
      read := c.read || decide (READ ∈ capabilities)
      list := c.list || decide (LIST ∈ capabilities)
      deny := c.deny || decide (DENY ∈ capabilities) } := by
  induction capabilities generalizing c with
  | nil => simp
  | cons capability capabilities ih =>
      rw [List.foldl_cons, ih, note_eq]
      simp only [List.mem_cons, Bool.decide_or, Bool.or_assoc, eq_comm]

theorem compile_eq (rule : PolicyRule) : CompiledRule.compile rule =
    { pattern := .compile rule.path
      read := decide (READ ∈ rule.capabilities)
      list := decide (LIST ∈ rule.capabilities)
      deny := decide (DENY ∈ rule.capabilities) } := by
  rw [CompiledRule.compile, foldl_note]
  simp only [Bool.false_or]

theorem compile_grants (rule : PolicyRule) (capability : Capability) :
    (CompiledRule.compile rule).grants capability ↔ capability.name ∈ rule.capabilities := by
  rw [compile_eq]
  cases capability <;> exact decide_eq_true_iff

theorem compile_deny (rule : PolicyRule) :
    (CompiledRule.compile rule).deny ↔ DENY ∈ rule.capabilities := by
  rw [compile_eq]
  exact decide_eq_true_iff

theorem compile_pattern (rule : PolicyRule) :
    (CompiledRule.compile rule).pattern = .compile rule.path := by
  rw [compile_eq]

/-- The rule speaks about the path. -/
def Covers (rule : PolicyRule) (path : Text) : Prop := (Pattern.compile rule.path).matches path

instance (rule : PolicyRule) (path : Text) : Decidable (Covers rule path) :=
  inferInstanceAs (Decidable ((Pattern.compile rule.path).matches path = true))

theorem allowsLoop_iff (rules : List PolicyRule) (path : Text) (capability : Capability) (granted : Bool) :
    allowsLoop path capability granted (rules.map .compile) ↔
      (granted ∨ ∃ rule ∈ rules, Covers rule path ∧ capability.name ∈ rule.capabilities) ∧
        ∀ rule ∈ rules, Covers rule path → DENY ∉ rule.capabilities := by
  induction rules generalizing granted with
  | nil => simp [allowsLoop]
  | cons rule rules ih =>
      have hgrants := compile_grants rule capability
      have hdeny := compile_deny rule
      simp only [List.map_cons, allowsLoop, compile_pattern, List.mem_cons, exists_eq_or_imp,
        forall_eq_or_imp]
      by_cases hm : (Pattern.compile rule.path).matches path
      · by_cases hd : (CompiledRule.compile rule).deny
        · simp only [hm, hd, Bool.not_true, Bool.false_eq_true, if_false, if_true, false_iff, not_and]
          exact fun _ hall => absurd (hdeny.mp hd) (hall hm)
        · simp only [hm, hd, Bool.not_true, Bool.false_eq_true, if_false, ih, Bool.or_eq_true, hgrants]
          have hno : DENY ∉ rule.capabilities := fun h => hd (hdeny.mpr h)
          simp only [Covers, hm, true_and, hno, not_false_eq_true, implies_true, or_assoc]
      · simp only [hm, Bool.not_false, if_true, ih, Covers, Bool.false_eq_true, false_and, false_or,
          false_implies, true_and]

/-- The walk with its early return says the same as the unordered sentence. -/
theorem RuleSet.allows_iff (rules : List PolicyRule) (path : Text) (capability : Capability) :
    (RuleSet.fromRules rules).allows path capability ↔
      (∃ rule ∈ rules, Covers rule path ∧ capability.name ∈ rule.capabilities) ∧
        ¬ ∃ rule ∈ rules, Covers rule path ∧ DENY ∈ rule.capabilities := by
  rw [allows, fromRules, allowsLoop_iff]
  simp

end Kallisto.Policy
