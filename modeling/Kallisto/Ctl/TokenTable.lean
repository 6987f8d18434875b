import Kallisto.Ctl.Commands
import Kallisto.Resolver.Snapshot

/-!
Two validators of one table. The tool asks whether there is a key; the resolver decodes the
key and every row.
-/
namespace Kallisto.Ctl
open Lib Kallisto.Crypto Kallisto.Policy Kallisto.Resolver

section Tool

/-- A row whose name the tool can print, or has no reason to. -/
def Printable (policies : SortedMap Text (List PolicyRule)) (row : Text × List Text) : Prop :=
  (shown row.1).isSome ∨ ∀ policy ∈ row.2, (policies.get policy).isSome

variable (policies : SortedMap Text (List PolicyRule))

theorem warningsOf_cases (name : Text) (names : List Text) :
    (∃ warnings, warningsOf policies name names = .ok warnings ∧ Printable policies (name, names)) ∨
      (warningsOf policies name names = .error .panicked ∧ ¬ Printable policies (name, names)) := by
  induction names with
  | nil => exact .inl ⟨[], rfl, .inr nofun⟩
  | cons policy names ih =>
      have hprint : (policies.get policy).isSome → (Printable policies (name, policy :: names) ↔
          Printable policies (name, names)) := by
        intro hdefined
        simp [Printable, hdefined]
      by_cases hdefined : (policies.get policy).isSome = true
      · rw [warningsOf, if_pos hdefined, hprint hdefined]
        exact ih
      · rw [warningsOf, if_neg hdefined]
        cases hs : shown name with
        | none =>
            refine .inr ⟨rfl, ?_⟩
            rintro (hcut | hall)
            · simp [hs] at hcut
            · exact hdefined (hall policy List.mem_cons_self)
        | some token =>
            have hcut : ∀ rest, Printable policies (name, rest) := fun rest => .inl (by simp [hs])
            rcases ih with ⟨warnings, hw, -⟩ | ⟨-, hnot⟩
            · exact .inl ⟨⟨token, policy⟩ :: warnings, by simp only [hw]; rfl, hcut _⟩
            · exact absurd (hcut names) hnot

theorem tokenWarnings_cases (rows : List (Text × List Text)) :
    (∃ warnings, tokenWarnings policies rows = .ok warnings ∧ ∀ row ∈ rows, Printable policies row) ∨
      (tokenWarnings policies rows = .error .panicked ∧ ¬ ∀ row ∈ rows, Printable policies row) := by
  induction rows with
  | nil => exact .inl ⟨[], rfl, nofun⟩
  | cons row rows ih =>
      obtain ⟨name, names⟩ := row
      simp only [List.forall_mem_cons]
      rcases warningsOf_cases policies name names with ⟨first, hfirst, hprint⟩ | ⟨hfirst, hnot⟩
      · rcases ih with ⟨rest, hrest, hall⟩ | ⟨hrest, hnot⟩
        · exact .inl ⟨first ++ rest, by simp only [tokenWarnings, hfirst, hrest]; rfl, hprint, hall⟩
        · exact .inr ⟨by simp only [tokenWarnings, hfirst, hrest]; rfl, fun h => hnot h.2⟩
      · exact .inr ⟨by simp only [tokenWarnings, hfirst]; rfl, fun h => hnot h.1⟩

end Tool

/-- The table decodes: the key, and the hash in front of every row. -/
def Decodes (keyHex : Text) (tokens : SortedMap Text (List Text)) : Prop :=
  (∃ key, TokenKey.fromHex keyHex = .ok key) ∧
    ∀ row ∈ tokens.entries, ∃ hash, decodeArray HASH_LEN row.1 = .ok hash

theorem tokenTable_build_iff {keyHex : Text} {tokens : SortedMap Text (List Text)}
    {policies : SortedMap Text (List PolicyRule)} :
    (∃ table, TokenTable.build keyHex tokens policies = .ok table) ↔ Decodes keyHex tokens := by
  constructor
  · rintro ⟨table, htable⟩
    obtain ⟨hkey, hrows⟩ := build_ok htable
    refine ⟨⟨_, hkey⟩, ?_⟩
    intro row hrow
    obtain ⟨entry, -, hentry⟩ := entry_of_row htable hrow
    exact ⟨_, hentry.1⟩
  · rintro ⟨⟨key, hkey⟩, hrows⟩
    obtain ⟨table, htable, -⟩ := build_of_decodes hkey hrows
    exact ⟨table, htable⟩

section Agreement
variable {V : Type} (P : Platform) (draw : Draw) (etag : Option Text) (view : View) (c : Contents V)

/-- The file that carries the table of `c`. -/
def carrying : View := { view with policies := c.policies, tokens := c.tokens, tokenKey := c.tokenKey }

/-- The tool does not panic, and accepts exactly what the resolver does not refuse for its tokens. -/
def Agree : Prop :=
  validateTokenTable c ≠ .error .panicked ∧
    ((∃ warnings, validateTokenTable c = .ok warnings) ↔
      ¬ ∃ e, Snapshot.build P draw (carrying view c) etag = .error (.tokens e))

theorem refused_iff : (∃ e, Snapshot.build P draw (carrying view c) etag = .error (.tokens e)) ↔
    ∃ e, buildTokens (carrying view c) = .error e := by
  unfold Snapshot.build
  cases buildTokens (carrying view c) with
  | error e => simp
  | ok tokens =>
      dsimp only
      cases Barrier.new draw.seed with
      | error e => simp
      | ok barrier =>
          dsimp only
          split <;> simp

end Agreement

/-- They agree where there is no key at all, and otherwise where the key and the rows decode
and no row with an undefined policy has a name that is cut inside a character. -/
theorem agree_iff_decodes {V : Type} (P : Platform) (draw : Draw) (etag : Option Text) (view : View) (c : Contents V) :
    Agree P draw etag view c ↔ ∀ keyHex, c.tokenKey = some keyHex →
      Decodes keyHex c.tokens ∧ ∀ row ∈ c.tokens.entries,
        (shown row.1).isSome ∨ ∀ policy ∈ row.2, (c.policies.get policy).isSome := by
  rw [Agree, refused_iff]
  cases hk : c.tokenKey with
  | none =>
      simp only [validateTokenTable, buildTokens, carrying, hk]
      cases hrows : c.tokens.entries with
      | nil => simp [tokenWarnings]
      | cons row rows => simp [fail]
  | some keyHex =>
      have hvalidate : validateTokenTable c = tokenWarnings c.policies c.tokens.entries := by
        rw [validateTokenTable, if_neg]
        simp [hk]
      have hbuild : (¬ ∃ e, buildTokens (carrying view c) = .error e) ↔ Decodes keyHex c.tokens := by
        have hdecodes : (∃ table, TokenTable.build keyHex c.tokens c.policies = .ok table) ↔
          Decodes keyHex c.tokens := tokenTable_build_iff
        rw [← hdecodes]
        simp only [buildTokens, carrying, hk]
        cases TokenTable.build keyHex c.tokens c.policies <;> simp [Except.map]
      rw [hvalidate, hbuild]
      simp only [Option.some.injEq, forall_eq']
      rcases tokenWarnings_cases c.policies c.tokens.entries with ⟨warnings, hw, hall⟩ | ⟨hw, hnot⟩
      · rw [hw]
        constructor
        · rintro ⟨-, hiff⟩
          exact ⟨hiff.mp ⟨warnings, rfl⟩, hall⟩
        · rintro ⟨hdecodes, -⟩
          exact ⟨nofun, fun _ => hdecodes, fun _ => ⟨warnings, rfl⟩⟩
      · rw [hw]
        constructor
        · rintro ⟨hpanic, -⟩
          exact absurd rfl hpanic
        · rintro ⟨-, hall⟩
          exact absurd hall hnot

def notHashed : Contents Text :=
  ⟨1, .empty, samplePolicies, .ofList [("app-token".toList, ["app".toList])], some sampleKeyHex⟩

/-- A row that is not a hash passes the tool, and the resolver refuses the file. -/
theorem unhashed_row_disagrees : validateTokenTable notHashed = .ok [] ∧
    Snapshot.build samplePlatform sampleDraw (carrying ⟨1, .empty, .empty, .empty, none⟩ notHashed) none =
      .error (.tokens (.hashMalformed 0)) ∧
    ¬ Agree samplePlatform sampleDraw none ⟨1, .empty, .empty, .empty, none⟩ notHashed := by
  have htool : validateTokenTable notHashed = .ok [] := by decide +kernel
  have htokens : buildTokens (carrying ⟨1, .empty, .empty, .empty, none⟩ notHashed) = .error (.hashMalformed 0) := by
    decide +kernel
  have hresolver : Snapshot.build samplePlatform sampleDraw
      (carrying ⟨1, .empty, .empty, .empty, none⟩ notHashed) none = .error (.tokens (.hashMalformed 0)) := by
    rw [Snapshot.build, htokens]
  refine ⟨htool, hresolver, ?_⟩
  rintro ⟨-, hiff⟩
  exact hiff.mp ⟨[], htool⟩ ⟨_, hresolver⟩

/-- Seven octets and then a character of two, with a policy nobody defined. -/
example : validateTokenTable (⟨1, .empty, .empty, .ofList [("aaaaaaa\u00e9".toList, ["app".toList])],
    some sampleKeyHex⟩ : Contents Text) = .error .panicked := by decide +kernel

end Kallisto.Ctl
