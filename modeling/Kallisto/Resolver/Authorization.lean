import Kallisto.Resolver.Snapshot

/-!
What a policy file means. `permits` reads rules that were flattened and compiled at build
time; here it is read back in the words of the file: which rules a token's row carries,
which of them cover the path, and what they list.
-/
namespace Kallisto.Resolver
open Lib Kallisto.Crypto Kallisto.Policy

/-- Some rule the names carry covers the path and lists the capability, and no rule they
carry covers it and lists `deny`. -/
def Permitted (policies : SortedMap Text (List PolicyRule)) (names : List Text) (path : Text)
    (capability : Capability) : Prop :=
  (∃ rule, Carries policies names rule ∧ Covers rule path ∧ capability.name ∈ rule.capabilities) ∧
    ¬ ∃ rule, Carries policies names rule ∧ Covers rule path ∧ DENY ∈ rule.capabilities

section Meaning
variable {P : Platform} {view : View} {s : Snapshot}

theorem buildTokens_none (h : buildTokens view = .ok none) : view.tokenKey = none ∧ view.tokens.entries = [] := by
  unfold buildTokens at h
  cases hk : view.tokenKey with
  | some keyHex =>
      simp only [hk] at h
      cases hb : TokenTable.build keyHex view.tokens view.policies <;> simp [hb, Except.map] at h
  | none =>
      cases ht : view.tokens.entries with
      | nil => exact ⟨rfl, rfl⟩
      | cons row rows => simp [hk, ht] at h

theorem buildTokens_some {table : TokenTable} (h : buildTokens view = .ok (some table)) :
    ∃ keyHex, view.tokenKey = some keyHex ∧ TokenTable.build keyHex view.tokens view.policies = .ok table := by
  unfold buildTokens at h
  cases hk : view.tokenKey with
  | none =>
      cases ht : view.tokens.entries <;> simp [hk, ht] at h
  | some keyHex =>
      simp only [hk] at h
      cases hb : TokenTable.build keyHex view.tokens view.policies with
      | error e => simp [hb, Except.map] at h
      | ok table' =>
          simp only [hb, Except.map, Except.ok.injEq, Option.some.injEq] at h
          exact ⟨keyHex, rfl, h ▸ hb⟩

/-- A file has a token table exactly when it has a key for one. -/
theorem tokens_none_iff (image : Image P view s) : s.tokens = none ↔ view.tokenKey = none := by
  constructor
  · intro ht
    exact (buildTokens_none (ht ▸ image.tokens)).1
  · intro hk
    cases ht : s.tokens with
    | none => rfl
    | some table =>
        obtain ⟨keyHex, hk', -⟩ := buildTokens_some (ht ▸ image.tokens)
        rw [hk] at hk'
        cases hk'

theorem permits_of_no_table (h : s.tokens = none) (presented : Option Text) (path : Text)
    (capability : Capability) : s.permits P presented path capability = true := by
  simp [Snapshot.permits, h]

theorem permits_always_iff : (∀ presented path capability, s.permits P presented path capability = true) ↔
    s.tokens = none := by
  constructor
  · intro hall
    cases ht : s.tokens with
    | none => rfl
    | some table =>
        have hnone := hall none [] .read
        simp [Snapshot.permits, ht] at hnone
  · exact permits_of_no_table

theorem permits_of_table {table : TokenTable} (h : s.tokens = some table) (presented : Option Text)
    (path : Text) (capability : Capability) :
    s.permits P presented path capability =
      (s.grant P presented).any fun grant => grant.rules.allows path capability := by
  cases presented <;> simp [Snapshot.permits, Snapshot.grant, h]

/-- A grant is a row of the file: its names, and the rules they carry. -/
theorem grant_row (image : Image P view s) {token : Text} {grant : Grant}
    (h : s.grant P (some token) = some grant) :
    (∃ table text, s.tokens = some table ∧ view.tokens.get text = some grant.policies ∧
      Names P.hmac table.key token (text, grant.policies)) ∧
    ∀ path capability, grant.rules.allows path capability ↔
      Permitted view.policies grant.policies path capability := by
  cases ht : s.tokens with
  | none => simp [Snapshot.grant, ht] at h
  | some table =>
      have hlookup : table.lookup P.hmac token = some grant := by simpa [Snapshot.grant, ht] using h
      obtain ⟨keyHex, -, hb⟩ := buildTokens_some (ht ▸ image.tokens)
      obtain ⟨e, he, heq, rfl⟩ := lookup_eq_some hlookup
      obtain ⟨⟨text, names⟩, hrow, hd, rfl, hrules⟩ := row_of_entry hb he
      refine ⟨⟨table, text, rfl, SortedMap.get_eq_some.mpr hrow, hd.trans (congrArg _ heq)⟩, ?_⟩
      intro path capability
      simp only [hrules, RuleSet.allows_iff, mem_flattenPolicies, Permitted]

theorem permits_iff (image : Image P view s) {token : Text} {grant : Grant}
    (h : s.grant P (some token) = some grant) (path : Text) (capability : Capability) :
    s.permits P (some token) path capability = true ↔
      Permitted view.policies grant.policies path capability := by
  obtain ⟨⟨table, -, ht, -⟩, hrules⟩ := grant_row image h
  rw [permits_of_table ht, h, ← hrules]
  rfl

end Meaning

/-- Only which paths carry which of the three words matters. -/
theorem Permitted.congr {policies policies' : SortedMap Text (List PolicyRule)} {names names' : List Text}
    (same : ∀ path, ∀ word ∈ [READ, LIST, DENY],
      (∃ rule, Carries policies names rule ∧ rule.path = path ∧ word ∈ rule.capabilities) ↔
        ∃ rule, Carries policies' names' rule ∧ rule.path = path ∧ word ∈ rule.capabilities)
    (path : Text) (capability : Capability) :
    Permitted policies names path capability ↔ Permitted policies' names' path capability := by
  have covered : ∀ word ∈ [READ, LIST, DENY],
      (∃ rule, Carries policies names rule ∧ Covers rule path ∧ word ∈ rule.capabilities) ↔
        ∃ rule, Carries policies' names' rule ∧ Covers rule path ∧ word ∈ rule.capabilities := by
    intro word hw
    constructor
    · rintro ⟨rule, hc, hcov, hm⟩
      obtain ⟨rule', hc', hp, hm'⟩ := (same rule.path word hw).mp ⟨rule, hc, rfl, hm⟩
      exact ⟨rule', hc', by rwa [Covers, hp], hm'⟩
    · rintro ⟨rule, hc, hcov, hm⟩
      obtain ⟨rule', hc', hp, hm'⟩ := (same rule.path word hw).mpr ⟨rule, hc, rfl, hm⟩
      exact ⟨rule', hc', by rwa [Covers, hp], hm'⟩
  have hname : capability.name ∈ [READ, LIST, DENY] := by cases capability <;> simp [Capability.name]
  rw [Permitted, Permitted, covered _ hname, covered DENY (by simp)]

/-- Rules that all deny can only take away. -/
theorem Permitted.of_more_denies {policies policies' : SortedMap Text (List PolicyRule)}
    {names names' : List Text} (keeps : ∀ rule, Carries policies names rule → Carries policies' names' rule)
    (adds : ∀ rule, Carries policies' names' rule → Carries policies names rule ∨ DENY ∈ rule.capabilities)
    {path : Text} {capability : Capability} (h : Permitted policies' names' path capability) :
    Permitted policies names path capability := by
  obtain ⟨⟨rule, hc, hcov, hm⟩, hno⟩ := h
  refine ⟨⟨rule, (adds rule hc).resolve_right fun hd => hno ⟨rule, hc, hcov, hd⟩, hcov, hm⟩, ?_⟩
  rintro ⟨rule', hc', hcov', hd'⟩
  exact hno ⟨rule', keeps rule' hc', hcov', hd'⟩

/-- The meaning of an accepted file, and what does not matter to it. -/
theorem policy_meaning {P : Platform} {draw : Draw} {view : View} {etag : Option Text} {s : Snapshot}
    (h : Snapshot.build P draw view etag = .ok s) :
    ((∀ presented path capability, s.permits P presented path capability = true) ↔ view.tokenKey = none) ∧
    (view.tokenKey = none → view.tokens.entries = []) ∧
    (view.tokenKey ≠ none →
      (∀ path capability, s.permits P none path capability = false) ∧
      ∀ token path capability,
        (s.grant P (some token) = none → s.permits P (some token) path capability = false) ∧
        ∀ grant, s.grant P (some token) = some grant →
          (∃ table text, s.tokens = some table ∧ view.tokens.get text = some grant.policies ∧
            Names P.hmac table.key token (text, grant.policies)) ∧
          (s.permits P (some token) path capability = true ↔
            Permitted view.policies grant.policies path capability)) ∧
    ∀ draw' view' etag' s', Snapshot.build P draw' view' etag' = .ok s' →
      ∀ token token' grant grant', s.grant P (some token) = some grant →
        s'.grant P (some token') = some grant' →
        ((∀ path, ∀ word ∈ [READ, LIST, DENY],
          (∃ rule, Carries view.policies grant.policies rule ∧ rule.path = path ∧ word ∈ rule.capabilities) ↔
            ∃ rule, Carries view'.policies grant'.policies rule ∧ rule.path = path ∧
              word ∈ rule.capabilities) →
          ∀ path capability, s.permits P (some token) path capability =
            s'.permits P (some token') path capability) ∧
        ((∀ rule, Carries view.policies grant.policies rule → Carries view'.policies grant'.policies rule) →
          (∀ rule, Carries view'.policies grant'.policies rule →
            Carries view.policies grant.policies rule ∨ DENY ∈ rule.capabilities) →
          ∀ path capability, s.permits P (some token) path capability = false →
            s'.permits P (some token') path capability = false) := by
  obtain ⟨image, -⟩ := build_image h
  refine ⟨permits_always_iff.trans (tokens_none_iff image), ?_, ?_, ?_⟩
  · intro hk
    have ht := (tokens_none_iff image).mpr hk
    exact (buildTokens_none (ht ▸ image.tokens)).2
  · intro hk
    obtain ⟨table, ht⟩ := Option.ne_none_iff_exists'.mp fun ht => hk ((tokens_none_iff image).mp ht)
    constructor
    · intro path capability
      simp [Snapshot.permits, ht]
    · intro token path capability
      constructor
      · intro hg
        rw [permits_of_table ht, hg]
        rfl
      · intro grant hg
        exact ⟨(grant_row image hg).1, permits_iff image hg path capability⟩
  · intro draw' view' etag' s' h' token token' grant grant' hg hg'
    obtain ⟨image', -⟩ := build_image h'
    constructor
    · intro same path capability
      rw [Bool.eq_iff_iff, permits_iff image hg, permits_iff image' hg']
      exact Permitted.congr same path capability
    · intro keeps adds path capability hfalse
      rw [← Bool.not_eq_true, permits_iff image hg] at hfalse
      rw [← Bool.not_eq_true, permits_iff image' hg']
      exact fun hp => hfalse (hp.of_more_denies keeps adds)

/-- One token with two policies: `app` lets it read below a directory, `locked` denies one path there. -/
def guardedView : View :=
  ⟨1, .empty, samplePolicies, .ofList [(lowerRow, ["app".toList, "locked".toList])], some sampleKeyHex⟩

theorem guardedView_builds : (Snapshot.build samplePlatform sampleDraw guardedView none).isOk := by
  decide +kernel

def appRule : PolicyRule := ⟨"secret/data/app/*".toList, [READ]⟩
def lockedRule : PolicyRule := ⟨"secret/data/app/db".toList, [DENY]⟩

theorem guarded_carries (rule : PolicyRule) :
    Carries guardedView.policies ["app".toList, "locked".toList] rule ↔ rule = appRule ∨ rule = lockedRule := by
  have hrules : (flattenPolicies guardedView.policies ["app".toList, "locked".toList]).1 = [appRule, lockedRule] := by
    decide
  rw [← mem_flattenPolicies, hrules, List.mem_cons, List.mem_singleton]

theorem policy_meaning_sample : ∃ s, Snapshot.build samplePlatform sampleDraw guardedView none = .ok s ∧
    (∀ path capability, s.permits samplePlatform none path capability = false) ∧
    s.permits samplePlatform (some sampleToken) "secret/data/app/web".toList .read = true ∧
    s.permits samplePlatform (some sampleToken) "secret/data/app/db".toList .read = false := by
  cases hb : Snapshot.build samplePlatform sampleDraw guardedView none with
  | error e =>
      have hok := guardedView_builds
      rw [hb] at hok
      cases hok
  | ok s =>
      have hrow : (Snapshot.build samplePlatform sampleDraw guardedView none).map
          (fun s => (s.grant samplePlatform (some sampleToken)).map Grant.policies) =
            .ok (some ["app".toList, "locked".toList]) := by
        decide +kernel
      rw [hb] at hrow
      obtain ⟨grant, hgrant, hnames⟩ := Option.map_eq_some_iff.mp (Except.ok.inj hrow)
      obtain ⟨-, -, hguarded, -⟩ := policy_meaning hb
      obtain ⟨hnone, htoken⟩ := hguarded (by decide)
      have hmeaning : ∀ path, s.permits samplePlatform (some sampleToken) path .read = true ↔
          Permitted guardedView.policies grant.policies path .read :=
        fun path => ((htoken sampleToken path .read).2 grant hgrant).2
      simp only [hnames, Permitted, guarded_carries] at hmeaning
      refine ⟨s, rfl, hnone, (hmeaning _).mpr ⟨⟨appRule, .inl rfl, by decide, by decide⟩, ?_⟩, ?_⟩
      · rintro ⟨rule, rfl | rfl, hcovers, hdenies⟩
        · exact absurd hdenies (by decide)
        · exact absurd hcovers (by decide)
      · rw [← Bool.not_eq_true, hmeaning]
        rintro ⟨-, hno⟩
        exact hno ⟨lockedRule, .inr rfl, by decide, by decide⟩

end Kallisto.Resolver
