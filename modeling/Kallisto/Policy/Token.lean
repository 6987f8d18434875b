import Kallisto.Crypto.Hex
import Kallisto.Policy.Matcher
import Mathlib.Data.List.Induction
import Mathlib.Data.List.Forall2

/-!
The token table: rows keyed by hex text, searched by decoded hash. The keyed hash itself is
a parameter. The table a row lives in is a map, but two spellings of one hash are two rows.
-/
namespace Kallisto.Policy
open Lib Kallisto.Crypto

def TOKEN_KEY_LEN : Nat := 32
def HASH_LEN : Nat := 32

/-- HMAC-SHA256, of a key and the concatenation of what `update` was given. -/
abbrev Hmac := ByteVec TOKEN_KEY_LEN → Bytes → ByteVec HASH_LEN

def LABEL : Bytes := utf8 "kallisto/token/v1".toList ++ [0]
def LOG_LABEL : Bytes := utf8 "kallisto/log/v1".toList ++ [0]

inductive TokenError where
  | keyMissing (tokens : Nat)
  | keyMalformed (reason : HexError)
  | hashMalformed (index : Nat)
  deriving DecidableEq, Repr

structure TokenKey where
  raw : ByteVec TOKEN_KEY_LEN
  deriving DecidableEq

def TokenKey.fromHex (text : Text) : Except HexError TokenKey :=
  (decodeArray TOKEN_KEY_LEN text).map TokenKey.mk

def TokenKey.tagged (hmac : Hmac) (key : TokenKey) (label message : Bytes) : ByteVec HASH_LEN :=
  hmac key.raw (label ++ message)

def TokenKey.hash (hmac : Hmac) (key : TokenKey) (token : Text) : ByteVec HASH_LEN :=
  key.tagged hmac LABEL (utf8 token)

def TokenKey.hashHex (hmac : Hmac) (key : TokenKey) (token : Text) : Text := encode (key.hash hmac token).val

def TokenKey.derive (hmac : Hmac) (key : TokenKey) (label : Bytes) : ByteVec HASH_LEN := key.tagged hmac label []

structure Entry where
  hash : ByteVec HASH_LEN
  rules : RuleSet
  policies : List Text
  deriving DecidableEq

structure Grant where
  rules : RuleSet
  policies : List Text
  tokenId : ByteVec HASH_LEN
  deriving DecidableEq

structure TokenTable where
  key : TokenKey
  entries : List Entry
  unknownPolicies : List Text
  deriving DecidableEq

/-- The inner loop: the rules of the policies a row names, and the names nobody defined. -/
def flattenPolicies (policies : SortedMap Text (List PolicyRule)) : List Text → List PolicyRule × List Text
  | [] => ([], [])
  | name :: names =>
      let (rules, unknown) := flattenPolicies policies names
      match policies.get name with
      | some policy => (policy ++ rules, unknown)
      | none => (rules, name :: unknown)

def buildEntries (policies : SortedMap Text (List PolicyRule)) (index : Nat) :
    List (Text × List Text) → Except TokenError (List Entry × List Text)
  | [] => .ok ([], [])
  | (hashHex, names) :: rows =>
      match decodeArray HASH_LEN hashHex with
      | .error _ => .error (.hashMalformed index)
      | .ok hash => do
          let (rules, unknown) := flattenPolicies policies names
          let (entries, more) ← buildEntries policies (index + 1) rows
          return (⟨hash, .fromRules rules, names⟩ :: entries, unknown ++ more)

def TokenTable.build (keyHex : Text) (tokens : SortedMap Text (List Text))
    (policies : SortedMap Text (List PolicyRule)) : Except TokenError TokenTable :=
  match TokenKey.fromHex keyHex with
  | .error e => .error (.keyMalformed e)
  | .ok key => do
      let (entries, unknownPolicies) ← buildEntries policies 0 tokens.entries
      return { key, entries, unknownPolicies }

/-- Every entry is examined; of several that match, the last is kept. -/
def TokenTable.lookup (hmac : Hmac) (table : TokenTable) (presented : Text) : Option Grant :=
  let computed := table.key.hash hmac presented
  table.entries.foldl (fun found entry =>
    if entry.hash = computed then some ⟨entry.rules, entry.policies, computed⟩ else found) none

def TokenTable.derive (hmac : Hmac) (table : TokenTable) (label : Bytes) : ByteVec HASH_LEN :=
  table.key.derive hmac label

def TokenTable.tokenId (hmac : Hmac) (table : TokenTable) (presented : Text) : ByteVec HASH_LEN :=
  table.key.hash hmac presented

/-- The rule belongs to a policy that `names` lists and the file defines. -/
def Carries (policies : SortedMap Text (List PolicyRule)) (names : List Text) (rule : PolicyRule) : Prop :=
  ∃ name ∈ names, ∃ policy, policies.get name = some policy ∧ rule ∈ policy

theorem mem_flattenPolicies {policies : SortedMap Text (List PolicyRule)} {names : List Text}
    {rule : PolicyRule} : rule ∈ (flattenPolicies policies names).1 ↔ Carries policies names rule := by
  induction names with
  | nil => simp [flattenPolicies, Carries]
  | cons name names ih =>
      simp only [Carries, List.mem_cons, exists_eq_or_imp] at ih ⊢
      rw [flattenPolicies, ← ih]
      cases policies.get name <;> simp

section Rows
variable {policies : SortedMap Text (List PolicyRule)}

/-- The row `(text, names)` of the file became `entry`. -/
def IsEntry (policies : SortedMap Text (List PolicyRule)) (row : Text × List Text) (entry : Entry) : Prop :=
  decodeArray HASH_LEN row.1 = .ok entry.hash ∧ entry.policies = row.2 ∧
    entry.rules = .fromRules (flattenPolicies policies row.2).1

theorem buildEntries_ok {index : Nat} {rows : List (Text × List Text)} {entries : List Entry}
    {unknown : List Text} (h : buildEntries policies index rows = .ok (entries, unknown)) :
    List.Forall₂ (IsEntry policies) rows entries := by
  induction rows generalizing index entries unknown with
  | nil =>
      cases h
      exact .nil
  | cons row rows ih =>
      obtain ⟨text, names⟩ := row
      simp only [buildEntries] at h
      cases hd : decodeArray HASH_LEN text with
      | error e => simp [hd] at h
      | ok hash =>
          simp only [hd] at h
          cases hr : buildEntries policies (index + 1) rows with
          | error e => simp [hr, bind, Except.bind] at h
          | ok rest =>
              simp only [hr, bind, Except.bind, pure, Except.pure, Except.ok.injEq, Prod.mk.injEq] at h
              obtain ⟨rfl, -⟩ := h
              exact .cons ⟨hd, rfl, rfl⟩ (ih hr)

/-- The loop fails only on a row that is not a hash. -/
theorem buildEntries_of_decodes {index : Nat} {rows : List (Text × List Text)}
    (h : ∀ row ∈ rows, ∃ hash, decodeArray HASH_LEN row.1 = .ok hash) :
    ∃ r, buildEntries policies index rows = .ok r := by
  induction rows generalizing index with
  | nil => exact ⟨_, rfl⟩
  | cons row rows ih =>
      obtain ⟨hash, hd⟩ := h row List.mem_cons_self
      obtain ⟨r, hr⟩ : ∃ r, buildEntries policies (index + 1) rows = .ok r :=
        ih fun row' hm => h row' (List.mem_cons_of_mem _ hm)
      obtain ⟨text, names⟩ := row
      refine ⟨(⟨hash, .fromRules (flattenPolicies policies names).1, names⟩ :: r.1,
        (flattenPolicies policies names).2 ++ r.2), ?_⟩
      simp only [buildEntries, hd, hr]
      rfl

end Rows

section Lookup
variable {hmac : Hmac} {table : TokenTable} {presented : Text}

theorem lookup_eq (hmac : Hmac) (table : TokenTable) (presented : Text) :
    table.lookup hmac presented =
      ((table.entries.filter fun e => e.hash = table.key.hash hmac presented).getLast?).map fun e =>
        ⟨e.rules, e.policies, table.key.hash hmac presented⟩ := by
  unfold TokenTable.lookup
  induction table.entries using List.reverseRecOn with
  | nil => rfl
  | append_singleton entries e ih =>
      rw [List.foldl_append, List.filter_append, ih]
      by_cases he : e.hash = table.key.hash hmac presented
      · simp [he]
      · simp [he]

theorem lookup_eq_none :
    table.lookup hmac presented = none ↔ ∀ e ∈ table.entries, e.hash ≠ table.key.hash hmac presented := by
  rw [lookup_eq, Option.map_eq_none_iff, List.getLast?_eq_none_iff, List.filter_eq_nil_iff]
  simp

theorem lookup_eq_some {grant : Grant} (h : table.lookup hmac presented = some grant) :
    ∃ e ∈ table.entries, e.hash = table.key.hash hmac presented ∧
      grant = ⟨e.rules, e.policies, table.key.hash hmac presented⟩ := by
  rw [lookup_eq, Option.map_eq_some_iff] at h
  obtain ⟨e, he, rfl⟩ := h
  have hmem := List.mem_filter.mp (List.mem_of_getLast? he)
  exact ⟨e, hmem.1, by simpa using hmem.2, rfl⟩

end Lookup

section Build
variable {keyHex : Text} {tokens : SortedMap Text (List Text)}
  {policies : SortedMap Text (List PolicyRule)} {table : TokenTable}

theorem build_ok (h : TokenTable.build keyHex tokens policies = .ok table) :
    TokenKey.fromHex keyHex = .ok table.key ∧
      List.Forall₂ (IsEntry policies) tokens.entries table.entries := by
  unfold TokenTable.build at h
  cases hk : TokenKey.fromHex keyHex with
  | error e => simp [hk] at h
  | ok key =>
      simp only [hk] at h
      cases hb : buildEntries policies 0 tokens.entries with
      | error e => simp [hb, bind, Except.bind] at h
      | ok r =>
          simp only [hb, bind, Except.bind, pure, Except.pure, Except.ok.injEq] at h
          subst h
          exact ⟨rfl, buildEntries_ok hb⟩

theorem build_of_decodes {key : TokenKey} (hk : TokenKey.fromHex keyHex = .ok key)
    (h : ∀ row ∈ tokens.entries, ∃ hash, decodeArray HASH_LEN row.1 = .ok hash) :
    ∃ table, TokenTable.build keyHex tokens policies = .ok table ∧ table.key = key := by
  obtain ⟨r, hr⟩ : ∃ r, buildEntries policies 0 tokens.entries = .ok r := buildEntries_of_decodes h
  refine ⟨⟨key, r.1, r.2⟩, ?_, rfl⟩
  simp only [TokenTable.build, hk, hr]
  rfl

/-- A row and an entry stand for each other. -/
theorem entry_of_row (h : TokenTable.build keyHex tokens policies = .ok table) {row : Text × List Text}
    (hrow : row ∈ tokens.entries) : ∃ e ∈ table.entries, IsEntry policies row e := by
  obtain ⟨i, hi, rfl⟩ := List.getElem_of_mem hrow
  have hf := (build_ok h).2
  have hl := hf.length_eq
  exact ⟨_, List.getElem_mem (hl ▸ hi), List.Forall₂.get hf hi (hl ▸ hi)⟩

theorem row_of_entry (h : TokenTable.build keyHex tokens policies = .ok table) {e : Entry}
    (he : e ∈ table.entries) : ∃ row ∈ tokens.entries, IsEntry policies row e := by
  obtain ⟨i, hi, rfl⟩ := List.getElem_of_mem he
  have hf := (build_ok h).2
  have hl := hf.length_eq
  exact ⟨_, List.getElem_mem (hl.symm ▸ hi), List.Forall₂.get hf (hl.symm ▸ hi) hi⟩

/-- The row names the token: its text decodes to the token's hash. -/
def Names (hmac : Hmac) (key : TokenKey) (token : Text) (row : Text × List Text) : Prop :=
  decodeArray HASH_LEN row.1 = .ok (key.hash hmac token)

theorem names_iff {hmac : Hmac} {key : TokenKey} {token : Text} {row : Text × List Text} :
    Names hmac key token row ↔ toAsciiLower (trim row.1) = key.hashHex hmac token := decodeArray_ok

theorem lookup_none_iff_no_row {hmac : Hmac} {token : Text}
    (h : TokenTable.build keyHex tokens policies = .ok table) :
    table.lookup hmac token = none ↔ ∀ row ∈ tokens.entries, ¬ Names hmac table.key token row := by
  rw [lookup_eq_none]
  constructor
  · intro hall row hrow hn
    obtain ⟨e, he, hd, -⟩ := entry_of_row h hrow
    rw [Names, hd, Except.ok.injEq] at hn
    exact hall e he hn
  · intro hall e he heq
    obtain ⟨row, hrow, hd, -⟩ := row_of_entry h he
    exact hall row hrow (hd.trans (congrArg _ heq))

/-- Deleting any rows of an accepted table leaves an accepted table. -/
theorem build_erase (h : TokenTable.build keyHex tokens policies = .ok table) (text : Text) :
    ∃ table', TokenTable.build keyHex (tokens.erase text) policies = .ok table' ∧
      table'.key = table.key := by
  apply build_of_decodes (build_ok h).1
  intro row hrow
  obtain ⟨e, -, hd, -⟩ := entry_of_row h (List.mem_of_mem_filter hrow)
  exact ⟨_, hd⟩

end Build

/-- At most one row names the token, and its grant is all of that row's rules; and without
the row that spells the hash in lower case the token is unknown. -/
def RevocableByRow (hmac : Hmac) (keyHex : Text) (tokens : SortedMap Text (List Text))
    (policies : SortedMap Text (List PolicyRule)) (table : TokenTable) (token : Text) : Prop :=
  (∀ row ∈ tokens.entries, ∀ row' ∈ tokens.entries, Names hmac table.key token row →
    Names hmac table.key token row' → row = row') ∧
  (∀ row ∈ tokens.entries, Names hmac table.key token row → ∃ grant,
    table.lookup hmac token = some grant ∧ ∀ rule, Carries policies row.2 rule →
      CompiledRule.compile rule ∈ grant.rules.rules) ∧
  ∃ table', TokenTable.build keyHex (tokens.erase (table.key.hashHex hmac token)) policies = .ok table' ∧
    table'.lookup hmac token = none

/-- A row is all there is to a token exactly when no other spelling of its hash has a row. -/
theorem revocableByRow_iff {hmac : Hmac} {keyHex : Text} {tokens : SortedMap Text (List Text)}
    {policies : SortedMap Text (List PolicyRule)} {table : TokenTable}
    (h : TokenTable.build keyHex tokens policies = .ok table) (token : Text) :
    RevocableByRow hmac keyHex tokens policies table token ↔
      ∀ text ∈ tokens.keys, toAsciiLower (trim text) = table.key.hashHex hmac token →
        text = table.key.hashHex hmac token := by
  obtain ⟨table', hb', hk'⟩ := build_erase h (table.key.hashHex hmac token)
  constructor
  · rintro ⟨-, -, other, hother, hnone⟩ text htext hlow
    obtain ⟨row, hrow, rfl⟩ := List.mem_map.mp htext
    obtain rfl : table' = other := Except.ok.inj (hb'.symm.trans hother)
    by_contra hne
    refine (lookup_none_iff_no_row hb').mp hnone row (List.mem_filter.mpr ⟨hrow, by simpa using hne⟩) ?_
    rw [hk']
    exact names_iff.mpr hlow
  · intro hall
    have only : ∀ row ∈ tokens.entries, Names hmac table.key token row →
        row.1 = table.key.hashHex hmac token := fun row hrow hn =>
      hall row.1 (List.mem_map_of_mem hrow) (names_iff.mp hn)
    have unique : ∀ row ∈ tokens.entries, ∀ row' ∈ tokens.entries, Names hmac table.key token row →
        Names hmac table.key token row' → row = row' := by
      intro row hrow row' hrow' hn hn'
      have heq : row.1 = row'.1 := (only row hrow hn).trans (only row' hrow' hn').symm
      exact Prod.ext heq (tokens.key_unique hrow (heq ▸ hrow'))
    refine ⟨unique, ?_, table', hb', ?_⟩
    · intro row hrow hn
      obtain ⟨grant, hg⟩ : ∃ grant, table.lookup hmac token = some grant := by
        rw [← Option.ne_none_iff_exists', ne_eq, lookup_none_iff_no_row h]
        exact fun hno => hno row hrow hn
      obtain ⟨e, he, heq, rfl⟩ := lookup_eq_some hg
      obtain ⟨row', hrow', hd, -, hrules⟩ := row_of_entry h he
      obtain rfl := unique row hrow row' hrow' hn (hd.trans (congrArg _ heq))
      refine ⟨_, hg, ?_⟩
      intro rule hc
      rw [hrules]
      exact List.mem_map_of_mem (mem_flattenPolicies.mpr hc)
    · rw [lookup_none_iff_no_row hb', hk']
      intro row hrow hn
      obtain ⟨hmem, hne⟩ := List.mem_filter.mp hrow
      exact absurd (only row hmem hn) (by simpa using hne)

def sampleTokenKey : TokenKey := ⟨⟨List.replicate 32 7, rfl⟩⟩
def sampleKeyHex : Text := encode sampleTokenKey.raw.val
def sampleToken : Text := "app-token".toList

/-- The HMAC-SHA256 of `sampleToken` under `sampleTokenKey`, with its label. -/
def sampleHash : ByteVec HASH_LEN :=
  ⟨[208, 1, 74, 154, 53, 255, 134, 4, 112, 109, 185, 221, 194, 69, 107, 135, 166, 69, 192, 109, 149,
    236, 35, 158, 28, 81, 75, 131, 115, 228, 186, 17], rfl⟩

/-- The HMAC-SHA256 of the log's label alone. -/
def sampleLogKey : ByteVec HASH_LEN :=
  ⟨[193, 77, 236, 79, 114, 163, 99, 121, 196, 49, 209, 225, 91, 4, 162, 13, 236, 15, 209, 227, 38, 91,
    253, 240, 9, 156, 200, 166, 26, 175, 134, 49], rfl⟩

def sampleHmac : Hmac := fun key message =>
  if key = sampleTokenKey.raw ∧ message = LABEL ++ utf8 sampleToken then sampleHash
  else if key = sampleTokenKey.raw ∧ message = LOG_LABEL then sampleLogKey
  else ⟨List.replicate 32 0, rfl⟩

def lowerRow : Text := "d0014a9a35ff8604706db9ddc2456b87a645c06d95ec239e1c514b8373e4ba11".toList
def upperRow : Text := "D0014A9A35FF8604706DB9DDC2456B87A645C06D95EC239E1C514B8373E4BA11".toList

def samplePolicies : SortedMap Text (List PolicyRule) :=
  .ofList [("app".toList, [⟨"secret/data/app/*".toList, [READ]⟩]),
    ("locked".toList, [⟨"secret/data/app/db".toList, [DENY]⟩])]

def sampleTokens : SortedMap Text (List Text) := .ofList [(lowerRow, ["app".toList])]

/-- The same hash twice, in upper case with a deny and in lower case without it. -/
def twoSpellings : SortedMap Text (List Text) :=
  .ofList [(upperRow, ["app".toList, "locked".toList]), (lowerRow, ["app".toList])]

/-- The fixed tables below are accepted, under the key they were made for. -/
theorem build_fixed (tokens : SortedMap Text (List Text))
    (hok : (TokenTable.build sampleKeyHex tokens samplePolicies).isOk) :
    ∃ table, TokenTable.build sampleKeyHex tokens samplePolicies = .ok table ∧ table.key = sampleTokenKey := by
  cases hb : TokenTable.build sampleKeyHex tokens samplePolicies with
  | error e =>
      rw [hb] at hok
      cases hok
  | ok table => exact ⟨table, rfl, Except.ok.inj ((build_ok hb).1.symm.trans (by decide +kernel))⟩

theorem revocableByRow_sample : ∃ table,
    TokenTable.build sampleKeyHex sampleTokens samplePolicies = .ok table ∧
      RevocableByRow sampleHmac sampleKeyHex sampleTokens samplePolicies table sampleToken := by
  obtain ⟨table, hb, hkey⟩ := build_fixed sampleTokens (by decide +kernel)
  refine ⟨table, hb, (revocableByRow_iff hb sampleToken).mpr ?_⟩
  rw [hkey]
  decide +kernel

/-- The row that spells the hash in upper case outlives the deletion of `hash_hex(token)`. -/
theorem upper_row_survives : ∃ table,
    TokenTable.build sampleKeyHex twoSpellings samplePolicies = .ok table ∧
      ¬ RevocableByRow sampleHmac sampleKeyHex twoSpellings samplePolicies table sampleToken := by
  obtain ⟨table, hb, hkey⟩ := build_fixed twoSpellings (by decide +kernel)
  refine ⟨table, hb, ?_⟩
  rintro ⟨-, -, table', hb', hnone⟩
  rw [hkey] at hb'
  have hsome : (TokenTable.build sampleKeyHex (twoSpellings.erase (sampleTokenKey.hashHex sampleHmac sampleToken))
      samplePolicies).map (fun t => (t.lookup sampleHmac sampleToken).isSome) = .ok true := by decide +kernel
  rw [hb'] at hsome
  simp [Except.map, hnone] at hsome

end Kallisto.Policy
