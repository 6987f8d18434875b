import Kallisto.Crypto.SealedFile
import Kallisto.Lib.Json

/-!
The body's JSON. What the derived `Serialize` of `Contents` hands to the writer and what the
derived `Deserialize` of `View` takes from the reader is modelled here; the writer and the
reader are serde_json's, and enter as functions with their documented behaviour.
-/
namespace Kallisto.Crypto
open Lib

def stringsJson (texts : List Text) : Json Text := .arr (texts.map .str)

def PolicyRule.serialize (rule : PolicyRule) : Json Text :=
  .obj [("path".toList, .str rule.path), ("capabilities".toList, stringsJson rule.capabilities)]

/-- The members of the body in declaration order; `print` is the numeral a number is written
as, and a `None` token key is left out. -/
def Contents.members {N : Type} (print : N → Text) (c : Contents (Json N)) : List (Text × Json Text) :=
  [("version".toList, .num (decimal c.version.toNat)),
    ("secrets".toList, .obj (c.secrets.entries.map fun e => (e.1, e.2.map print))),
    ("policies".toList, .obj (c.policies.entries.map fun e => (e.1, .arr (e.2.map PolicyRule.serialize)))),
    ("tokens".toList, .obj (c.tokens.entries.map fun e => (e.1, stringsJson e.2)))] ++
  match c.tokenKey with
  | none => []
  | some key => [("token_key".toList, .str key)]

def readU64 : Json Text → Option UInt64
  | .num n =>
      let v := Nat.ofDigitChars 10 n 0
      if n.all Char.isDigit ∧ v < 2 ^ 64 then some (UInt64.ofNat v) else none
  | _ => none

def readOwned : Json Text → Option Text
  | .str s => some s
  | _ => none

def readStrings : Json Text → Option (List Text)
  | .arr items => items.mapM readOwned
  | _ => none

/-- A `&str` can point into the buffer only where the text there is the string itself. -/
def borrow (s : Text) : Option Text := if '\\' ∈ Json.escape s then none else some s

def readBorrowed : Json Text → Option (Option Text)
  | .null => some none
  | .str s => (borrow s).map some
  | _ => none

def readEntry {υ : Type} (key : Text → Option Text) (value : Json Text → Option υ) (m : Text × Json Text) :
    Option (Text × υ) := do
  return (← key m.1, ← value m.2)

/-- A map in the order of its keys; of two members of one key the later stays. -/
def readMap {υ : Type} (key : Text → Option Text) (value : Json Text → Option υ) :
    Json Text → Option (SortedMap Text υ)
  | .obj members => (members.mapM (readEntry key value)).map .ofList
  | _ => none

/-- A field that is given twice is an error. -/
def once {α : Type} (held : Option α) (given : Option α) : Option (Option α) :=
  if held.isSome then none else given.map some

structure RuleFields where
  path : Option Text
  capabilities : Option (List Text)

def RuleFields.visit (f : RuleFields) (member : Text × Json Text) : Option RuleFields :=
  if member.1 = "path".toList then do return { f with path := ← once f.path (readOwned member.2) }
  else if member.1 = "capabilities".toList then do
    return { f with capabilities := ← once f.capabilities (readStrings member.2) }
  else none

/-- A struct may also come as the sequence of its fields. -/
def readRule : Json Text → Option PolicyRule
  | .obj members => do
      let f ← members.foldlM RuleFields.visit ⟨none, none⟩
      return ⟨← f.path, ← f.capabilities⟩
  | .arr [path, capabilities] => do return ⟨← readOwned path, ← readStrings capabilities⟩
  | _ => none

def readRules : Json Text → Option (List PolicyRule)
  | .arr items => items.mapM readRule
  | _ => none

structure ViewFields where
  version : Option UInt64
  secrets : Option (SortedMap Text Text)
  policies : Option (SortedMap Text (List PolicyRule))
  tokens : Option (SortedMap Text (List Text))
  tokenKey : Option (Option Text)

/-- One member of the body. A secret is kept as the text the file has for it. -/
def ViewFields.visit (f : ViewFields) (member : Text × Json Text) : Option ViewFields :=
  if member.1 = "version".toList then do return { f with version := ← once f.version (readU64 member.2) }
  else if member.1 = "secrets".toList then do
    return { f with secrets := ← once f.secrets (readMap borrow (fun v => some v.text) member.2) }
  else if member.1 = "policies".toList then do
    return { f with policies := ← once f.policies (readMap some readRules member.2) }
  else if member.1 = "tokens".toList then do
    return { f with tokens := ← once f.tokens (readMap some readStrings member.2) }
  else if member.1 = "token_key".toList then do
    return { f with tokenKey := ← once f.tokenKey (readBorrowed member.2) }
  else none

def View.visitMap (members : List (Text × Json Text)) : Option View := do
  let f ← members.foldlM ViewFields.visit ⟨none, none, none, none, none⟩
  return {
    version := ← f.version
    secrets := f.secrets.getD .empty
    policies := f.policies.getD .empty
    tokens := f.tokens.getD .empty
    tokenKey := f.tokenKey.getD none }

/-- serde_json as this program uses it, over its type of numbers. -/
structure SerdeJson (N : Type) where
  print : N → Text
  toVec : Contents (Json N) → Option Bytes
  fromSlice : Bytes → Option View

/-- A number is written as a numeral, a value as its compact text, and an object is read by
visiting its members. -/
structure SerdeJson.Compact {N : Type} (S : SerdeJson N) : Prop where
  numeral : ∀ n, Json.isNumeral (S.print n) = true
  writes : ∀ c, S.toVec c = some (utf8 (Json.obj (c.members S.print)).text)
  reads : ∀ members, (Json.obj members).WellFormed →
    S.fromSlice (utf8 (Json.obj members).text) = View.visitMap members

/-- Besides, the numeral a number is written as denotes it. -/
structure SerdeJson.Documented {N : Type} (S : SerdeJson N) (denotes : Text → Option N) : Prop
    extends S.Compact where
  denoted : ∀ n, denotes (S.print n) = some n

/-- A `&str` field points at text that was not escaped. -/
def SerdeJson.Borrows {N : Type} (S : SerdeJson N) : Prop :=
  ∀ bytes view, S.fromSlice bytes = some view →
    (∀ path ∈ view.secrets.keys, ∀ ch ∈ path, Json.mustEscape ch = false) ∧
      ∀ key ∈ view.tokenKey, ∀ ch ∈ key, Json.mustEscape ch = false

section Reading

theorem mapM_some {α β γ : Type} {f : β → Option γ} {g : α → β} {h : α → γ} {l : List α}
    (each : ∀ a ∈ l, f (g a) = some (h a)) : (l.map g).mapM f = some (l.map h) := by
  induction l with
  | nil => rfl
  | cons a l ih =>
      rw [List.map_cons, List.mapM_cons, each a List.mem_cons_self,
        ih fun b hb => each b (List.mem_cons_of_mem _ hb)]
      rfl

theorem mapM_none {α β : Type} {f : α → Option β} {l : List α} {a : α} (ha : a ∈ l) (hf : f a = none) :
    l.mapM f = none := by
  induction l with
  | nil => cases ha
  | cons b l ih =>
      rw [List.mapM_cons]
      rcases List.mem_cons.mp ha with rfl | hrest
      · rw [hf]
        rfl
      · rw [ih hrest]
        cases f b <;> rfl

theorem readStrings_stringsJson (texts : List Text) : readStrings (stringsJson texts) = some texts := by
  have hall : (texts.map Json.str).mapM readOwned = some (texts.map id) := mapM_some fun _ _ => rfl
  rw [stringsJson, readStrings, hall, List.map_id]

theorem readRule_serialize (rule : PolicyRule) : readRule rule.serialize = some rule := by
  simp [readRule, PolicyRule.serialize, RuleFields.visit, once, readOwned, readStrings_stringsJson]

theorem readRules_serialize (rules : List PolicyRule) :
    readRules (.arr (rules.map PolicyRule.serialize)) = some rules := by
  have hall : (rules.map PolicyRule.serialize).mapM readRule = some (rules.map id) :=
    mapM_some fun rule _ => readRule_serialize rule
  rw [readRules, hall, List.map_id]

theorem readU64_decimal (v : UInt64) : readU64 (.num (decimal v.toNat)) = some v := by
  have hv : Nat.ofDigitChars 10 (decimal v.toNat) 0 = v.toNat := Nat.ofDigitChars_ten_toDigits
  simp only [readU64, hv]
  rw [if_pos ⟨List.all_eq_true.mpr (Json.decimal_all_digits _), v.toNat_lt⟩, UInt64.ofNat_toNat]

/-- Every map the writer wrote is read back, provided its keys are. -/
theorem readMap_entries {υ ω : Type} {key : Text → Option Text} {value : Json Text → Option ω}
    {g : υ → Json Text} {h : υ → ω} (m : SortedMap Text υ) (keys : ∀ k ∈ m.keys, key k = some k)
    (values : ∀ v, value (g v) = some (h v)) :
    readMap key value (.obj (m.entries.map fun e => (e.1, g e.2))) = some (m.mapValues h) := by
  have hentries : (m.entries.map fun e => (e.1, g e.2)).mapM (readEntry key value) =
      some (m.mapValues h).entries := by
    apply mapM_some
    intro e he
    have hk : key e.1 = some e.1 := keys e.1 (List.mem_map.mpr ⟨e, he, rfl⟩)
    simp only [readEntry, hk, values]
    rfl
  rw [readMap, hentries, Option.map_some, SortedMap.ofList_sorted (m.mapValues h).sorted]

theorem readMap_fails {υ ω : Type} {key : Text → Option Text} {value : Json Text → Option ω}
    {g : υ → Json Text} (m : SortedMap Text υ) {k : Text} (hk : k ∈ m.keys) (hkey : key k = none) :
    readMap key value (.obj (m.entries.map fun e => (e.1, g e.2))) = none := by
  obtain ⟨e, he, rfl⟩ := List.mem_map.mp hk
  have hnone : (m.entries.map fun e => (e.1, g e.2)).mapM (readEntry key value) = none := by
    refine mapM_none (List.mem_map.mpr ⟨e, he, rfl⟩) ?_
    simp only [readEntry, hkey]
    rfl
  rw [readMap, hnone]
  rfl

theorem borrow_plain {s : Text} (h : ∀ c ∈ s, Json.mustEscape c = false) : borrow s = some s := by
  rw [borrow, if_neg]
  rw [Json.backslash_mem_escape]
  rintro ⟨c, hc, hmust⟩
  rw [h c hc] at hmust
  cases hmust

theorem borrow_escaped {s : Text} (h : ¬ ∀ c ∈ s, Json.mustEscape c = false) : borrow s = none := by
  rw [borrow, if_pos]
  rw [Json.backslash_mem_escape]
  simpa using h

theorem borrow_some {s t : Text} (h : borrow s = some t) : ∀ c ∈ t, Json.mustEscape c = false := by
  by_cases hplain : ∀ c ∈ s, Json.mustEscape c = false
  · rw [borrow_plain hplain] at h
    exact Option.some.inj h ▸ hplain
  · rw [borrow_escaped hplain] at h
    cases h

end Reading

/-- No secret's path and no token key has a character that JSON has to escape. -/
def Contents.Unescaped {V : Type} (c : Contents V) : Prop :=
  (∀ path ∈ c.secrets.keys, ∀ ch ∈ path, Json.mustEscape ch = false) ∧
    ∀ key ∈ c.tokenKey, ∀ ch ∈ key, Json.mustEscape ch = false

def Contents.view {N : Type} (print : N → Text) (c : Contents (Json N)) : View :=
  ⟨c.version, c.secrets.mapValues fun v => (v.map print).text, c.policies, c.tokens, c.tokenKey⟩

section Body
variable {N : Type} {print : N → Text} {c : Contents (Json N)}

theorem readMap_policies : readMap some readRules
    (.obj (c.policies.entries.map fun e => (e.1, .arr (e.2.map PolicyRule.serialize)))) = some c.policies := by
  rw [readMap_entries c.policies (fun _ _ => rfl) readRules_serialize]
  exact congrArg some c.policies.mapValues_id

theorem readMap_tokens :
    readMap some readStrings (.obj (c.tokens.entries.map fun e => (e.1, stringsJson e.2))) = some c.tokens := by
  rw [readMap_entries c.tokens (fun _ _ => rfl) readStrings_stringsJson]
  exact congrArg some c.tokens.mapValues_id

theorem readMap_secrets (h : ∀ path ∈ c.secrets.keys, ∀ ch ∈ path, Json.mustEscape ch = false) :
    readMap borrow (fun v => some v.text) (.obj (c.secrets.entries.map fun e => (e.1, e.2.map print))) =
      some (c.secrets.mapValues fun v => (v.map print).text) :=
  readMap_entries c.secrets (fun k hk => borrow_plain (h k hk)) fun _ => rfl

theorem visitMap_unescaped (h : c.Unescaped) : View.visitMap (c.members print) = some (c.view print) := by
  have hsecrets : readMap borrow (fun v => some v.text)
      (.obj (c.secrets.entries.map fun e => (e.1, e.2.map print))) =
        some (c.secrets.mapValues fun v => (v.map print).text) := readMap_secrets h.1
  cases hkey : c.tokenKey with
  | none =>
      simp [View.visitMap, Contents.members, Contents.view, ViewFields.visit, once, readU64_decimal, hsecrets,
        readMap_policies, readMap_tokens, hkey]
  | some key =>
      simp [View.visitMap, Contents.members, Contents.view, ViewFields.visit, once, readU64_decimal, hsecrets,
        readMap_policies, readMap_tokens, hkey, readBorrowed, borrow_plain (h.2 key hkey)]

theorem visitMap_escaped (h : ¬ c.Unescaped) : View.visitMap (c.members print) = none := by
  by_cases hpaths : ∀ path ∈ c.secrets.keys, ∀ ch ∈ path, Json.mustEscape ch = false
  · have hkey : ¬ ∀ key ∈ c.tokenKey, ∀ ch ∈ key, Json.mustEscape ch = false := fun hk => h ⟨hpaths, hk⟩
    cases hk : c.tokenKey with
    | none => simp [hk] at hkey
    | some key =>
        have hborrow : borrow key = none := borrow_escaped (by simpa [hk] using hkey)
        simp [View.visitMap, Contents.members, ViewFields.visit, once, readU64_decimal, readMap_secrets hpaths,
          readMap_policies, readMap_tokens, hk, readBorrowed, hborrow]
  · push Not at hpaths
    obtain ⟨path, hpath, hescaped⟩ := hpaths
    have hsecrets : readMap borrow (fun v => some v.text)
        (.obj (c.secrets.entries.map fun e => (e.1, e.2.map print))) = none :=
      readMap_fails c.secrets hpath (borrow_escaped (by simpa using hescaped))
    simp [View.visitMap, Contents.members, ViewFields.visit, once, readU64_decimal, hsecrets]

theorem stringsJson_wellFormed (texts : List Text) : (stringsJson texts).WellFormed := by
  apply Json.allItems_iff.mpr
  intro v hv
  obtain ⟨t, -, rfl⟩ := List.mem_map.mp hv
  trivial

theorem serialize_wellFormed (rule : PolicyRule) : rule.serialize.WellFormed :=
  ⟨trivial, stringsJson_wellFormed rule.capabilities, trivial⟩

theorem members_wellFormed (h : ∀ n, Json.isNumeral (print n) = true) :
    (Json.obj (c.members print)).WellFormed := by
  have hmap : ∀ {υ : Type} (entries : List (Text × υ)) {g : υ → Json Text}, (∀ v, (g v).WellFormed) →
      (Json.obj (entries.map fun e => (e.1, g e.2))).WellFormed := by
    intro υ entries g hg
    apply Json.allMembers_iff.mpr
    intro m hm
    obtain ⟨e, -, rfl⟩ := List.mem_map.mp hm
    exact hg e.2
  have hrules : ∀ rules : List PolicyRule, (Json.arr (rules.map PolicyRule.serialize)).WellFormed := by
    intro rules
    apply Json.allItems_iff.mpr
    intro v hv
    obtain ⟨rule, -, rfl⟩ := List.mem_map.mp hv
    exact serialize_wellFormed rule
  apply Json.allMembers_iff.mpr
  intro m hm
  rcases List.mem_append.mp hm with hfixed | hkey
  · simp only [List.mem_cons, List.not_mem_nil, or_false] at hfixed
    rcases hfixed with rfl | rfl | rfl | rfl
    · exact Json.isNumeral_decimal _
    · exact hmap c.secrets.entries fun v => (Json.all_map v).mpr (Json.all_of h v)
    · exact hmap c.policies.entries hrules
    · exact hmap c.tokens.entries stringsJson_wellFormed
  · cases hk : c.tokenKey with
    | none => simp [hk] at hkey
    | some key =>
        simp only [hk, List.mem_singleton] at hkey
        subst hkey
        trivial

end Body

/-- The JSON text `raw` denotes `value`. -/
def Denotes {N : Type} (denotes : Text → Option N) (raw : Text) (value : Json N) : Prop :=
  (Json.parse raw).bind (Json.traverse denotes) = some value

/-- The file opens, and everything its author put in comes out. -/
def Recovered {N : Type} (A : Aead) (S : SerdeJson N) (denotes : Text → Option N) (c : Contents (Json N))
    (key : SealKey) (bytes : Bytes) : Prop :=
  peekVersion bytes = some (.ok c.version) ∧
  ∃ opened view, openFile A S.fromSlice bytes key none = some (.ok opened) ∧
    opened.view S.fromSlice = .ok view ∧ view.version = c.version ∧ view.policies = c.policies ∧
    view.tokens = c.tokens ∧ view.tokenKey = c.tokenKey ∧ view.secrets.keys = c.secrets.keys ∧
    ∀ path value, c.secrets.get path = some value →
      ∃ raw, view.secrets.get path = some raw ∧ Denotes denotes raw value

section RoundTrip
variable {N : Type} {A : Aead} {S : SerdeJson N} {c : Contents (Json N)} {key : SealKey} {nonce : Option Nonce}
  {bytes : Bytes}

theorem sealContents_ok (compact : S.Compact) (h : sealContents A S.toVec nonce c key = .ok bytes) :
    ∃ drawn ciphertext, bytes = Header.write c.version drawn ++ ciphertext ∧
      A.sealInPlaceAppendTag key drawn (Header.write c.version drawn)
        (utf8 (Json.obj (c.members S.print)).text) = some ciphertext := by
  unfold sealContents at h
  rw [compact.writes] at h
  cases nonce with
  | none => cases h
  | some drawn =>
      dsimp only at h
      cases hs : A.sealInPlaceAppendTag key drawn (Header.write c.version drawn)
          (utf8 (Json.obj (c.members S.print)).text) with
      | none =>
          rw [hs] at h
          cases h
      | some ciphertext =>
          rw [hs] at h
          cases h
          exact ⟨drawn, ciphertext, rfl, hs⟩

/-- Opening what was sealed comes down to visiting the members that were written. -/
theorem openFile_sealed (opens : A.Opens) (fromSlice : Bytes → Option View) {version : UInt64} {drawn : Nonce}
    {body ciphertext : Bytes}
    (h : A.sealInPlaceAppendTag key drawn (Header.write version drawn) body = some ciphertext) :
    openFile A fromSlice (Header.write version drawn ++ ciphertext) key none =
      some (match fromSlice body with
        | none => .error .malformedBody
        | some view =>
            if view.version ≠ version then .error (.versionMismatch version view.version) else .ok ⟨body, version⟩) := by
  obtain ⟨buffer, hopen, hbody⟩ := opens _ _ _ _ _ h
  have hdrop : (Header.write version drawn ++ ciphertext).drop HEADER_LEN = ciphertext :=
    List.drop_left' (Header.write_length version drawn)
  rw [openFile_body (Header.parse_write version drawn ciphertext) (by simp), hdrop, openBody]
  simp only [hopen, hbody, Opened.view]
  cases fromSlice body <;> rfl

theorem openFile_unescaped (compact : S.Compact) (opens : A.Opens) (hplain : c.Unescaped)
    (h : sealContents A S.toVec nonce c key = .ok bytes) :
    ∃ opened, openFile A S.fromSlice bytes key none = some (.ok opened) ∧
      opened.view S.fromSlice = .ok (c.view S.print) := by
  obtain ⟨drawn, ciphertext, rfl, hseal⟩ := sealContents_ok compact h
  have hread := compact.reads _ (members_wellFormed (c := c) compact.numeral)
  rw [visitMap_unescaped hplain] at hread
  refine ⟨⟨utf8 (Json.obj (c.members S.print)).text, c.version⟩, ?_, ?_⟩
  · rw [openFile_sealed opens S.fromSlice hseal, hread]
    simp [Contents.view]
  · rw [Opened.view, hread]

theorem openFile_escaped (compact : S.Compact) (opens : A.Opens) (hescaped : ¬ c.Unescaped)
    (h : sealContents A S.toVec nonce c key = .ok bytes) :
    openFile A S.fromSlice bytes key none = some (.error .malformedBody) := by
  obtain ⟨drawn, ciphertext, rfl, hseal⟩ := sealContents_ok compact h
  have hread := compact.reads _ (members_wellFormed (c := c) compact.numeral)
  rw [openFile_sealed opens S.fromSlice hseal, hread, visitMap_escaped hescaped]

end RoundTrip

/-- Decoding undoes encoding exactly where nothing the reader borrows was escaped. -/
theorem seal_round_trip {N : Type} {A : Aead} {S : SerdeJson N} {denotes : Text → Option N}
    (documented : S.Documented denotes) (opens : A.Opens) {c : Contents (Json N)} {key : SealKey}
    {nonce : Option Nonce} {bytes : Bytes} (h : sealContents A S.toVec nonce c key = .ok bytes) :
    Recovered A S denotes c key bytes ↔ c.Unescaped := by
  constructor
  · rintro ⟨-, opened, view, hopened, -⟩
    by_contra hescaped
    rw [openFile_escaped documented.toCompact opens hescaped h] at hopened
    cases hopened
  · intro hplain
    obtain ⟨opened, hopen, hview⟩ := openFile_unescaped documented.toCompact opens hplain h
    refine ⟨?_, opened, c.view S.print, hopen, hview, rfl, rfl, rfl, rfl, ?_, ?_⟩
    · obtain ⟨drawn, ciphertext, rfl, -⟩ := sealContents_ok documented.toCompact h
      rw [peekVersion, Header.parse_write]
      rfl
    · exact SortedMap.keys_mapValues _ _
    · intro path value hvalue
      refine ⟨_, SortedMap.get_mapValues _ hvalue, ?_⟩
      have hparse : Json.parse (value.map S.print).text = some (value.map S.print) :=
        Json.parse_text ((Json.all_map value).mpr (Json.all_of documented.numeral value))
      rw [Denotes, hparse]
      exact (Json.traverse_map value).mpr (Json.all_of documented.denoted value)

def readDecimal (n : Text) : Option Nat := if n.all Char.isDigit then some (Nat.ofDigitChars 10 n 0) else none

/-- The writer and the reader over natural numbers, in full. -/
def compactSerde : SerdeJson Nat where
  print := decimal
  toVec c := some (utf8 (Json.obj (c.members decimal)).text)
  fromSlice bytes :=
    match (fromUtf8 bytes).bind Json.parse with
    | some (.obj members) => View.visitMap members
    | _ => none

theorem compactSerde_compact : compactSerde.Compact where
  numeral := Json.isNumeral_decimal
  writes _ := rfl
  reads members h := by
    simp only [compactSerde, fromUtf8_utf8, Option.bind_some, Json.parse_text h]

theorem compactSerde_documented : compactSerde.Documented readDecimal where
  toCompact := compactSerde_compact
  denoted n := by
    have hvalue : Nat.ofDigitChars 10 (decimal n) 0 = n := Nat.ofDigitChars_ten_toDigits
    change readDecimal (decimal n) = some n
    rw [readDecimal, if_pos (List.all_eq_true.mpr (Json.decimal_all_digits n)), hvalue]

section Borrowed

theorem mem_of_mapM {α β : Type} {f : α → Option β} {l : List α} {l' : List β} (h : l.mapM f = some l') {b : β}
    (hb : b ∈ l') : ∃ a ∈ l, f a = some b := by
  induction l generalizing l' with
  | nil =>
      cases h
      cases hb
  | cons a l ih =>
      rw [List.mapM_cons] at h
      obtain ⟨c, hc, hrest⟩ := Option.bind_eq_some_iff.mp h
      obtain ⟨rest, hr, hcons⟩ := Option.bind_eq_some_iff.mp hrest
      cases hcons
      rcases List.mem_cons.mp hb with rfl | hmem
      · exact ⟨a, List.mem_cons_self, hc⟩
      · obtain ⟨d, hd, hfd⟩ := ih hr hmem
        exact ⟨d, List.mem_cons_of_mem a hd, hfd⟩

theorem readMap_borrow {υ : Type} {value : Json Text → Option υ} {j : Json Text} {m : SortedMap Text υ}
    (h : readMap borrow value j = some m) : ∀ path ∈ m.keys, ∀ ch ∈ path, Json.mustEscape ch = false := by
  cases j with
  | obj members =>
      obtain ⟨l, hl, rfl⟩ := Option.map_eq_some_iff.mp h
      intro path hpath
      obtain ⟨e, he, rfl⟩ := List.mem_map.mp hpath
      obtain ⟨member, -, hentry⟩ := mem_of_mapM hl (SortedMap.mem_ofList he)
      obtain ⟨key, hkey, hrest⟩ := Option.bind_eq_some_iff.mp hentry
      obtain ⟨v, -, hpair⟩ := Option.bind_eq_some_iff.mp hrest
      cases hpair
      exact borrow_some hkey
  | _ => cases h

/-- What has been read so far was borrowed. -/
def ViewFields.Borrowed (f : ViewFields) : Prop :=
  (∀ m ∈ f.secrets, ∀ path ∈ m.keys, ∀ ch ∈ path, Json.mustEscape ch = false) ∧
    ∀ given ∈ f.tokenKey, ∀ key ∈ given, ∀ ch ∈ key, Json.mustEscape ch = false

theorem once_some {α : Type} {held given : Option α} {x : Option α} (h : once held given = some x) :
    held = none ∧ ∃ a, given = some a ∧ x = some a := by
  unfold once at h
  split_ifs at h with hs
  obtain ⟨a, ha, rfl⟩ := Option.map_eq_some_iff.mp h
  exact ⟨Option.not_isSome_iff_eq_none.mp hs, a, ha, rfl⟩

theorem visit_borrowed {f f' : ViewFields} {member : Text × Json Text} (h : f.Borrowed)
    (hv : f.visit member = some f') : f'.Borrowed := by
  unfold ViewFields.visit at hv
  split_ifs at hv
  · obtain ⟨x, -, hf⟩ := Option.bind_eq_some_iff.mp hv
    cases hf
    exact h
  · obtain ⟨x, hx, hf⟩ := Option.bind_eq_some_iff.mp hv
    cases hf
    obtain ⟨-, m, hm, rfl⟩ := once_some hx
    refine ⟨?_, h.2⟩
    rintro m' ⟨⟩
    exact readMap_borrow hm
  · obtain ⟨x, -, hf⟩ := Option.bind_eq_some_iff.mp hv
    cases hf
    exact h
  · obtain ⟨x, -, hf⟩ := Option.bind_eq_some_iff.mp hv
    cases hf
    exact h
  · obtain ⟨x, hx, hf⟩ := Option.bind_eq_some_iff.mp hv
    cases hf
    obtain ⟨-, given, hgiven, rfl⟩ := once_some hx
    refine ⟨h.1, ?_⟩
    rintro given' ⟨⟩ key hkey
    cases hj : member.2 with
    | str s =>
        rw [hj] at hgiven
        obtain ⟨t, ht, rfl⟩ := Option.map_eq_some_iff.mp hgiven
        cases hkey
        exact borrow_some ht
    | null =>
        rw [hj] at hgiven
        cases hgiven
        cases hkey
    | _ =>
        rw [hj] at hgiven
        cases hgiven

theorem foldlM_borrowed {members : List (Text × Json Text)} {f f' : ViewFields} (h : f.Borrowed)
    (hv : members.foldlM ViewFields.visit f = some f') : f'.Borrowed := by
  induction members generalizing f with
  | nil =>
      cases hv
      exact h
  | cons member members ih =>
      rw [List.foldlM_cons] at hv
      obtain ⟨g, hg, hrest⟩ := Option.bind_eq_some_iff.mp hv
      exact ih (visit_borrowed h hg) hrest

theorem compactSerde_borrows : compactSerde.Borrows := by
  intro bytes view h
  have hmembers : ∃ members, View.visitMap members = some view := by
    simp only [compactSerde] at h
    split at h
    · exact ⟨_, h⟩
    · cases h
  obtain ⟨members, hvisit⟩ := hmembers
  obtain ⟨f, hf, hrest⟩ := Option.bind_eq_some_iff.mp hvisit
  obtain ⟨version, -, hview⟩ := Option.bind_eq_some_iff.mp hrest
  cases hview
  have hborrowed : f.Borrowed := foldlM_borrowed (by simp [ViewFields.Borrowed]) hf
  constructor
  · cases hs : f.secrets with
    | none => exact nofun
    | some m => exact hborrowed.1 m hs
  · cases hk : f.tokenKey with
    | none => exact nofun
    | some given => exact hborrowed.2 given hk

end Borrowed

def oneSecret (path : Text) : Contents (Json Nat) :=
  ⟨1, .ofList [(path, .obj [("user".toList, .str "app".toList)])], .empty, .empty, none⟩

def oneSecretSealing (path : Text) (ciphertext : Bytes) : Sealing :=
  ⟨sampleKey, sampleNonce, Header.write 1 sampleNonce, utf8 (Json.obj ((oneSecret path).members decimal)).text,
    ciphertext⟩

/-- AES-256-GCM of the body with the one secret `app/db`. -/
def plainSealing : Sealing := oneSecretSealing "app/db".toList
  [116, 72, 208, 57, 29, 124, 190, 155, 168, 191, 41, 177, 172, 115, 135, 254, 194, 46, 232, 7, 251, 213, 187,
    98, 220, 218, 46, 138, 43, 186, 80, 57, 29, 63, 211, 11, 242, 37, 134, 176, 56, 220, 192, 141, 178, 53, 164,
    91, 151, 106, 195, 38, 185, 200, 98, 98, 248, 155, 195, 216, 22, 197, 175, 210, 49, 202, 155, 87, 231, 187,
    8, 251, 55, 166, 74, 244, 64, 231, 202, 178, 146, 14, 220, 235, 42, 199, 108, 26, 73, 40, 116]

theorem seal_round_trip_sample : (Aead.recorded [plainSealing]).Opens ∧ compactSerde.Documented readDecimal ∧
    sealContents (Aead.recorded [plainSealing]) compactSerde.toVec (some sampleNonce)
      (oneSecret "app/db".toList) sampleKey = .ok (Header.write 1 sampleNonce ++ plainSealing.sealed) ∧
    Recovered (Aead.recorded [plainSealing]) compactSerde readDecimal (oneSecret "app/db".toList) sampleKey
      (Header.write 1 sampleNonce ++ plainSealing.sealed) := by
  have opens : (Aead.recorded [plainSealing]).Opens := Aead.recorded_opens (by decide +kernel)
  have hseal : sealContents (Aead.recorded [plainSealing]) compactSerde.toVec (some sampleNonce)
      (oneSecret "app/db".toList) sampleKey = .ok (Header.write 1 sampleNonce ++ plainSealing.sealed) := by
    decide +kernel
  have hkeys : (oneSecret "app/db".toList).secrets.keys = ["app/db".toList] := rfl
  have hplain : "app/db".toList.all (fun ch => !Json.mustEscape ch) = true := by decide
  refine ⟨opens, compactSerde_documented, hseal, (seal_round_trip compactSerde_documented opens hseal).mpr ⟨?_, ?_⟩⟩
  · intro path hpath ch hch
    rw [hkeys, List.mem_singleton] at hpath
    subst hpath
    simpa using List.all_eq_true.mp hplain ch hch
  · intro key hkey
    cases hkey

/-- The same with the path `a"b`, which is written with a backslash. -/
def quotedSealing : Sealing := oneSecretSealing "a\"b".toList
  [116, 72, 208, 57, 29, 124, 190, 155, 168, 191, 41, 177, 172, 115, 135, 254, 194, 46, 232, 7, 251, 213, 187,
    98, 220, 218, 2, 216, 102, 252, 8, 96, 5, 49, 130, 27, 243, 98, 206, 176, 99, 142, 209, 223, 191, 106, 245, 4,
    203, 39, 223, 32, 182, 200, 100, 120, 191, 210, 154, 159, 65, 154, 247, 159, 46, 192, 158, 65, 171, 242, 81,
    188, 49, 107, 181, 121, 76, 172, 122, 80, 209, 55, 193, 252, 18, 235, 211, 254, 242]

/-- What the writer accepts and the reader refuses. -/
theorem quoted_path_lost : (Aead.recorded [quotedSealing]).Opens ∧ compactSerde.Documented readDecimal ∧
    sealContents (Aead.recorded [quotedSealing]) compactSerde.toVec (some sampleNonce)
      (oneSecret "a\"b".toList) sampleKey = .ok (Header.write 1 sampleNonce ++ quotedSealing.sealed) ∧
    ¬ Recovered (Aead.recorded [quotedSealing]) compactSerde readDecimal (oneSecret "a\"b".toList) sampleKey
      (Header.write 1 sampleNonce ++ quotedSealing.sealed) := by
  have hopen : openFile (Aead.recorded [quotedSealing]) compactSerde.fromSlice
      (Header.write 1 sampleNonce ++ quotedSealing.sealed) sampleKey none = some (.error .malformedBody) := by
    decide +kernel
  refine ⟨Aead.recorded_opens (by decide +kernel), compactSerde_documented, by decide +kernel, ?_⟩
  rintro ⟨-, opened, view, hopened, -⟩
  rw [hopen] at hopened
  cases hopened

end Kallisto.Crypto
