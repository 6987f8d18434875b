import Kallisto.Ctl.Arguments
import Kallisto.Lib.JsonPretty
import Kallisto.Resolver.Authorization

/-!
Where keys and tokens come from, and what becomes of them. The tool prints a row for every token
it mints; the operator puts rows into the file and takes them out, and the resolver admits the
tokens whose rows are there.
-/
namespace Kallisto.Ctl
open Lib Kallisto.Crypto Kallisto.Policy Kallisto.Resolver

inductive MintStop where
  | stopped (stop : Stop)
  | policyRequired
  | noTokenKey
  | fileKeyUnusable (e : HexError)
  | tokenKeyUnset
  | tokenKeyUnusable (e : HexError)
  | randomUnavailable
  deriving DecidableEq, Repr

/-- What a run meets: the environment and the file, a token key in the environment, the generator. -/
structure Minter where
  machine : Machine
  tokenKey : Option Text
  random : Option (ByteVec 32)

def drawn (random : Option (ByteVec 32)) : Except MintStop (ByteVec 32) :=
  match random with
  | some bytes => .ok bytes
  | none => .error .randomUnavailable

def randomToken (random : Option (ByteVec 32)) : Except MintStop Text := do
  let bytes ← drawn random
  return "s.".toList ++ encode bytes.val

/-- What `gen-key` prints. -/
def runGenKey (args : Args) (random : Option (ByteVec 32)) : Except MintStop Text := do
  (args.rejectUnknown []).mapError .stopped
  let bytes ← drawn random
  return encode bytes.val

/-- What `mint-token` prints: the token, and its row of the table. -/
structure Minted where
  token : Text
  hash : Text
  policies : List Text
  deriving DecidableEq, Repr

/-- The line to paste into the plaintext file. -/
def Minted.line (m : Minted) : Text :=
  "    ".toList ++ Json.quote m.hash ++ ": ".toList ++ Json.arrayText (m.policies.map Json.quote)

section Mint
variable {V : Type} (T : Toolbox V) (hmac : Hmac)

/-- `key.map_err(..)` of a hex error. -/
def keyFrom (unusable : HexError → MintStop) (hex : Text) : Except MintStop TokenKey :=
  match TokenKey.fromHex hex with
  | .ok key => .ok key
  | .error e => .error (unusable e)

/-- From the file at `--in` where one is named, and from the environment otherwise. -/
def mintKey (minter : Minter) (args : Args) (file : Target) : Except MintStop TokenKey :=
  match args.value "--in".toList with
  | some _ => do
      let bytes ← (orFail .cannotRead (file.read minter.machine)).mapError .stopped
      let key ← (sealKey minter.machine).mapError .stopped
      let opened ← (describing .notAuthentic (openSealed T.aead T.fromSlice bytes key none)).mapError .stopped
      let view ← (describing .notReadable (opened.view T.fromSlice)).mapError .stopped
      match view.tokenKey with
      | none => .error .noTokenKey
      | some hex => keyFrom .fileKeyUnusable hex
  | none =>
      match minter.tokenKey with
      | none => .error .tokenKeyUnset
      | some hex => keyFrom .tokenKeyUnusable hex

def runMintToken (minter : Minter) (args : Args) (file : Target) : Except MintStop Minted := do
  (args.rejectUnknown ["--in".toList, POLICY]).mapError .stopped
  let policies := args.list POLICY
  if policies = [] then .error .policyRequired
  let key ← mintKey T minter args file
  let token ← randomToken minter.random
  return ⟨token, key.hashHex hmac token, policies⟩

end Mint

/-- A run of `mint-token` whose row goes into the table, or a row taken out of it. -/
inductive Edit where
  | mint (minter : Minter) (args : Args) (file : Target)
  | revoke (token : Text)

section Edits
variable {V : Type} (T : Toolbox V) (hmac : Hmac) (key : TokenKey)

def Edit.apply (tokens : SortedMap Text (List Text)) : Edit → SortedMap Text (List Text)
  | .mint minter args file =>
      match runMintToken T hmac minter args file with
      | .ok minted => tokens.insert minted.hash minted.policies
      | .error _ => tokens
  | .revoke token => tokens.erase (key.hashHex hmac token)

/-- The operator's table after some edits. -/
def edited (edits : List Edit) : SortedMap Text (List Text) := edits.foldl (Edit.apply T hmac key) .empty

/-- What an edit decides for one token. -/
def Edit.settle (token : Text) (before : Option (List Text)) : Edit → Option (List Text)
  | .mint minter args file =>
      match runMintToken T hmac minter args file with
      | .ok minted => if minted.token = token then some minted.policies else before
      | .error _ => before
  | .revoke revoked => if revoked = token then none else before

/-- The policies a token was last given, where it was not revoked since. -/
def standing (edits : List Edit) (token : Text) : Option (List Text) := edits.foldl (Edit.settle T hmac token) none

/-- The run took this key for the file's. -/
def Edit.KeyedBy : Edit → Prop
  | .mint minter args file => ∀ used, mintKey T minter args file = .ok used → used = key
  | .revoke _ => True

/-- The edit is about the token. -/
def Edit.About (token : Text) : Edit → Prop
  | .mint minter args file => ∃ minted, runMintToken T hmac minter args file = .ok minted ∧ minted.token = token
  | .revoke revoked => revoked = token

/-- No other token of the edits has this one's hash. -/
def Apart (edits : List Edit) (token : Text) : Prop :=
  ∀ e ∈ edits, ∀ other, e.About T hmac other → key.hash hmac other = key.hash hmac token → other = token

end Edits

section Rows
variable {V : Type} {T : Toolbox V} {hmac : Hmac} {key : TokenKey} {edits : List Edit} {token : Text}

theorem runMintToken_ok {minter : Minter} {args : Args} {file : Target} {minted : Minted}
    (h : runMintToken T hmac minter args file = .ok minted) :
    ∃ used, mintKey T minter args file = .ok used ∧ minted.hash = used.hashHex hmac minted.token ∧
      minted.policies = args.list POLICY ∧ minted.policies ≠ [] := by
  unfold runMintToken at h
  obtain ⟨-, -, h⟩ := bind_ok h
  by_cases hnil : args.list POLICY = []
  · rw [if_pos hnil] at h
    cases h
  · rw [if_neg hnil] at h
    obtain ⟨-, -, h⟩ := bind_ok h
    obtain ⟨used, hused, h⟩ := bind_ok h
    obtain ⟨token, -, h⟩ := bind_ok h
    cases h
    exact ⟨used, hused, rfl, rfl, hnil⟩

theorem decodeArray_encode {n : Nat} (bytes : ByteVec n) : decodeArray n (encode bytes.val) = .ok bytes := by
  rw [decodeArray_ok, trim_encode, toAsciiLower_encode]

theorem encode_injective {n : Nat} {a b : ByteVec n} (h : encode a.val = encode b.val) : a = b := by
  have ha := decodeArray_encode a
  rw [h, decodeArray_encode] at ha
  exact (Except.ok.inj ha).symm

/-- Every row is spelled as the tool spells it. -/
theorem edited_rows (hmac : Hmac) (keyed : ∀ e ∈ edits, e.KeyedBy T key) :
    ∀ row ∈ (edited T hmac key edits).entries, ∃ hash : ByteVec HASH_LEN, row.1 = encode hash.val := by
  unfold edited
  induction edits using List.reverseRecOn with
  | nil => exact nofun
  | append_singleton edits e ih =>
      have hbefore := ih fun e' he' => keyed e' (List.mem_append_left _ he')
      rw [List.foldl_append, List.foldl_cons, List.foldl_nil]
      intro row hrow
      cases e with
      | revoke revoked => exact hbefore row (List.mem_of_mem_filter hrow)
      | mint minter args file =>
          simp only [Edit.apply] at hrow
          cases hrun : runMintToken T hmac minter args file with
          | error stop =>
              rw [hrun] at hrow
              exact hbefore row hrow
          | ok minted =>
              rw [hrun] at hrow
              rcases SortedMap.mem_insertEntry hrow with heq | hold
              · obtain ⟨used, -, hhash, -⟩ := runMintToken_ok hrun
                exact ⟨used.hash hmac minted.token, by rw [heq, hhash, TokenKey.hashHex]⟩
              · exact hbefore row hold

/-- The row at a token's hash holds what the edits decided for it. -/
theorem edited_get (keyed : ∀ e ∈ edits, e.KeyedBy T key) (apart : Apart T hmac key edits token) :
    (edited T hmac key edits).get (key.hashHex hmac token) = standing T hmac edits token := by
  unfold edited standing
  induction edits using List.reverseRecOn with
  | nil => rfl
  | append_singleton edits e ih =>
      have hbefore := ih (fun e' he' => keyed e' (List.mem_append_left _ he'))
        fun e' he' => apart e' (List.mem_append_left _ he')
      have hkeyed := keyed e (List.mem_append_right _ List.mem_cons_self)
      have hapart := apart e (List.mem_append_right _ List.mem_cons_self)
      have hother : ∀ other, e.About T hmac other → other ≠ token →
          key.hashHex hmac token ≠ key.hashHex hmac other := by
        intro other habout hne heq
        exact hne (hapart other habout (encode_injective heq.symm))
      rw [List.foldl_append, List.foldl_append, List.foldl_cons, List.foldl_nil, List.foldl_cons, List.foldl_nil]
      cases e with
      | revoke revoked =>
          simp only [Edit.apply, Edit.settle]
          by_cases htoken : revoked = token
          · rw [if_pos htoken, htoken, SortedMap.get_erase_self]
          · rw [if_neg htoken, SortedMap.get_erase_of_ne _ (hother revoked rfl htoken), hbefore]
      | mint minter args file =>
          simp only [Edit.apply, Edit.settle]
          cases hrun : runMintToken T hmac minter args file with
          | error stop => exact hbefore
          | ok minted =>
              dsimp only
              obtain ⟨used, hused, hhash, -⟩ := runMintToken_ok hrun
              rw [hhash, hkeyed used hused]
              by_cases htoken : minted.token = token
              · rw [if_pos htoken, htoken, SortedMap.get_insert_self]
              · rw [if_neg htoken, SortedMap.get_insert_of_ne _ (hother _ ⟨minted, hrun, rfl⟩ htoken), hbefore]

/-- Where every row is spelled as the tool spells it, the row of a token is the one at its hash. -/
theorem lookup_canonical {keyHex : Text} {tokens : SortedMap Text (List Text)}
    {policies : SortedMap Text (List PolicyRule)} {table : TokenTable}
    (built : TokenTable.build keyHex tokens policies = .ok table)
    (canonical : ∀ row ∈ tokens.entries, ∃ hash : ByteVec HASH_LEN, row.1 = encode hash.val) (token : Text) :
    (table.lookup hmac token).map Grant.policies = tokens.get (table.key.hashHex hmac token) := by
  have hnamed : ∀ row ∈ tokens.entries, Names hmac table.key token row → row.1 = table.key.hashHex hmac token := by
    intro row hrow hnames
    obtain ⟨hash, hhash⟩ := canonical row hrow
    rw [names_iff, hhash, trim_encode, toAsciiLower_encode] at hnames
    rw [hhash, hnames]
  cases hlookup : table.lookup hmac token with
  | none =>
      symm
      rw [Option.map_none, SortedMap.get_eq_none]
      intro hkey
      obtain ⟨row, hrow, hrow'⟩ := List.mem_map.mp hkey
      refine (lookup_none_iff_no_row built).mp hlookup row hrow ?_
      rw [names_iff, hrow', TokenKey.hashHex, trim_encode, toAsciiLower_encode]
  | some grant =>
      obtain ⟨entry, hentry, hhash, rfl⟩ := lookup_eq_some hlookup
      obtain ⟨row, hrow, hdecoded, hpolicies, -⟩ := row_of_entry built hentry
      symm
      rw [Option.map_some, SortedMap.get_eq_some, ← hnamed row hrow (hdecoded.trans (congrArg _ hhash))]
      simp only [hpolicies]
      exact hrow

/-- What the tool prints reads back as the row. -/
theorem parse_line (m : Minted) : Json.parse ('\x7b' :: (m.line ++ ['\x7d'])) =
    some (.obj [(m.hash, stringsJson m.policies)]) := by
  have hname : Json.parse ("    ".toList ++ Json.quote m.hash) = some (.str m.hash) :=
    Json.parse_of_spells (Json.spells_space (List.all_eq_true.mp (by decide)) (Json.spells_quote m.hash))
  have hpolicies : Json.parse (Json.arrayText (m.policies.map Json.quote)) = some (stringsJson m.policies) := by
    apply Json.parse_arrayText
    rw [List.forall₂_map_left_iff, List.forall₂_map_right_iff, List.forall₂_same]
    exact fun policy _ => Json.parse_of_spells (Json.spells_quote policy)
  obtain ⟨p, w, heq, hspells, hw⟩ := Json.parse_iff.mp hpolicies
  have hvalue : Json.parse (' ' :: Json.arrayText (m.policies.map Json.quote)) = some (stringsJson m.policies) :=
    Json.parse_iff.mpr ⟨' ' :: p, w, congrArg _ heq,
      Json.spells_space (w := [' ']) (List.all_eq_true.mp (by decide)) hspells, hw⟩
  have hmember : Json.ReadsMember
      ("    ".toList ++ Json.quote m.hash, ' ' :: Json.arrayText (m.policies.map Json.quote))
      (m.hash, stringsJson m.policies) := ⟨hname, hvalue⟩
  have htext : '\x7b' :: (m.line ++ ['\x7d']) = Json.objectText
      [("    ".toList ++ Json.quote m.hash, ' ' :: Json.arrayText (m.policies.map Json.quote))] := by
    simp [Minted.line, Json.objectText]
  rw [htext]
  exact Json.parse_objectText (.cons hmember .nil)

end Rows

/-- From `gen-key` to the door: a file whose key `gen-key` printed and whose table was made by
minting and revoking loads; it admits a token exactly as the last edit about it left it, with the
policies named on the command line, and every row printed reads back as the row that was meant. -/
theorem token_lifecycle {V : Type} (T : Toolbox V) (P : Platform) {args : Args} {raw : ByteVec 32} {keyHex : Text}
    (generated : runGenKey args (some raw) = .ok keyHex) {edits : List Edit}
    (keyed : ∀ e ∈ edits, e.KeyedBy T ⟨raw⟩) {view : View} (hkey : view.tokenKey = some keyHex)
    (htokens : view.tokens = edited T P.hmac ⟨raw⟩ edits) :
    (∃ table, buildTokens view = .ok (some table)) ∧
    (∀ draw etag s, Snapshot.build P draw view etag = .ok s → ∀ token, Apart T P.hmac ⟨raw⟩ edits token →
      (s.grant P (some token)).map Grant.policies = standing T P.hmac edits token ∧
      ∀ path capability, s.permits P (some token) path capability = true ↔
        ∃ names, standing T P.hmac edits token = some names ∧ Permitted view.policies names path capability) ∧
    ∀ minter margs file minted, Edit.mint minter margs file ∈ edits → runMintToken T P.hmac minter margs file = .ok minted →
      minted.policies = margs.list POLICY ∧
        Json.parse ('\x7b' :: (minted.line ++ ['\x7d'])) = some (.obj [(minted.hash, stringsJson minted.policies)]) := by
  have hfrom : TokenKey.fromHex keyHex = .ok ⟨raw⟩ := by
    obtain ⟨-, -, h⟩ := bind_ok generated
    cases h
    have hdecoded : decodeArray TOKEN_KEY_LEN (encode raw.val) = .ok raw := decodeArray_encode (n := TOKEN_KEY_LEN) raw
    rw [TokenKey.fromHex, hdecoded]
    rfl
  have hrows := edited_rows P.hmac keyed
  rw [← htokens] at hrows
  have hdecodes : ∀ row ∈ view.tokens.entries, ∃ hash, decodeArray HASH_LEN row.1 = .ok hash := by
    intro row hrow
    obtain ⟨hash, hhash⟩ := hrows row hrow
    exact ⟨hash, by rw [hhash, decodeArray_encode]⟩
  obtain ⟨table, hbuilt, hused⟩ :
      ∃ table, TokenTable.build keyHex view.tokens view.policies = .ok table ∧ table.key = ⟨raw⟩ :=
    build_of_decodes hfrom hdecodes
  have htable : buildTokens view = .ok (some table) := by
    simp only [buildTokens, hkey, hbuilt]
    rfl
  refine ⟨⟨table, htable⟩, ?_, ?_⟩
  · intro draw etag s hs token apart
    have himage := (build_image hs).1
    have ht : s.tokens = some table := Except.ok.inj (himage.tokens.symm.trans htable)
    have hgrant : (s.grant P (some token)).map Grant.policies = standing T P.hmac edits token := by
      rw [← edited_get keyed apart, ← htokens, ← hused, ← lookup_canonical hbuilt hrows]
      simp only [Snapshot.grant, ht, Option.bind_eq_bind, Option.bind_some]
    refine ⟨hgrant, ?_⟩
    intro path capability
    rw [← hgrant]
    cases hg : s.grant P (some token) with
    | none =>
        rw [permits_of_table ht, hg]
        simp
    | some grant =>
        rw [permits_iff himage hg]
        simp
  · intro minter margs file minted _ hrun
    obtain ⟨-, -, -, hpolicies, -⟩ := runMintToken_ok hrun
    exact ⟨hpolicies, parse_line minted⟩

def mintedBytes : ByteVec 32 := ⟨List.replicate 32 11, List.length_replicate⟩

def mintedToken : Text := "s.".toList ++ encode mintedBytes.val

/-- `sampleHmac`, and the hash of `mintedToken`. -/
def mintHmac : Hmac := fun key message =>
  if key = sampleTokenKey.raw ∧ message = LABEL ++ utf8 mintedToken then
    ⟨[12, 34, 75, 40, 93, 103, 255, 59, 104, 172, 48, 189, 201, 168, 47, 182, 40, 135, 43, 131, 10, 47, 73, 126,
      215, 214, 161, 129, 193, 255, 232, 65], rfl⟩
  else sampleHmac key message

def mintPlatform : Platform := { samplePlatform with hmac := mintHmac }

/-- `mint-token --policy app --policy locked`, with the key in the environment. -/
def sampleMintArgs : Args := ⟨.ofList [(POLICY, "app".toList ++ SEPARATOR :: "locked".toList)], []⟩

def sampleMinter : Minter := ⟨⟨none, none, true, none, none, true⟩, some sampleKeyHex, some mintedBytes⟩

def sampleMint : Edit := .mint sampleMinter sampleMintArgs ⟨none, none⟩

def mintTool : Toolbox (Json (Number Unit)) := offline (Aead.recorded []) oneDouble (compactValues oneDouble)

def mintedView : View :=
  ⟨1, .empty, samplePolicies, edited mintTool mintHmac sampleTokenKey [sampleMint], some sampleKeyHex⟩

theorem token_lifecycle_sample : ∃ s, Snapshot.build mintPlatform sampleDraw mintedView none = .ok s ∧
    (s.grant mintPlatform (some mintedToken)).map Grant.policies = some ["app".toList, "locked".toList] ∧
    ∀ path capability, s.permits mintPlatform (some mintedToken) path capability = true ↔
      ∃ names, some ["app".toList, "locked".toList] = some names ∧ Permitted samplePolicies names path capability := by
  have hkey : mintKey mintTool sampleMinter sampleMintArgs ⟨none, none⟩ = .ok sampleTokenKey := by decide +kernel
  have hstanding : standing mintTool mintPlatform.hmac [sampleMint] mintedToken =
      some ["app".toList, "locked".toList] := by
    decide +kernel
  have hkeyed : ∀ e ∈ [sampleMint], e.KeyedBy mintTool ⟨sampleTokenKey.raw⟩ := by
    intro e he
    rw [List.mem_singleton.mp he]
    exact fun used hused => Except.ok.inj (hused.symm.trans hkey)
  have hapart : Apart mintTool mintPlatform.hmac sampleTokenKey [sampleMint] mintedToken := by
    intro e he other habout _
    rw [List.mem_singleton.mp he] at habout
    obtain ⟨minted, hrun, rfl⟩ := habout
    have htoken : (runMintToken mintTool mintPlatform.hmac sampleMinter sampleMintArgs ⟨none, none⟩).map
        Minted.token = .ok mintedToken := by
      decide +kernel
    rw [hrun] at htoken
    exact Except.ok.inj htoken
  have hgenerated : runGenKey ⟨.empty, []⟩ (some sampleTokenKey.raw) = .ok sampleKeyHex := rfl
  have hview : mintedView.tokenKey = some sampleKeyHex := rfl
  cases hb : Snapshot.build mintPlatform sampleDraw mintedView none with
  | error e =>
      have hok : (Snapshot.build mintPlatform sampleDraw mintedView none).isOk := by decide +kernel
      rw [hb] at hok
      cases hok
  | ok s =>
      obtain ⟨hgrant, hpermits⟩ := (token_lifecycle mintTool mintPlatform hgenerated hkeyed hview rfl).2.1
        sampleDraw none s hb mintedToken hapart
      rw [hstanding] at hgrant
      simp only [hstanding] at hpermits
      exact ⟨s, rfl, hgrant, hpermits⟩

end Kallisto.Ctl
