import Kallisto.Lib.JsonReads
import Kallisto.Server.Health

/-!
What a client reads in the bodies that are put together by concatenation. The text of a key, a
policy, a mount, a tag or a message cannot end the string it stands in, and a secret's own text
is read inside a body as what it is read as alone.
-/
namespace Kallisto.Server
open Lib

def mounts (mount : Text) : Text :=
  "\x7b\"data\":\x7b".toList ++ jsonString (mount ++ "/".toList) ++
    ":\x7b\"accessor\":\"kv_kallisto\",\"config\":\x7b\"default_lease_ttl\":0,\"force_no_cache\":false,".toList ++
    "\"max_lease_ttl\":0\x7d,\"description\":\"key/value secret storage\",\"local\":false,".toList ++
    "\"options\":\x7b\"version\":\"2\"\x7d,\"seal_wrap\":false,\"type\":\"kv\",\"uuid\":\"kallisto\"\x7d\x7d\x7d".toList

def uiMount (mount : Text) : Text :=
  "\x7b\"data\":\x7b\"options\":\x7b\"version\":\"2\"\x7d,\"path\":".toList ++ jsonString (mount ++ "/".toList) ++
    ",\"type\":\"kv\"\x7d\x7d".toList

section Values
variable {N : Type} (number : Nat → N)

/-! The bodies as values, by what a number is. -/

def errorsValue (message : Text) : Json N := .obj [("errors".toList, .arr [.str message])]

def kvDataValue (data : Json N) (version : UInt64) (createdTime : Text) : Json N :=
  .obj [
    ("request_id".toList, .str []), ("lease_id".toList, .str []), ("renewable".toList, .bool false),
    ("lease_duration".toList, .num (number 0)),
    ("data".toList, .obj [
      ("data".toList, data),
      ("metadata".toList, .obj [
        ("created_time".toList, .str createdTime), ("custom_metadata".toList, .null), ("deletion_time".toList, .str []),
        ("destroyed".toList, .bool false), ("version".toList, .num (number version.toNat))])]),
    ("wrap_info".toList, .null), ("warnings".toList, .null), ("auth".toList, .null)]

def listKeysValue (keys : List Text) : Json N :=
  .obj [("data".toList, .obj [("keys".toList, .arr (keys.map .str))])]

def kvMetadataValue (version : UInt64) (createdTime : Text) : Json N :=
  .obj [("data".toList, .obj [
    ("cas_required".toList, .bool false), ("created_time".toList, .str createdTime),
    ("current_version".toList, .num (number version.toNat)), ("custom_metadata".toList, .null),
    ("delete_version_after".toList, .str "0s".toList), ("max_versions".toList, .num (number 0)),
    ("oldest_version".toList, .num (number version.toNat)), ("updated_time".toList, .str createdTime),
    ("versions".toList, .obj [
      (decimal version.toNat, .obj [
        ("created_time".toList, .str createdTime), ("deletion_time".toList, .str []),
        ("destroyed".toList, .bool false)])])])]

def healthValue (sealed : Bool) (serverTimeUtc : UInt64) (fileVersion : Option UInt64) (etag loadedAt : Option Text)
    (enforces : Option Bool) : Json N :=
  .obj [
    ("initialized".toList, .bool true), ("sealed".toList, .bool sealed), ("standby".toList, .bool false),
    ("performance_standby".toList, .bool false), ("replication_performance_mode".toList, .str "disabled".toList),
    ("replication_dr_mode".toList, .str "disabled".toList),
    ("server_time_utc".toList, .num (number serverTimeUtc.toNat)), ("version".toList, .str VAULT_COMPAT_VERSION),
    ("cluster_name".toList, .str CLUSTER_NAME), ("cluster_id".toList, .str []),
    ("kallisto_version".toList, .str PACKAGE_VERSION),
    ("kallisto_file_version".toList, fileVersion.elim .null fun v => .num (number v.toNat)),
    ("kallisto_etag".toList, etag.elim .null .str), ("kallisto_loaded_at".toList, loadedAt.elim .null .str),
    ("kallisto_authorization".toList,
      enforces.elim .null fun enforced => .str (if enforced then "enforced".toList else "none".toList))]

def mountsValue (mount : Text) : Json N :=
  .obj [("data".toList, .obj [
    (mount ++ "/".toList, .obj [
      ("accessor".toList, .str "kv_kallisto".toList),
      ("config".toList, .obj [
        ("default_lease_ttl".toList, .num (number 0)), ("force_no_cache".toList, .bool false),
        ("max_lease_ttl".toList, .num (number 0))]),
      ("description".toList, .str "key/value secret storage".toList), ("local".toList, .bool false),
      ("options".toList, .obj [("version".toList, .str "2".toList)]), ("seal_wrap".toList, .bool false),
      ("type".toList, .str "kv".toList), ("uuid".toList, .str "kallisto".toList)])])]

def uiMountValue (mount : Text) : Json N :=
  .obj [("data".toList, .obj [
    ("options".toList, .obj [("version".toList, .str "2".toList)]), ("path".toList, .str (mount ++ "/".toList)),
    ("type".toList, .str "kv".toList)])]

def tokenLookupValue (policies : List Text) : Json N :=
  .obj [("data".toList, .obj [
    ("accessor".toList, .str []), ("creation_time".toList, .num (number 0)), ("creation_ttl".toList, .num (number 0)),
    ("display_name".toList, .str "kallisto".toList), ("entity_id".toList, .str []), ("expire_time".toList, .null),
    ("explicit_max_ttl".toList, .num (number 0)), ("id".toList, .str []), ("meta".toList, .null),
    ("num_uses".toList, .num (number 0)), ("orphan".toList, .bool true),
    ("path".toList, .str "auth/token/create".toList), ("policies".toList, .arr (policies.map .str)),
    ("renewable".toList, .bool false), ("ttl".toList, .num (number 0)), ("type".toList, .str "service".toList)])]

end Values

/-- A string goes into a body as one token, whatever is in it. -/
theorem parse_jsonString (s : Text) : Json.parse (jsonString s) = some (.str s) := by
  have hquoted : Json.Quoted (s.flatMap jsonChar ++ ['"']) s := by
    intro r
    rw [List.append_assoc]
    exact readString_jsonString s r
  have htext : jsonString s = '"' :: (s.flatMap jsonChar ++ ['"']) := rfl
  rw [htext]
  exact Json.parse_of_spells (Json.spells_str hquoted)

section Texts

theorem jsonChar_plain {c : Char} (h : Json.mustEscape c = false) : jsonChar c = Json.escapeChar c := by
  obtain ⟨hquote, hslash, hlow⟩ := Json.plain_ne h
  have hcontrol : ¬ c.toNat < 0x20 := fun hc => hlow c hc rfl
  simp only [Json.escapeChar_plain h, jsonChar, hquote, hslash, hcontrol, hlow '\n' (by decide), hlow '\r' (by decide),
    hlow '\t' (by decide), if_false]

theorem jsonString_plain {t : Text} (h : ∀ c ∈ t, Json.mustEscape c = false) : jsonString t = Json.quote t := by
  have hflat : t.flatMap jsonChar = Json.escape t := List.flatMap_congr fun c hc => jsonChar_plain (h c hc)
  rw [jsonString, hflat, List.append_assoc]
  rfl

theorem jsonString_literal {t : Text} (h : t.all (fun c => !Json.mustEscape c) = true) :
    jsonString t = '"' :: (t ++ ['"']) := by
  have hplain : ∀ c ∈ t, Json.mustEscape c = false := by
    intro c hc
    simpa using List.all_eq_true.mp h c hc
  rw [jsonString_plain hplain, Json.quote_plain h]

theorem writeItems_strings (texts : List Text) :
    [','].intercalate (Json.writeItems jsonString (texts.map .str)) = commaSeparated texts := by
  have hitems : Json.writeItems jsonString (texts.map .str) = texts.map jsonString := by
    induction texts with
    | nil => rfl
    | cons t texts ih => exact congrArg (jsonString t :: ·) ih
  rw [hitems, commaSeparated]

theorem decimal_zero : decimal 0 = ['0'] := Nat.toDigits_zero 10

theorem decimal_text (n : Nat) : (Json.Verbatim.decimal n).text = decimal n := rfl

theorem errors_text (message : Text) : errors message = Json.write jsonString (errorsValue message) := by
  unfold errors errorsValue
  simp only [Json.write_eqs, Json.writeMembers_eqs, Json.writeItems_eqs, Json.objectText, Json.arrayText,
    List.map_cons, List.map_nil, List.intercalate_singleton, List.append_assoc, List.cons_append, List.nil_append]
  generalize jsonString message = m
  repeat rw [String.toList_ofList]
  simp (disch := decide) only [jsonString_literal, List.cons_append, List.nil_append]

theorem listKeys_text (keys : List Text) : listKeys keys = Json.write jsonString (listKeysValue keys) := by
  unfold listKeys listKeysValue
  simp only [Json.write_eqs, Json.writeMembers_eqs, Json.objectText, Json.arrayText, List.map_cons, List.map_nil,
    List.intercalate_singleton, writeItems_strings, List.append_assoc, List.cons_append, List.nil_append]
  generalize commaSeparated keys = ks
  repeat rw [String.toList_ofList]
  simp (disch := decide) only [jsonString_literal, List.cons_append, List.nil_append]

theorem kvData_spliced {d : Text} {v : Json Text} (h : Json.parse d = some v) (version : UInt64) (createdTime : Text) :
    kvData d version createdTime =
      Json.write jsonString (kvDataValue Json.Verbatim.decimal (.num ⟨d, v, h⟩) version createdTime) := by
  unfold kvData kvDataValue
  simp only [Json.write_eqs, Json.writeMembers_eqs, Json.objectText, List.map_cons, List.map_nil,
    List.intercalate_singleton, List.intercalate_cons_cons, decimal_text, decimal_zero, Bool.false_eq_true, if_false,
    List.append_assoc, List.cons_append, List.nil_append]
  generalize jsonString createdTime = t
  generalize decimal version.toNat = n
  repeat rw [String.toList_ofList]
  simp (disch := decide) only [jsonString_literal, List.cons_append, List.nil_append]

theorem kvMetadata_text (version : UInt64) (createdTime : Text) :
    kvMetadata version createdTime =
      Json.write jsonString (kvMetadataValue Json.Verbatim.decimal version createdTime) := by
  have hname : jsonString (decimal version.toNat) = '"' :: (decimal version.toNat ++ ['"']) := by
    apply jsonString_literal
    rw [List.all_eq_true]
    intro c hc
    rw [Json.mustEscape_digit (Json.decimal_all_digits _ c hc)]
    rfl
  unfold kvMetadata kvMetadataValue
  simp only [Json.write_eqs, Json.writeMembers_eqs, Json.objectText, List.map_cons, List.map_nil,
    List.intercalate_singleton, List.intercalate_cons_cons, decimal_text, decimal_zero, Bool.false_eq_true, if_false,
    hname, List.append_assoc, List.cons_append, List.nil_append]
  generalize jsonString createdTime = t
  generalize decimal version.toNat = n
  repeat rw [String.toList_ofList]
  simp (disch := decide) only [jsonString_literal, List.cons_append, List.nil_append]

theorem mounts_text (mount : Text) :
    mounts mount = Json.write jsonString (mountsValue Json.Verbatim.decimal mount) := by
  unfold mounts mountsValue
  simp only [Json.write_eqs, Json.writeMembers_eqs, Json.objectText, List.map_cons, List.map_nil,
    List.intercalate_singleton, List.intercalate_cons_cons, decimal_text, decimal_zero, Bool.false_eq_true, if_false,
    List.append_assoc, List.cons_append, List.nil_append]
  generalize jsonString (mount ++ "/".toList) = m
  repeat rw [String.toList_ofList]
  simp (disch := decide) only [jsonString_literal, List.cons_append, List.nil_append]

theorem uiMount_text (mount : Text) : uiMount mount = Json.write jsonString (uiMountValue mount) := by
  unfold uiMount uiMountValue
  simp only [Json.write_eqs, Json.writeMembers_eqs, Json.objectText, List.map_cons, List.map_nil,
    List.intercalate_singleton, List.intercalate_cons_cons, List.append_assoc, List.cons_append, List.nil_append]
  generalize jsonString (mount ++ "/".toList) = m
  repeat rw [String.toList_ofList]
  simp (disch := decide) only [jsonString_literal, List.cons_append, List.nil_append]

theorem tokenLookup_text (policies : List Text) :
    tokenLookup policies = Json.write jsonString (tokenLookupValue Json.Verbatim.decimal policies) := by
  unfold tokenLookup tokenLookupValue
  simp only [Json.write_eqs, Json.writeMembers_eqs, Json.objectText, Json.arrayText, List.map_cons, List.map_nil,
    List.intercalate_singleton, List.intercalate_cons_cons, writeItems_strings, decimal_text, decimal_zero,
    Bool.false_eq_true, if_false, if_true, List.append_assoc, List.cons_append, List.nil_append]
  generalize commaSeparated policies = ps
  repeat rw [String.toList_ofList]
  simp (disch := decide) only [jsonString_literal, List.cons_append, List.nil_append]

set_option maxRecDepth 4000 in
theorem health_text (sealed : Bool) (serverTimeUtc : UInt64) (fileVersion : Option UInt64) (etag loadedAt : Option Text)
    (enforces : Option Bool) : healthBody sealed serverTimeUtc fileVersion etag loadedAt enforces =
      Json.write jsonString
        (healthValue Json.Verbatim.decimal sealed serverTimeUtc fileVersion etag loadedAt enforces) := by
  have hversion : Json.write jsonString (fileVersion.elim .null fun v => .num (.decimal v.toNat)) =
      fileVersion.elim NULL fun v => decimal v.toNat := by
    cases fileVersion <;> rfl
  have htext : ∀ t : Option Text, Json.write jsonString (t.elim .null .str) = t.elim NULL jsonString := by
    intro t
    cases t <;> rfl
  have henforces : Json.write jsonString
      (enforces.elim .null fun enforced => .str (if enforced then "enforced".toList else "none".toList)) =
        enforces.elim NULL fun enforced => if enforced then "\"enforced\"".toList else "\"none\"".toList := by
    cases enforces with
    | none => rfl
    | some enforced => cases enforced <;> decide
  unfold healthBody healthValue VAULT_COMPAT_VERSION CLUSTER_NAME PACKAGE_VERSION
  simp only [Json.write_eqs, Json.writeMembers_eqs, Json.objectText, List.map_cons, List.map_nil,
    List.intercalate_singleton, List.intercalate_cons_cons, hversion, htext, henforces, decimal_text,
    Bool.false_eq_true, if_false, if_true, List.append_assoc, List.cons_append, List.nil_append]
  generalize (if sealed = true then "true".toList else "false".toList) = s
  generalize decimal serverTimeUtc.toNat = n
  generalize (fileVersion.elim NULL fun v => decimal v.toNat) = v
  generalize etag.elim NULL jsonString = e
  generalize loadedAt.elim NULL jsonString = l
  generalize (enforces.elim NULL fun enforced =>
    if enforced = true then "\"enforced\"".toList else "\"none\"".toList) = a
  repeat rw [String.toList_ofList]
  simp (disch := decide) only [jsonString_literal]
  rfl

end Texts

theorem parse_written (v : Json Json.Verbatim) : Json.parse (Json.write jsonString v) = some (Json.splice v) :=
  Json.parse_write jsonString parse_jsonString v

theorem spliceItems_strings (texts : List Text) : Json.spliceItems (texts.map .str) = texts.map .str := by
  induction texts with
  | nil => rfl
  | cons t texts ih => exact congrArg (.str t :: ·) ih

theorem splice_health (sealed : Bool) (serverTimeUtc : UInt64) (fileVersion : Option UInt64)
    (etag loadedAt : Option Text) (enforces : Option Bool) :
    Json.splice (healthValue Json.Verbatim.decimal sealed serverTimeUtc fileVersion etag loadedAt enforces) =
      healthValue decimal sealed serverTimeUtc fileVersion etag loadedAt enforces := by
  cases fileVersion <;> cases etag <;> cases loadedAt <;> cases enforces <;> rfl

/-- Whatever text is put into a body, the body is one object with the fields of its shape and
that text for the value of the field it was put into. -/
theorem bodies_read_back :
    (∀ s, Json.parse (jsonString s) = some (.str s)) ∧
    (∀ message, Json.parse (errors message) = some (errorsValue message)) ∧
    (∀ keys, Json.parse (listKeys keys) = some (listKeysValue keys)) ∧
    (∀ policies, Json.parse (tokenLookup policies) = some (tokenLookupValue decimal policies)) ∧
    (∀ mount, Json.parse (mounts mount) = some (mountsValue decimal mount)) ∧
    (∀ mount, Json.parse (uiMount mount) = some (uiMountValue mount)) ∧
    (∀ sealed serverTimeUtc fileVersion etag loadedAt enforces,
      Json.parse (healthBody sealed serverTimeUtc fileVersion etag loadedAt enforces) =
        some (healthValue decimal sealed serverTimeUtc fileVersion etag loadedAt enforces)) ∧
    (∀ version createdTime, Json.parse (kvMetadata version createdTime) =
      some (kvMetadataValue decimal version createdTime)) ∧
    ∀ d v version createdTime, Json.parse d = some v →
      Json.parse (kvData d version createdTime) = some (kvDataValue decimal v version createdTime) := by
  refine ⟨parse_jsonString, ?_, ?_, ?_, ?_, ?_, ?_, ?_, ?_⟩
  · intro message
    rw [errors_text, parse_written]
    rfl
  · intro keys
    rw [listKeys_text, parse_written]
    simp only [listKeysValue, Json.splice, Json.spliceMembers, spliceItems_strings]
  · intro policies
    rw [tokenLookup_text, parse_written]
    simp only [tokenLookupValue, Json.splice, Json.spliceMembers, spliceItems_strings]
    rfl
  · intro mount
    rw [mounts_text, parse_written]
    rfl
  · intro mount
    rw [uiMount_text, parse_written]
    rfl
  · intro sealed serverTimeUtc fileVersion etag loadedAt enforces
    rw [health_text, parse_written, splice_health]
  · intro version createdTime
    rw [kvMetadata_text, parse_written]
    rfl
  · intro d v version createdTime h
    rw [kvData_spliced h, parse_written]
    rfl

end Kallisto.Server
