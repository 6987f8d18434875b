import Kallisto.Lib.Text
import Kallisto.Crypto.Hex

/-!
Response bodies, built by concatenation in the shapes Vault clients expect.
-/
namespace Kallisto.Server
open Lib

/-- `{:04x}` of a code point below 0x20. -/
def hex4 (n : Nat) : Text := "00".toList ++ Crypto.encode [UInt8.ofNat n]

def jsonChar (c : Char) : Text :=
  if c = '"' then "\\\"".toList
  else if c = '\\' then "\\\\".toList
  else if c = '\n' then "\\n".toList
  else if c = '\r' then "\\r".toList
  else if c = '\t' then "\\t".toList
  else if c.toNat < 0x20 then "\\u".toList ++ hex4 c.toNat
  else [c]

/-- What `push_json_string` appends. -/
def jsonString (value : Text) : Text := ['"'] ++ value.flatMap jsonChar ++ ['"']

def errors (message : Text) : Text := "\x7b\"errors\":[".toList ++ jsonString message ++ "]\x7d".toList

def kvData (data : Text) (version : UInt64) (createdTime : Text) : Text :=
  "\x7b\"request_id\":\"\",\"lease_id\":\"\",\"renewable\":false,\"lease_duration\":0,".toList ++
    "\"data\":\x7b\"data\":".toList ++ data ++
    ",\"metadata\":\x7b\"created_time\":".toList ++ jsonString createdTime ++
    ",\"custom_metadata\":null,\"deletion_time\":\"\",\"destroyed\":false,\"version\":".toList ++
    decimal version.toNat ++
    "\x7d\x7d,\"wrap_info\":null,\"warnings\":null,\"auth\":null\x7d".toList

def commaSeparated (texts : List Text) : Text := [','].intercalate (texts.map jsonString)

def listKeys (keys : List Text) : Text :=
  "\x7b\"data\":\x7b\"keys\":[".toList ++ commaSeparated keys ++ "]\x7d\x7d".toList

def kvMetadata (version : UInt64) (createdTime : Text) : Text :=
  "\x7b\"data\":\x7b\"cas_required\":false,\"created_time\":".toList ++ jsonString createdTime ++
    ",\"current_version\":".toList ++ decimal version.toNat ++
    ",\"custom_metadata\":null,\"delete_version_after\":\"0s\",\"max_versions\":0,".toList ++
    "\"oldest_version\":".toList ++ decimal version.toNat ++
    ",\"updated_time\":".toList ++ jsonString createdTime ++
    ",\"versions\":\x7b\"".toList ++ decimal version.toNat ++
    "\":\x7b\"created_time\":".toList ++ jsonString createdTime ++
    ",\"deletion_time\":\"\",\"destroyed\":false\x7d\x7d\x7d\x7d".toList

def tokenLookup (policies : List Text) : Text :=
  "\x7b\"data\":\x7b\"accessor\":\"\",\"creation_time\":0,\"creation_ttl\":0,".toList ++
    "\"display_name\":\"kallisto\",\"entity_id\":\"\",\"expire_time\":null,".toList ++
    "\"explicit_max_ttl\":0,\"id\":\"\",\"meta\":null,\"num_uses\":0,\"orphan\":true,".toList ++
    "\"path\":\"auth/token/create\",\"policies\":[".toList ++ commaSeparated policies ++
    "],\"renewable\":false,\"ttl\":0,\"type\":\"service\"\x7d\x7d".toList

end Kallisto.Server
