import Kallisto.Crypto.Hex
import Kallisto.Policy.Token

/-!
Identifiers in a log line: sixteen hex characters of a keyed hash, under a key derived from
the file's token key or, where there is none, under one the process made up.
-/
namespace Kallisto.Telemetry
open Lib Kallisto.Crypto Kallisto.Policy

def LOG_KEY_LEN : Nat := 32
def ID_LEN : Nat := 16

structure LogKey where
  raw : ByteVec LOG_KEY_LEN
  deriving DecidableEq

/-- Sixteen octets of ASCII. -/
structure Id where
  octets : Bytes
  deriving DecidableEq, Repr

def Id.NONE : Id := ⟨List.replicate ID_LEN 0x2D⟩

def Id.fromBytes (bytes : Bytes) : Id :=
  ⟨encodeInto (bytes.take (ID_LEN / 2)) (List.replicate ID_LEN 0x30)⟩

def LogKey.id (hmac : Hmac) (key : LogKey) (value : Text) : Id := .fromBytes (hmac key.raw (utf8 value)).val

end Kallisto.Telemetry
