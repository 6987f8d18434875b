import Kallisto.Crypto.Hex
import Kallisto.Crypto.Value
import Kallisto.Lib.Runs
import Kallisto.Server.Request

/-!
The two commands of `kallisto-ctl` that write a sealed file. The file they write to is a state;
what the machine does around them (environment, random numbers, the outcome of each system
call) is given with every run.
-/
namespace Kallisto.Ctl
open Lib Kallisto.Crypto

/-- The values of the flags that take one, and the bare flags. -/
structure Args where
  values : SortedMap Text Text
  flags : List Text

inductive Failure where
  | unrecognised (flag : Text)
  | required (flag : Text)
  | notANumber (flag raw : Text)
  | keyUnset
  | keyUnusable (e : HexError)
  | cannotRead
  | notPlaintext
  | alreadyHolds (held version : UInt64)
  | tokensWithoutKey (tokens : Nat)
  | wouldGoBackwards (held asked : UInt64)
  | notAuthentic (e : SealError)
  | notReadable (e : SealError)
  | cannotSeal (e : SealError)
  | cannotWrite
  deriving DecidableEq, Repr

/-- A command ends early with a message, or because the process panics. -/
inductive Stop where
  | failed (failure : Failure)
  | panicked
  deriving DecidableEq, Repr

def fail {α : Type} (failure : Failure) : Except Stop α := .error (.failed failure)

def orFail {α : Type} (failure : Failure) : Option α → Except Stop α
  | some a => .ok a
  | none => fail failure

/-- `map_err` of a `SealError`. -/
def describing {α : Type} (failure : SealError → Failure) : Except SealError α → Except Stop α
  | .ok a => .ok a
  | .error e => fail (failure e)

namespace Args

def value (args : Args) (flag : Text) : Option Text := args.values.get flag

def required (args : Args) (flag : Text) : Except Stop Text := orFail (.required flag) (args.value flag)

def number (args : Args) (flag : Text) : Except Stop (Option UInt64) :=
  match args.value flag with
  | none => .ok none
  | some raw => (orFail (.notANumber flag raw) (Server.parseU64 raw)).map some

def has (args : Args) (flag : Text) : Bool := args.flags.any (· = flag)

def rejectUnknown (args : Args) (known : List Text) : Except Stop Unit :=
  match (args.flags ++ args.values.keys).find? fun flag => flag ∉ known with
  | some flag => fail (.unrecognised flag)
  | none => .ok ()

end Args

/-- serde_json and the cipher, as the tool uses them. -/
structure Toolbox (V : Type) where
  aead : Aead
  fromStr : Text → Option (Contents V)
  valueFromStr : Text → Option V
  null : V
  toVec : Contents V → Option Bytes
  fromSlice : Bytes → Option View

/-- The tool over `serde_json::Value`. -/
def offline {F : Type} (A : Aead) (D : Doubles F) (S : SerdeJson (Number F)) : Toolbox (Json (Number F)) :=
  ⟨A, contentsFromStr D, valueFromStr D, .null, S.toVec, S.fromSlice⟩

/-- The first of the four steps of an atomic write that fails, and what a short write leaves. -/
inductive Fault where
  | create
  | write (left : Bytes)
  | sync
  | rename
  deriving DecidableEq, Repr

/-- What one run of the tool meets: the seal key in the environment, the text of the plaintext
file if it could be read, whether the sealed file can be read, the nonce, the write. -/
structure Machine where
  key : Option Text
  input : Option Text
  readable : Bool
  nonce : Option Nonce
  fault : Option Fault
  removed : Bool
  deriving DecidableEq, Repr

/-- The sealed file and the temporary file beside it, where they exist. -/
structure Target where
  file : Option Bytes
  temporary : Option Bytes
  deriving DecidableEq, Repr

def sealKey (m : Machine) : Except Stop SealKey :=
  match m.key with
  | none => fail .keyUnset
  | some hex =>
      match decodeArray KEY_LEN hex with
      | .ok key => .ok key
      | .error e => fail (.keyUnusable e)

/-- `fs::read` of the target. -/
def Target.read (t : Target) (m : Machine) : Option Bytes := if m.readable then t.file else none

def writeAtomically (m : Machine) (t : Target) (bytes : Bytes) : Target × Except Stop Unit :=
  match m.fault with
  | none => (⟨some bytes, none⟩, .ok ())
  | some fault =>
      let left := match fault with
        | .create => t.temporary
        | .write left => some left
        | .sync | .rename => some bytes
      ({ t with temporary := if m.removed then none else left }, fail .cannotWrite)

/-- A line on the error log: a token's first octets, and a policy the file does not define. -/
structure Warning where
  token : Text
  policy : Text
  deriving DecidableEq, Repr

/-- `&name[..name.len().min(8)]`; `none` where that is not a character boundary. -/
def shown (name : Text) : Option Text :=
  (textFrom name (min (utf8 name).length 8)).map fun rest => name.take (name.length - rest.length)

def warningsOf (policies : SortedMap Text (List PolicyRule)) (name : Text) : List Text → Except Stop (List Warning)
  | [] => .ok []
  | policy :: rest =>
      if (policies.get policy).isSome then warningsOf policies name rest
      else
        match shown name with
        | none => .error .panicked
        | some token => do return ⟨token, policy⟩ :: (← warningsOf policies name rest)

def tokenWarnings (policies : SortedMap Text (List PolicyRule)) :
    List (Text × List Text) → Except Stop (List Warning)
  | [] => .ok []
  | (name, names) :: rows => do return (← warningsOf policies name names) ++ (← tokenWarnings policies rows)

def validateTokenTable {V : Type} (contents : Contents V) : Except Stop (List Warning) :=
  if contents.tokens.entries ≠ [] ∧ contents.tokenKey = none then
    fail (.tokensWithoutKey contents.tokens.entries.length)
  else tokenWarnings contents.policies contents.tokens.entries

section Commands
variable {V : Type} (T : Toolbox V) (m : Machine) (args : Args)

def parsePlaintext (text : Text) : Except Stop (Contents V) := orFail .notPlaintext (T.fromStr text)

def sealWith (contents : Contents V) (key : SealKey) : Except Stop Bytes :=
  describing .cannotSeal (sealContents T.aead T.toVec m.nonce contents key)

/-- The version the target holds, where that would refuse the new file. -/
def newerHeld (t : Target) (version : UInt64) : Option UInt64 := do
  let existing ← t.read m
  let held ← (peek existing).toOption
  if version ≤ held then some held else none

def refuseRollback (t : Target) (version : UInt64) : Except Stop Unit :=
  match newerHeld m t version with
  | some held => if args.has "--force".toList then .ok () else fail (.alreadyHolds held version)
  | none => .ok ()

/-- `run_seal` up to the write. -/
def sealedBytes (t : Target) : Except Stop Bytes := do
  args.rejectUnknown ["--in".toList, "--out".toList, "--version".toList, "--force".toList]
  let _ ← args.required "--in".toList
  let _ ← args.required "--out".toList
  let key ← sealKey m
  let text ← orFail .cannotRead m.input
  let plain ← parsePlaintext T text
  let asked ← args.number "--version".toList
  let contents := { plain with version := asked.getD plain.version }
  refuseRollback m args t contents.version
  let _ ← validateTokenTable contents
  sealWith T m contents key

def owned (view : View) : Contents V :=
  ⟨view.version, view.secrets.mapValues fun raw => (T.valueFromStr raw).getD T.null, view.policies, view.tokens,
    view.tokenKey⟩

/-- `held + 1` in a release build wraps. -/
def nextVersion (held : UInt64) : Option UInt64 → Except Stop UInt64
  | some asked => if asked ≤ held then fail (.wouldGoBackwards held asked) else .ok asked
  | none => .ok (held + 1)

/-- `run_bump_version` up to the write. -/
def bumpedBytes (t : Target) : Except Stop Bytes := do
  args.rejectUnknown ["--in".toList, "--to".toList]
  let _ ← args.required "--in".toList
  let bytes ← orFail .cannotRead (t.read m)
  let key ← sealKey m
  let opened ← describing .notAuthentic (openSealed T.aead T.fromSlice bytes key none)
  let asked ← args.number "--to".toList
  let next ← nextVersion opened.contentVersion asked
  let view ← describing .notReadable (opened.view T.fromSlice)
  sealWith T m { owned T view with version := next } key

def writing (t : Target) : Except Stop Bytes → Target × Except Stop Unit
  | .ok bytes => writeAtomically m t bytes
  | .error stop => (t, .error stop)

/-- The line printed once the file is in place is left out: stdout is taken as writable. -/
def runSeal (t : Target) : Target × Except Stop Unit := writing m t (sealedBytes T m args t)

/-- Stdout is taken as writable, as for `runSeal`. -/
def runBumpVersion (t : Target) : Target × Except Stop Unit := writing m t (bumpedBytes T m args t)

end Commands

end Kallisto.Ctl
