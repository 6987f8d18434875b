import Kallisto.Lib.IpAddr
import Kallisto.Lib.Runs
import Kallisto.Server.Request

/-!
The configuration file and the layers over it: what the file, the environment and the command
line say, each read into one `Overrides`. Deserialising the YAML is not in this repository and
stays a parameter.
-/
namespace Kallisto.Configuration
open Lib Kallisto.Server

def API_VERSION : Text := "kallisto/v1".toList
def KIND : Text := "Resolver".toList

structure Listen where
  address : Option IpAddr
  port : Option UInt16
  deriving DecidableEq

structure Refresh where
  intervalSeconds : Option UInt64
  deriving DecidableEq

structure Limits where
  requestsPerSecondPerWorker : Option UInt64
  burst : Option UInt64
  deriving DecidableEq

structure Log where
  queueCapacity : Option UInt64
  enabled : Option Bool
  deriving DecidableEq

inductive SourceSpec where
  | bucket (endpoint bucket objectKey region : Text) (pathStyle : Bool)
  | disk (path : Text)
  deriving DecidableEq

structure Spec where
  listen : Option Listen := none
  workers : Option UInt64 := none
  cpus : Option (List UInt64) := none
  mount : Option Text := none
  source : SourceSpec
  refresh : Option Refresh := none
  cacheDir : Option Text := none
  limits : Option Limits := none
  log : Option Log := none
  deriving DecidableEq

structure FileConfig where
  apiVersion : Text
  kind : Text
  spec : Spec
  deriving DecidableEq

/-- What a usage message is made of. -/
inductive Usage where
  | help
  | sealKey
  | unrecognised (argument : Text)
  | requiresValue (flag : Text)
  | expects (name expected raw : Text)
  deriving DecidableEq

inductive ConfigError where
  | usage (message : Usage)
  | malformed (path message : Text)
  | apiVersion (expected got : Text)
  | kind (expected got : Text)
  | notLoopback (address : IpAddr)
  | noWorkers
  deriving DecidableEq

def parseFile (fromStr : Text → Except Text FileConfig) (text path : Text) : Except ConfigError FileConfig :=
  match fromStr text with
  | .error message => .error (.malformed path message)
  | .ok file =>
      if file.apiVersion ≠ API_VERSION then .error (.apiVersion API_VERSION file.apiVersion)
      else if file.kind ≠ KIND then .error (.kind KIND file.kind)
      else .ok file

structure Overrides where
  configPath : Option Text := none
  address : Option IpAddr := none
  port : Option UInt16 := none
  workers : Option UInt64 := none
  cacheDir : Option Text := none
  refreshIntervalSeconds : Option UInt64 := none
  acceptRisk : Bool := false
  deriving DecidableEq

def Overrides.fromSpec (spec : Spec) : Overrides where
  address := spec.listen.bind Listen.address
  port := spec.listen.bind Listen.port
  workers := spec.workers
  cacheDir := spec.cacheDir
  refreshIntervalSeconds := spec.refresh.bind Refresh.intervalSeconds

/-- Later wins. -/
def Overrides.overlay (self other : Overrides) : Overrides where
  configPath := other.configPath.or self.configPath
  address := other.address.or self.address
  port := other.port.or self.port
  workers := other.workers.or self.workers
  cacheDir := other.cacheDir.or self.cacheDir
  refreshIntervalSeconds := other.refreshIntervalSeconds.or self.refreshIntervalSeconds
  acceptRisk := self.acceptRisk || other.acceptRisk

def parseU16 (text : Text) : Option UInt16 := do
  let n ← parseU64 text
  if n.toNat < 2 ^ 16 then some n.toUInt16 else none

def parseValue {α : Type} (fromStr : Text → Option α) (name raw expected : Text) : Except ConfigError α :=
  match fromStr raw with
  | some value => .ok value
  | none => .error (.usage (.expects name expected raw))

section Environment
variable (get : Text → Option Text)

/-- An empty value counts as unset. -/
def readEnv (var : Text) : Option Text := (get var).filter (· ≠ [])

def parseEnv {α : Type} (fromStr : Text → Option α) (var expected : Text) : Except ConfigError (Option α) :=
  match readEnv get var with
  | none => .ok none
  | some raw => (parseValue fromStr var raw expected).map some

def fromEnv : Except ConfigError Overrides := do
  let address ← parseEnv get IpAddr.fromStr "KALLISTO_LISTEN_ADDRESS".toList "an IP".toList
  let port ← parseEnv get parseU16 "KALLISTO_LISTEN_PORT".toList "a port".toList
  let workers ← parseEnv get parseU64 "KALLISTO_WORKERS".toList "a number".toList
  let refreshIntervalSeconds ←
    parseEnv get parseU64 "KALLISTO_REFRESH_INTERVAL_SECONDS".toList "a number".toList
  return {
    configPath := readEnv get "KALLISTO_CONFIG".toList
    address
    port
    workers
    cacheDir := readEnv get "KALLISTO_CACHE_DIR".toList
    refreshIntervalSeconds }

end Environment

/-- The flags that are applied. -/
inductive Flag where
  | config
  | listenAddress
  | listenPort
  | workers
  | cacheDir
  | refreshIntervalSeconds
  | iAcceptTheRisk
  deriving DecidableEq

namespace Flag

def all : List Flag :=
  [config, listenAddress, listenPort, workers, cacheDir, refreshIntervalSeconds, iAcceptTheRisk]

def spelling : Flag → Text
  | config => "--config".toList
  | listenAddress => "--listen-address".toList
  | listenPort => "--listen-port".toList
  | workers => "--workers".toList
  | cacheDir => "--cache-dir".toList
  | refreshIntervalSeconds => "--refresh-interval-seconds".toList
  | iAcceptTheRisk => "--i-accept-the-risk".toList

def ofText (text : Text) : Option Flag := all.find? (·.spelling = text)

/-- Whether the flag asks for its value. -/
def takesValue (flag : Flag) : Bool := flag ≠ iAcceptTheRisk

end Flag

def refusal (flag : Text) : ConfigError :=
  if flag = "-h".toList ∨ flag = "--help".toList then .usage .help
  else if flag = "--seal-key".toList then .usage .sealKey
  else .usage (.unrecognised flag)

/-- `value` is what the closure would return; a flag that does not take one leaves it alone. -/
def applyFlag (out : Overrides) (flag : Text) (value : Except ConfigError Text) : Except ConfigError Overrides :=
  match Flag.ofText flag with
  | some .config => do
      let path ← value
      return { out with configPath := some path }
  | some .listenAddress => do
      let address ← parseValue IpAddr.fromStr flag (← value) "an IP".toList
      return { out with address := some address }
  | some .listenPort => do
      let port ← parseValue parseU16 flag (← value) "a port".toList
      return { out with port := some port }
  | some .workers => do
      let workers ← parseValue parseU64 flag (← value) "a number".toList
      return { out with workers := some workers }
  | some .cacheDir => do
      let dir ← value
      return { out with cacheDir := some dir }
  | some .refreshIntervalSeconds => do
      let seconds ← parseValue parseU64 flag (← value) "a number".toList
      return { out with refreshIntervalSeconds := some seconds }
  | some .iAcceptTheRisk => .ok { out with acceptRisk := true }
  | none => .error (refusal flag)

def splitOnce (c : Char) (s : Text) : Option (Text × Text) :=
  match s.dropWhile (· != c) with
  | [] => none
  | _ :: rest => some (s.takeWhile (· != c), rest)

theorem splitOnce_append {c : Char} {before : Text} (h : c ∉ before) (after : Text) :
    splitOnce c (before ++ c :: after) = some (before, after) := by
  have hstop : ∀ x ∈ before, (x != c) = true := by
    intro x hx
    exact bne_iff_ne.mpr (ne_of_mem_of_not_mem hx h)
  rw [splitOnce, List.dropWhile_append_of_pos hstop, List.takeWhile_append_of_pos hstop]
  simp

theorem splitOnce_of_not_mem {c : Char} {s : Text} (h : c ∉ s) : splitOnce c s = none := by
  have hdrop : s.dropWhile (· != c) = [] := by
    rw [List.dropWhile_eq_nil_iff]
    intro x hx
    exact bne_iff_ne.mpr (ne_of_mem_of_not_mem hx h)
  rw [splitOnce, hdrop]

/-- The flag of an argument, and the value attached to it. -/
def splitArg (arg : Text) : Text × Option Text :=
  match splitOnce '=' arg with
  | some (flag, value) => (flag, some value)
  | none => (arg, none)

/-- `value`, once the attached text and the next argument have been looked at. -/
def valueOf (flag : Text) : Option Text → Except ConfigError Text
  | some value => .ok value
  | none => .error (.usage (.requiresValue flag))

/-- Whether applying the flag takes the next argument away. -/
def takesNext (flag : Text) (inline : Option Text) : Bool := inline.isNone && (Flag.ofText flag).any Flag.takesValue

def parseArgsFrom (out : Overrides) : List Text → Except ConfigError Overrides
  | [] => .ok out
  | arg :: args => do
      let (flag, inline) := splitArg arg
      let out ← applyFlag out flag (valueOf flag (inline.or args.head?))
      if takesNext flag inline then
        match args with
        | [] => .ok out
        | _ :: rest => parseArgsFrom out rest
      else parseArgsFrom out args

def parseArgs (args : List Text) : Except ConfigError Overrides := parseArgsFrom {} args

/-- A command line as the flags it is read as, in order, each with the value it is offered. -/
def flagsOf : List Text → List (Text × Option Text)
  | [] => []
  | arg :: args =>
      let (flag, inline) := splitArg arg
      (flag, inline.or args.head?) ::
        if takesNext flag inline then
          match args with
          | [] => []
          | _ :: rest => flagsOf rest
        else flagsOf args

def applyGiven (out : Overrides) (given : Text × Option Text) : Except ConfigError Overrides :=
  applyFlag out given.1 (valueOf given.1 given.2)

theorem parseArgsFrom_eq (out : Overrides) (args : List Text) :
    parseArgsFrom out args = (flagsOf args).foldlM applyGiven out := by
  induction args using flagsOf.induct generalizing out with
  | case1 => rfl
  | case2 arg args flag inline harg ihrest ih =>
      rw [parseArgsFrom, flagsOf.eq_def]
      simp only [harg, List.foldlM_cons, applyGiven]
      congr 1
      funext out
      split_ifs
      · cases args with
        | nil => rfl
        | cons next rest => exact ihrest out
      · exact ih out

theorem Flag.ofText_eq_some {text : Text} {flag : Flag} : Flag.ofText text = some flag ↔ text = flag.spelling := by
  constructor
  · intro h
    unfold Flag.ofText at h
    have hfound := List.find?_some h
    exact (of_decide_eq_true hfound).symm
  · rintro rfl
    cases flag <;> decide

/-- What a flag that is applied does. -/
inductive Applied (out : Overrides) : Flag → Option Text → Overrides → Prop where
  | config (path : Text) : Applied out .config (some path) { out with configPath := some path }
  | listenAddress {raw : Text} {address : IpAddr} (parses : IpAddr.fromStr raw = some address) :
      Applied out .listenAddress (some raw) { out with address := some address }
  | listenPort {raw : Text} {port : UInt16} (parses : parseU16 raw = some port) :
      Applied out .listenPort (some raw) { out with port := some port }
  | workers {raw : Text} {count : UInt64} (parses : parseU64 raw = some count) :
      Applied out .workers (some raw) { out with workers := some count }
  | cacheDir (dir : Text) : Applied out .cacheDir (some dir) { out with cacheDir := some dir }
  | refreshIntervalSeconds {raw : Text} {seconds : UInt64} (parses : parseU64 raw = some seconds) :
      Applied out .refreshIntervalSeconds (some raw) { out with refreshIntervalSeconds := some seconds }
  | iAcceptTheRisk (value : Option Text) : Applied out .iAcceptTheRisk value { out with acceptRisk := true }

theorem parseValue_ok {α : Type} {fromStr : Text → Option α} {name raw expected : Text} {value : α}
    (h : parseValue fromStr name raw expected = .ok value) : fromStr raw = some value := by
  unfold parseValue at h
  split at h
  · rename_i parsed hparsed
    cases h
    exact hparsed
  · cases h

theorem valueOf_ok {flag raw : Text} {value : Option Text} (h : valueOf flag value = .ok raw) : value = some raw := by
  cases value with
  | none => cases h
  | some given =>
      cases h
      rfl

theorem applied_of_ok {out out' : Overrides} {given : Text × Option Text} (h : applyGiven out given = .ok out') :
    ∃ flag : Flag, given.1 = flag.spelling ∧ Applied out flag given.2 out' := by
  unfold applyGiven applyFlag at h
  cases hflag : Flag.ofText given.1 with
  | none =>
      rw [hflag] at h
      cases h
  | some flag =>
      rw [hflag] at h
      refine ⟨flag, Flag.ofText_eq_some.mp hflag, ?_⟩
      cases flag with
      | iAcceptTheRisk =>
          cases h
          exact .iAcceptTheRisk _
      | config | cacheDir =>
          obtain ⟨path, hvalue, h⟩ := bind_ok h
          cases h
          rw [valueOf_ok hvalue]
          constructor
      | _ =>
          obtain ⟨raw, hvalue, h⟩ := bind_ok h
          obtain ⟨value, hparsed, h⟩ := bind_ok h
          cases h
          rw [valueOf_ok hvalue]
          constructor
          exact parseValue_ok hparsed

end Kallisto.Configuration
