import Kallisto.Configuration.Overrides
import Kallisto.Lib.U64
import Kallisto.Queue.SlotProtocol

/-!
`Config::resolve`: the three layers merged over the defaults, and whether what comes out can be
started. Of the merged values only the address and the number of workers are looked at.
-/
namespace Kallisto.Configuration
open Lib Kallisto.Server

def DEFAULT_PORT : UInt16 := 8200
def DEFAULT_WORKERS : UInt64 := 2
def DEFAULT_MOUNT : Text := "secret".toList
def DEFAULT_RPS : UInt64 := 20000
def DEFAULT_LOG_QUEUE : UInt64 := 8192
def DEFAULT_ADDRESS : IpAddr := .v4 127 0 0 1
def CACHE_FILE_NAME : Text := "secrets.kal".toList
/-- In seconds. -/
def DEFAULT_INTERVAL : UInt64 := 30

structure SocketAddr where
  ip : IpAddr
  port : UInt16
  deriving DecidableEq

structure ResolvedLog where
  queueCapacity : UInt64
  enabled : Bool
  deriving DecidableEq

structure ResolvedLimits where
  requestsPerSecond : UInt64
  burst : UInt64
  deriving DecidableEq

structure Config where
  listen : SocketAddr
  workers : UInt64
  cpus : Option (List UInt64)
  mount : Text
  source : SourceSpec
  refreshInterval : UInt64
  cachePath : Option Text
  limits : ResolvedLimits
  log : ResolvedLog
  deriving DecidableEq

def bindAddress (merged : Overrides) : Except ConfigError IpAddr :=
  let address := merged.address.getD DEFAULT_ADDRESS
  if !address.isLoopback ∧ !merged.acceptRisk then .error (.notLoopback address) else .ok address

def workerCount (merged : Overrides) : Except ConfigError UInt64 :=
  let workers := merged.workers.getD DEFAULT_WORKERS
  if workers = 0 then .error .noWorkers else .ok workers

def refreshInterval (merged : Overrides) : UInt64 := merged.refreshIntervalSeconds.getD DEFAULT_INTERVAL

def ResolvedLimits.fromSpec (limits : Option Limits) : ResolvedLimits :=
  let rps := (limits.bind Limits.requestsPerSecondPerWorker).getD DEFAULT_RPS
  ⟨rps, (limits.bind Limits.burst).getD rps⟩

def ResolvedLog.fromSpec (log : Option Log) : ResolvedLog where
  queueCapacity := max ((log.bind Log.queueCapacity).getD DEFAULT_LOG_QUEUE) 2
  enabled := (log.bind Log.enabled).getD true

/-- `Path::join` with a relative name. -/
def join (dir name : Text) : Text := if dir = [] ∨ dir.getLast? = some '/' then dir ++ name else dir ++ '/' :: name

def merge (spec : Spec) (env cli : Overrides) : Overrides := ((Overrides.fromSpec spec).overlay env).overlay cli

def resolve (file : FileConfig) (env cli : Overrides) : Except ConfigError Config := do
  let spec := file.spec
  let merged := merge spec env cli
  let ip ← bindAddress merged
  let workers ← workerCount merged
  return {
    listen := ⟨ip, merged.port.getD DEFAULT_PORT⟩
    workers
    cpus := spec.cpus
    mount := spec.mount.getD DEFAULT_MOUNT
    source := spec.source
    refreshInterval := refreshInterval merged
    cachePath := merged.cacheDir.map (join · CACHE_FILE_NAME)
    limits := ResolvedLimits.fromSpec spec.limits
    log := ResolvedLog.fromSpec spec.log }

/-- `next_power_of_two` wraps to zero where there is none. -/
def nextPowerOfTwo (n : UInt64) : UInt64 := .ofNat n.toNat.nextPowerOfTwo

/-- The capacity `AccessLog::with_enabled` gives its queue. -/
def logCapacity (capacity : UInt64) : UInt64 := max (nextPowerOfTwo capacity) 2

theorem logCapacity_powerOfTwo (capacity : UInt64) : ∃ k, (logCapacity capacity).toNat = 2 ^ (k + 1) := by
  obtain ⟨k, hk⟩ := Nat.isPowerOfTwo_nextPowerOfTwo capacity.toNat
  have hmax : (max (UInt64.ofNat (2 ^ k)) 2).toNat = max (UInt64.ofNat (2 ^ k)).toNat 2 := U64.toNat_max _ 2
  rw [logCapacity, nextPowerOfTwo, hk, hmax, UInt64.toNat_ofNat']
  rcases Nat.lt_or_ge k 64 with hlt | hge
  · rw [Nat.mod_eq_of_lt (Nat.pow_lt_pow_right (by decide) hlt)]
    cases k with
    | zero => exact ⟨0, rfl⟩
    | succ k => exact ⟨k, max_eq_left (Nat.le_self_pow (Nat.succ_ne_zero k) 2)⟩
  · rw [Nat.mod_eq_zero_of_dvd (Nat.pow_dvd_pow 2 hge)]
    exact ⟨0, rfl⟩

/-- The queue of a log that was configured. -/
def ResolvedLog.capacity (log : ResolvedLog) : Queue.Capacity :=
  ⟨(logCapacity log.queueCapacity).toNat, logCapacity_powerOfTwo log.queueCapacity⟩

/-- What is started from a configuration asks for this much: a clock that can tick, somebody to
serve, a queue that can be built, and a mount that requests can name. -/
structure CanRun (config : Config) : Prop where
  interval : config.refreshInterval ≠ 0
  workers : 1 ≤ config.workers
  capacity : ∃ k, (logCapacity config.log.queueCapacity).toNat = 2 ^ (k + 1)
  segment : config.mount ≠ [] ∧ '/' ∉ config.mount
  addressable : ∀ p ≠ [], extractMountAndPath (V1 ++ config.mount ++ "/data/".toList ++ p) "data".toList =
    some (config.mount, p)

section Given
variable (spec : Spec) (get : Text → Option Text) (args : List Text)

/-- The interval a flag gives. -/
def intervalOf (given : Text × Option Text) : Option UInt64 :=
  if given.1 = Flag.spelling .refreshIntervalSeconds then given.2.bind parseU64 else none

/-- The interval asked for: by the last flag that gives one, else by the environment, else by the file. -/
def intervalGiven : Option UInt64 :=
  ((flagsOf args).filterMap intervalOf).getLast?.or
    (((readEnv get "KALLISTO_REFRESH_INTERVAL_SECONDS".toList).bind parseU64).or
      (spec.refresh.bind Refresh.intervalSeconds))

end Given

theorem applyGiven_interval {out out' : Overrides} {given : Text × Option Text} (h : applyGiven out given = .ok out') :
    out'.refreshIntervalSeconds = (intervalOf given).or out.refreshIntervalSeconds := by
  obtain ⟨name, value⟩ := given
  obtain ⟨flag, rfl, happlied⟩ := applied_of_ok h
  cases happlied with
  | refreshIntervalSeconds parses => simp only [intervalOf, if_true, Option.bind_some, parses, Option.some_or]
  | _ => rfl

theorem parseArgs_interval {args : List Text} {cli : Overrides} (h : parseArgs args = .ok cli) :
    cli.refreshIntervalSeconds = ((flagsOf args).filterMap intervalOf).getLast? := by
  unfold parseArgs at h
  rw [parseArgsFrom_eq] at h
  have hstep : ∀ out given out', applyGiven out given = .ok out' →
      out'.refreshIntervalSeconds = (intervalOf given).or out.refreshIntervalSeconds :=
    fun _ _ _ => applyGiven_interval
  rw [foldlM_last hstep h, Option.or_none]

theorem parseEnv_ok {α : Type} {get : Text → Option Text} {fromStr : Text → Option α} {var expected : Text}
    {value : Option α} (h : parseEnv get fromStr var expected = .ok value) :
    value = (readEnv get var).bind fromStr := by
  unfold parseEnv at h
  cases hread : readEnv get var with
  | none =>
      rw [hread] at h
      cases h
      rfl
  | some raw =>
      simp only [hread] at h
      cases hparsed : parseValue fromStr var raw expected with
      | error e =>
          rw [hparsed] at h
          cases h
      | ok parsed =>
          rw [hparsed] at h
          cases h
          exact (parseValue_ok hparsed).symm

theorem fromEnv_interval {get : Text → Option Text} {env : Overrides} (h : fromEnv get = .ok env) :
    env.refreshIntervalSeconds = (readEnv get "KALLISTO_REFRESH_INTERVAL_SECONDS".toList).bind parseU64 := by
  unfold fromEnv at h
  obtain ⟨address, haddress, h⟩ := bind_ok h
  obtain ⟨port, hport, h⟩ := bind_ok h
  obtain ⟨workers, hworkers, h⟩ := bind_ok h
  obtain ⟨seconds, hseconds, h⟩ := bind_ok h
  cases h
  exact parseEnv_ok hseconds

theorem addressable_iff (mount : Text) :
    (∀ p ≠ [], extractMountAndPath (V1 ++ mount ++ "/data/".toList ++ p) "data".toList = some (mount, p)) ↔
      '/' ∉ mount := by
  have hextract : ∀ p, extractMountAndPath (V1 ++ mount ++ "/data/".toList ++ p) "data".toList = some (mount, p) ↔
      '/' ∉ mount := by
    intro p
    rw [extract_eq_some (by decide)]
    simp [List.append_assoc]
  constructor
  · intro h
    exact (hextract ['a']).mp (h ['a'] (by decide))
  · intro h p _
    exact (hextract p).mpr h

theorem resolve_ok {file : FileConfig} {env cli : Overrides} {config : Config}
    (h : resolve file env cli = .ok config) :
    config.workers ≠ 0 ∧ config.mount = file.spec.mount.getD DEFAULT_MOUNT ∧
      config.refreshInterval = refreshInterval (merge file.spec env cli) := by
  unfold resolve at h
  obtain ⟨ip, -, h⟩ := bind_ok h
  obtain ⟨workers, hworkers, h⟩ := bind_ok h
  cases h
  refine ⟨?_, rfl, rfl⟩
  unfold workerCount at hworkers
  dsimp only at hworkers
  split_ifs at hworkers with hzero
  cases hworkers
  exact hzero

/-- A configuration that was accepted can be started exactly when the interval asked for is not
zero and the mount, where one is given, is a segment of a path. -/
theorem accepted_runs_iff (fromStr : Text → Except Text FileConfig) (text path : Text) (get : Text → Option Text)
    (args : List Text) {file : FileConfig} {env cli : Overrides} {config : Config}
    (_hfile : parseFile fromStr text path = .ok file) (henv : fromEnv get = .ok env) (hcli : parseArgs args = .ok cli)
    (hconfig : resolve file env cli = .ok config) :
    CanRun config ↔ intervalGiven file.spec get args ≠ some 0 ∧
      ∀ mount, file.spec.mount = some mount → mount ≠ [] ∧ '/' ∉ mount := by
  obtain ⟨hworkers, hmount, hinterval⟩ := resolve_ok hconfig
  have hmerged : (merge file.spec env cli).refreshIntervalSeconds = intervalGiven file.spec get args := by
    change cli.refreshIntervalSeconds.or (env.refreshIntervalSeconds.or _) = _
    rw [parseArgs_interval hcli, fromEnv_interval henv]
    rfl
  have hzero : config.refreshInterval ≠ 0 ↔ intervalGiven file.spec get args ≠ some 0 := by
    rw [hinterval, refreshInterval, hmerged]
    cases intervalGiven file.spec get args with
    | none => decide
    | some seconds => simp
  have hsegment : (config.mount ≠ [] ∧ '/' ∉ config.mount) ↔
      ∀ mount, file.spec.mount = some mount → mount ≠ [] ∧ '/' ∉ mount := by
    rw [hmount]
    cases file.spec.mount with
    | none => decide
    | some mount => simp
  constructor
  · intro h
    exact ⟨hzero.mp h.interval, hsegment.mp h.segment⟩
  · rintro ⟨hgiven, hgivenMount⟩
    have hpart := hsegment.mpr hgivenMount
    refine ⟨hzero.mpr hgiven, ?_, logCapacity_powerOfTwo _, hpart, (addressable_iff _).mpr hpart.2⟩
    exact UInt64.pos_iff_ne_zero.mpr hworkers

/-- The shortest file there is: a source and nothing else. -/
def minimal : FileConfig := ⟨API_VERSION, KIND, { source := .disk "/var/lib/kallisto/secrets.kal".toList }⟩

def minimalText : Text :=
  ("apiVersion: kallisto/v1\nkind: Resolver\nspec:\n  source:\n    type: disk\n" ++
    "    path: /var/lib/kallisto/secrets.kal\n").toList

/-- What the YAML parser makes of that text. -/
def minimalYaml (text : Text) : Except Text FileConfig := if text = minimalText then .ok minimal else .error []

def minimalConfig (seconds : UInt64) : Config where
  listen := ⟨DEFAULT_ADDRESS, DEFAULT_PORT⟩
  workers := DEFAULT_WORKERS
  cpus := none
  mount := DEFAULT_MOUNT
  source := minimal.spec.source
  refreshInterval := seconds
  cachePath := none
  limits := ⟨DEFAULT_RPS, DEFAULT_RPS⟩
  log := ⟨DEFAULT_LOG_QUEUE, true⟩

theorem minimal_parses : parseFile minimalYaml minimalText [] = .ok minimal := by decide +kernel

theorem unset_env : fromEnv (fun _ => none) = .ok {} := rfl

theorem minimal_resolves (seconds : UInt64) :
    resolve minimal {} { refreshIntervalSeconds := some seconds } = .ok (minimalConfig seconds) := rfl

theorem accepted_runs_iff_sample :
    parseArgs ["--refresh-interval-seconds".toList, "5".toList] = .ok { refreshIntervalSeconds := some 5 } ∧
    CanRun (minimalConfig 5) := by
  have hargs : parseArgs ["--refresh-interval-seconds".toList, "5".toList] =
      .ok { refreshIntervalSeconds := some 5 } := by decide +kernel
  have hgiven : intervalGiven minimal.spec (fun _ => none) ["--refresh-interval-seconds".toList, "5".toList] ≠
      some 0 := by decide +kernel
  have hmount : ∀ mount, minimal.spec.mount = some mount → mount ≠ [] ∧ '/' ∉ mount := by
    intro mount h
    cases h
  exact ⟨hargs, (accepted_runs_iff minimalYaml minimalText [] (fun _ => none) _ minimal_parses unset_env hargs
    (minimal_resolves 5)).mpr ⟨hgiven, hmount⟩⟩

/-- A clock that cannot tick is accepted. -/
theorem zero_interval_accepted : ∃ file env cli config, parseFile minimalYaml minimalText [] = .ok file ∧
    fromEnv (fun _ => none) = .ok env ∧ parseArgs ["--refresh-interval-seconds=0".toList] = .ok cli ∧
    resolve file env cli = .ok config ∧ ¬ CanRun config := by
  have hargs : parseArgs ["--refresh-interval-seconds=0".toList] = .ok { refreshIntervalSeconds := some 0 } := by
    decide +kernel
  refine ⟨minimal, {}, _, minimalConfig 0, minimal_parses, unset_env, hargs, minimal_resolves 0, ?_⟩
  intro h
  exact h.interval rfl

end Kallisto.Configuration
