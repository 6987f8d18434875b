import Kallisto.Configuration.Resolve
import Kallisto.Lib.Split

/-!
The address the listener binds. An address that is not loopback asks for a flag on the command
line; which arguments count as that flag is decided by the parser, argument by argument.
-/
namespace Kallisto.Configuration
open Lib Kallisto.Server

def RISK : Text := Flag.spelling .iAcceptTheRisk

/-- The arguments in flag position, as they are written: those no flag takes for its value. -/
def flagArguments : List Text → List Text
  | [] => []
  | arg :: args =>
      let (flag, inline) := splitArg arg
      arg :: if takesNext flag inline then
          match args with
          | [] => []
          | _ :: rest => flagArguments rest
        else flagArguments args

theorem flagArguments_names (args : List Text) :
    (flagArguments args).map (fun arg => (splitArg arg).1) = (flagsOf args).map Prod.fst := by
  induction args using flagsOf.induct with
  | case1 => rfl
  | case2 arg args flag inline harg ihrest ih =>
      rw [flagArguments.eq_def, flagsOf.eq_def]
      simp only [harg, List.map_cons]
      congr 1
      split_ifs
      · cases args with
        | nil => rfl
        | cons next rest => exact ihrest
      · exact ih

/-- The flag by itself, or with a value attached that nobody looks at. -/
theorem splitArg_flag {flag arg : Text} (h : '=' ∉ flag) :
    (splitArg arg).1 = flag ↔ arg = flag ∨ flag ++ ['='] <+: arg := by
  unfold splitArg splitOnce
  rcases first_sep '=' arg with ⟨hfree, hd⟩ | ⟨rest, hd, hcut⟩
  · rw [hd]
    constructor
    · exact .inl
    · rintro (heq | ⟨rest, rfl⟩)
      · exact heq
      · exact absurd (by simp) hfree
  · rw [hd]
    constructor
    · rintro rfl
      refine .inr ⟨rest, ?_⟩
      rw [List.append_assoc]
      exact hcut.symm
    · rintro (rfl | ⟨more, hmore⟩)
      · exact absurd (hcut ▸ by simp) h
      · rw [← hmore, List.append_assoc, List.takeWhile_append_of_pos]
        · simp
        · intro x hx
          simpa using ne_of_mem_of_not_mem hx h

section Given
variable (spec : Spec) (get : Text → Option Text) (args : List Text)

/-- The address a flag gives. -/
def addressOf (given : Text × Option Text) : Option IpAddr :=
  if given.1 = Flag.spelling .listenAddress then given.2.bind IpAddr.fromStr else none

/-- The address asked for: by the last flag that gives one, else by the environment, else by the
file, else the default. -/
def addressGiven : IpAddr :=
  (((flagsOf args).filterMap addressOf).getLast?.or
    (((readEnv get "KALLISTO_LISTEN_ADDRESS".toList).bind IpAddr.fromStr).or
      (spec.listen.bind Listen.address))).getD DEFAULT_ADDRESS

end Given

theorem applyGiven_address {out out' : Overrides} {given : Text × Option Text} (h : applyGiven out given = .ok out') :
    out'.address = (addressOf given).or out.address := by
  obtain ⟨name, value⟩ := given
  obtain ⟨flag, rfl, happlied⟩ := applied_of_ok h
  cases happlied with
  | listenAddress parses => simp only [addressOf, if_true, Option.bind_some, parses, Option.some_or]
  | _ => rfl

theorem applyGiven_risk {out out' : Overrides} {given : Text × Option Text} (h : applyGiven out given = .ok out') :
    out'.acceptRisk = (decide (given.1 = RISK) || out.acceptRisk) := by
  obtain ⟨name, value⟩ := given
  obtain ⟨flag, rfl, happlied⟩ := applied_of_ok h
  cases happlied <;> rfl

theorem parseArgs_address {args : List Text} {cli : Overrides} (h : parseArgs args = .ok cli) :
    cli.address = ((flagsOf args).filterMap addressOf).getLast? := by
  unfold parseArgs at h
  rw [parseArgsFrom_eq] at h
  have hstep : ∀ out given out', applyGiven out given = .ok out' → out'.address = (addressOf given).or out.address :=
    fun _ _ _ => applyGiven_address
  rw [foldlM_last hstep h, Option.or_none]

theorem foldlM_risk {given : List (Text × Option Text)} {out cli : Overrides}
    (h : given.foldlM applyGiven out = .ok cli) :
    cli.acceptRisk = true ↔ out.acceptRisk = true ∨ ∃ g ∈ given, g.1 = RISK := by
  induction given generalizing out with
  | nil =>
      cases h
      simp
  | cons g given ih =>
      rw [List.foldlM_cons] at h
      obtain ⟨next, hnext, hrest⟩ := bind_ok h
      rw [ih hrest, applyGiven_risk hnext, Bool.or_eq_true, decide_eq_true_eq]
      simp only [List.mem_cons, exists_eq_or_imp]
      tauto

/-- Only the flag sets it, by itself or with a value attached. -/
theorem parseArgs_risk {args : List Text} {cli : Overrides} (h : parseArgs args = .ok cli) :
    cli.acceptRisk = true ↔ ∃ arg ∈ flagArguments args, arg = RISK ∨ RISK ++ ['='] <+: arg := by
  unfold parseArgs at h
  rw [parseArgsFrom_eq] at h
  have hnames : (∃ g ∈ flagsOf args, g.1 = RISK) ↔ ∃ arg ∈ flagArguments args, (splitArg arg).1 = RISK := by
    rw [← List.mem_map, ← flagArguments_names, List.mem_map]
  simp only [foldlM_risk h, Bool.false_eq_true, false_or, hnames, splitArg_flag (by decide : '=' ∉ RISK)]

theorem fromEnv_listener {get : Text → Option Text} {env : Overrides} (h : fromEnv get = .ok env) :
    env.address = (readEnv get "KALLISTO_LISTEN_ADDRESS".toList).bind IpAddr.fromStr ∧ env.acceptRisk = false := by
  unfold fromEnv at h
  obtain ⟨address, haddress, h⟩ := bind_ok h
  obtain ⟨port, hport, h⟩ := bind_ok h
  obtain ⟨workers, hworkers, h⟩ := bind_ok h
  obtain ⟨seconds, hseconds, h⟩ := bind_ok h
  cases h
  exact ⟨parseEnv_ok haddress, rfl⟩

theorem resolve_listen {file : FileConfig} {env cli : Overrides} {config : Config}
    (h : resolve file env cli = .ok config) :
    config.listen.ip = (merge file.spec env cli).address.getD DEFAULT_ADDRESS ∧
      (config.listen.ip.isLoopback = true ∨ (merge file.spec env cli).acceptRisk = true) := by
  unfold resolve at h
  obtain ⟨ip, hip, h⟩ := bind_ok h
  obtain ⟨workers, -, h⟩ := bind_ok h
  cases h
  unfold bindAddress at hip
  dsimp only at hip
  split_ifs at hip with hrisk
  cases hip
  refine ⟨rfl, ?_⟩
  rw [not_and_or] at hrisk
  simpa using hrisk

/-- The flag's own spelling is what opens the listener, except that a value attached to the flag
is taken for the flag. -/
theorem listener_guarded_iff (fromStr : Text → Except Text FileConfig) (text path : Text)
    (get : Text → Option Text) (args : List Text) {file : FileConfig} {env cli : Overrides} {config : Config}
    (_hfile : parseFile fromStr text path = .ok file) (henv : fromEnv get = .ok env) (hcli : parseArgs args = .ok cli)
    (hconfig : resolve file env cli = .ok config) :
    (config.listen.ip.isLoopback = false → RISK ∈ flagArguments args) ↔
      (∀ arg ∈ flagArguments args, ¬ RISK ++ ['='] <+: arg) ∨ RISK ∈ flagArguments args ∨
        (addressGiven file.spec get args).isLoopback = true := by
  obtain ⟨haddress, hguard⟩ := resolve_listen hconfig
  obtain ⟨henvAddress, henvRisk⟩ := fromEnv_listener henv
  have hgiven : config.listen.ip = addressGiven file.spec get args := by
    rw [haddress]
    change (cli.address.or (env.address.or _)).getD _ = _
    rw [parseArgs_address hcli, henvAddress]
    rfl
  have hrisk : (merge file.spec env cli).acceptRisk = cli.acceptRisk := by
    change ((false || env.acceptRisk) || cli.acceptRisk) = _
    rw [henvRisk, Bool.or_self, Bool.false_or]
  rw [← hgiven]
  constructor
  · intro hopen
    cases hloop : config.listen.ip.isLoopback with
    | true => exact .inr (.inr rfl)
    | false => exact .inr (.inl (hopen hloop))
  · rintro (hbare | hrisk' | hloop) hpublic
    · have haccepted := hguard.resolve_left (by rw [hpublic]; exact Bool.false_ne_true)
      rw [hrisk, parseArgs_risk hcli] at haccepted
      obtain ⟨arg, harg, rfl | hattached⟩ := haccepted
      · exact harg
      · exact absurd hattached (hbare arg harg)
    · exact hrisk'
    · rw [hpublic] at hloop
      cases hloop

def publicArgs (risk : Text) : List Text := ["--listen-address=0.0.0.0".toList, risk]

def publicConfig : Config := { minimalConfig DEFAULT_INTERVAL with listen := ⟨.v4 0 0 0 0, DEFAULT_PORT⟩ }

def publicOverrides : Overrides := { address := some (.v4 0 0 0 0), acceptRisk := true }

theorem public_resolves : resolve minimal {} publicOverrides = .ok publicConfig := rfl

theorem listener_guarded_sample :
    parseArgs (publicArgs "--i-accept-the-risk".toList) = .ok publicOverrides ∧
      publicConfig.listen.ip.isLoopback = false ∧
      "--i-accept-the-risk".toList ∈ flagArguments (publicArgs "--i-accept-the-risk".toList) := by
  have hargs : parseArgs (publicArgs "--i-accept-the-risk".toList) = .ok publicOverrides := by decide +kernel
  have hbare : ∀ arg ∈ flagArguments (publicArgs "--i-accept-the-risk".toList), ¬ RISK ++ ['='] <+: arg := by
    decide +kernel
  have hguarded := (listener_guarded_iff minimalYaml minimalText [] (fun _ => none) _ minimal_parses unset_env hargs
    public_resolves).mpr (.inl hbare)
  exact ⟨hargs, rfl, hguarded rfl⟩

/-- The flag with `=false` opens the listener. -/
theorem attached_value_opens : ∃ file env cli config, parseFile minimalYaml minimalText [] = .ok file ∧
    fromEnv (fun _ => none) = .ok env ∧ parseArgs (publicArgs "--i-accept-the-risk=false".toList) = .ok cli ∧
    resolve file env cli = .ok config ∧
    ¬ (config.listen.ip.isLoopback = false →
      "--i-accept-the-risk".toList ∈ flagArguments (publicArgs "--i-accept-the-risk=false".toList)) := by
  have hargs : parseArgs (publicArgs "--i-accept-the-risk=false".toList) = .ok publicOverrides := by decide +kernel
  refine ⟨minimal, {}, publicOverrides, publicConfig, minimal_parses, unset_env, hargs, public_resolves, ?_⟩
  intro hguard
  have hnot : "--i-accept-the-risk".toList ∉ flagArguments (publicArgs "--i-accept-the-risk=false".toList) := by
    decide +kernel
  exact hnot (hguard rfl)

end Kallisto.Configuration
