import Kallisto.Lib.Runs
import Kallisto.Resolver.Refresh
import Kallisto.Server.Bodies
import Kallisto.Server.Observe
import Kallisto.Telemetry.Metrics

/-!
The serving process: any number of workers, each taking one request at a time through the layer
that observes it, and the thread that polls the source. Everything the threads share is loaded
and stored one access at a time, so a poll or another worker's request may fall between any two.
-/
namespace Kallisto.Server
open Lib Kallisto.Crypto Kallisto.Policy Kallisto.Resolver Kallisto.Telemetry

def initStatus : Text := "\x7b\"initialized\":true\x7d".toList

def sealStatus (sealed : Bool) : Text :=
  "\x7b\"type\":\"shamir\",\"initialized\":true,\"sealed\":".toList ++
    (if sealed then "true".toList else "false".toList) ++
    ",\"t\":1,\"n\":1,\"progress\":0,\"nonce\":\"\",\"version\":\"".toList ++ VAULT_COMPAT_VERSION ++
    "\",\"migration\":false,\"cluster_name\":\"".toList ++ CLUSTER_NAME ++
    "\",\"cluster_id\":\"\",\"recovery_seal\":false,\"storage_type\":\"kallisto\"\x7d".toList

/-- The router's answer to a method that a route registered with `get` does not take. -/
def methodNotAllowed : Response := ⟨405, [("allow".toList, "GET,HEAD".toList)], []⟩

def METRICS_TYPE : Text × Text := ("content-type".toList, "text/plain; version=0.0.4; charset=utf-8".toList)

/-- Where the router sends a request: a route of `kv::routes` or `sys::router`, the fallback, or
nowhere for lack of a handler for its method. -/
inductive Endpoint where
  | kv (route : Route)
  | health
  | init
  | metrics
  | sealStatus
  | mounts
  | uiMounts
  | notAllowed
  | unknown
  deriving DecidableEq, Repr

/-- What is fixed once the process runs. How a path is matched to a route is the router
library's affair, so it is any function. -/
structure Setup where
  platform : Platform
  mount : Text
  dispatch : Request → Endpoint
  fallbackLogKey : LogKey

/-- Every handler but that of `metrics`; each loads the slot at most once. -/
def respond (c : Setup) (e : Endpoint) (slot : Option Snapshot) (nowMs : Nat) (nowSecs : UInt64) (w : Worker)
    (request : Request) : Worker × Response :=
  match e with
  | .kv route => handle c.platform c.mount route (fun _ => slot) nowMs w request
  | .health => (w, Server.health slot nowSecs)
  | .init => (w, jsonResponse 200 initStatus)
  | .sealStatus => (w, jsonResponse 200 (Server.sealStatus slot.isNone))
  | .mounts => (w, jsonResponse 200 (Server.mounts c.mount))
  | .uiMounts => (w, jsonResponse 200 (uiMount c.mount))
  | .notAllowed => (w, methodNotAllowed)
  | .unknown | .metrics => (w, routeNotFound request.uri.path)

/-- The part of a scrape's status that comes from the snapshot, loaded once. -/
def describe (slot : Option Snapshot) (status : Status) : Status :=
  { status with
    sealed := slot.isNone
    fileVersion := slot.map Snapshot.version
    secrets := UInt64.ofNat (slot.elim 0 Snapshot.secretCount)
    tokens := UInt64.ofNat (slot.elim 0 fun s => s.tokens.elim 0 fun table => table.entries.length)
    enforces := slot.any Snapshot.enforces }

/-- One access of the `metrics` handler. -/
inductive Load (n : Nat) where
  | snapshot
  | dropped (worker : Fin n)
  | refreshFailures
  | counter (o : Outcome) (worker : Fin n)
  deriving DecidableEq, Repr

/-- The accesses in the order the handler and `render` make them. -/
def Load.all (n : Nat) : List (Load n) :=
  .snapshot :: (List.finRange n).map .dropped ++
    .refreshFailures :: Outcome.ALL.flatMap fun o => (List.finRange n).map (.counter o)

/-- How far a scrape has come, and what it has seen. -/
structure Scrape (n : Nat) where
  left : List (Load n)
  status : Status
  totals : Outcome → UInt64

def Scrape.start (n : Nat) : Scrape n := ⟨Load.all n, ⟨true, none, 0, 0, false, 0, 0⟩, fun _ => 0⟩

/-- Where a worker stands with its request: `observe` before the handler, in the handler, between
the handler and the counter, between the counter and the log. -/
inductive Pc (n : Nat) where
  | idle
  | observed (request : Request) (o : Observed)
  | scraping (request : Request) (o : Observed) (scrape : Scrape n)
  | answered (request : Request) (o : Observed) (response : Response)
  | counted (request : Request) (o : Observed) (response : Response)

/-- `dropped` is the counter of the worker's own producer. -/
structure Process (n : Nat) where
  refresher : Refresher
  warmed : Bool
  failures : UInt64
  dropped : Fin n → UInt64
  workers : Fin n → Worker
  metrics : Fin n → WorkerMetrics
  pc : Fin n → Pc n

def Process.new (n : Nat) (key : SealKey) (disk : Option Disk) (perSecond burst : Nat) : Process n where
  refresher := .new key disk
  warmed := false
  failures := 0
  dropped := fun _ => 0
  workers := fun _ => ⟨.new perSecond burst, []⟩
  metrics := fun _ => .new
  pc := fun _ => .idle

/-- The environment's part of a step: the request an idle worker takes and the clocks it reads,
whether the log had room for its line; what the cache and the source answered the refresher. -/
inductive Choice (n : Nat) where
  | worker (t : Fin n) (request : Request) (nowMs : Nat) (nowSecs : UInt64) (kept : Bool)
  | refresh (fault : Option Text) (p : Poll)

/-- What happened. A poll names what the slot holds from then on. -/
inductive Event (n : Nat) where
  | arrived (t : Fin n) (request : Request)
  | began (t : Fin n)
  | handled (t : Fin n) (request : Request) (response : Response)
  | loaded (t : Fin n) (load : Load n)
  | counted (t : Fin n) (response : Response)
  | replied (t : Fin n) (request : Request) (record : Record) (response : Response) (kept : Bool)
  | polled (tick : Tick) (slot : Option Snapshot)

/-- `report` counts a file that was refused and a source that did not answer. -/
def failed : Tick → Bool
  | .rejected _ | .sourceDown _ => true
  | .unchanged | .loaded .. => false

namespace Process
variable {n : Nat}

def goto (s : Process n) (t : Fin n) (pc : Pc n) : Process n := { s with pc := Function.update s.pc t pc }

@[simp] theorem goto_pc_self (s : Process n) (t : Fin n) (pc : Pc n) : (s.goto t pc).pc t = pc :=
  Function.update_self ..

theorem goto_pc_of_ne (s : Process n) {t u : Fin n} (h : u ≠ t) (pc : Pc n) : (s.goto t pc).pc u = s.pc u :=
  Function.update_of_ne h ..

def load (s : Process n) (scrape : Scrape n) : Load n → Scrape n
  | .snapshot => { scrape with status := describe s.refresher.slot scrape.status }
  | .dropped worker =>
      { scrape with status := { scrape.status with logDropped := scrape.status.logDropped + s.dropped worker } }
  | .refreshFailures => { scrape with status := { scrape.status with refreshFailures := s.failures } }
  | .counter o worker =>
      { scrape with totals := Function.update scrape.totals o (scrape.totals o + (s.metrics worker).get o) }

def workerStep (c : Setup) (s : Process n) (t : Fin n) (request : Request) (nowMs : Nat) (nowSecs : UInt64)
    (kept : Bool) : Process n × Event n :=
  match s.pc t with
  | .idle =>
      let o := Observed.of c.platform c.fallbackLogKey s.refresher.slot request
      (s.goto t (.observed request o), .arrived t request)
  | .observed request o =>
      let e := c.dispatch request
      if e = .metrics then (s.goto t (.scraping request o (.start n)), .began t)
      else
        let (w, response) := respond c e s.refresher.slot nowMs nowSecs (s.workers t) request
        ({ s.goto t (.answered request o response) with workers := Function.update s.workers t w },
          .handled t request response)
  | .scraping request o scrape =>
      match scrape.left with
      | [] =>
          let response : Response := ⟨200, [METRICS_TYPE], render scrape.totals scrape.status⟩
          (s.goto t (.answered request o response), .handled t request response)
      | load :: left => (s.goto t (.scraping request o { s.load scrape load with left }), .loaded t load)
  | .answered request o response =>
      ({ s.goto t (.counted request o response) with
          metrics := Function.update s.metrics t ((s.metrics t).observe (.of response.status)) },
        .counted t response)
  | .counted request o response =>
      ({ s.goto t .idle with
          dropped := if kept then s.dropped else Function.update s.dropped t (s.dropped t + 1) },
        .replied t request (o.record (UInt16.ofNat response.status)) response kept)

def refreshStep (c : Setup) (s : Process n) (fault : Option Text) (p : Poll) : Process n × Event n :=
  let (refresher, tick) :=
    if s.warmed then s.refresher.pollOnce c.platform p else s.refresher.warmFromCache c.platform p.draw fault
  ({ s with
      refresher
      warmed := true
      failures := if failed tick then s.failures + 1 else s.failures },
    .polled tick refresher.slot)

def step (c : Setup) (s : Process n) : Choice n → Process n × Event n
  | .worker t request nowMs nowSecs kept => s.workerStep c t request nowMs nowSecs kept
  | .refresh fault p => s.refreshStep c fault p

section
variable {c : Setup} {s : Process n}

/-- Everything a step can do. -/
inductive Moved (c : Setup) (s : Process n) : Process n → Event n → Prop where
  | arrive {t : Fin n} (request : Request) (h : s.pc t = .idle) :
      Moved c s (s.goto t (.observed request (.of c.platform c.fallbackLogKey s.refresher.slot request)))
        (.arrived t request)
  | begin {t : Fin n} {request : Request} {o : Observed} (h : s.pc t = .observed request o)
      (metrics : c.dispatch request = .metrics) :
      Moved c s (s.goto t (.scraping request o (.start n))) (.began t)
  | handle {t : Fin n} {request : Request} {o : Observed} (h : s.pc t = .observed request o)
      (other : c.dispatch request ≠ .metrics) (nowMs : Nat) (nowSecs : UInt64) {w : Worker} {response : Response}
      (served : respond c (c.dispatch request) s.refresher.slot nowMs nowSecs (s.workers t) request = (w, response)) :
      Moved c s { s.goto t (.answered request o response) with workers := Function.update s.workers t w }
        (.handled t request response)
  | load {t : Fin n} {request : Request} {o : Observed} {scrape : Scrape n} {load : Load n} {left : List (Load n)}
      (h : s.pc t = .scraping request o scrape) (next : scrape.left = load :: left) :
      Moved c s (s.goto t (.scraping request o { s.load scrape load with left })) (.loaded t load)
  | rendered {t : Fin n} {request : Request} {o : Observed} {scrape : Scrape n}
      (h : s.pc t = .scraping request o scrape) (done : scrape.left = []) :
      Moved c s (s.goto t (.answered request o ⟨200, [METRICS_TYPE], render scrape.totals scrape.status⟩))
        (.handled t request ⟨200, [METRICS_TYPE], render scrape.totals scrape.status⟩)
  | count {t : Fin n} {request : Request} {o : Observed} {response : Response}
      (h : s.pc t = .answered request o response) :
      Moved c s { s.goto t (.counted request o response) with
          metrics := Function.update s.metrics t ((s.metrics t).observe (.of response.status)) }
        (.counted t response)
  | reply {t : Fin n} {request : Request} {o : Observed} {response : Response}
      (h : s.pc t = .counted request o response) (kept : Bool) :
      Moved c s { s.goto t .idle with
          dropped := if kept then s.dropped else Function.update s.dropped t (s.dropped t + 1) }
        (.replied t request (o.record (UInt16.ofNat response.status)) response kept)
  | refresh {refresher : Refresher} {tick : Tick} (fault : Option Text) (p : Poll)
      (polled : (if s.warmed then s.refresher.pollOnce c.platform p
        else s.refresher.warmFromCache c.platform p.draw fault) = (refresher, tick)) :
      Moved c s { s with refresher, warmed := true, failures := if failed tick then s.failures + 1 else s.failures }
        (.polled tick refresher.slot)

theorem step_moved (choice : Choice n) : Moved c s (s.step c choice).1 (s.step c choice).2 := by
  cases choice with
  | refresh fault p => exact .refresh fault p rfl
  | worker t request nowMs nowSecs kept =>
      simp only [step, workerStep]
      cases hpc : s.pc t with
      | idle => exact .arrive request hpc
      | observed request o =>
          dsimp only
          split_ifs with hm
          · exact .begin hpc hm
          · exact .handle hpc hm nowMs nowSecs rfl
      | scraping request o scrape =>
          cases hleft : scrape.left with
          | nil => simpa only [hleft] using Moved.rendered (c := c) hpc hleft
          | cons load left => simpa only [hleft] using Moved.load (c := c) hpc hleft
      | answered request o response => exact .count hpc
      | counted request o response => exact .reply hpc kept

theorem moved_invariant {P : List (Event n) → Process n → Prop} {start : Process n} (hstart : P [] start)
    (hmoved : ∀ trace s s' e, P trace s → Moved c s s' e → P (trace ++ [e]) s') (sched : List (Choice n)) :
    P (run (step c) start sched).2 (run (step c) start sched).1 :=
  run_invariant hstart (fun trace s _ h => hmoved trace s _ _ h (step_moved _)) sched

end

end Process

end Kallisto.Server
