import Kallisto.Lib.TwoRuns
import Kallisto.Server.Confinement
import Kallisto.Server.Guessing
import Kallisto.Server.Process

/-!
Two processes that serve two files to the same clients. The files agree on what health and the
metrics tell everybody; where no request is entitled to the difference between them and no poll
brings a newer file, the two processes give the same replies, bytes and headers and all, and leave
the same log.
-/
namespace Kallisto.Server
open Lib Kallisto.Crypto Kallisto.Policy Kallisto.Resolver Kallisto.Telemetry

/-- What a file tells without being asked for a secret. -/
structure Alike {P : Platform} (a b : Served P) : Prop extends Indistinct a b where
  etag : a.snapshot.etag = b.snapshot.etag
  secretCount : a.snapshot.secretCount = b.snapshot.secretCount
  logKey : a.snapshot.logKey = b.snapshot.logKey

/-- The request asks for nothing in which the two files differ and which its token may see. -/
def Undisclosed (c : Setup) (a b : Served c.platform) (request : Request) : Prop :=
  ∀ route, c.dispatch request = .kv route → ¬ Disclosed c.mount route request a b

/-- The poll leaves a process with the snapshot it serves, and does or does not count as failed. -/
def Leaves (P : Platform) (key : SealKey) (s : Snapshot) (fails : Bool) (p : Poll) : Prop :=
  ∀ r : Refresher, r.key = key → r.slot = some s →
    (r.pollOnce P p).1.slot = some s ∧ failed (r.pollOnce P p).2 = fails

theorem leaves_notModified {P : Platform} {key : SealKey} {s : Snapshot} {p : Poll} (hf : p.fetched = .notModified) :
    Leaves P key s false p := by
  intro r _ hs
  simp only [Refresher.pollOnce, hf]
  exact ⟨hs, rfl⟩

/-- As a poll of the disk finds it, which has no tag to ask by. -/
theorem leaves_served {P : Platform} {key : SealKey} {s : Snapshot} {p : Poll} {bytes : Bytes} {etag : Option Text}
    (hf : p.fetched = .body bytes etag) (hpeek : peek bytes = .ok s.version) : Leaves P key s false p := by
  intro r _ hs
  obtain ⟨hskipped, hafter⟩ := pollOnce_skipped (P := P) (r := r) hf
  have hsame : (r.pollOnce P p).2 = .unchanged := hskipped.mpr ⟨s.version, hpeek, by rw [Refresher.version, hs]; rfl⟩
  rw [hafter hsame, hsame]
  exact ⟨hs, rfl⟩

/-- Turns of the two processes that bring neither a new file: the same request, without title to
the difference, or a poll each, of which both fail or neither. -/
inductive Undisclosing {n : Nat} (c : Setup) (keys : SealKey × SealKey) (a b : Served c.platform) :
    Choice n → Choice n → Prop where
  | worker (t : Fin n) {request : Request} (hu : Undisclosed c a b request) (nowMs : Nat) (nowSecs : UInt64)
      (kept : Bool) :
      Undisclosing c keys a b (.worker t request nowMs nowSecs kept) (.worker t request nowMs nowSecs kept)
  | refresh {poll poll' : Poll} {fails : Bool} (hp : Leaves c.platform keys.1 a.snapshot fails poll)
      (hq : Leaves c.platform keys.2 b.snapshot fails poll') (fault fault' : Option Text) :
      Undisclosing c keys a b (.refresh fault poll) (.refresh fault' poll')

/-- Two processes that differ in the file they serve, in its key, and in what the buffers were left with. -/
structure Twins {n : Nat} (c : Setup) (keys : SealKey × SealKey) (a b : Served c.platform) (p q : Process n) :
    Prop where
  key : p.refresher.key = keys.1
  key' : q.refresher.key = keys.2
  slot : p.refresher.slot = some a.snapshot
  slot' : q.refresher.slot = some b.snapshot
  warmed : p.warmed = true
  warmed' : q.warmed = true
  limiter : ∀ t, (p.workers t).limiter = (q.workers t).limiter
  failures : p.failures = q.failures
  dropped : p.dropped = q.dropped
  metrics : p.metrics = q.metrics
  pc : p.pc = q.pc
  pending : ∀ t request o, p.pc t = .observed request o → Undisclosed c a b request

/-- What leaves the process: replies, and records for the log. -/
def Event.sent {n : Nat} : Event n → Option (Fin n × Request × Record × Response × Bool)
  | .replied t request record response kept => some (t, request, record, response, kept)
  | _ => none

section
variable {c : Setup} {a b : Served c.platform}

theorem Alike.observed (h : Alike a b) (request : Request) :
    Observed.of c.platform c.fallbackLogKey (some a.snapshot) request =
      Observed.of c.platform c.fallbackLogKey (some b.snapshot) request := by
  have hpath : ∀ path, a.snapshot.pathId c.platform path c.fallbackLogKey =
      b.snapshot.pathId c.platform path c.fallbackLogKey := by
    intro path
    rw [build_pathId a.built, build_pathId b.built, h.logKey]
  have htoken : ∀ token, a.snapshot.tokenId c.platform token = b.snapshot.tokenId c.platform token := by
    intro token
    simp only [Snapshot.tokenId, h.tokens]
  have henforces : a.snapshot.enforces = b.snapshot.enforces := by
    rw [Snapshot.enforces, h.tokens, Snapshot.enforces]
  simp only [Observed.of, Option.any_some, henforces]
  cases (classify request.method request.uri).2 with
  | none => rfl
  | some path => simp only [identify, hpath, htoken]

theorem handle_limiter {P : Platform} (mount : Text) (route : Route) (slot slot' : Nat → Option Snapshot)
    (nowMs : Nat) {w w' : Worker} (request : Request) (hw : w.limiter = w'.limiter) :
    (handle P mount route slot nowMs w request).1.limiter =
      (handle P mount route slot' nowMs w' request).1.limiter := by
  cases hreach : reachesLimiter route request with
  | true =>
      have h : Throttles nowMs w (handle P mount route slot nowMs w request) := handle_throttles hreach
      have h' : Throttles nowMs w' (handle P mount route slot' nowMs w' request) := handle_throttles hreach
      rw [h.1, h'.1, hw]
  | false =>
      have h : (handle P mount route slot nowMs w request).1 = w ∧ _ := handle_free hreach
      have h' : (handle P mount route slot' nowMs w' request).1 = w' ∧ _ := handle_free hreach
      rw [h.1, h'.1, hw]

/-- One request, answered out of two files by two workers whose limiters stand alike. -/
theorem respond_alike (opens : c.platform.aead.Opens) (h : Alike a b) (nowMs : Nat) (nowSecs : UInt64) {w w' : Worker}
    (hw : w.limiter = w'.limiter) {request : Request} (hu : Undisclosed c a b request) :
    (respond c (c.dispatch request) (some a.snapshot) nowMs nowSecs w request).1.limiter =
        (respond c (c.dispatch request) (some b.snapshot) nowMs nowSecs w' request).1.limiter ∧
      (respond c (c.dispatch request) (some a.snapshot) nowMs nowSecs w request).2 =
        (respond c (c.dispatch request) (some b.snapshot) nowMs nowSecs w' request).2 := by
  cases he : c.dispatch request with
  | kv route =>
      refine ⟨handle_limiter _ _ _ _ _ _ hw, ?_⟩
      have hhidden := hu route he
      have hload : loads (fun _ => some a) = fun _ => some a.snapshot := rfl
      have hload' : loads (fun _ => some b) = fun _ => some b.snapshot := rfl
      simp only [respond, ← hload, ← hload']
      cases route with
      | data =>
          by_contra hne
          exact hhidden (readSecret_differs opens h.toIndistinct rfl rfl hw hne)
      | metadata =>
          by_contra hne
          exact hhidden (readMetadata_differs h.toIndistinct rfl rfl hw hne)
      | subkeys => exact refuseWrite_congr hw
      | delete => exact refuseWrite_congr hw
      | undelete => exact refuseWrite_congr hw
      | destroy => exact refuseWrite_congr hw
      | lookupSelf => exact tokenSelf_congr h.toIndistinct rfl rfl
      | renewSelf => exact tokenSelf_congr h.toIndistinct rfl rfl
  | health =>
      refine ⟨hw, ?_⟩
      have henforces : a.snapshot.enforces = b.snapshot.enforces := by
        rw [Snapshot.enforces, h.tokens, Snapshot.enforces]
      simp only [respond, Server.health, h.version, h.etag, a.rfc3339, b.rfc3339, h.loadedAt, henforces]
  | init => exact ⟨hw, rfl⟩
  | metrics => exact ⟨hw, rfl⟩
  | sealStatus => exact ⟨hw, rfl⟩
  | mounts => exact ⟨hw, rfl⟩
  | uiMounts => exact ⟨hw, rfl⟩
  | notAllowed => exact ⟨hw, rfl⟩
  | unknown => exact ⟨hw, rfl⟩

theorem Alike.describe (h : Alike a b) (status : Status) :
    describe (some a.snapshot) status = describe (some b.snapshot) status := by
  have henforces : a.snapshot.enforces = b.snapshot.enforces := by
    rw [Snapshot.enforces, h.tokens, Snapshot.enforces]
  simp only [Server.describe, Option.isNone_some, Option.map_some, Option.elim_some, Option.any_some, h.version,
    h.secretCount, h.tokens, henforces]

end

section
variable {n : Nat} {c : Setup} {keys : SealKey × SealKey} {a b : Served c.platform} {p q : Process n}

/-- Both workers go to the same place and nothing else moves. -/
theorem Twins.goto (h : Twins c keys a b p q) (t : Fin n) {pc : Pc n}
    (hp : ∀ request o, pc = .observed request o → Undisclosed c a b request) :
    Twins c keys a b (p.goto t pc) (q.goto t pc) where
  key := h.key
  key' := h.key'
  slot := h.slot
  slot' := h.slot'
  warmed := h.warmed
  warmed' := h.warmed'
  limiter := h.limiter
  failures := h.failures
  dropped := h.dropped
  metrics := h.metrics
  pc := by rw [Process.goto, Process.goto, h.pc]
  pending u request o hu := by
    by_cases ht : u = t
    · subst ht
      rw [p.goto_pc_self] at hu
      exact hp request o hu
    · rw [p.goto_pc_of_ne ht] at hu
      exact h.pending u request o hu

theorem Twins.load (alike : Alike a b) (h : Twins c keys a b p q) (scrape : Scrape n) (load : Load n) :
    p.load scrape load = q.load scrape load := by
  cases load with
  | snapshot => simp only [Process.load, h.slot, h.slot', alike.describe]
  | dropped worker => simp only [Process.load, h.dropped]
  | refreshFailures => simp only [Process.load, h.failures]
  | counter o worker => simp only [Process.load, h.metrics]

theorem twins_worker (opens : c.platform.aead.Opens) (alike : Alike a b) (h : Twins c keys a b p q) (t : Fin n)
    {request : Request} (hu : Undisclosed c a b request) (nowMs : Nat) (nowSecs : UInt64) (kept : Bool) :
    Twins c keys a b (p.workerStep c t request nowMs nowSecs kept).1 (q.workerStep c t request nowMs nowSecs kept).1 ∧
      (p.workerStep c t request nowMs nowSecs kept).2.sent =
        (q.workerStep c t request nowMs nowSecs kept).2.sent := by
  have hpending := h.pending t
  simp only [Process.workerStep, ← h.pc]
  cases hpc : p.pc t with
  | idle =>
      rw [h.slot, h.slot', alike.observed]
      refine ⟨h.goto t ?_, rfl⟩
      rintro _ _ ⟨⟩
      exact hu
  | observed asked o =>
      dsimp only
      by_cases hm : c.dispatch asked = .metrics
      · simp only [if_pos hm]
        exact ⟨h.goto t (by rintro _ _ ⟨⟩), trivial⟩
      · simp only [if_neg hm, h.slot, h.slot']
        obtain ⟨hlimiter, hresponse⟩ :=
          respond_alike opens alike nowMs nowSecs (h.limiter t) (hpending asked o hpc)
        rw [hresponse]
        have hmoved : ∀ response, Twins c keys a b (p.goto t (.answered asked o response))
            (q.goto t (.answered asked o response)) := fun _ => h.goto t (by rintro _ _ ⟨⟩)
        refine ⟨{ hmoved _ with limiter := ?_ }, rfl⟩
        intro u
        by_cases hut : u = t
        · subst hut
          simp only [Function.update_self]
          exact hlimiter
        · simp only [Function.update_of_ne hut]
          exact h.limiter u
  | scraping asked o scrape =>
      cases hleft : scrape.left with
      | nil =>
          simp only [hleft]
          exact ⟨h.goto t (by rintro _ _ ⟨⟩), trivial⟩
      | cons load left =>
          simp only [hleft, h.load alike]
          exact ⟨h.goto t (by rintro _ _ ⟨⟩), trivial⟩
  | answered asked o response =>
      have hmoved : Twins c keys a b (p.goto t (.counted asked o response)) (q.goto t (.counted asked o response)) :=
        h.goto t (by rintro _ _ ⟨⟩)
      exact ⟨{ hmoved with metrics := by simp only [h.metrics] }, rfl⟩
  | counted asked o response =>
      have hmoved : Twins c keys a b (p.goto t .idle) (q.goto t .idle) := h.goto t (by rintro _ _ ⟨⟩)
      exact ⟨{ hmoved with dropped := by simp only [h.dropped] }, rfl⟩

theorem twins_step (opens : c.platform.aead.Opens) (alike : Alike a b) (h : Twins c keys a b p q)
    {choice choice' : Choice n} (hc : Undisclosing c keys a b choice choice') :
    Twins c keys a b (p.step c choice).1 (q.step c choice').1 ∧
      (p.step c choice).2.sent = (q.step c choice').2.sent := by
  cases hc with
  | worker t hu nowMs nowSecs kept => exact twins_worker opens alike h t hu nowMs nowSecs kept
  | @refresh poll poll' fails hp hq =>
      refine ⟨?_, rfl⟩
      obtain ⟨hslot, hfailed⟩ := hp p.refresher h.key h.slot
      obtain ⟨hslot', hfailed'⟩ := hq q.refresher h.key' h.slot'
      have hkey := pollOnce_key (P := c.platform) p.refresher poll
      have hkey' := pollOnce_key (P := c.platform) q.refresher poll'
      simp only [Process.step, Process.refreshStep, h.warmed, h.warmed', if_true]
      exact { h with
        key := hkey.trans h.key
        key' := hkey'.trans h.key'
        slot := hslot
        slot' := hslot'
        warmed := rfl
        warmed' := rfl
        failures := by simp only [hfailed, hfailed', h.failures] }

end

/-- Whole sessions. Let two processes stand alike but for the secrets of the files they serve, and
let any clients send them any requests, as long as none asks for a difference it may see, while
both poll their own sources without finding a newer file: the replies and the log records are the
same, one by one, however the workers are scheduled. -/
theorem sessions_alike {n : Nat} (c : Setup) (opens : c.platform.aead.Opens) {keys : SealKey × SealKey}
    {a b : Served c.platform} (alike : Alike a b) {p q : Process n} (twins : Twins c keys a b p q)
    {sched sched' : List (Choice n)} (undisclosing : List.Forall₂ (Undisclosing c keys a b) sched sched') :
    (run (Process.step c) p sched).2.filterMap Event.sent =
      (run (Process.step c) q sched').2.filterMap Event.sent := by
  have hstep : ∀ (p q : Process n) choice choice', Twins c keys a b p q → Undisclosing c keys a b choice choice' →
      Twins c keys a b (p.step c choice).1 (q.step c choice').1 ∧
        (p.step c choice).2.sent = (q.step c choice').2.sent :=
    fun _ _ _ _ h hc => twins_step opens alike h hc
  exact (run_related (Process.step c) hstep twins undisclosing).2

def opsValue : Text := "\x7b\"user\":\"ops\"\x7d".toList

/-- The barrier's key of another process. -/
def opsDraw : Draw := { sampleDraw with seed := some ⟨List.replicate 32 9, List.length_replicate⟩ }

/-- AES-256-GCM of `opsValue` under the key of `opsDraw` and the zero nonce, without additional data. -/
def opsSealing : Sealing :=
  ⟨⟨List.replicate 32 9, List.length_replicate⟩, counterNonce 0, [], utf8 opsValue,
    [157, 225, 16, 87, 66, 77, 25, 183, 159, 124, 156, 113, 82, 244, 222, 118, 127, 66, 29, 252, 81, 117, 223,
      54, 84, 208, 179, 172, 216, 20]⟩

def opsPlatform : Platform := ⟨Aead.recorded [servedSealing, opsSealing], servedHmac, sampleFromSlice⟩

/-- One secret of one name, with either value. -/
def opsView (value : Text) : View :=
  ⟨1, .ofList [(servedPath, value)], samplePolicies, sampleTokens, some sampleKeyHex⟩

/-- As far as requests for the data route go. -/
def opsSetup : Setup := ⟨opsPlatform, "secret".toList, fun _ => .kv .data, ⟨sampleTokenKey.raw⟩⟩

def opsProcess (s : Served opsPlatform) : Process 1 :=
  { Process.new 1 sampleKey none 10 10 with
    refresher := { Refresher.new sampleKey none with slot := some s.snapshot }
    warmed := true }

/-- A read without a token. -/
def opsRequest : Request := ⟨"GET".toList, ⟨"/v1/secret/data/app/db".toList, none⟩, []⟩

def opsTurn : Choice 1 := .worker ⟨0, Nat.one_pos⟩ opsRequest 0 0 true

def opsPoll (p : Poll) : Choice 1 := .refresh none p

/-- Half of a request, a poll, and the other half. -/
def opsSchedule (p : Poll) : List (Choice 1) := [opsTurn, opsTurn, opsPoll p, opsTurn, opsTurn]

def quietPoll : Poll := { samplePoll with fetched := .notModified }

/-- One process finds the file it has, the other one learns that there is no other. -/
theorem sessions_alike_sample : ∃ a b : Served opsPlatform,
    a.view.secrets.get servedPath = some servedValue ∧ b.view.secrets.get servedPath = some opsValue ∧
      (run (Process.step opsSetup) (opsProcess a) (opsSchedule samplePoll)).2.filterMap Event.sent =
        (run (Process.step opsSetup) (opsProcess b) (opsSchedule quietPoll)).2.filterMap Event.sent := by
  let built (draw : Draw) (value : Text) := Served.of opsPlatform draw (opsView value) none
  let told (s : Served opsPlatform) :=
    ((s.snapshot.version, s.snapshot.loadedAt, s.snapshot.tokens),
      s.snapshot.etag, s.snapshot.secretCount, s.snapshot.logKey)
  obtain ⟨a, ha⟩ := Option.isSome_iff_exists.mp (show (built sampleDraw servedValue).isSome by decide +kernel)
  obtain ⟨b, hb⟩ := Option.isSome_iff_exists.mp (show (built opsDraw opsValue).isSome by decide +kernel)
  have hsame : (built sampleDraw servedValue).map told = (built opsDraw opsValue).map told := by decide +kernel
  simp only [ha, hb, told, Option.map_some, Option.some.injEq, Prod.mk.injEq] at hsame
  have alike : Alike a b :=
    ⟨⟨hsame.1.1, hsame.1.2.1, hsame.1.2.2⟩, hsame.2.1, hsame.2.2.1, hsame.2.2.2⟩
  have twins : Twins opsSetup (sampleKey, sampleKey) a b (opsProcess a) (opsProcess b) :=
    ⟨rfl, rfl, rfl, rfl, rfl, rfl, fun _ => rfl, rfl, rfl, rfl, rfl, by rintro _ _ _ ⟨⟩⟩
  have hguarded : (built sampleDraw servedValue).map (fun s =>
      (s.snapshot.tokens.isSome, s.view.secrets.get servedPath, peek sampleFile == .ok s.snapshot.version)) =
      some (true, some servedValue, true) := by
    decide +kernel
  have hops : (built opsDraw opsValue).map (fun s => s.view.secrets.get servedPath) = some (some opsValue) := by
    decide +kernel
  simp only [ha, Option.map_some, Option.some.injEq, Prod.mk.injEq, beq_iff_eq] at hguarded
  simp only [hb, Option.map_some, Option.some.injEq] at hops
  obtain ⟨hguard, hvalue, hpeek⟩ := hguarded
  obtain ⟨table, htable⟩ := Option.isSome_iff_exists.mp hguard
  have hturn : Undisclosing opsSetup (sampleKey, sampleKey) a b opsTurn opsTurn := by
    refine .worker _ ?_ 0 0 true
    rintro route ⟨⟩ ⟨path, -, -, hpermits, -⟩
    have hnone : presentedToken opsRequest.headers = none := by decide
    simp only [hnone, Snapshot.permits, htable] at hpermits
    cases hpermits
  have hpoll : Undisclosing opsSetup (sampleKey, sampleKey) a b (opsPoll samplePoll) (opsPoll quietPoll) :=
    .refresh (leaves_served rfl hpeek) (leaves_notModified rfl) none none
  exact ⟨a, b, hvalue, hops, sessions_alike opsSetup (Aead.recorded_opens (by decide)) alike twins
    (.cons hturn (.cons hturn (.cons hpoll (.cons hturn (.cons hturn .nil)))))⟩

end Kallisto.Server
