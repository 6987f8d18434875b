import Kallisto.Server.Counters
import Mathlib.Algebra.BigOperators.Fin

/-!
A scrape of a process that goes on working. The handler loads one counter after another while
other workers count, so its numbers are of no one moment; each is still a number the counter
had while the request was being served.
-/
namespace Kallisto.Server
open Lib Kallisto.Crypto Kallisto.Policy Kallisto.Resolver Kallisto.Telemetry

namespace Event
variable {n : Nat}

/-- The counter of some worker for the class `o` goes up. -/
def countsAny (o : Outcome) : Event n → Bool
  | .counted _ response => Outcome.of response.status = o
  | _ => false

/-- The log had no room for some worker's line. -/
def shedAny : Event n → Bool
  | .replied _ _ _ _ kept => !kept
  | _ => false

def published : Event n → Option (Option Snapshot)
  | .polled _ slot => some slot
  | _ => none

end Event

/-- What the slot held once these events had happened. -/
def slotAt {n : Nat} (trace : List (Event n)) : Option Snapshot := (trace.filterMap Event.published).getLast?.join

/-- Worker `t` has been busy with `request` since the end of `since`. -/
def Since {n : Nat} (t : Fin n) (request : Request) (since trace : List (Event n)) : Prop :=
  ∃ during, trace = since ++ during ∧ since.getLast? = some (.arrived t request) ∧ ∀ other, .arrived t other ∉ during

/-- A number that `count` gave at some moment between the two, as `u64` holds it. -/
def Between {n : Nat} (count : List (Event n) → Nat) (since trace : List (Event n)) (value : UInt64) : Prop :=
  ∃ k, count since ≤ k ∧ k ≤ count trace ∧ value = UInt64.ofNat k

/-- The workers whose counter for `o` has been loaded. -/
def Load.counted {n : Nat} (o : Outcome) : Load n → Option (Fin n)
  | .counter p worker => if p = o then some worker else none
  | _ => none

/-- The workers whose producer's counter has been loaded. -/
def Load.producer {n : Nat} : Load n → Option (Fin n)
  | .dropped worker => some worker
  | _ => none

/-- What is counted for each of the given workers, taken together. -/
def countOver {n : Nat} (p : Fin n → Event n → Bool) (workers : List (Fin n)) (trace : List (Event n)) : Nat :=
  (workers.map fun t => trace.countP (p t)).sum

/-- What a scrape that has made the loads in `done` may have found. -/
structure Seen {n : Nat} (since trace : List (Event n)) (done : List (Load n)) (scrape : Scrape n) : Prop where
  totals : ∀ o, Between (countOver (Event.counts · o) (done.filterMap (Load.counted o))) since trace (scrape.totals o)
  slot : .snapshot ∈ done → ∃ moment, since <+: moment ∧ moment <+: trace ∧
    describe (slotAt moment) scrape.status = scrape.status
  dropped : Between (countOver Event.shed (done.filterMap Load.producer)) since trace scrape.status.logDropped
  failures : .refreshFailures ∈ done →
    Between (List.countP Event.failedPoll) since trace scrape.status.refreshFailures

section
variable {n : Nat} {since trace : List (Event n)} {done : List (Load n)} {scrape : Scrape n}

theorem Between.extend {count : List (Event n) → Nat} {value : UInt64} (h : Between count since trace value)
    {e : Event n} (hmono : count trace ≤ count (trace ++ [e])) : Between count since (trace ++ [e]) value := by
  obtain ⟨k, hlow, hhigh, hvalue⟩ := h
  exact ⟨k, hlow, le_trans hhigh hmono, hvalue⟩

theorem countP_le_snoc (p : Event n → Bool) (trace : List (Event n)) (e : Event n) :
    trace.countP p ≤ (trace ++ [e]).countP p :=
  (List.sublist_append_left trace [e]).countP_le

theorem countOver_le_snoc (p : Fin n → Event n → Bool) (workers : List (Fin n)) (trace : List (Event n)) (e : Event n) :
    countOver p workers trace ≤ countOver p workers (trace ++ [e]) := by
  induction workers with
  | nil => exact le_refl _
  | cons t workers ih =>
      simp only [countOver, List.map_cons, List.sum_cons] at ih ⊢
      exact Nat.add_le_add (countP_le_snoc _ _ _) ih

theorem Seen.extend (h : Seen since trace done scrape) (e : Event n) : Seen since (trace ++ [e]) done scrape where
  totals o := (h.totals o).extend (countOver_le_snoc _ _ _ _)
  slot hmem := by
    obtain ⟨moment, hfrom, hto, hd⟩ := h.slot hmem
    exact ⟨moment, hfrom, hto.trans (List.prefix_append _ _), hd⟩
  dropped := h.dropped.extend (countOver_le_snoc _ _ _ _)
  failures hmem := (h.failures hmem).extend (countP_le_snoc _ _ _)

theorem seen_start (since trace : List (Event n)) : Seen since trace [] (.start n) where
  totals _ := ⟨0, le_refl _, le_refl _, rfl⟩
  slot h := absurd h List.not_mem_nil
  dropped := ⟨0, le_refl _, le_refl _, rfl⟩
  failures h := absurd h List.not_mem_nil

theorem countOver_concat (p : Fin n → Event n → Bool) (workers : List (Fin n)) (t : Fin n) (trace : List (Event n)) :
    countOver p (workers ++ [t]) trace = countOver p workers trace + trace.countP (p t) := by
  simp [countOver]

theorem Between.now {p : Event n → Bool} {value : UInt64} (hle : since <+: trace)
    (hvalue : value = UInt64.ofNat (trace.countP p)) : Between (List.countP p) since trace value :=
  ⟨trace.countP p, hle.sublist.countP_le, le_refl _, hvalue⟩

/-- One more worker's number is added to those loaded before. -/
theorem Between.add {p : Fin n → Event n → Bool} {workers : List (Fin n)} {value more : UInt64}
    (h : Between (countOver p workers) since trace value) (hle : since <+: trace) {t : Fin n}
    (hmore : more = UInt64.ofNat (trace.countP (p t))) :
    Between (countOver p (workers ++ [t])) since trace (value + more) := by
  obtain ⟨k, hlow, hhigh, hvalue⟩ := h
  refine ⟨k + trace.countP (p t), ?_, ?_, ?_⟩
  · rw [countOver_concat]
    exact Nat.add_le_add hlow hle.sublist.countP_le
  · rw [countOver_concat]
    exact Nat.add_le_add_right hhigh _
  · rw [hvalue, hmore, UInt64.ofNat_add]

/-- One more load, of what is there at that moment. -/
theorem Seen.load (h : Seen since trace done scrape) {s : Process n} (htally : Tallied trace s)
    (hslot : s.refresher.slot = slotAt trace) (hle : since <+: trace) (load : Load n) (left : List (Load n)) :
    Seen since trace (done ++ [load]) { s.load scrape load with left } := by
  have hother : ∀ {α : Type} {f : Load n → Option α}, f load = none →
      (done ++ [load]).filterMap f = done.filterMap f := by
    intro α f hf
    rw [filterMap_snoc, hf, Option.toList_none, List.append_nil]
  have hbefore : ∀ {x : Load n}, x ∈ done ++ [load] → x ≠ load → x ∈ done := by
    intro x hx hne
    rcases List.mem_append.mp hx with hx | hx
    · exact hx
    · exact absurd (List.mem_singleton.mp hx) hne
  cases load with
  | snapshot =>
      refine ⟨?_, ?_, ?_, ?_⟩
      · intro o
        rw [hother rfl]
        exact h.totals o
      · intro _
        refine ⟨trace, hle, List.prefix_refl _, ?_⟩
        rw [← hslot]
        rfl
      · rw [hother rfl]
        exact h.dropped
      · intro hmem
        exact h.failures (hbefore hmem (by simp))
  | dropped t =>
      refine ⟨?_, ?_, ?_, ?_⟩
      · intro o
        rw [hother rfl]
        exact h.totals o
      · intro hmem
        obtain ⟨moment, hfrom, hto, hd⟩ := h.slot (hbefore hmem (by simp))
        exact ⟨moment, hfrom, hto,
          congrArg (fun st : Status => { st with logDropped := scrape.status.logDropped + s.dropped t }) hd⟩
      · have hone : (Load.dropped t).producer = some t := rfl
        rw [filterMap_snoc, hone, Option.toList_some]
        exact h.dropped.add hle (htally.dropped t)
      · intro hmem
        exact h.failures (hbefore hmem (by simp))
  | refreshFailures =>
      refine ⟨?_, ?_, ?_, ?_⟩
      · intro o
        rw [hother rfl]
        exact h.totals o
      · intro hmem
        obtain ⟨moment, hfrom, hto, hd⟩ := h.slot (hbefore hmem (by simp))
        exact ⟨moment, hfrom, hto, congrArg (fun st : Status => { st with refreshFailures := s.failures }) hd⟩
      · rw [hother rfl]
        exact h.dropped
      · intro _
        exact .now hle htally.failures
  | counter p t =>
      refine ⟨?_, ?_, ?_, ?_⟩
      · intro o
        by_cases ho : o = p
        · subst ho
          have hone : (Load.counter o t).counted o = some t := if_pos rfl
          rw [filterMap_snoc, hone, Option.toList_some]
          show Between _ _ _ (Function.update scrape.totals o (scrape.totals o + (s.metrics t).get o) o)
          rw [Function.update_self]
          exact (h.totals o).add hle (htally.metrics t o)
        · rw [hother (if_neg (Ne.symm ho))]
          show Between _ _ _ (Function.update scrape.totals p _ o)
          rw [Function.update_of_ne ho]
          exact h.totals o
      · intro hmem
        exact h.slot (hbefore hmem (by simp))
      · rw [hother rfl]
        exact h.dropped
      · intro hmem
        exact h.failures (hbefore hmem (by simp))

/-- Where every event that counts counts for one worker, all workers together are all of them. -/
theorem countOver_all {p : Fin n → Event n → Bool} {q : Event n → Bool}
    (hone : ∀ e, (∑ t, if p t e then 1 else 0) = if q e then 1 else 0) (trace : List (Event n)) :
    countOver p (List.finRange n) trace = trace.countP q := by
  rw [countOver, ← Fin.sum_univ_def]
  induction trace with
  | nil => simp
  | cons e trace ih => simp only [List.countP_cons, Finset.sum_add_distrib, hone, ih]

theorem replies_all (o : Outcome) : countOver (n := n) (Event.counts · o) (List.finRange n) =
    List.countP (Event.countsAny o) := by
  funext trace
  refine countOver_all ?_ trace
  intro e
  cases e with
  | counted u response => by_cases ho : Outcome.of response.status = o <;> simp [Event.counts, Event.countsAny, ho]
  | _ => simp [Event.counts, Event.countsAny]

theorem shed_all : countOver (n := n) Event.shed (List.finRange n) = List.countP Event.shedAny := by
  funext trace
  refine countOver_all ?_ trace
  intro e
  cases e with
  | replied u request record response kept => cases kept <;> simp [Event.shed, Event.shedAny]
  | _ => simp [Event.shed, Event.shedAny]

/-- The loads of a whole scrape reach every worker's counter of every class. -/
theorem all_counted (o : Outcome) : (Load.all n).filterMap (Load.counted o) = List.finRange n := by
  have hclass : ∀ p, ((List.finRange n).map (Load.counter p)).filterMap (Load.counted o) =
      if p = o then List.finRange n else [] := by
    intro p
    rw [List.filterMap_map]
    by_cases hp : p = o <;> simp [hp, Load.counted]
  have hdropped : ((List.finRange n).map Load.dropped).filterMap (Load.counted o) = [] := by
    simp [List.filterMap_map, Function.comp_def, Load.counted]
  simp only [Load.all, Outcome.ALL, List.flatMap_cons, List.flatMap_nil, List.filterMap_append, List.filterMap_cons,
    hdropped, hclass, List.filterMap_nil]
  cases o <;> simp [Load.counted]

theorem all_producers : (Load.all n).filterMap Load.producer = List.finRange n := by
  have hclass : ∀ o, ((List.finRange n).map (Load.counter o)).filterMap Load.producer = [] := by
    intro o
    simp [List.filterMap_map, Function.comp_def, Load.producer]
  have hdropped : ((List.finRange n).map Load.dropped).filterMap Load.producer = List.finRange n := by
    simp [List.filterMap_map, Function.comp_def, Load.producer]
  simp [Load.all, Outcome.ALL, List.filterMap_append, List.filterMap_cons, hdropped, hclass, Load.producer]

theorem Since.extend {t : Fin n} {request : Request} (h : Since t request since trace) {e : Event n}
    (he : e.arrivedAt t = none) : Since t request since (trace ++ [e]) := by
  obtain ⟨during, rfl, hlast, hnone⟩ := h
  refine ⟨during ++ [e], List.append_assoc .., hlast, ?_⟩
  intro other hmem
  rcases List.mem_append.mp hmem with hmem | hmem
  · exact hnone other hmem
  · rw [← List.mem_singleton.mp hmem] at he
    simp [Event.arrivedAt] at he

theorem Since.le {t : Fin n} {request : Request} (h : Since t request since trace) : since <+: trace := by
  obtain ⟨during, rfl, -⟩ := h
  exact List.prefix_append _ _

theorem since_arrived (t : Fin n) (request : Request) (trace : List (Event n)) :
    Since t request (trace ++ [.arrived t request]) (trace ++ [.arrived t request]) :=
  ⟨[], (List.append_nil _).symm, by simp, by simp⟩

end

/-- The response of a scrape that was made while worker `t` was busy with `request`. -/
def Scraped {n : Nat} (t : Fin n) (request : Request) (trace : List (Event n)) (response : Response) : Prop :=
  ∃ since scrape, Since t request since trace ∧ Seen since trace (Load.all n) scrape ∧
    response = ⟨200, [METRICS_TYPE], render scrape.totals scrape.status⟩

/-- Where worker `t` is with a scrape. -/
def Scraping {n : Nat} (c : Setup) (t : Fin n) (trace : List (Event n)) : Pc n → Prop
  | .idle => True
  | .observed request _ => ∃ since, Since t request since trace
  | .scraping request _ scrape => ∃ since done, Since t request since trace ∧ done ++ scrape.left = Load.all n ∧
      Seen since trace done scrape
  | .answered request _ response | .counted request _ response =>
      c.dispatch request = .metrics → Scraped t request trace response

section
variable {n : Nat} {c : Setup} {t : Fin n} {trace : List (Event n)} {s s' : Process n} {e : Event n}

theorem Scraped.extend {request : Request} {response : Response} (h : Scraped t request trace response)
    (he : e.arrivedAt t = none) : Scraped t request (trace ++ [e]) response := by
  obtain ⟨since, scrape, hsince, hseen, hr⟩ := h
  exact ⟨since, scrape, hsince.extend he, hseen.extend e, hr⟩

theorem Scraping.extend {pc : Pc n} (h : Scraping c t trace pc) (he : e.arrivedAt t = none) :
    Scraping c t (trace ++ [e]) pc := by
  cases pc with
  | idle => trivial
  | observed request o =>
      obtain ⟨since, hsince⟩ := h
      exact ⟨since, hsince.extend he⟩
  | scraping request o scrape =>
      obtain ⟨since, done, hsince, hdone, hseen⟩ := h
      exact ⟨since, done, hsince.extend he, hdone, hseen.extend e⟩
  | answered request o response => exact fun hm => (h hm).extend he
  | counted request o response => exact fun hm => (h hm).extend he

/-- The books, the slot and every scrape under way. -/
structure Watched {n : Nat} (c : Setup) (trace : List (Event n)) (s : Process n) : Prop where
  tallied : Tallied trace s
  slot : s.refresher.slot = slotAt trace
  scraping : ∀ t, Scraping c t trace (s.pc t)

theorem slotAt_snoc (h : e.published = none) : slotAt (trace ++ [e]) = slotAt trace := by
  rw [slotAt, filterMap_snoc, h, Option.toList_none, List.append_nil, slotAt]

theorem slotAt_polled (tick : Tick) (slot : Option Snapshot) : slotAt (trace ++ [.polled tick slot]) = slot := by
  rw [slotAt, filterMap_snoc]
  simp [Event.published]

/-- A step of one worker leaves the scrapes of the others as they are. -/
theorem Watched.worker (h : Watched c trace s) (hmoved : Process.Moved c s s' e) {u : Fin n} {pc : Pc n}
    (hpc : s'.pc = (s.goto u pc).pc) (hslot : s'.refresher = s.refresher) (he : e.published = none)
    (ha : ∀ t, t ≠ u → e.arrivedAt t = none) (hown : Scraping c u (trace ++ [e]) pc) :
    Watched c (trace ++ [e]) s' := by
  refine ⟨h.tallied.moved hmoved, ?_, ?_⟩
  · rw [hslot, h.slot, slotAt_snoc he]
  · intro t
    rw [hpc]
    by_cases ht : t = u
    · subst ht
      rw [s.goto_pc_self]
      exact hown
    · rw [s.goto_pc_of_ne ht]
      exact (h.scraping t).extend (ha t ht)

theorem Watched.moved (h : Watched c trace s) (hmoved : Process.Moved c s s' e) : Watched c (trace ++ [e]) s' := by
  have hm := hmoved
  cases hmoved with
  | @arrive u request hpc =>
      exact h.worker hm rfl rfl rfl (fun t ht => if_neg (Ne.symm ht)) ⟨_, since_arrived u request trace⟩
  | @begin u request o hpc metrics =>
      have hu := h.scraping u
      rw [hpc] at hu
      obtain ⟨since, hsince⟩ := hu
      exact h.worker hm rfl rfl rfl (fun _ _ => rfl)
        ⟨since, [], hsince.extend rfl, rfl, (seen_start since trace).extend _⟩
  | handle hpc other nowMs nowSecs served =>
      exact h.worker hm rfl rfl rfl (fun _ _ => rfl) fun hmetrics => absurd hmetrics other
  | @load u request o scrape load left hpc next =>
      have hu := h.scraping u
      rw [hpc] at hu
      obtain ⟨since, done, hsince, hdone, hseen⟩ := hu
      refine h.worker hm rfl rfl rfl (fun _ _ => rfl) ⟨since, done ++ [load], hsince.extend rfl, ?_, ?_⟩
      · rw [next] at hdone
        rw [← hdone, List.append_assoc, List.singleton_append]
      · exact (hseen.load h.tallied h.slot hsince.le load left).extend _
  | @rendered u request o scrape hpc done =>
      have hu := h.scraping u
      rw [hpc] at hu
      obtain ⟨since, made, hsince, hmade, hseen⟩ := hu
      rw [done, List.append_nil] at hmade
      rw [hmade] at hseen
      refine h.worker hm rfl rfl rfl (fun _ _ => rfl) ?_
      exact fun _ => ⟨since, scrape, hsince.extend rfl, hseen.extend _, rfl⟩
  | @count u request o response hpc =>
      have hu := h.scraping u
      rw [hpc] at hu
      exact h.worker hm rfl rfl rfl (fun _ _ => rfl) fun hmetrics => (hu hmetrics).extend rfl
  | reply hpc kept => exact h.worker hm rfl rfl rfl (fun _ _ => rfl) trivial
  | refresh fault p polled =>
      refine ⟨h.tallied.moved hm, (slotAt_polled ..).symm, ?_⟩
      intro t
      exact (h.scraping t).extend rfl

theorem watched_start (key : SealKey) (disk : Option Disk) (perSecond burst : Nat) :
    Watched c [] (Process.new n key disk perSecond burst) :=
  ⟨tallied_start .., rfl, fun _ => trivial⟩

theorem watched_run (key : SealKey) (disk : Option Disk) (perSecond burst : Nat) (sched : List (Choice n)) :
    Watched c (run (Process.step c) (Process.new n key disk perSecond burst) sched).2
      (run (Process.step c) (Process.new n key disk perSecond burst) sched).1 :=
  Process.moved_invariant (watched_start ..) (fun _ _ _ _ h hm => h.moved hm) sched

end

/-- A scrape under load. Whatever the other workers and the refresher do meanwhile, what a scraper
reads in the reply is, for each class, a number of replies the process had counted at some moment
since the request arrived; the gauges are all of one snapshot that was in the slot meanwhile; and
the failed polls and the lines shed are numbers of that time too. -/
theorem scrape_truthful {n : Nat} (c : Setup) (key : SealKey) (disk : Option Disk) (perSecond burst : Nat)
    (sched : List (Choice n)) (next : Choice n) {t : Fin n} {request : Request} {record : Record}
    {response : Response} {kept : Bool} (metrics : c.dispatch request = .metrics)
    (replied : (Process.step c (run (Process.step c) (Process.new n key disk perSecond burst) sched).1 next).2 =
      .replied t request record response kept) :
    let trace := (run (Process.step c) (Process.new n key disk perSecond burst) sched).2
    ∃ since totals status, Since t request since trace ∧ response.status = 200 ∧
      scrape response.body = (sections totals status).flatMap Section.values ∧
      (∀ o, Between (List.countP (Event.countsAny o)) since trace (totals o)) ∧
      (∃ moment, since <+: moment ∧ moment <+: trace ∧ describe (slotAt moment) status = status) ∧
      Between (List.countP Event.shedAny) since trace status.logDropped ∧
      Between (List.countP Event.failedPoll) since trace status.refreshFailures := by
  intro trace
  have hw : Watched c trace _ := watched_run key disk perSecond burst sched
  have hmoved := Process.step_moved (c := c)
    (s := (run (Process.step c) (Process.new n key disk perSecond burst) sched).1) next
  rw [replied] at hmoved
  generalize (Process.step c (run (Process.step c) (Process.new n key disk perSecond burst) sched).1 next).1 = s'
    at hmoved
  cases hmoved with
  | reply hpc =>
      have ht := hw.scraping t
      rw [hpc] at ht
      obtain ⟨since, scrape, hsince, hseen, rfl⟩ := ht metrics
      refine ⟨since, scrape.totals, scrape.status, hsince, rfl, scrape_render .., ?_, ?_, ?_, ?_⟩
      · intro o
        have htotal := hseen.totals o
        rwa [all_counted, replies_all] at htotal
      · exact hseen.slot (by simp [Load.all])
      · have hdropped := hseen.dropped
        rwa [all_producers, shed_all] at hdropped
      · exact hseen.failures (by simp [Load.all])

def metricsRequest : Request := ⟨"GET".toList, ⟨"/v1/sys/metrics".toList, none⟩, []⟩

/-- As far as requests for `sys/metrics` and `sys/health` go. -/
def busySetup : Setup where
  platform := samplePlatform
  mount := "secret".toList
  dispatch := fun request => if request = metricsRequest then .metrics else .health
  fallbackLogKey := ⟨sampleTokenKey.raw⟩

def scrapeTurn : Choice 2 := .worker ⟨0, Nat.two_pos⟩ metricsRequest 0 0 true

/-- The other worker's turn; the log has no room for its line. -/
def healthTurn : Choice 2 := .worker ⟨1, Nat.one_lt_two⟩ (healthRequest "GET".toList) 0 0 false

def pollTurn : Choice 2 := .refresh none samplePoll

/-- A file is loaded once the scrape has arrived, and once the snapshot has been looked at the
other worker answers a request from start to end. -/
def busySchedule : List (Choice 2) :=
  [pollTurn, scrapeTurn, pollTurn, scrapeTurn, scrapeTurn] ++ List.replicate 4 healthTurn ++
    List.replicate 17 scrapeTurn

def busyRun : Process 2 × List (Event 2) :=
  run (Process.step busySetup) (Process.new 2 sampleKey none 1 1) busySchedule

def busyReply : Response :=
  ((Process.step busySetup busyRun.1 scrapeTurn).2.repliedAt ⟨0, Nat.two_pos⟩).elim methodNotAllowed fun r => r.2.2

theorem scrape_truthful_sample : ∃ since totals status, Since ⟨0, Nat.two_pos⟩ metricsRequest since busyRun.2 ∧
    scrape busyReply.body = (sections totals status).flatMap Section.values ∧
    Between (List.countP (Event.countsAny .ok)) since busyRun.2 (totals .ok) ∧
    Between (List.countP Event.shedAny) since busyRun.2 status.logDropped ∧
    ((scrape busyReply.body).lookup (Family.requests.name ++ Outcome.ok.braced) = some 1 ∧
      (scrape busyReply.body).lookup Family.accessLogDropped.name = some 1 ∧
      (scrape busyReply.body).lookup Family.fileVersion.name = some 1) := by
  have hroute : busySetup.dispatch metricsRequest = .metrics := rfl
  have hdone : ((Process.step busySetup busyRun.1 scrapeTurn).2.repliedAt ⟨0, Nat.two_pos⟩).map Prod.fst =
      some metricsRequest := by
    decide +kernel
  obtain ⟨⟨request, record, response⟩, hreplied, rfl⟩ := Option.map_eq_some_iff.mp hdone
  obtain ⟨kept, hevent⟩ := Event.replied_of_repliedAt hreplied
  have hreply : busyReply = response := by rw [busyReply, hreplied, Option.elim_some]
  obtain ⟨since, totals, status, hsince, -, hscrape, htotals, -, hdropped, -⟩ :=
    scrape_truthful busySetup sampleKey none 1 1 busySchedule scrapeTurn hroute hevent
  rw [← hreply] at hscrape
  exact ⟨since, totals, status, hsince, hscrape, htotals .ok, hdropped, by decide +kernel, by decide +kernel,
    by decide +kernel⟩

end Kallisto.Server
