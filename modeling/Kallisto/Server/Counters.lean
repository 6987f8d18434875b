import Kallisto.Server.Process

/-!
The books of a process. A worker's counters say how many of its replies fell into each class,
and each request it took is answered, counted and handed to the log once, in turn.
-/
namespace Kallisto.Server
open Lib Kallisto.Crypto Kallisto.Resolver Kallisto.Telemetry

namespace Event
variable {n : Nat}

/-- The counter of worker `t` for the class `o` goes up. -/
def counts (t : Fin n) (o : Outcome) : Event n → Bool
  | .counted u response => u = t ∧ Outcome.of response.status = o
  | _ => false

/-- A poll that did not yield a servable file. -/
def failedPoll : Event n → Bool
  | .polled tick _ => failed tick
  | _ => false

/-- A line of worker `t` that the log had no room for. -/
def shed (t : Fin n) : Event n → Bool
  | .replied u _ _ _ kept => u = t ∧ kept = false
  | _ => false

def arrivedAt (t : Fin n) : Event n → Option Request
  | .arrived u request => if u = t then some request else none
  | _ => none

def countedAt (t : Fin n) : Event n → Option Response
  | .counted u response => if u = t then some response else none
  | _ => none

/-- What left worker `t` for the client, and the record it handed to the log. -/
def repliedAt (t : Fin n) : Event n → Option (Request × Record × Response)
  | .replied u request record response _ => if u = t then some (request, record, response) else none
  | _ => none

theorem replied_of_repliedAt {t : Fin n} {e : Event n} {request : Request} {record : Record} {response : Response}
    (h : e.repliedAt t = some (request, record, response)) : ∃ kept, e = .replied t request record response kept := by
  cases e with
  | replied u request' record' response' kept =>
      simp only [repliedAt, Option.ite_none_right_eq_some, Option.some.injEq, Prod.mk.injEq] at h
      obtain ⟨rfl, rfl, rfl, rfl⟩ := h
      exact ⟨kept, rfl⟩
  | _ => cases h

end Event

/-- The request a worker is busy with. -/
def Pc.request {n : Nat} : Pc n → Option Request
  | .idle => none
  | .observed request _ | .scraping request _ _ | .answered request _ _ | .counted request _ _ => some request

/-- A response that is counted and not yet on its way. -/
def Pc.owed {n : Nat} : Pc n → Option Response
  | .counted _ _ response => some response
  | _ => none

/-- What the layer took down about the request. -/
def Pc.noted {n : Nat} : Pc n → Option (Request × Observed)
  | .idle => none
  | .observed request o | .scraping request o _ | .answered request o _ | .counted request o _ => some (request, o)

/-- The counters hold the numbers of the events so far, as `u64` does. -/
structure Tallied {n : Nat} (trace : List (Event n)) (s : Process n) : Prop where
  metrics : ∀ t o, (s.metrics t).get o = UInt64.ofNat (trace.countP (Event.counts t o))
  failures : s.failures = UInt64.ofNat (trace.countP Event.failedPoll)
  dropped : ∀ t, s.dropped t = UInt64.ofNat (trace.countP (Event.shed t))

theorem ofNat_countP_snoc {α : Type} (p : α → Bool) (l : List α) (a : α) :
    UInt64.ofNat ((l ++ [a]).countP p) = UInt64.ofNat (l.countP p) + if p a then 1 else 0 := by
  rw [List.countP_append, List.countP_singleton]
  split_ifs
  · exact UInt64.ofNat_add ..
  · rw [Nat.add_zero, UInt64.add_zero]

section
variable {n : Nat} {c : Setup} {trace : List (Event n)} {s s' : Process n} {e : Event n}

theorem tallied_start (key : SealKey) (disk : Option Disk) (perSecond burst : Nat) :
    Tallied [] (Process.new n key disk perSecond burst) :=
  ⟨fun _ o => WorkerMetrics.get_new o, rfl, fun _ => rfl⟩

theorem Tallied.quiet (h : Tallied trace s) (hm : s'.metrics = s.metrics) (hf : s'.failures = s.failures)
    (hd : s'.dropped = s.dropped) (hc : ∀ t o, e.counts t o = false) (hp : e.failedPoll = false)
    (hs : ∀ t, e.shed t = false) : Tallied (trace ++ [e]) s' := by
  refine ⟨?_, ?_, ?_⟩
  · intro t o
    rw [hm, h.metrics, ofNat_countP_snoc, hc, if_neg Bool.false_ne_true, UInt64.add_zero]
  · rw [hf, h.failures, ofNat_countP_snoc, hp, if_neg Bool.false_ne_true, UInt64.add_zero]
  · intro t
    rw [hd, h.dropped, ofNat_countP_snoc, hs, if_neg Bool.false_ne_true, UInt64.add_zero]

theorem Tallied.moved (h : Tallied trace s) (hmoved : Process.Moved c s s' e) : Tallied (trace ++ [e]) s' := by
  cases hmoved with
  | arrive request hpc => exact h.quiet rfl rfl rfl (fun _ _ => rfl) rfl fun _ => rfl
  | begin hpc metrics => exact h.quiet rfl rfl rfl (fun _ _ => rfl) rfl fun _ => rfl
  | handle hpc other nowMs nowSecs served => exact h.quiet rfl rfl rfl (fun _ _ => rfl) rfl fun _ => rfl
  | load hpc next => exact h.quiet rfl rfl rfl (fun _ _ => rfl) rfl fun _ => rfl
  | rendered hpc done => exact h.quiet rfl rfl rfl (fun _ _ => rfl) rfl fun _ => rfl
  | @count t request o response hpc =>
      refine ⟨?_, ?_, ?_⟩
      · intro u p
        rw [ofNat_countP_snoc, ← h.metrics]
        by_cases hu : u = t
        · subst hu
          simp only [Function.update_self, WorkerMetrics.get_observe, Event.counts, true_and, decide_eq_true_eq]
        · simp [Function.update_of_ne hu, Event.counts, Ne.symm hu]
      · rw [ofNat_countP_snoc, ← h.failures]
        simp [Event.failedPoll, Process.goto]
      · intro u
        rw [ofNat_countP_snoc, ← h.dropped]
        simp [Event.shed, Process.goto]
  | @reply t request o response hpc kept =>
      refine ⟨?_, ?_, ?_⟩
      · intro u p
        rw [ofNat_countP_snoc, ← h.metrics]
        simp [Event.counts, Process.goto]
      · rw [ofNat_countP_snoc, ← h.failures]
        simp [Event.failedPoll, Process.goto]
      · intro u
        rw [ofNat_countP_snoc, ← h.dropped]
        cases kept with
        | true => simp [Event.shed]
        | false =>
            by_cases hu : u = t
            · subst hu
              simp [Event.shed]
            · simp [Event.shed, Function.update_of_ne hu, Ne.symm hu]
  | @refresh refresher tick fault p polled =>
      refine ⟨?_, ?_, ?_⟩
      · intro u p
        rw [ofNat_countP_snoc, ← h.metrics]
        simp [Event.counts]
      · rw [ofNat_countP_snoc, ← h.failures]
        cases hfailed : failed tick <;> simp [Event.failedPoll, hfailed]
      · intro u
        rw [ofNat_countP_snoc, ← h.dropped]
        simp [Event.shed]

end

/-- Worker `t` works through its requests in turn: what has arrived is what has been replied to
and at most one more, what is counted is what has been replied and at most one more, and every
record is made of the request as it was first seen and the status of its reply. -/
structure InTurn {n : Nat} (c : Setup) (t : Fin n) (trace : List (Event n)) (s : Process n) : Prop where
  arrived : trace.filterMap (Event.arrivedAt t) =
    (trace.filterMap (Event.repliedAt t)).map Prod.fst ++ (s.pc t).request.toList
  counted : trace.filterMap (Event.countedAt t) =
    (trace.filterMap (Event.repliedAt t)).map (·.2.2) ++ (s.pc t).owed.toList
  noted : ∀ request o, (s.pc t).noted = some (request, o) →
    ∃ slot, o = Observed.of c.platform c.fallbackLogKey slot request
  recorded : ∀ request record response, (request, record, response) ∈ trace.filterMap (Event.repliedAt t) →
    ∃ slot, record = (Observed.of c.platform c.fallbackLogKey slot request).record (UInt16.ofNat response.status)

section
variable {n : Nat} {c : Setup} {t : Fin n} {trace : List (Event n)} {s s' : Process n} {e : Event n}

theorem inTurn_start (key : SealKey) (disk : Option Disk) (perSecond burst : Nat) :
    InTurn c t [] (Process.new n key disk perSecond burst) where
  arrived := rfl
  counted := rfl
  noted _ _ h := by simp [Process.new, Pc.noted] at h
  recorded _ _ _ h := by simp at h

theorem filterMap_snoc {α β : Type} (f : α → Option β) (l : List α) (a : α) :
    (l ++ [a]).filterMap f = l.filterMap f ++ (f a).toList := by
  cases h : f a <;> simp [List.filterMap_append, h]

/-- A step inside the handler of some worker, or one that does not concern a worker. -/
theorem InTurn.quiet (h : InTurn c t trace s) (hr : (s'.pc t).request = (s.pc t).request)
    (ho : (s'.pc t).owed = (s.pc t).owed) (hn : (s'.pc t).noted = (s.pc t).noted) (ha : e.arrivedAt t = none)
    (hc : e.countedAt t = none) (hp : e.repliedAt t = none) : InTurn c t (trace ++ [e]) s' := by
  refine ⟨?_, ?_, ?_, ?_⟩
  · rw [filterMap_snoc, filterMap_snoc, ha, hp, hr, h.arrived]
    simp
  · rw [filterMap_snoc, filterMap_snoc, hc, hp, ho, h.counted]
    simp
  · rw [hn]
    exact h.noted
  · rw [filterMap_snoc, hp]
    simpa using h.recorded

theorem InTurn.inside (h : InTurn c t trace s) {u : Fin n} {pc : Pc n} (hpc : s'.pc = (s.goto u pc).pc)
    (hr : pc.request = (s.pc u).request) (ho : pc.owed = (s.pc u).owed) (hn : pc.noted = (s.pc u).noted)
    (ha : e.arrivedAt t = none) (hc : e.countedAt t = none) (hp : e.repliedAt t = none) :
    InTurn c t (trace ++ [e]) s' := by
  by_cases hu : t = u
  · subst hu
    exact h.quiet (by rw [hpc, s.goto_pc_self, hr]) (by rw [hpc, s.goto_pc_self, ho])
      (by rw [hpc, s.goto_pc_self, hn]) ha hc hp
  · have hsame : s'.pc t = s.pc t := by rw [hpc, s.goto_pc_of_ne hu]
    exact h.quiet (by rw [hsame]) (by rw [hsame]) (by rw [hsame]) ha hc hp

theorem InTurn.elsewhere (h : InTurn c t trace s) {u : Fin n} (hu : t ≠ u) {pc : Pc n}
    (hpc : s'.pc = (s.goto u pc).pc) (ha : e.arrivedAt t = none) (hc : e.countedAt t = none)
    (hp : e.repliedAt t = none) : InTurn c t (trace ++ [e]) s' := by
  have hsame : s'.pc t = s.pc t := by rw [hpc, s.goto_pc_of_ne hu]
  exact h.quiet (by rw [hsame]) (by rw [hsame]) (by rw [hsame]) ha hc hp

theorem InTurn.moved (h : InTurn c t trace s) (hmoved : Process.Moved c s s' e) : InTurn c t (trace ++ [e]) s' := by
  cases hmoved with
  | @arrive u request hpc =>
      by_cases hu : t = u
      · subst hu
        have harrived := h.arrived
        have hcounted := h.counted
        rw [hpc] at harrived hcounted
        refine ⟨?_, ?_, ?_, ?_⟩
        · rw [filterMap_snoc, filterMap_snoc, harrived]
          simp [Event.arrivedAt, Event.repliedAt, Pc.request]
        · rw [filterMap_snoc, filterMap_snoc, hcounted]
          simp [Event.countedAt, Event.repliedAt, Pc.owed]
        · intro request' o ho
          simp only [Process.goto_pc_self, Pc.noted, Option.some.injEq, Prod.mk.injEq] at ho
          obtain ⟨rfl, rfl⟩ := ho
          exact ⟨_, rfl⟩
        · rw [filterMap_snoc]
          simpa [Event.repliedAt] using h.recorded
      · exact h.elsewhere hu rfl (if_neg (Ne.symm hu)) rfl rfl
  | begin hpc metrics => exact h.inside rfl (by rw [hpc]; rfl) (by rw [hpc]; rfl) (by rw [hpc]; rfl) rfl rfl rfl
  | handle hpc other nowMs nowSecs served =>
      exact h.inside rfl (by rw [hpc]; rfl) (by rw [hpc]; rfl) (by rw [hpc]; rfl) rfl rfl rfl
  | load hpc next => exact h.inside rfl (by rw [hpc]; rfl) (by rw [hpc]; rfl) (by rw [hpc]; rfl) rfl rfl rfl
  | rendered hpc done => exact h.inside rfl (by rw [hpc]; rfl) (by rw [hpc]; rfl) (by rw [hpc]; rfl) rfl rfl rfl
  | @count u request o response hpc =>
      by_cases hu : t = u
      · subst hu
        have harrived := h.arrived
        have hcounted := h.counted
        have hnoted := h.noted
        rw [hpc] at harrived hcounted hnoted
        refine ⟨?_, ?_, ?_, ?_⟩
        · rw [filterMap_snoc, filterMap_snoc, harrived]
          simp [Event.arrivedAt, Event.repliedAt, Pc.request]
        · rw [filterMap_snoc, filterMap_snoc, hcounted]
          simp [Event.countedAt, Event.repliedAt, Pc.owed]
        · simpa only [Process.goto_pc_self, Pc.noted] using hnoted
        · rw [filterMap_snoc]
          simpa [Event.repliedAt] using h.recorded
      · exact h.elsewhere hu rfl rfl (if_neg (Ne.symm hu)) rfl
  | @reply u request o response hpc kept =>
      by_cases hu : t = u
      · subst hu
        have harrived := h.arrived
        have hcounted := h.counted
        rw [hpc] at harrived hcounted
        refine ⟨?_, ?_, ?_, ?_⟩
        · rw [filterMap_snoc, filterMap_snoc, harrived]
          simp [Event.arrivedAt, Event.repliedAt, Pc.request]
        · rw [filterMap_snoc, filterMap_snoc, hcounted]
          simp [Event.countedAt, Event.repliedAt, Pc.owed]
        · intro request' o' ho
          simp [Pc.noted] at ho
        · obtain ⟨slot, hslot⟩ := h.noted request o (by rw [hpc]; rfl)
          intro request' record response' hmem
          rw [filterMap_snoc, List.mem_append] at hmem
          rcases hmem with hmem | hmem
          · exact h.recorded _ _ _ hmem
          · simp only [Event.repliedAt, if_true, Option.toList_some, List.mem_singleton, Prod.mk.injEq] at hmem
            obtain ⟨rfl, rfl, rfl⟩ := hmem
            exact ⟨slot, by rw [hslot]⟩
      · exact h.elsewhere hu rfl rfl rfl (if_neg (Ne.symm hu))
  | refresh fault p polled => exact h.quiet rfl rfl rfl rfl rfl rfl

theorem countP_counts (t : Fin n) (o : Outcome) (trace : List (Event n)) :
    trace.countP (Event.counts t o) =
      (trace.filterMap (Event.countedAt t)).countP fun response => Outcome.of response.status = o := by
  rw [List.countP_filterMap]
  congr 1
  funext e
  cases e with
  | counted u response => by_cases hu : u = t <;> simp [Event.counts, Event.countedAt, hu]
  | _ => rfl

end

/-- Whatever the requests, the polls and their order: a worker's counter for a class is the number
of its replies of that class, one already counted and not yet sent included; its producer's
counter is the number of its lines the log shed, and the process-wide one that of the failed polls;
and every request that arrived is replied to, counted and recorded exactly once, in the order the
worker took them. -/
theorem requests_accounted {n : Nat} (c : Setup) (key : SealKey) (disk : Option Disk) (perSecond burst : Nat)
    (sched : List (Choice n)) :
    let s := (run (Process.step c) (Process.new n key disk perSecond burst) sched).1
    let trace := (run (Process.step c) (Process.new n key disk perSecond burst) sched).2
    (∀ t o, (s.metrics t).get o = UInt64.ofNat (((trace.filterMap (Event.repliedAt t)).map (·.2.2) ++
      (s.pc t).owed.toList).countP fun response => Outcome.of response.status = o)) ∧
    s.failures = UInt64.ofNat (trace.countP Event.failedPoll) ∧
    (∀ t, s.dropped t = UInt64.ofNat (trace.countP (Event.shed t))) ∧ ∀ t, InTurn c t trace s := by
  intro s trace
  have htally : Tallied trace s :=
    Process.moved_invariant (tallied_start key disk perSecond burst) (fun _ _ _ _ h hm => h.moved hm) sched
  have hturn : ∀ t, InTurn c t trace s := fun t =>
    Process.moved_invariant (inTurn_start key disk perSecond burst) (fun _ _ _ _ h hm => h.moved hm) sched
  refine ⟨?_, htally.failures, htally.dropped, hturn⟩
  intro t o
  rw [htally.metrics, countP_counts, (hturn t).counted]

end Kallisto.Server
