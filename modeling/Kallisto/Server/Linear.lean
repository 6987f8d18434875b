import Kallisto.Server.Scrapes

/-!
What the clients of one process see together. Each reply is the one the server would have given
had it stood still at some moment since the request arrived, and the files served at these
moments only get newer; so no client is shown an older file than one somebody was shown before
it asked.
-/
namespace Kallisto.Server
open Lib Kallisto.Crypto Kallisto.Policy Kallisto.Resolver Kallisto.Telemetry

section Unsealed
variable {c : Setup} {snapshot : Snapshot} {nowMs : Nat} {nowSecs : UInt64} {w : Worker} {request : Request}

theorem gate_unsealed {mount : Text} {limiter : RateLimiter} {uri : Uri} {action : Text} {r : Response}
    (h : gate mount limiter nowMs uri action = .error r) : r.status ≠ 503 := by
  have hroute : ∀ path, (routeNotFound path).status ≠ 503 := by simp [routeNotFound, jsonResponse]
  unfold gate at h
  cases hl : (limiter.tryAcquireAt nowMs).2 with
  | error retryAfter =>
      simp only [hl, Except.error.injEq] at h
      subst h
      simp [tooMany]
  | ok u =>
      simp only [hl] at h
      cases he : extractMountAndPath uri.path action with
      | none =>
          simp only [he, Except.error.injEq] at h
          exact h ▸ hroute _
      | some named =>
          simp only [he] at h
          split_ifs at h
          cases h
          exact hroute _

theorem denied_unsealed : denied.status ≠ 503 := by simp [denied, jsonResponse]

theorem absent_unsealed : absent.status ≠ 503 := by simp [absent, jsonResponse]

theorem readRefusal_unsealed {P : Platform} {headers : List (Text × Bytes)} {uri : Uri} {r : Response}
    (h : readRefusal P snapshot headers uri = some r) : r.status ≠ 503 := by
  unfold readRefusal at h
  split_ifs at h with hp
  · cases h
    exact denied_unsealed
  · split at h
    · split_ifs at h
      cases h
      exact absent_unsealed
    · cases h

theorem renderSecret_unsealed (P : Platform) (path : Text) : (renderSecret P snapshot path w).2.status ≠ 503 := by
  unfold renderSecret
  dsimp only
  split
  · simp [jsonResponse]
  · simp [jsonResponse]
  · exact absent_unsealed

/-- Once a snapshot is loaded, the gate refuses for other reasons or hands it on. -/
theorem accept_unsealed (snapshot : Snapshot) (nowMs : Nat) (w : Worker) (mount : Text) (uri : Uri) (action : Text) :
    (∃ w' r, accept mount (fun _ => some snapshot) nowMs w uri action = (w', .error r) ∧ r.status ≠ 503) ∨
      ∃ w' path, accept mount (fun _ => some snapshot) nowMs w uri action = (w', .ok (snapshot, path)) := by
  have hloaded : (accept mount (fun _ => some snapshot) nowMs w uri action).2 = _ := accept_loaded rfl
  rcases haccept : accept mount (fun _ => some snapshot) nowMs w uri action with ⟨w', outcome⟩
  rw [haccept] at hloaded
  cases hgate : gate mount w.limiter nowMs uri action with
  | error r =>
      rw [hgate] at hloaded
      exact .inl ⟨w', r, congrArg (Prod.mk w') hloaded, gate_unsealed hgate⟩
  | ok path =>
      rw [hgate] at hloaded
      exact .inr ⟨w', path, congrArg (Prod.mk w') hloaded⟩

theorem readSecret_unsealed (P : Platform) (mount : Text) :
    (readSecret P mount (fun _ => some snapshot) nowMs w request).2.status ≠ 503 := by
  unfold readSecret
  split_ifs
  · exact denied_unsealed
  · rcases accept_unsealed snapshot nowMs w mount request.uri DATA with
      ⟨w', r, haccept, hr⟩ | ⟨w', path, haccept⟩
    · rw [haccept]
      exact hr
    · rw [haccept]
      dsimp only
      cases hrefusal : readRefusal P snapshot request.headers request.uri with
      | some refusal => exact readRefusal_unsealed hrefusal
      | none => exact renderSecret_unsealed P path

theorem listChildren_unsealed (P : Platform) (mount : Text) (token : Option Text) (path : Text) :
    (listChildren P snapshot mount token path).status ≠ 503 := by
  unfold listChildren
  dsimp only
  split_ifs
  · exact denied_unsealed
  · exact absent_unsealed
  · simp [jsonResponse]

theorem describeSecret_unsealed (P : Platform) (token : Option Text) (uri : Uri) (path : Text) :
    (describeSecret P snapshot token uri path).status ≠ 503 := by
  unfold describeSecret
  split_ifs
  · exact denied_unsealed
  · exact absent_unsealed
  · simp [jsonResponse]

theorem readMetadata_unsealed (P : Platform) (mount : Text) :
    (readMetadata P mount (fun _ => some snapshot) nowMs w request).2.status ≠ 503 := by
  unfold readMetadata
  dsimp only
  by_cases hmethod : (!isListing request && !isReadMethod request.method) = true
  · rw [if_pos hmethod]
    exact denied_unsealed
  · rw [if_neg hmethod]
    rcases accept_unsealed snapshot nowMs w mount request.uri METADATA with
      ⟨w', r, haccept, hr⟩ | ⟨w', path, haccept⟩
    · rw [haccept]
      exact hr
    · rw [haccept]
      dsimp only
      split_ifs
      · exact listChildren_unsealed _ _ _ _
      · exact describeSecret_unsealed _ _ _ _

theorem refuseWrite_unsealed : (refuseWrite nowMs w).2.status ≠ 503 := by
  unfold refuseWrite
  rcases w.limiter.tryAcquireAt nowMs with ⟨limiter, permit⟩
  cases permit with
  | error retryAfter => simp [tooMany]
  | ok u => exact denied_unsealed

theorem tokenSelf_unsealed (P : Platform) :
    (tokenSelf P (fun _ => some snapshot) w request).2.status ≠ 503 := by
  unfold tokenSelf
  dsimp only
  split_ifs
  · simp [jsonResponse]
  · cases snapshot.grant P (presentedToken request.headers) with
    | some grant => simp [jsonResponse]
    | none => exact denied_unsealed

/-- With a file loaded no route answers as a sealed vault does. -/
theorem respond_unsealed (e : Endpoint) : (respond c e (some snapshot) nowMs nowSecs w request).2.status ≠ 503 := by
  cases e with
  | kv route =>
      cases route with
      | data => exact readSecret_unsealed _ _
      | metadata => exact readMetadata_unsealed _ _
      | subkeys => exact refuseWrite_unsealed
      | delete => exact refuseWrite_unsealed
      | undelete => exact refuseWrite_unsealed
      | destroy => exact refuseWrite_unsealed
      | lookupSelf => exact tokenSelf_unsealed _
      | renewSelf => exact tokenSelf_unsealed _
  | _ => simp [respond, Server.health, methodNotAllowed, routeNotFound, jsonResponse]

end Unsealed

/-- The version served once these events had happened. -/
def versionAt {n : Nat} (trace : List (Event n)) : Option UInt64 := (slotAt trace).map Snapshot.version

/-- The response is what the server, standing still after `moment`, answers some worker's client. -/
def AnswerAt {n : Nat} (c : Setup) (request : Request) (response : Response) (moment : List (Event n)) : Prop :=
  ∃ nowMs nowSecs w, response = (respond c (c.dispatch request) (slotAt moment) nowMs nowSecs w request).2

/-- The response answers a request that worker `t` has been busy with, as of a moment since it came. -/
def Linearized {n : Nat} (c : Setup) (t : Fin n) (request : Request) (response : Response)
    (trace : List (Event n)) : Prop :=
  ∃ since moment, Since t request since trace ∧ since <+: moment ∧ moment <+: trace ∧
    AnswerAt c request response moment

/-- Where worker `t` is with a request for anything but the metrics. -/
def Answering {n : Nat} (c : Setup) (t : Fin n) (trace : List (Event n)) : Pc n → Prop
  | .idle => True
  | .observed request _ => ∃ since, Since t request since trace
  | .scraping request _ _ => c.dispatch request = .metrics
  | .answered request _ response | .counted request _ response =>
      c.dispatch request ≠ .metrics → Linearized c t request response trace

/-- The file served only gets newer, and before the cache has been looked at there is none. -/
structure Rising {n : Nat} (trace : List (Event n)) (s : Process n) : Prop where
  slot : s.refresher.slot = slotAt trace
  cold : s.warmed = false → s.refresher.slot = none
  newer : ∀ p q, p <+: q → q <+: trace → AtLeast (versionAt p) (versionAt q)

section
variable {n : Nat} {c : Setup} {t : Fin n} {trace : List (Event n)} {s s' : Process n} {e : Event n}

theorem Linearized.extend {request : Request} {response : Response} (h : Linearized c t request response trace)
    (he : e.arrivedAt t = none) : Linearized c t request response (trace ++ [e]) := by
  obtain ⟨since, moment, hsince, hfrom, hto, hanswer⟩ := h
  exact ⟨since, moment, hsince.extend he, hfrom, hto.trans (List.prefix_append _ _), hanswer⟩

theorem Answering.extend {pc : Pc n} (h : Answering c t trace pc) (he : e.arrivedAt t = none) :
    Answering c t (trace ++ [e]) pc := by
  cases pc with
  | idle => trivial
  | observed request o =>
      obtain ⟨since, hsince⟩ := h
      exact ⟨since, hsince.extend he⟩
  | scraping request o scrape => exact h
  | answered request o response => exact fun hm => (h hm).extend he
  | counted request o response => exact fun hm => (h hm).extend he

theorem Rising.snoc (h : Rising trace s) (hslot : s'.refresher.slot = slotAt (trace ++ [e]))
    (hcold : s'.warmed = false → s'.refresher.slot = none)
    (hnew : AtLeast (versionAt trace) (versionAt (trace ++ [e]))) : Rising (trace ++ [e]) s' := by
  refine ⟨hslot, hcold, ?_⟩
  intro p q hpq hq
  rcases List.prefix_concat_iff.mp hq with rfl | hq
  · rcases List.prefix_concat_iff.mp hpq with rfl | hp
    · exact AtLeast.refl _
    · exact (h.newer p trace hp (List.prefix_refl _)).trans hnew
  · exact h.newer p q hpq hq

theorem Rising.quiet (h : Rising trace s) (hr : s'.refresher = s.refresher) (hw : s'.warmed = s.warmed)
    (he : e.published = none) : Rising (trace ++ [e]) s' := by
  have hsame : slotAt (trace ++ [e]) = slotAt trace := slotAt_snoc he
  apply h.snoc
  · rw [hr, h.slot, hsame]
  · rw [hr, hw]
    exact h.cold
  · rw [versionAt, versionAt, hsame]
    exact AtLeast.refl _

theorem Rising.moved (h : Rising trace s) (hmoved : Process.Moved c s s' e) : Rising (trace ++ [e]) s' := by
  cases hmoved with
  | @refresh refresher tick fault p polled =>
      have hversion : versionAt (trace ++ [.polled tick refresher.slot]) = refresher.slot.map Snapshot.version := by
        rw [versionAt, slotAt_polled]
      apply h.snoc
      · rw [slotAt_polled]
      · intro hcold
        cases hcold
      · rw [hversion, versionAt, ← h.slot]
        cases hwarm : s.warmed with
        | false =>
            rw [h.cold hwarm]
            intro v hv
            cases hv
        | true =>
            rw [hwarm, if_pos rfl] at polled
            have hpoll := pollOnce_atLeast (onlySealed_univ c.platform.aead s.refresher.key) p
            rw [polled] at hpoll
            exact hpoll
  | _ => exact h.quiet rfl rfl rfl

/-- A step of one worker leaves the others where they are. -/
theorem answering_worker (h : ∀ t, Answering c t trace (s.pc t)) {u : Fin n} {pc : Pc n}
    (hpc : s'.pc = (s.goto u pc).pc) (ha : ∀ t, t ≠ u → e.arrivedAt t = none)
    (hown : Answering c u (trace ++ [e]) pc) (t : Fin n) : Answering c t (trace ++ [e]) (s'.pc t) := by
  rw [hpc]
  by_cases ht : t = u
  · subst ht
    rw [s.goto_pc_self]
    exact hown
  · rw [s.goto_pc_of_ne ht]
    exact (h t).extend (ha t ht)

theorem answering_moved (hr : Rising trace s) (h : ∀ t, Answering c t trace (s.pc t))
    (hmoved : Process.Moved c s s' e) : ∀ t, Answering c t (trace ++ [e]) (s'.pc t) := by
  cases hmoved with
  | @arrive u request hpc =>
      exact answering_worker h rfl (fun t ht => if_neg (Ne.symm ht)) ⟨_, since_arrived u request trace⟩
  | begin hpc metrics => exact answering_worker h rfl (fun _ _ => rfl) metrics
  | @handle u request o hpc other nowMs nowSecs w response served =>
      have hu := h u
      rw [hpc] at hu
      obtain ⟨since, hsince⟩ := hu
      have hanswer : AnswerAt c request response trace :=
        ⟨nowMs, nowSecs, s.workers u, by rw [← hr.slot, served]⟩
      have hlinear : Linearized c u request response trace :=
        ⟨since, trace, hsince, hsince.le, List.prefix_refl _, hanswer⟩
      exact answering_worker h rfl (fun _ _ => rfl) fun _ => hlinear.extend rfl
  | @load u request o scrape load left hpc next =>
      have hu := h u
      rw [hpc] at hu
      exact answering_worker h rfl (fun _ _ => rfl) hu
  | @rendered u request o scrape hpc done =>
      have hu := h u
      rw [hpc] at hu
      exact answering_worker h rfl (fun _ _ => rfl) fun hm => absurd hu hm
  | @count u request o response hpc =>
      have hu := h u
      rw [hpc] at hu
      exact answering_worker h rfl (fun _ _ => rfl) fun hm => (hu hm).extend rfl
  | reply hpc kept => exact answering_worker h rfl (fun _ _ => rfl) trivial
  | refresh fault p polled => exact fun t => (h t).extend rfl

end

/-- Every reply so far has its moment. -/
def RepliesLinearized {n : Nat} (c : Setup) (trace : List (Event n)) : Prop :=
  ∀ before t request record response kept after, trace = before ++ .replied t request record response kept :: after →
    c.dispatch request ≠ .metrics → Linearized c t request response before

structure Consistent {n : Nat} (c : Setup) (trace : List (Event n)) (s : Process n) : Prop where
  rising : Rising trace s
  answering : ∀ t, Answering c t trace (s.pc t)
  replies : RepliesLinearized c trace

section
variable {n : Nat} {c : Setup} {trace : List (Event n)} {s s' : Process n} {e : Event n}

/-- A request that is being served came last. -/
theorem Since.after {t : Fin n} {request other : Request} {since earlier later : List (Event n)}
    (h : Since t request since (earlier ++ later)) (hmem : .arrived t other ∈ later) : earlier <+: since := by
  obtain ⟨during, hsplit, -, hnone⟩ := h
  rcases List.append_eq_append_iff.mp hsplit with ⟨x, hx, -⟩ | ⟨x, -, hx⟩
  · exact ⟨x, hx.symm⟩
  · exact absurd (hx ▸ List.mem_append_right x hmem) (hnone other)

theorem Consistent.moved (h : Consistent c trace s) (hmoved : Process.Moved c s s' e) :
    Consistent c (trace ++ [e]) s' := by
  refine ⟨h.rising.moved hmoved, answering_moved h.rising h.answering hmoved, ?_⟩
  intro before t request record response kept after hsplit hother
  rcases List.eq_nil_or_concat after with rfl | ⟨after, last, rfl⟩
  · obtain ⟨rfl, hlast⟩ := List.append_inj' hsplit rfl
    cases List.singleton_inj.mp hlast
    cases hmoved with
    | reply hpc =>
        have ht := h.answering t
        rw [hpc] at ht
        exact ht hother
  · have hassoc : before ++ .replied t request record response kept :: after.concat last =
        (before ++ .replied t request record response kept :: after) ++ [last] := by simp
    rw [hassoc] at hsplit
    exact h.replies _ _ _ _ _ _ _ (List.append_inj' hsplit rfl).1 hother

theorem consistent_start (key : SealKey) (disk : Option Disk) (perSecond burst : Nat) :
    Consistent c [] (Process.new n key disk perSecond burst) where
  rising := by
    refine ⟨rfl, fun _ => rfl, ?_⟩
    intro p q hpq hq
    rw [List.prefix_nil.mp hq] at hpq
    rw [List.prefix_nil.mp hq, List.prefix_nil.mp hpq]
    exact AtLeast.refl _
  answering _ := trivial
  replies before t request record response kept after h := by simp at h

theorem isSome_of_atLeast {a b : Option UInt64} (h : AtLeast a b) (ha : a.isSome) : b.isSome := by
  obtain ⟨v, hv⟩ := Option.isSome_iff_exists.mp ha
  obtain ⟨w, hw, -⟩ := h v hv
  exact Option.isSome_iff_exists.mpr ⟨w, hw⟩

theorem AnswerAt.unsealed {request : Request} {response : Response} {moment : List (Event n)}
    (h : AnswerAt c request response moment) (hloaded : (versionAt moment).isSome) : response.status ≠ 503 := by
  obtain ⟨nowMs, nowSecs, w, rfl⟩ := h
  rw [versionAt, Option.isSome_map] at hloaded
  obtain ⟨snapshot, hs⟩ := Option.isSome_iff_exists.mp hloaded
  rw [hs]
  exact respond_unsealed _

end

/-- Two replies of a run, whichever workers gave them. Each is what a server standing still at one
moment answers; and where the second request arrived after the first reply had left, the file at
its moment is no older, and it is not turned away as by a sealed vault if the first found a file. -/
theorem replies_monotone {n : Nat} (c : Setup) (key : SealKey) (disk : Option Disk) (perSecond burst : Nat)
    (sched : List (Choice n)) {before after before' after' : List (Event n)} {t t' : Fin n}
    {request request' : Request} {record record' : Record} {response response' : Response} {kept kept' : Bool}
    (first : (run (Process.step c) (Process.new n key disk perSecond burst) sched).2 =
      before ++ .replied t request record response kept :: after)
    (second : (run (Process.step c) (Process.new n key disk perSecond burst) sched).2 =
      before' ++ .replied t' request' record' response' kept' :: after')
    (other : c.dispatch request ≠ .metrics) (other' : c.dispatch request' ≠ .metrics) :
    ∃ moment since' moment', moment <+: before ∧ AnswerAt c request response moment ∧
      Since t' request' since' before' ∧ since' <+: moment' ∧ moment' <+: before' ∧
      AnswerAt c request' response' moment' ∧
      ∀ between arrival, before' = before ++ .replied t request record response kept :: between →
        .arrived t' arrival ∈ between →
          AtLeast (versionAt moment) (versionAt moment') ∧
            ((versionAt moment).isSome → response'.status ≠ 503) := by
  have h : Consistent c (run (Process.step c) (Process.new n key disk perSecond burst) sched).2 _ :=
    Process.moved_invariant (consistent_start key disk perSecond burst) (fun _ _ _ _ h hm => h.moved hm) sched
  obtain ⟨-, moment, -, -, hto, hanswer⟩ := h.replies _ _ _ _ _ _ _ first other
  obtain ⟨since', moment', hsince', hfrom', hto', hanswer'⟩ := h.replies _ _ _ _ _ _ _ second other'
  refine ⟨moment, since', moment', hto, hanswer, hsince', hfrom', hto', hanswer', ?_⟩
  intro between arrival hbetween harrival
  have hlater : before <+: since' := (hbetween ▸ hsince').after (List.mem_cons_of_mem _ harrival)
  have hmoments : moment <+: moment' := (hto.trans hlater).trans hfrom'
  have hrun : moment' <+: (run (Process.step c) (Process.new n key disk perSecond burst) sched).2 := by
    rw [second]
    exact hto'.trans (List.prefix_append _ _)
  have hnewer := h.rising.newer moment moment' hmoments hrun
  exact ⟨hnewer, fun hloaded => hanswer'.unsealed (isSome_of_atLeast hnewer hloaded)⟩

theorem eq_take_cons_drop {α : Type} {l : List α} {i : Nat} {a : α} (h : l[i]? = some a) :
    l = l.take i ++ a :: l.drop (i + 1) := by
  obtain ⟨hi, rfl⟩ := List.getElem?_eq_some_iff.mp h
  rw [List.getElem_cons_drop, List.take_append_drop]

theorem mem_of_arrivedAt {n : Nat} {events : List (Event n)} {i : Nat} {t : Fin n} {request : Request}
    (h : events[i]?.bind (Event.arrivedAt t) = some request) : .arrived t request ∈ events := by
  obtain ⟨e, he, ht⟩ := Option.bind_eq_some_iff.mp h
  cases e with
  | arrived u asked =>
      simp only [Event.arrivedAt, Option.ite_none_right_eq_some, Option.some.injEq] at ht
      obtain ⟨rfl, rfl⟩ := ht
      exact List.mem_of_getElem? he
  | _ => cases ht

theorem getElem?_of_repliedAt {n : Nat} {events : List (Event n)} {i : Nat} {t : Fin n} {request : Request}
    {record : Record} {response : Response}
    (h : events[i]?.bind (Event.repliedAt t) = some (request, record, response)) :
    ∃ kept, events[i]? = some (.replied t request record response kept) := by
  obtain ⟨e, he, ht⟩ := Option.bind_eq_some_iff.mp h
  obtain ⟨kept, rfl⟩ := Event.replied_of_repliedAt ht
  exact ⟨kept, he⟩

def askTurn : Choice 2 := .worker ⟨0, Nat.two_pos⟩ (healthRequest "GET".toList) 0 0 true

/-- The first poll looks for a cache, and there is none. One worker answers before a file is
loaded and the other after. -/
def loadingSchedule : List (Choice 2) :=
  pollTurn :: List.replicate 4 askTurn ++ pollTurn :: List.replicate 4 healthTurn

def loadingTrace : List (Event 2) :=
  (run (Process.step busySetup) (Process.new 2 sampleKey none 1 1) loadingSchedule).2

theorem replies_monotone_sample : ∃ r r' moment moment',
    r.status = 503 ∧ r'.status = 200 ∧ AnswerAt busySetup (healthRequest "GET".toList) r moment ∧
      AnswerAt busySetup (healthRequest "GET".toList) r' moment' ∧ moment <+: loadingTrace ∧ moment' <+: loadingTrace ∧
      AtLeast (versionAt (n := 2) moment) (versionAt (n := 2) moment') := by
  let replied (t : Fin 2) (i : Nat) := loadingTrace[i]?.bind (Event.repliedAt t)
  let told (r : Request × Record × Response) := (r.1, r.2.2.status)
  have hasked : (replied ⟨0, Nat.two_pos⟩ 4).map told = some (healthRequest "GET".toList, 503) := by decide +kernel
  have hlooked : (replied ⟨1, Nat.one_lt_two⟩ 9).map told = some (healthRequest "GET".toList, 200) := by decide +kernel
  obtain ⟨⟨_, record, r⟩, hreplied, htold⟩ := Option.map_eq_some_iff.mp hasked
  obtain ⟨⟨_, record', r'⟩, hreplied', htold'⟩ := Option.map_eq_some_iff.mp hlooked
  obtain ⟨rfl, hstatus⟩ := Prod.mk.inj htold
  obtain ⟨rfl, hstatus'⟩ := Prod.mk.inj htold'
  obtain ⟨kept, hfirst⟩ := getElem?_of_repliedAt hreplied
  obtain ⟨kept', hsecond⟩ := getElem?_of_repliedAt hreplied'
  have hother : busySetup.dispatch (healthRequest "GET".toList) ≠ .metrics := by decide
  have hbefore : (loadingTrace.take 9)[4]? = loadingTrace[4]? := List.getElem?_take_of_lt (by decide)
  have hbetween := eq_take_cons_drop (hbefore.trans hfirst)
  rw [List.take_take] at hbetween
  have harrived : ((loadingTrace.take 9).drop 5)[1]?.bind (Event.arrivedAt ⟨1, Nat.one_lt_two⟩) =
      some (healthRequest "GET".toList) := by
    decide +kernel
  obtain ⟨moment, since', moment', hmoment, hanswer, -, -, hmoment', hanswer', hlater⟩ :=
    replies_monotone busySetup sampleKey none 1 1 loadingSchedule (eq_take_cons_drop hfirst)
      (eq_take_cons_drop hsecond) hother hother
  exact ⟨r, r', moment, moment', hstatus, hstatus', hanswer, hanswer', hmoment.trans (List.take_prefix _ _),
    hmoment'.trans (List.take_prefix _ _), (hlater _ _ hbetween (mem_of_arrivedAt harrived)).1⟩

end Kallisto.Server
