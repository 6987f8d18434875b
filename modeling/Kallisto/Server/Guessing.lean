import Kallisto.Lib.Runs
import Kallisto.Server.Reads
import Mathlib.Tactic.Ring

/-!
What a guess at a token costs. Each handler calls the limiter for itself; here the handlers
are sorted by whether they do, and those that do are bounded over every window of a run.
-/
namespace Kallisto.Server
open Lib Kallisto.Crypto Kallisto.Policy Kallisto.Resolver

/-- The requests whose handler reaches the limiter. -/
def reachesLimiter (route : Route) (request : Request) : Bool :=
  match route with
  | .data => isReadMethod request.method
  | .metadata => isListMethod request.method || isReadMethod request.method
  | .subkeys | .delete | .undelete | .destroy => true
  | .lookupSelf | .renewSelf => false

/-- Either refused for its rate, or a permit poorer. -/
def Metered (P : Platform) (mount : Text) (route : Route) (slot : Nat → Option Snapshot) (nowMs : Nat)
    (w : Worker) (request : Request) : Prop :=
  (handle P mount route slot nowMs w request).2.status = 429 ∨
    ((w.limiter.tryAcquireAt nowMs).2 = .ok () ∧
      (handle P mount route slot nowMs w request).1.limiter = (w.limiter.tryAcquireAt nowMs).1)

section Handlers
variable {P : Platform} {mount : Text} {slot : Nat → Option Snapshot} {nowMs : Nat} {w : Worker}
  {request : Request} {route : Route}

theorem accept_throttled {uri : Uri} {action : Text} {w' : Worker} {outcome : Except Response (Snapshot × Text)}
    (h : accept mount slot nowMs w uri action = (w', outcome)) :
    w'.limiter = (w.limiter.tryAcquireAt nowMs).1 ∧
      ∀ retryAfter, (w.limiter.tryAcquireAt nowMs).2 = .error retryAfter → outcome = .error (tooMany retryAfter) := by
  constructor
  · have hw : (accept mount slot nowMs w uri action).1 = { w with limiter := (w.limiter.tryAcquireAt nowMs).1 } :=
      accept_limiter
    rw [h] at hw
    exact congrArg Worker.limiter hw
  · intro retryAfter hlimit
    unfold accept at h
    rcases hl : w.limiter.tryAcquireAt nowMs with ⟨limiter, permit⟩
    rw [hl] at h hlimit
    subst hlimit
    cases h
    rfl

theorem renderSecret_limiter (snapshot : Snapshot) (path : Text) (w : Worker) :
    (renderSecret P snapshot path w).1.limiter = w.limiter := rfl

/-- What a handler owes that reaches the limiter: the limiter's new state is the worker's,
and no permit means 429. -/
def Throttles (nowMs : Nat) (w : Worker) (reply : Worker × Response) : Prop :=
  reply.1.limiter = (w.limiter.tryAcquireAt nowMs).1 ∧
    ∀ retryAfter, (w.limiter.tryAcquireAt nowMs).2 = .error retryAfter → reply.2.status = 429

theorem readSecret_throttles (h : isReadMethod request.method = true) :
    Throttles nowMs w (readSecret P mount slot nowMs w request) := by
  unfold readSecret
  simp only [h, Bool.not_true, Bool.false_eq_true, if_false]
  rcases ha : accept mount slot nowMs w request.uri DATA with ⟨w', outcome⟩
  obtain ⟨hw, hthrottled⟩ := accept_throttled ha
  cases outcome with
  | error response =>
      refine ⟨hw, ?_⟩
      intro retryAfter hlimit
      cases hthrottled retryAfter hlimit
      rfl
  | ok admitted =>
      constructor
      · dsimp only
        cases readRefusal P admitted.1 request.headers request.uri with
        | some refusal => exact hw
        | none => exact (renderSecret_limiter ..).trans hw
      · intro retryAfter hlimit
        cases hthrottled retryAfter hlimit

theorem listing_or_read : (isListing request = true ∨ isReadMethod request.method = true) ↔
    (isListMethod request.method || isReadMethod request.method) = true := by
  unfold isListing
  cases isListMethod request.method <;> cases isReadMethod request.method <;> simp

theorem readMetadata_throttles (h : (isListMethod request.method || isReadMethod request.method) = true) :
    Throttles nowMs w (readMetadata P mount slot nowMs w request) := by
  have hcond : (!isListing request && !isReadMethod request.method) = false := by
    rcases listing_or_read.mpr h with hl | hm
    · simp [hl]
    · simp [hm]
  unfold readMetadata
  simp only [hcond, Bool.false_eq_true, if_false]
  rcases ha : accept mount slot nowMs w request.uri METADATA with ⟨w', outcome⟩
  obtain ⟨hw, hthrottled⟩ := accept_throttled ha
  cases outcome with
  | error response =>
      refine ⟨hw, ?_⟩
      intro retryAfter hlimit
      cases hthrottled retryAfter hlimit
      rfl
  | ok admitted =>
      constructor
      · dsimp only
        split_ifs <;> exact hw
      · intro retryAfter hlimit
        cases hthrottled retryAfter hlimit

theorem refuseWrite_throttles : Throttles nowMs w (refuseWrite nowMs w) := by
  unfold refuseWrite Throttles
  rcases w.limiter.tryAcquireAt nowMs with ⟨limiter, permit⟩
  cases permit with
  | error retryAfter => exact ⟨rfl, fun _ _ => rfl⟩
  | ok u =>
      refine ⟨rfl, ?_⟩
      intro retryAfter hlimit
      cases hlimit

theorem handle_throttles (h : reachesLimiter route request = true) :
    Throttles nowMs w (handle P mount route slot nowMs w request) := by
  cases route with
  | data => exact readSecret_throttles h
  | metadata => exact readMetadata_throttles h
  | subkeys => exact refuseWrite_throttles
  | delete => exact refuseWrite_throttles
  | undelete => exact refuseWrite_throttles
  | destroy => exact refuseWrite_throttles
  | lookupSelf => cases h
  | renewSelf => cases h

theorem tokenSelf_free :
    (tokenSelf P slot w request).1 = w ∧ (tokenSelf P slot w request).2.status ≠ 429 := by
  unfold tokenSelf
  cases slot 0 with
  | none => exact ⟨rfl, by simp [sealed, jsonResponse]⟩
  | some snapshot =>
      dsimp only
      split_ifs
      · exact ⟨rfl, by simp [jsonResponse]⟩
      · cases snapshot.grant P (presentedToken request.headers) with
        | none => exact ⟨rfl, by simp [denied, jsonResponse]⟩
        | some grant => exact ⟨rfl, by simp [jsonResponse]⟩

/-- The other requests are answered at no cost. -/
theorem handle_free (h : reachesLimiter route request = false) :
    (handle P mount route slot nowMs w request).1 = w ∧
      (handle P mount route slot nowMs w request).2.status ≠ 429 := by
  cases route with
  | data =>
      have hr : isReadMethod request.method = false := h
      simp [handle, readSecret, hr, denied, jsonResponse]
  | metadata =>
      have hr : ¬ (isListing request = true ∨ isReadMethod request.method = true) := by
        rw [listing_or_read]
        exact ne_true_of_eq_false h
      rw [not_or] at hr
      simp [handle, readMetadata, hr.1, hr.2, denied, jsonResponse]
  | subkeys => cases h
  | delete => cases h
  | undelete => cases h
  | destroy => cases h
  | lookupSelf => exact tokenSelf_free
  | renewSelf => exact tokenSelf_free

theorem metered_iff : Metered P mount route slot nowMs w request ↔ reachesLimiter route request = true := by
  constructor
  · intro hmetered
    by_contra hfree
    obtain ⟨hw, hstatus⟩ : (handle P mount route slot nowMs w request).1 = w ∧
      (handle P mount route slot nowMs w request).2.status ≠ 429 := handle_free (Bool.eq_false_of_not_eq_true hfree)
    rcases hmetered with h429 | ⟨hok, hlimiter⟩
    · exact hstatus h429
    · rw [hw] at hlimiter
      exact RateLimiter.tryAcquireAt_ok_ne hok hlimiter.symm
  · intro h
    obtain ⟨hlimiter, hstatus⟩ : Throttles nowMs w (handle P mount route slot nowMs w request) := handle_throttles h
    cases hpermit : (w.limiter.tryAcquireAt nowMs).2 with
    | ok u => exact .inr ⟨hpermit, hlimiter⟩
    | error retryAfter => exact .inl (hstatus retryAfter hpermit)

end Handlers

/-- One request as it reaches a worker, with what the slot and the clock say meanwhile. -/
structure Arrival where
  route : Route
  slot : Nat → Option Snapshot
  nowMs : Nat
  request : Request

def serve (P : Platform) (mount : Text) (w : Worker) (a : Arrival) : Worker × (Arrival × Response) :=
  let (w, response) := handle P mount a.route a.slot a.nowMs w a.request
  (w, (a, response))

/-- Reached the limiter and was let through. -/
def letThrough (e : Arrival × Response) : Bool :=
  reachesLimiter e.1.route e.1.request && e.2.status != 429

section Windows
variable {P : Platform} {mount : Text} {perSecond burst lo len : Nat} {w : Worker} {a : Arrival}

theorem serve_bounded (h : w.limiter.Bounded perSecond burst) :
    (serve P mount w a).1.limiter.Bounded perSecond burst := by
  change (handle P mount a.route a.slot a.nowMs w a.request).1.limiter.Bounded perSecond burst
  cases hr : reachesLimiter a.route a.request with
  | true =>
      rw [(handle_throttles hr).1]
      exact RateLimiter.bounded_step h a.nowMs
  | false =>
      rw [(handle_free hr).1]
      exact h

theorem run_bounded (h : w.limiter.Bounded perSecond burst) (arrivals : List Arrival) :
    (run (serve P mount) w arrivals).1.limiter.Bounded perSecond burst :=
  run_invariant (P := fun _ (w : Worker) => w.limiter.Bounded perSecond burst) h
    (fun _ _ _ hw => serve_bounded hw) arrivals

/-- A request that is let through pays for it out of the window's credit. -/
theorem serve_credit (h : w.limiter.permits ≤ w.limiter.capacity) (hlo : lo ≤ a.nowMs) (hhi : a.nowMs ≤ lo + len) :
    (if letThrough (serve P mount w a).2 then ONE_PERMIT else 0) + (serve P mount w a).1.limiter.credit lo len ≤
      w.limiter.credit lo len := by
  change (if reachesLimiter a.route a.request &&
      (handle P mount a.route a.slot a.nowMs w a.request).2.status != 429 then ONE_PERMIT else 0) +
    (handle P mount a.route a.slot a.nowMs w a.request).1.limiter.credit lo len ≤ _
  cases hr : reachesLimiter a.route a.request with
  | false => simp [(handle_free hr).1]
  | true =>
      obtain ⟨hlimiter, hstatus⟩ : Throttles a.nowMs w (handle P mount a.route a.slot a.nowMs w a.request) :=
        handle_throttles hr
      have hstep := RateLimiter.credit_step h hlo hhi
      rw [hlimiter]
      cases hpermit : (w.limiter.tryAcquireAt a.nowMs).2 with
      | ok u =>
          rw [if_pos hpermit] at hstep
          refine le_trans (Nat.add_le_add_right ?_ _) hstep
          split_ifs
          · exact le_refl _
          · exact Nat.zero_le _
      | error retryAfter =>
          simp only [hstatus retryAfter hpermit, bne_self_eq_false, Bool.and_false, Bool.false_eq_true, if_false]
          rw [if_neg (by simp [hpermit])] at hstep
          exact hstep

theorem run_credit (h : w.limiter.Bounded perSecond burst) (window : List Arrival)
    (hwindow : ∀ a ∈ window, lo ≤ a.nowMs ∧ a.nowMs ≤ lo + len) :
    (run (serve P mount) w window).2.countP letThrough * ONE_PERMIT ≤ w.limiter.credit lo len := by
  induction window generalizing w with
  | nil => simp
  | cons a window ih =>
      obtain ⟨hlo, hhi⟩ := hwindow a List.mem_cons_self
      have hfirst : (if letThrough (serve P mount w a).2 then ONE_PERMIT else 0) +
        (serve P mount w a).1.limiter.credit lo len ≤ w.limiter.credit lo len := serve_credit h.1 hlo hhi
      have hrest : (run (serve P mount) (serve P mount w a).1 window).2.countP letThrough * ONE_PERMIT ≤
        (serve P mount w a).1.limiter.credit lo len :=
          ih (serve_bounded h) fun b hb => hwindow b (List.mem_cons_of_mem _ hb)
      rw [run, List.countP_cons, Nat.add_mul, ite_mul, Nat.one_mul, Nat.zero_mul]
      omega

/-- The burst, and the rate times the window's length. -/
theorem window_bound (h : w.limiter.Bounded perSecond burst) (window : List Arrival)
    (hwindow : ∀ a ∈ window, lo ≤ a.nowMs ∧ a.nowMs ≤ lo + len) :
    (run (serve P mount) w window).2.countP letThrough * 1000 ≤ max burst 1 * 1000 + max perSecond 1 * len := by
  exact RateLimiter.count_of_credit h (run_credit h window hwindow)

end Windows

/-- Which requests cost a permit, and what that comes to in any stretch of time of any run. -/
theorem guessing_cost (P : Platform) (mount : Text) :
    (∀ route slot nowMs w request,
      Metered P mount route slot nowMs w request ↔ reachesLimiter route request = true) ∧
    ∀ perSecond burst scratch before window lo len, (∀ a ∈ window, lo ≤ a.nowMs ∧ a.nowMs ≤ lo + len) →
      (run (serve P mount) (run (serve P mount) ⟨.new perSecond burst, scratch⟩ before).1 window).2.countP
          letThrough * 1000 ≤
        max burst 1 * 1000 + max perSecond 1 * len := by
  refine ⟨fun _ _ _ _ _ => metered_iff, ?_⟩
  intro perSecond burst scratch before window lo len hwindow
  exact window_bound (run_bounded (RateLimiter.new_bounded perSecond burst) before) window hwindow

def guess : Arrival :=
  ⟨.data, loads (servedSlot servedView), 0, servedRequest "/v1/secret/data/app/db".toList⟩

theorem guessing_cost_sample :
    Metered servedPlatform "secret".toList .data (loads (servedSlot servedView)) 0 servedWorker
      (servedRequest "/v1/secret/data/app/db".toList) ∧
    (run (serve servedPlatform "secret".toList) servedWorker [guess, guess]).2.countP letThrough * 1000 ≤
      10 * 1000 + 10 * 5 := by
  obtain ⟨hmetered, hwindow⟩ := guessing_cost servedPlatform "secret".toList
  refine ⟨(hmetered ..).mpr (by decide), hwindow 10 10 [] [] [guess, guess] 0 5 ?_⟩
  simp [guess]

/-- Whether a token is in the table, for free and as often as one likes. -/
theorem lookup_self_unmetered :
    (∃ s, servedSlot servedView 0 = some s ∧ s.snapshot.enforces = true) ∧
    (tokenSelf servedPlatform (loads (servedSlot servedView)) servedWorker
      (servedRequest "/v1/auth/token/lookup-self".toList)).2.status = 200 ∧
    (tokenSelf servedPlatform (loads (servedSlot servedView)) servedWorker
      ⟨"GET".toList, ⟨"/v1/auth/token/lookup-self".toList, none⟩, []⟩).2.status = 403 ∧
    ¬ Metered servedPlatform "secret".toList .lookupSelf (loads (servedSlot servedView)) 0 servedWorker
      (servedRequest "/v1/auth/token/lookup-self".toList) := by
  have henforces : (servedSlot servedView 0).map (fun s => s.snapshot.enforces) = some true := by decide +kernel
  refine ⟨Option.map_eq_some_iff.mp henforces, by decide +kernel, by decide +kernel, ?_⟩
  rw [metered_iff]
  decide

end Kallisto.Server
