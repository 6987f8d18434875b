import Kallisto.Policy.Language
import Kallisto.Server.Discovery

/-!
A deny on a directory. A listing names its directory with or without a trailing slash and the
matcher is asked about the form with the slash only, so a deny written without one stops a
listing just when its pattern goes on past its end.
-/
namespace Kallisto.Server
open Lib Kallisto.Crypto Kallisto.Policy Kallisto.Resolver

/-- What a pattern with a final `*` covers, it covers with anything behind it. -/
theorem covers_append {rule : PolicyRule} {path : Text} (h : Covers rule path) (glob : Globbed rule.path)
    (more : Text) : Covers rule (path ++ more) := by
  obtain ⟨parts, rest, hstands, -, rfl⟩ := (matches_iff_obtained _ _).1.mp h
  refine (matches_iff_obtained _ _).1.mpr ⟨parts, rest ++ more, hstands, .inl glob, ?_⟩
  rw [List.append_assoc]

section Directory
variable {P : Platform} (emptyMount : Bool) (mount : Text) (slot : Nat → Option (Served P)) (s : Served P)
  (grant : Grant) (headers : List (Text × Bytes)) (dir : Text)

/-- Some rule of the token covers the path and carries the word. -/
def Marked (word path : Text) : Prop :=
  ∃ rule, Carries s.view.policies grant.policies rule ∧ Covers rule path ∧ word ∈ rule.capabilities

/-- The request lists the directory, in one of its spellings. -/
structure Lists (request : Request) : Prop where
  listing : isListing request = true
  spelled : request.uri.path = V1 ++ (mount ++ "/metadata/".toList ++ dir) ∨
    request.uri.path = V1 ++ (mount ++ "/metadata/".toList ++ (dir ++ ['/']))

/-- A deny on either spelling refuses every listing of the directory. -/
def DenyStops : Prop :=
  (Marked s grant DENY (mount ++ "/metadata/".toList ++ dir) ∨
    Marked s grant DENY (mount ++ "/metadata/".toList ++ (dir ++ ['/']))) →
  ∀ nowMs w request, Lists mount dir request → request.headers = headers →
    (w.limiter.tryAcquireAt nowMs).2 = .ok () →
    ∃ response, serveKv P emptyMount mount (loads slot) nowMs w request = some response ∧ response.status = 403

variable {emptyMount mount slot s grant headers dir}

theorem listChildren_refused {snapshot : Snapshot} {token : Option Text} {path : Text} :
    (listChildren P snapshot mount token path).status = 403 ↔
      ¬ snapshot.permits P token (mount ++ "/metadata/".toList ++ directory path) .list = true := by
  unfold listChildren
  dsimp only
  cases snapshot.permits P token (mount ++ "/metadata/".toList ++ directory path) .list with
  | false => simp [denied, jsonResponse]
  | true =>
      simp only [Bool.not_true, Bool.false_eq_true, if_false, not_true_eq_false, iff_false]
      split_ifs <;> simp [absent, jsonResponse]

theorem directory_unslashed (hne : dir ≠ []) (hdir : dir.getLast? ≠ some '/') : directory dir = dir ++ ['/'] := by
  rw [directory, if_neg (not_or.mpr ⟨hne, hdir⟩)]

theorem directory_slashed : directory (dir ++ ['/']) = dir ++ ['/'] := by
  rw [directory, if_pos (.inr (List.getLast?_concat ..))]

/-- The token's rules decide, and on the spelling with the slash whichever was asked. -/
theorem listing_status (hm : Segment emptyMount mount) (hs : slot 0 = some s)
    (hgrant : s.snapshot.grant P (presentedToken headers) = some grant) (hne : dir ≠ [])
    (hdir : dir.getLast? ≠ some '/') {nowMs : Nat} {w : Worker} {request : Request} (hlists : Lists mount dir request)
    (hheaders : request.headers = headers) (permit : (w.limiter.tryAcquireAt nowMs).2 = .ok ()) :
    ∃ response, serveKv P emptyMount mount (loads slot) nowMs w request = some response ∧
      (response.status = 403 ↔ ¬ (Marked s grant LIST (mount ++ "/metadata/".toList ++ (dir ++ ['/'])) ∧
        ¬ Marked s grant DENY (mount ++ "/metadata/".toList ++ (dir ++ ['/'])))) := by
  obtain ⟨token, htoken⟩ : ∃ token, presentedToken headers = some token := by
    cases ht : presentedToken headers with
    | none => simp [Snapshot.grant, ht] at hgrant
    | some token => exact ⟨token, rfl⟩
  rw [htoken] at hgrant
  obtain ⟨path, hpath, hdirectory, huri⟩ : ∃ path, path ≠ [] ∧ directory path = dir ++ ['/'] ∧
      request.uri.path = V1 ++ (mount ++ "/metadata/".toList ++ path) := by
    rcases hlists.spelled with huri | huri
    · exact ⟨dir, hne, directory_unslashed hne hdir, huri⟩
    · exact ⟨dir ++ ['/'], by simp, directory_slashed, huri⟩
  refine ⟨_, serveKv_listing hs permit hm hlists.listing hpath huri, ?_⟩
  rw [listChildren_refused, hdirectory, hheaders, htoken, permits_iff s.image hgrant]
  rfl

/-- The router delivers no request for the mount's root. -/
theorem root_unrouted (hm : Segment emptyMount mount) :
    kvRoute emptyMount (V1 ++ (mount ++ "/metadata/".toList ++ [])) = none := by
  rw [← metadata_segments]
  cases hroute : kvRoute emptyMount (V1 ++ (mount ++ '/' :: (METADATA ++ '/' :: []))) with
  | none => rfl
  | some route =>
      obtain ⟨action, hmem, hmatch⟩ := kvRoute_some hroute
      have hslash : ∀ entry ∈ KV_ROUTES, '/' ∉ entry.1 := by decide
      obtain ⟨other, path, ho, hne, heq⟩ := (matchesRoute_iff (hslash _ hmem)).mp hmatch
      have htail := (segment_inj hm.single ho.single (List.append_cancel_left heq)).2
      exact absurd (segment_inj (by decide) (hslash _ hmem) htail).2.symm hne

/-- A deny on a directory stops its listings where it is also a deny on the spelling with the
slash, which a pattern with a final `*` is by itself; or where nothing grants the listing. -/
theorem denyStops_iff (hm : Segment emptyMount mount) (hs : slot 0 = some s)
    (hgrant : s.snapshot.grant P (presentedToken headers) = some grant) (hdir : dir.getLast? ≠ some '/') :
    DenyStops emptyMount mount slot s grant headers dir ↔
      (¬ Marked s grant DENY (mount ++ "/metadata/".toList ++ dir) ∧
        ¬ Marked s grant DENY (mount ++ "/metadata/".toList ++ (dir ++ ['/']))) ∨
      dir ≠ [] ∧
        ((∀ rule, Carries s.view.policies grant.policies rule → DENY ∈ rule.capabilities →
            Covers rule (mount ++ "/metadata/".toList ++ dir) → Globbed rule.path) ∨
          Marked s grant DENY (mount ++ "/metadata/".toList ++ (dir ++ ['/'])) ∨
          ¬ Marked s grant LIST (mount ++ "/metadata/".toList ++ (dir ++ ['/']))) := by
  let slashed : Request := ⟨"LIST".toList, ⟨V1 ++ (mount ++ "/metadata/".toList ++ (dir ++ ['/'])), none⟩, headers⟩
  let plain : Request := ⟨"LIST".toList, ⟨V1 ++ (mount ++ "/metadata/".toList ++ dir), none⟩, headers⟩
  have hslashed : Lists mount dir slashed := ⟨rfl, .inr rfl⟩
  have hplain : Lists mount dir plain := ⟨rfl, .inl rfl⟩
  have permit : (servedWorker.limiter.tryAcquireAt 0).2 = .ok () := by decide
  constructor
  · intro hstops
    by_cases hmarked : Marked s grant DENY (mount ++ "/metadata/".toList ++ dir) ∨
        Marked s grant DENY (mount ++ "/metadata/".toList ++ (dir ++ ['/']))
    · have hne : dir ≠ [] := by
        rintro rfl
        obtain ⟨response, hresponse, -⟩ := hstops hmarked 0 servedWorker plain hplain rfl permit
        rw [serveKv, root_unrouted hm] at hresponse
        cases hresponse
      refine .inr ⟨hne, .inr ?_⟩
      obtain ⟨response, hresponse, hrefused⟩ := hstops hmarked 0 servedWorker slashed hslashed rfl permit
      obtain ⟨response', hresponse', hiff⟩ := listing_status hm hs hgrant hne hdir hslashed rfl permit
      rw [hresponse] at hresponse'
      cases hresponse'
      have hnot := hiff.mp hrefused
      rw [not_and_not_right] at hnot
      by_cases hlist : Marked s grant LIST (mount ++ "/metadata/".toList ++ (dir ++ ['/']))
      · exact .inl (hnot hlist)
      · exact .inr hlist
    · exact .inl (not_or.mp hmarked)
  · rintro hcond hmarked nowMs w request hlists hheaders hpermit
    rcases hcond with hnone | ⟨hne, hcond⟩
    · exact absurd hmarked (not_or.mpr hnone)
    obtain ⟨response, hresponse, hiff⟩ := listing_status hm hs hgrant hne hdir hlists hheaders hpermit
    refine ⟨response, hresponse, hiff.mpr ?_⟩
    rintro ⟨hlist, hnodeny⟩
    have hplaindeny := hmarked.resolve_right hnodeny
    rcases hcond with hglob | hdeny | hnolist
    · obtain ⟨rule, hcarries, hcovers, hdeny⟩ := hplaindeny
      have hmore := covers_append hcovers (hglob rule hcarries hdeny hcovers) ['/']
      rw [List.append_assoc] at hmore
      exact hnodeny ⟨rule, hcarries, hmore, hdeny⟩
    · exact hnodeny hdeny
    · exact hnolist hlist

end Directory

/-- One secret, and a token whose one policy has these rules. -/
def ruledView (rules : List PolicyRule) : View :=
  ⟨1, .ofList [(servedPath, servedValue)], .ofList [("app".toList, rules)], sampleTokens, some sampleKeyHex⟩

def tokenHeaders : List (Text × Bytes) := [(TOKEN_HEADER, utf8 sampleToken)]

theorem ruledView_carries (rules : List PolicyRule)
    (h : (servedSlot (ruledView rules) 0).bind (fun s =>
      (s.snapshot.grant servedPlatform (presentedToken tokenHeaders)).map fun grant =>
        (grant.policies, s.view.policies.get "app".toList)) = some (["app".toList], some rules)) :
    ∃ s grant, servedSlot (ruledView rules) 0 = some s ∧
      s.snapshot.grant servedPlatform (presentedToken tokenHeaders) = some grant ∧
      ∀ rule ∈ rules, Carries s.view.policies grant.policies rule := by
  obtain ⟨s, hs, hgrants⟩ := Option.bind_eq_some_iff.mp h
  obtain ⟨grant, hgrant, hfacts⟩ := Option.map_eq_some_iff.mp hgrants
  obtain ⟨hnames, hpolicy⟩ := Prod.mk.inj hfacts
  refine ⟨s, grant, hs, hgrant, ?_⟩
  intro rule hrule
  exact ⟨"app".toList, hnames ▸ List.mem_singleton_self _, rules, hpolicy, hrule⟩

def exactDeny : PolicyRule := ⟨"secret/metadata/app".toList, [DENY]⟩
def globDeny : PolicyRule := ⟨"secret/metadata/app*".toList, [DENY]⟩
def listGrant : PolicyRule := ⟨"secret/metadata/app/*".toList, [LIST]⟩

/-- A deny on `app` leaves `LIST app` to the grant on `app/*`. -/
theorem exact_deny_listed : ∃ s grant, servedSlot (ruledView [listGrant, exactDeny]) 0 = some s ∧
    s.snapshot.grant servedPlatform (presentedToken tokenHeaders) = some grant ∧
    ¬ DenyStops false "secret".toList (servedSlot (ruledView [listGrant, exactDeny])) s grant tokenHeaders
      "app".toList := by
  obtain ⟨s, grant, hs, hgrant, hcarries⟩ := ruledView_carries [listGrant, exactDeny] (by decide +kernel)
  refine ⟨s, grant, hs, hgrant, ?_⟩
  intro hstops
  have hmarked : Marked s grant DENY "secret/metadata/app".toList :=
    ⟨exactDeny, hcarries _ (by decide), by decide, by decide⟩
  have hstatus : (serveKv servedPlatform false "secret".toList
      (loads (servedSlot (ruledView [listGrant, exactDeny]))) 0 servedWorker
      ⟨"LIST".toList, ⟨"/v1/secret/metadata/app".toList, none⟩, tokenHeaders⟩).map Response.status = some 200 := by
    decide +kernel
  obtain ⟨response, hresponse, hrefused⟩ := hstops (.inl hmarked) 0 servedWorker
    ⟨"LIST".toList, ⟨"/v1/secret/metadata/app".toList, none⟩, tokenHeaders⟩ ⟨rfl, .inl rfl⟩ rfl (by decide)
  rw [hresponse, Option.map_some, hrefused] at hstatus
  cases hstatus

theorem glob_deny_stops : ∃ s grant, servedSlot (ruledView [listGrant, globDeny]) 0 = some s ∧
    s.snapshot.grant servedPlatform (presentedToken tokenHeaders) = some grant ∧
    Marked s grant LIST "secret/metadata/app/".toList ∧
    DenyStops false "secret".toList (servedSlot (ruledView [listGrant, globDeny])) s grant tokenHeaders
      "app".toList := by
  obtain ⟨s, grant, hs, hgrant, hcarries⟩ := ruledView_carries [listGrant, globDeny] (by decide +kernel)
  have hmarked : Marked s grant DENY "secret/metadata/app/".toList :=
    ⟨globDeny, hcarries _ (by decide), by decide, by decide⟩
  refine ⟨s, grant, hs, hgrant, ⟨listGrant, hcarries _ (by decide), by decide, by decide⟩, ?_⟩
  exact (denyStops_iff ⟨by decide, by decide⟩ hs hgrant (by decide)).mpr (.inr ⟨by decide, .inr (.inl hmarked)⟩)

end Kallisto.Server
