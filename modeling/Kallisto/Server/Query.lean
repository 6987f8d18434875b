import Kallisto.Lib.Split
import Kallisto.Server.Reads

/-!
Query parameters. The two extractors search the query for a text; a parameter is a pair of
the query and has a name. The search finds the parameter where no other pair has that text
in it.
-/
namespace Kallisto.Server
open Lib Kallisto.Crypto Kallisto.Policy Kallisto.Resolver

def pairs (query : Text) : List Text := query.splitOn '&'

/-- A pair is cut at its first `=`; without one it is all name. -/
def nameOf (pair : Text) : Text := pair.takeWhile (· != '=')

def valueOf (pair : Text) : Text := (pair.dropWhile (· != '=')).drop 1

/-- The first pair named `version`, read as a number. -/
def namedVersion (query : Text) : Option UInt64 :=
  ((pairs query).find? fun pair => nameOf pair = "version".toList).bind fun pair => parseU64 (valueOf pair)

/-- Parameters are recognised by name, and the handlers act on the parameter. -/
structure ByName (query : Text) : Prop where
  version : ∀ path, versionParam ⟨path, some query⟩ = namedVersion query
  list : ∀ path, wantsList ⟨path, some query⟩ = true ↔ "list=true".toList ∈ pairs query
  read : ∀ (P : Platform) (mount : Text) (slot : Nat → Option (Served P)) (nowMs : Nat) (w : Worker)
    (request : Request) (s : Served P) (path : Text) (asked : UInt64),
    request.uri.query = some query → isReadMethod request.method = true → slot 0 = some s →
    gate mount w.limiter nowMs request.uri DATA = .ok path →
    s.snapshot.permits P (presentedToken request.headers) (policyPath request.uri) .read = true →
    namedVersion query = some asked → asked ≠ 0 → asked ≠ s.snapshot.version →
    (readSecret P mount (loads slot) nowMs w request).2.status = 404
  unlisted : ∀ (P : Platform) (mount : Text) (slot : Nat → Option Snapshot) (nowMs : Nat) (w : Worker)
    (request : Request) (keys : List Text),
    request.uri.query = some query → isReadMethod request.method = true → "list=true".toList ∉ pairs query →
    (readMetadata P mount slot nowMs w request).2 ≠ jsonResponse 200 (listKeys keys)

/-- The first pair with `version=` in it, and what follows there. -/
def Found (query pair text : Text) : Prop :=
  ∃ before after, pairs query = before ++ pair :: after ∧ (∀ other ∈ before, ¬ "version=".toList <:+: other) ∧
    afterFirst "version=".toList pair = some text

/-- The pair the search finds is the first one named `version`. -/
def VersionFound (query : Text) : Prop :=
  ∀ pair text, Found query pair text →
    (pairs query).find? (fun pair => nameOf pair = "version".toList) = some pair

def ListFound (query : Text) : Prop :=
  "list=true".toList ∈ pairs query ∨ ∀ pair ∈ pairs query, ¬ "list=true".toList <:+: pair

section Version
variable {query pair text : Text}

theorem versionParam_eq (path : Text) : versionParam ⟨path, some query⟩ =
    ((pairs query).findSome? (afterFirst "version=".toList)).bind parseU64 := by
  rw [pairs, ← afterFirst_pieces (by decide) (by decide), Option.bind_map]
  rfl

theorem findSome_found (h : (pairs query).findSome? (afterFirst "version=".toList) = some text) :
    ∃ pair, Found query pair text := by
  obtain ⟨before, pair, after, hpairs, hfound, hbefore⟩ := List.findSome?_eq_some_iff.mp h
  refine ⟨pair, before, after, hpairs, ?_, hfound⟩
  intro other hother
  rw [← afterFirst_isSome, hbefore other hother]
  simp

theorem name_of_find {name : Text} (h : (pairs query).find? (fun pair => nameOf pair = name) = some pair) :
    nameOf pair = name := by
  simpa using List.find?_some h

/-- A pair of that name starts with the text the search looks for, or has no value. -/
theorem named_version (h : nameOf pair = "version".toList) :
    pair = "version=".toList ++ valueOf pair ∨ valueOf pair = [] ∧ pair = "version".toList := by
  have hname : pair.takeWhile (· != '=') = "version".toList := h
  unfold valueOf
  rcases first_sep '=' pair with ⟨hfree, hd⟩ | ⟨rest, hd, hpair⟩
  · have hcut := List.takeWhile_append_dropWhile (p := (· != '=')) (l := pair)
    rw [hname, hd, List.append_nil] at hcut
    exact .inr ⟨by rw [hd]; rfl, hcut.symm⟩
  · rw [hname] at hpair
    rw [hd]
    exact .inl hpair

theorem namedVersion_unfound (h : ∀ pair ∈ pairs query, ¬ "version=".toList <:+: pair) :
    namedVersion query = none := by
  unfold namedVersion
  cases hfind : (pairs query).find? fun pair => nameOf pair = "version".toList with
  | none => rfl
  | some pair =>
      have hname : nameOf pair = "version".toList := name_of_find hfind
      rcases named_version hname with hpair | ⟨hvalue, -⟩
      · have hin : "version=".toList <:+: pair := ⟨[], valueOf pair, hpair.symm⟩
        exact absurd hin (h pair (List.mem_of_find?_eq_some hfind))
      · rw [Option.bind_some, hvalue]
        rfl

theorem namedVersion_found (h : Found query pair text)
    (hfirst : (pairs query).find? (fun pair => nameOf pair = "version".toList) = some pair) :
    parseU64 text = namedVersion query := by
  obtain ⟨-, -, -, -, hfound⟩ := h
  have hname : nameOf pair = "version".toList := name_of_find hfirst
  rw [namedVersion, hfirst, Option.bind_some]
  rcases named_version hname with hpair | ⟨-, hbare⟩
  · rw [hpair, afterFirst_append, Option.some.injEq] at hfound
    rw [hfound]
  · rw [hbare] at hfound
    have hnone : afterFirst "version=".toList "version".toList = none := by decide
    rw [hnone] at hfound
    cases hfound

theorem version_of_found (h : VersionFound query) (path : Text) :
    versionParam ⟨path, some query⟩ = namedVersion query := by
  rw [versionParam_eq]
  cases hfind : (pairs query).findSome? (afterFirst "version=".toList) with
  | none =>
      have hnone : ∀ pair ∈ pairs query, ¬ "version=".toList <:+: pair := by
        intro pair hpair
        rw [← afterFirst_isSome, List.findSome?_eq_none_iff.mp hfind pair hpair]
        simp
      rw [namedVersion_unfound hnone, Option.bind_none]
  | some text =>
      obtain ⟨pair, hfound⟩ := findSome_found hfind
      exact namedVersion_found hfound (h pair text hfound)

end Version

section List
variable {query : Text}

theorem wantsList_iff (path : Text) :
    wantsList ⟨path, some query⟩ = true ↔ ∃ pair ∈ pairs query, "list=true".toList <:+: pair := by
  rw [pairs, ← infix_iff_pieces (by decide) (by decide), ← afterFirst_isSome]
  rfl

theorem list_iff (path : Text) :
    (wantsList ⟨path, some query⟩ = true ↔ "list=true".toList ∈ pairs query) ↔ ListFound query := by
  rw [wantsList_iff]
  unfold ListFound
  constructor
  · intro hiff
    by_cases hmem : "list=true".toList ∈ pairs query
    · exact .inl hmem
    · right
      intro pair hpair hin
      exact hmem (hiff.mp ⟨pair, hpair, hin⟩)
  · intro hcond
    constructor
    · rintro ⟨pair, hpair, hin⟩
      exact hcond.resolve_right fun hnone => hnone pair hpair hin
    · intro hmem
      exact ⟨_, hmem, List.infix_refl _⟩

end List

section Handlers
variable {P : Platform} {mount : Text} {slot : Nat → Option Snapshot} {nowMs : Nat} {w : Worker} {request : Request}

theorem readSecret_refused {snapshot : Snapshot} {path : Text} {refusal : Response} (hs : slot 0 = some snapshot)
    (hr : isReadMethod request.method = true) (hg : gate mount w.limiter nowMs request.uri DATA = .ok path)
    (href : readRefusal P snapshot request.headers request.uri = some refusal) :
    (readSecret P mount slot nowMs w request).2 = refusal := by
  have haccept : (accept mount slot nowMs w request.uri DATA).2 = .ok (snapshot, path) := by
    rw [accept_loaded hs, hg]
    rfl
  unfold readSecret
  rcases ha : accept mount slot nowMs w request.uri DATA with ⟨w', outcome⟩
  rw [ha] at haccept
  simp only at haccept
  subst haccept
  simp only [hr, Bool.not_true, Bool.false_eq_true, if_false, href]

theorem listKeys_start (keys : List Text) : (listKeys keys).take 11 = "\x7b\"data\":\x7b\"k".toList := by
  unfold listKeys
  rw [List.append_assoc, List.take_append_of_le_length (by decide)]
  decide

theorem kvMetadata_start (version : UInt64) (createdTime : Text) :
    (kvMetadata version createdTime).take 11 = "\x7b\"data\":\x7b\"c".toList := by
  unfold kvMetadata
  simp only [List.append_assoc]
  rw [List.take_append_of_le_length (by decide)]
  decide

theorem describeSecret_unlisted {snapshot : Snapshot} {token : Option Text} {uri : Uri} {path : Text}
    (keys : List Text) : describeSecret P snapshot token uri path ≠ jsonResponse 200 (listKeys keys) := by
  unfold describeSecret
  split_ifs
  · simp [denied, jsonResponse]
  · simp [absent, jsonResponse]
  · intro heq
    have hbody := congrArg (List.take 11) (congrArg Response.body heq)
    simp only [jsonResponse, listKeys_start, kvMetadata_start] at hbody
    exact absurd hbody (by decide)

/-- What the gate answers by itself is no success. -/
theorem accept_refused {uri : Uri} {action : Text} {response : Response}
    (h : (accept mount slot nowMs w uri action).2 = .error response) : response.status ≠ 200 := by
  cases hs : slot 0 with
  | none =>
      obtain ⟨refusal, hrefusal, hstatus⟩ : ∃ r, (accept mount slot nowMs w uri action).2 = .error r ∧ r.status ≠ 200 :=
        accept_unloaded hs
      rw [hrefusal, Except.error.injEq] at h
      exact h ▸ hstatus
  | some snapshot =>
      rw [accept_loaded hs] at h
      cases hg : gate mount w.limiter nowMs uri action with
      | error refusal =>
          rw [hg] at h
          cases h
          exact gate_refused hg
      | ok path =>
          rw [hg] at h
          cases h

theorem isListing_of_read (hr : isReadMethod request.method = true) : isListing request = wantsList request.uri := by
  have hmethod : isListMethod request.method = false := by
    rcases of_decide_eq_true hr with hget | hhead
    · rw [hget]
      decide
    · rw [hhead]
      decide
  rw [isListing, hmethod, hr, Bool.false_or, Bool.true_and]

theorem readMetadata_unlisted (hr : isReadMethod request.method = true) (hlist : wantsList request.uri = false)
    (keys : List Text) : (readMetadata P mount slot nowMs w request).2 ≠ jsonResponse 200 (listKeys keys) := by
  have hlisting : isListing request = false := (isListing_of_read hr).trans hlist
  unfold readMetadata
  rcases ha : accept mount slot nowMs w request.uri METADATA with ⟨w', outcome⟩
  simp only [hlisting, hr, Bool.not_true, Bool.and_false, Bool.false_eq_true, if_false]
  cases outcome with
  | error response =>
      intro heq
      have hstatus := accept_refused (congrArg Prod.snd ha)
      exact hstatus (congrArg Response.status heq)
  | ok admitted => exact describeSecret_unlisted keys

end Handlers

/-- Where the search for `version=` finds the parameter and nothing else, the extractors and the
handlers behind them go by name exactly where the search for `list=true` does as well. Where it
finds another pair the two can still read one number, each from its own. -/
theorem byName_iff {query : Text} (hversion : VersionFound query) : ByName query ↔ ListFound query := by
  constructor
  · intro h
    exact (list_iff []).mp (h.list [])
  · intro hlist
    refine ⟨version_of_found hversion, fun path => (list_iff path).mpr hlist, ?_, ?_⟩
    · intro P mount slot nowMs w request s path asked hquery hr hs hg hpermit hasked hzero hserved
      have hparam : versionParam request.uri = some asked := by
        rw [← hasked, ← version_of_found hversion request.uri.path, ← hquery]
      have href : readRefusal P s.snapshot request.headers request.uri = some absent := by
        simp only [readRefusal, hpermit, hparam, Bool.not_true, Bool.false_eq_true, if_false, hzero, hserved, ne_eq,
          not_false_eq_true, and_self, if_true]
      have hload : loads slot 0 = some s.snapshot := by simp [loads, hs]
      rw [readSecret_refused hload hr hg href]
      rfl
    · intro P mount slot nowMs w request keys hquery hr hnot
      apply readMetadata_unlisted hr
      have hwants := (list_iff request.uri.path).mpr hlist
      rw [← hquery] at hwants
      rw [← Bool.not_eq_true]
      exact fun h => hnot (hwants.mp h)

theorem byName_iff_sample : ByName "list=true&version=3".toList ∧
    namedVersion "list=true&version=3".toList = some 3 := by
  have hversion : VersionFound "list=true&version=3".toList := by
    rintro pair text ⟨before, after, hpairs, hbefore, hfound⟩
    have hsplit : pairs "list=true&version=3".toList = ["list=true".toList, "version=3".toList] := by decide
    rw [hsplit] at hpairs
    have hfirst : afterFirst "version=".toList "list=true".toList = none := by decide
    have hsecond : "version=".toList <:+: "version=3".toList := ⟨[], ['3'], by decide⟩
    rcases before with _ | ⟨first, _ | ⟨second, before⟩⟩
    · obtain ⟨rfl, -⟩ := List.cons.inj hpairs
      rw [hfirst] at hfound
      cases hfound
    · obtain ⟨-, hrest⟩ := List.cons.inj hpairs
      obtain ⟨rfl, -⟩ := List.cons.inj hrest
      decide
    · obtain ⟨-, hrest⟩ := List.cons.inj hpairs
      obtain ⟨rfl, -⟩ := List.cons.inj hrest
      exact absurd hsecond (hbefore _ (List.mem_cons_of_mem _ List.mem_cons_self))
  exact ⟨(byName_iff hversion).mpr (.inl (by decide)), by decide⟩

/-- A name that ends in the searched text is taken for the parameter. -/
theorem lookalike_names : ¬ ByName "conversion=0&version=99".toList ∧ ¬ ByName "sublist=true".toList := by
  constructor
  · intro h
    exact absurd (h.version []) (by decide)
  · intro h
    exact absurd (h.list []) (by decide)

end Kallisto.Server
