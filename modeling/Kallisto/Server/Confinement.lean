import Kallisto.Resolver.Listing
import Kallisto.Server.Reads

/-!
Two workers answer one request out of two tables. The replies differ only where the one
check the request makes is passed and the tables differ in what that check covers.
-/
namespace Kallisto.Server
open Lib Kallisto.Crypto Kallisto.Policy Kallisto.Resolver

/-- Same version, same load time, same tokens; any secrets. -/
structure Indistinct {P : Platform} (s s' : Served P) : Prop where
  version : s.snapshot.version = s'.snapshot.version
  loadedAt : s.snapshot.loadedAt = s'.snapshot.loadedAt
  tokens : s.snapshot.tokens = s'.snapshot.tokens

/-- What a request may learn: the value it may read, the presence it may ask for, or the
paths it may list. -/
def Disclosed {P : Platform} (mount : Text) (route : Route) (request : Request) (s s' : Served P) : Prop :=
  let token := presentedToken request.headers
  match route with
  | .data => ∃ path, request.uri.path = V1 ++ (mount ++ "/data/".toList ++ path) ∧
      isReadMethod request.method = true ∧
      s.snapshot.permits P token (mount ++ "/data/".toList ++ path) .read = true ∧
      s.view.secrets.get path ≠ s'.view.secrets.get path
  | .metadata => ∃ path, request.uri.path = V1 ++ (mount ++ "/metadata/".toList ++ path) ∧
      ((isListing request = true ∧
        s.snapshot.permits P token (mount ++ "/metadata/".toList ++ directory path) .list = true ∧
        ∃ listed, directory path <+: listed ∧
          (s.view.secrets.get listed).isSome ≠ (s'.view.secrets.get listed).isSome) ∨
      (isListing request = false ∧ isReadMethod request.method = true ∧
        s.snapshot.permits P token (mount ++ "/metadata/".toList ++ path) .read = true ∧
        (s.view.secrets.get path).isSome ≠ (s'.view.secrets.get path).isSome))
  | _ => False

section TwoRuns
variable {P : Platform} {s s' : Served P} {mount path : Text} {request : Request}

theorem Indistinct.permits (h : Indistinct s s') (token : Option Text) (path : Text) (capability : Capability) :
    s.snapshot.permits P token path capability = s'.snapshot.permits P token path capability := by
  simp only [Snapshot.permits, h.tokens]

theorem Indistinct.readRefusal (h : Indistinct s s') (headers : List (Text × Bytes)) (uri : Uri) :
    readRefusal P s.snapshot headers uri = readRefusal P s'.snapshot headers uri := by
  simp only [Server.readRefusal, h.permits, h.version]

theorem dataReply_differs (h : Indistinct s s') (hne : dataReply s request path ≠ dataReply s' request path) :
    s.snapshot.permits P (presentedToken request.headers) (policyPath request.uri) .read = true ∧
      s.view.secrets.get path ≠ s'.view.secrets.get path := by
  unfold dataReply at hne
  rw [h.readRefusal] at hne
  cases hr : Server.readRefusal P s'.snapshot request.headers request.uri with
  | some refusal => simp [hr] at hne
  | none =>
      refine ⟨(h.permits ..).trans (readRefusal_eq_none.mp hr).1, fun hsame => hne ?_⟩
      simp only [hr, Option.getD_none, secretReply, hsame, h.version, h.loadedAt]

theorem listChildren_differs (h : Indistinct s s') {token : Option Text}
    (hne : listChildren P s.snapshot mount token path ≠ listChildren P s'.snapshot mount token path) :
    s.snapshot.permits P token (mount ++ "/metadata/".toList ++ directory path) .list = true ∧
      ∃ listed, directory path <+: listed ∧
        (s.view.secrets.get listed).isSome ≠ (s'.view.secrets.get listed).isSome := by
  simp only [listChildren, ← h.permits] at hne
  by_cases hp : s.snapshot.permits P token (mount ++ "/metadata/".toList ++ directory path) .list = true
  · refine ⟨hp, ?_⟩
    by_contra hno
    push Not at hno
    have hkeys := children_congr s.image s'.image fun path hpre => by rw [hno path hpre]
    rw [hkeys] at hne
    exact hne rfl
  · rw [Bool.not_eq_true] at hp
    rw [hp] at hne
    exact absurd rfl hne

theorem describeSecret_differs (h : Indistinct s s') {token : Option Text} {uri : Uri}
    (hne : describeSecret P s.snapshot token uri path ≠ describeSecret P s'.snapshot token uri path) :
    s.snapshot.permits P token (policyPath uri) .read = true ∧
      (s.view.secrets.get path).isSome ≠ (s'.view.secrets.get path).isSome := by
  simp only [describeSecret, ← h.permits, s.image.hasSecret, s'.image.hasSecret, s.rfc3339, s'.rfc3339,
    h.version, h.loadedAt] at hne
  by_cases hp : s.snapshot.permits P token (policyPath uri) .read = true
  · refine ⟨hp, ?_⟩
    intro hsame
    rw [hsame] at hne
    exact hne rfl
  · simp [hp] at hne

theorem refuseWrite_congr {w w' : Worker} (h : w.limiter = w'.limiter) {nowMs : Nat} :
    (refuseWrite nowMs w).2 = (refuseWrite nowMs w').2 := by
  unfold refuseWrite
  rw [h]
  rcases w'.limiter.tryAcquireAt nowMs with ⟨limiter, permit⟩
  cases permit <;> rfl

theorem tokenSelf_congr (h : Indistinct s s') {slot slot' : Nat → Option (Served P)} (hs : slot 0 = some s)
    (hs' : slot' 0 = some s') {w w' : Worker} :
    (tokenSelf P (loads slot) w request).2 = (tokenSelf P (loads slot') w' request).2 := by
  have hgrant : ∀ token, s.snapshot.grant P token = s'.snapshot.grant P token := by
    intro token
    simp only [Snapshot.grant, h.tokens]
  have henforces : s.snapshot.enforces = s'.snapshot.enforces := by rw [Snapshot.enforces, h.tokens, Snapshot.enforces]
  simp only [tokenSelf, loads, hs, hs', Option.map_some]
  cases he : s'.snapshot.enforces with
  | false => simp [henforces, he]
  | true =>
      simp only [henforces, he, hgrant]
      cases s'.snapshot.grant P (presentedToken request.headers) <;> rfl

end TwoRuns

section Handlers
variable {P : Platform} {s s' : Served P} {slot slot' : Nat → Option (Served P)} {w w' : Worker} {mount : Text}
  {nowMs : Nat} {request : Request}

theorem readSecret_differs (opens : P.aead.Opens) (alike : Indistinct s s') (hs : slot 0 = some s)
    (hs' : slot' 0 = some s') (limiter : w.limiter = w'.limiter)
    (hne : (readSecret P mount (loads slot) nowMs w request).2 ≠
      (readSecret P mount (loads slot') nowMs w' request).2) :
    Disclosed mount .data request s s' := by
  by_cases hr : isReadMethod request.method = true
  · rw [readSecret_loaded opens hs hr, readSecret_loaded opens hs' hr, limiter] at hne
    cases hg : gate mount w'.limiter nowMs request.uri DATA with
    | error r => simp [hg] at hne
    | ok path =>
        simp only [hg] at hne
        obtain ⟨-, -, named⟩ := gate_data.mp hg
        obtain ⟨hp, hv⟩ := dataReply_differs alike hne
        exact ⟨path, named, hr, policyPath_of_named named ▸ hp, hv⟩
  · simp [readSecret, hr] at hne

theorem readMetadata_differs (alike : Indistinct s s') (hs : slot 0 = some s) (hs' : slot' 0 = some s')
    (limiter : w.limiter = w'.limiter)
    (hne : (readMetadata P mount (loads slot) nowMs w request).2 ≠
      (readMetadata P mount (loads slot') nowMs w' request).2) :
    Disclosed mount .metadata request s s' := by
  by_cases hr : isListing request = true ∨ isReadMethod request.method = true
  · rw [readMetadata_loaded hs hr, readMetadata_loaded hs' hr, limiter] at hne
    cases hg : gate mount w'.limiter nowMs request.uri METADATA with
    | error r => simp [hg] at hne
    | ok path =>
        simp only [hg, metadataReply] at hne
        obtain ⟨-, -, named⟩ := gate_metadata.mp hg
        refine ⟨path, named, ?_⟩
        cases hl : isListing request with
        | true =>
            simp only [hl, if_true] at hne
            obtain ⟨hp, hlisted⟩ := listChildren_differs alike hne
            exact .inl ⟨rfl, hp, hlisted⟩
        | false =>
            simp only [hl] at hne
            obtain ⟨hp, hv⟩ := describeSecret_differs alike hne
            exact .inr ⟨rfl, hr.resolve_left (by simp [hl]), policyPath_of_named named ▸ hp, hv⟩
  · rw [not_or] at hr
    simp [readMetadata, hr.1, hr.2] at hne

end Handlers

/-- A refusal is not an existence oracle. -/
theorem no_existence_oracle {P : Platform} (opens : P.aead.Opens) {s s' : Served P} (alike : Indistinct s s')
    {slot slot' : Nat → Option (Served P)} (hs : slot 0 = some s) (hs' : slot' 0 = some s') {w w' : Worker}
    (limiter : w.limiter = w'.limiter) (mount : Text) (route : Route) (nowMs : Nat) (request : Request) :
    (handle P mount route (loads slot) nowMs w request).2 =
        (handle P mount route (loads slot') nowMs w' request).2 ∨
      Disclosed mount route request s s' := by
  rw [or_iff_not_imp_left]
  intro hne
  cases route with
  | data => exact readSecret_differs opens alike hs hs' limiter hne
  | metadata => exact readMetadata_differs alike hs hs' limiter hne
  | subkeys => exact absurd (refuseWrite_congr limiter) hne
  | delete => exact absurd (refuseWrite_congr limiter) hne
  | undelete => exact absurd (refuseWrite_congr limiter) hne
  | destroy => exact absurd (refuseWrite_congr limiter) hne
  | lookupSelf => exact absurd (tokenSelf_congr alike hs hs') hne
  | renewSelf => exact absurd (tokenSelf_congr alike hs hs') hne

def emptiedView : View := ⟨1, .empty, samplePolicies, sampleTokens, some sampleKeyHex⟩

def strangerRequest : Request :=
  ⟨"GET".toList, ⟨"/v1/secret/metadata/app/db".toList, none⟩, [(TOKEN_HEADER, utf8 sampleToken)]⟩

/-- The token may read under `secret/data/app` and ask for nothing else. -/
theorem no_existence_oracle_sample : ∃ s s', servedSlot servedView 0 = some s ∧ servedSlot emptiedView 0 = some s' ∧
    Indistinct s s' ∧ servedPlatform.aead.Opens ∧
    ((handle servedPlatform "secret".toList .metadata (loads (servedSlot servedView)) 0 servedWorker
        strangerRequest).2 =
      (handle servedPlatform "secret".toList .metadata (loads (servedSlot emptiedView)) 0 servedWorker
        strangerRequest).2 ∨
      Disclosed "secret".toList .metadata strangerRequest s s') := by
  obtain ⟨s, hs⟩ := Option.isSome_iff_exists.mp (show (servedSlot servedView 0).isSome by decide +kernel)
  obtain ⟨s', hs'⟩ := Option.isSome_iff_exists.mp (show (servedSlot emptiedView 0).isSome by decide +kernel)
  have hsame : (servedSlot servedView 0).map (fun s => (s.snapshot.version, s.snapshot.loadedAt, s.snapshot.tokens)) =
      (servedSlot emptiedView 0).map fun s => (s.snapshot.version, s.snapshot.loadedAt, s.snapshot.tokens) := by
    decide +kernel
  simp only [hs, hs', Option.map_some, Option.some.injEq, Prod.mk.injEq] at hsame
  have alike : Indistinct s s' := ⟨hsame.1, hsame.2.1, hsame.2.2⟩
  exact ⟨s, s', hs, hs', alike, servedPlatform_opens,
    no_existence_oracle servedPlatform_opens alike hs hs' rfl "secret".toList .metadata 0 strangerRequest⟩

end Kallisto.Server
