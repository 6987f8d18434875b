import Kallisto.Resolver.Authorization
import Kallisto.Server.VaultApi

/-!
What the two reading handlers answer, as a function of the file the snapshot was built
from; and when that answer is a secret.
-/
namespace Kallisto.Server
open Lib Kallisto.Crypto Kallisto.Policy Kallisto.Resolver

section Replies
variable {P : Platform} {mount : Text} {slot : Nat → Option (Served P)} {nowMs : Nat} {w : Worker}
  {request : Request}

theorem readRefusal_eq_none {snapshot : Snapshot} {headers : List (Text × Bytes)} {uri : Uri} :
    readRefusal P snapshot headers uri = none ↔
      snapshot.permits P (presentedToken headers) (policyPath uri) .read = true ∧
      ∀ asked, versionParam uri = some asked → asked = 0 ∨ asked = snapshot.version := by
  unfold readRefusal
  by_cases hp : snapshot.permits P (presentedToken headers) (policyPath uri) .read = true
  · cases hv : versionParam uri with
    | none => simp [hp]
    | some asked =>
        by_cases hz : asked = 0 <;> by_cases hs : asked = snapshot.version <;> simp [hp, hz, hs]
  · simp [hp]

theorem readRefusal_status {snapshot : Snapshot} {headers : List (Text × Bytes)} {uri : Uri} {r : Response}
    (h : readRefusal P snapshot headers uri = some r) : r.status ≠ 200 := by
  unfold readRefusal at h
  split_ifs at h
  · cases h
    simp [denied, jsonResponse]
  · cases hv : versionParam uri with
    | none => simp [hv] at h
    | some asked =>
        simp only [hv] at h
        split_ifs at h
        cases h
        simp [absent, jsonResponse]

/-- The reply to a secret that is read, out of the file and not out of the barrier. -/
def secretReply (s : Served P) (path : Text) : Response :=
  match s.view.secrets.get path with
  | some value => jsonResponse 200 (kvData value s.snapshot.version (rfc3339FromSystemTime s.snapshot.loadedAt))
  | none => absent

def dataReply (s : Served P) (request : Request) (path : Text) : Response :=
  (readRefusal P s.snapshot request.headers request.uri).getD (secretReply s path)

def metadataReply (mount : Text) (s : Served P) (request : Request) (path : Text) : Response :=
  let token := presentedToken request.headers
  if isListing request then listChildren P s.snapshot mount token path
  else describeSecret P s.snapshot token request.uri path

theorem Served.rfc3339 (s : Served P) : s.snapshot.loadedAtRfc3339 = rfc3339FromSystemTime s.snapshot.loadedAt := by
  obtain ⟨-, -, hat, hrfc⟩ := build_image s.built
  rw [hrfc, hat]

theorem renderSecret_reply (opens : P.aead.Opens) (s : Served P) (path : Text) (w : Worker) :
    (renderSecret P s.snapshot path w).2 = secretReply s path := by
  have hopen := s.image.withSecret opens path
    (fun value => kvData value s.snapshot.version s.snapshot.loadedAtRfc3339) w.scratch
  unfold renderSecret secretReply
  simp only [hopen, ← s.rfc3339]
  cases s.view.secrets.get path <;> rfl

theorem readSecret_loaded (opens : P.aead.Opens) {s : Served P} (h : slot 0 = some s)
    (hr : isReadMethod request.method = true) :
    (readSecret P mount (loads slot) nowMs w request).2 =
      match gate mount w.limiter nowMs request.uri DATA with
      | .error response => response
      | .ok path => dataReply s request path := by
  have hload : loads slot 0 = some s.snapshot := by simp [loads, h]
  have haccept : (accept mount (loads slot) nowMs w request.uri DATA).2 =
      (gate mount w.limiter nowMs request.uri DATA).map fun path => (s.snapshot, path) := accept_loaded hload
  unfold readSecret
  rcases ha : accept mount (loads slot) nowMs w request.uri DATA with ⟨w', outcome⟩
  rw [ha] at haccept
  subst haccept
  cases gate mount w.limiter nowMs request.uri DATA with
  | error response => simp [hr, Except.map]
  | ok path =>
      simp only [hr, Except.map, dataReply]
      cases readRefusal P s.snapshot request.headers request.uri with
      | some refusal => rfl
      | none => exact renderSecret_reply opens s path w'

theorem readMetadata_loaded {s : Served P} (h : slot 0 = some s)
    (hr : isListing request = true ∨ isReadMethod request.method = true) :
    (readMetadata P mount (loads slot) nowMs w request).2 =
      match gate mount w.limiter nowMs request.uri METADATA with
      | .error response => response
      | .ok path => metadataReply mount s request path := by
  have hload : loads slot 0 = some s.snapshot := by simp [loads, h]
  have haccept : (accept mount (loads slot) nowMs w request.uri METADATA).2 =
      (gate mount w.limiter nowMs request.uri METADATA).map fun path => (s.snapshot, path) := accept_loaded hload
  have hcond : (!isListing request && !isReadMethod request.method) = false := by
    rcases hr with hl | hm
    · simp [hl]
    · simp [hm]
  unfold readMetadata
  rcases ha : accept mount (loads slot) nowMs w request.uri METADATA with ⟨w', outcome⟩
  rw [ha] at haccept
  subst haccept
  simp only [hcond]
  cases gate mount w.limiter nowMs request.uri METADATA with
  | error response => rfl
  | ok path =>
      simp only [Except.map, metadataReply]
      cases isListing request <;> rfl

theorem readSecret_unloaded (h : slot 0 = none) :
    (readSecret P mount (loads slot) nowMs w request).2.status ≠ 200 := by
  have hload : loads slot 0 = none := by simp [loads, h]
  obtain ⟨r, hr, hstatus⟩ : ∃ r, (accept mount (loads slot) nowMs w request.uri DATA).2 = .error r ∧
    r.status ≠ 200 := accept_unloaded hload
  unfold readSecret
  split_ifs
  · simp [denied, jsonResponse]
  · rcases ha : accept mount (loads slot) nowMs w request.uri DATA with ⟨w', outcome⟩
    rw [ha] at hr
    subst hr
    exact hstatus

end Replies

section Reads
variable {P : Platform} {mount : Text} {request : Request}

/-- A read that names `path` under the mount, asks for a version there is, and may have it. -/
structure Readable (P : Platform) (mount : Text) (request : Request) (s : Snapshot) (path : Text) : Prop where
  method : isReadMethod request.method = true
  named : request.uri.path = V1 ++ (mount ++ "/data/".toList ++ path)
  permitted : s.permits P (presentedToken request.headers) (mount ++ "/data/".toList ++ path) .read = true
  version : ∀ asked, versionParam request.uri = some asked → asked = 0 ∨ asked = s.version

theorem data_segments (mount path : Text) :
    mount ++ '/' :: (DATA ++ '/' :: path) = mount ++ "/data/".toList ++ path := by
  rw [List.append_assoc]
  rfl

theorem metadata_segments (mount path : Text) :
    mount ++ '/' :: (METADATA ++ '/' :: path) = mount ++ "/metadata/".toList ++ path := by
  rw [List.append_assoc]
  rfl

theorem policyPath_of_named {uri : Uri} {rest : Text} (h : uri.path = V1 ++ rest) : policyPath uri = rest := by
  rw [policyPath, h, stripPrefix_append, Option.getD_some]

theorem gate_data {limiter : RateLimiter} {nowMs : Nat} {uri : Uri} {path : Text} :
    gate mount limiter nowMs uri DATA = .ok path ↔ (limiter.tryAcquireAt nowMs).2 = .ok () ∧ '/' ∉ mount ∧
      uri.path = V1 ++ (mount ++ "/data/".toList ++ path) := by
  rw [gate_ok (by decide), data_segments]

theorem gate_metadata {limiter : RateLimiter} {nowMs : Nat} {uri : Uri} {path : Text} :
    gate mount limiter nowMs uri METADATA = .ok path ↔ (limiter.tryAcquireAt nowMs).2 = .ok () ∧ '/' ∉ mount ∧
      uri.path = V1 ++ (mount ++ "/metadata/".toList ++ path) := by
  rw [gate_ok (by decide), metadata_segments]

theorem dataReply_ok {s : Served P} {path : Text} (named : request.uri.path = V1 ++ (mount ++ "/data/".toList ++ path))
    (hr : isReadMethod request.method = true) :
    (dataReply s request path).status = 200 ↔
      Readable P mount request s.snapshot path ∧ ∃ value, s.view.secrets.get path = some value := by
  have hpolicy := policyPath_of_named named
  unfold dataReply
  cases hrefuse : readRefusal P s.snapshot request.headers request.uri with
  | some r =>
      simp only [Option.getD_some, readRefusal_status hrefuse, false_iff]
      rintro ⟨readable, -⟩
      have hnone := readRefusal_eq_none.mpr ⟨hpolicy ▸ readable.permitted, readable.version⟩
      rw [hrefuse] at hnone
      cases hnone
  | none =>
      obtain ⟨hp, hv⟩ := readRefusal_eq_none.mp hrefuse
      have readable : Readable P mount request s.snapshot path := ⟨hr, named, hpolicy ▸ hp, hv⟩
      simp only [Option.getD_none, readable, true_and]
      unfold secretReply
      cases s.view.secrets.get path with
      | none => simp [absent, jsonResponse]
      | some value => simp [jsonResponse]

theorem dataReply_readable {s : Served P} {path value : Text} (h : Readable P mount request s.snapshot path)
    (hv : s.view.secrets.get path = some value) :
    dataReply s request path =
      jsonResponse 200 (kvData value s.snapshot.version (rfc3339FromSystemTime s.snapshot.loadedAt)) := by
  have hnone := readRefusal_eq_none.mpr ⟨policyPath_of_named h.named ▸ h.permitted, h.version⟩
  rw [dataReply, hnone, Option.getD_none, secretReply, hv]

end Reads

/-- A secret is served exactly when it may be read, and it is the one that was asked for. -/
theorem read_exact {P : Platform} (opens : P.aead.Opens) (mount : Text) (slot : Nat → Option (Served P))
    (nowMs : Nat) (w : Worker) (request : Request) :
    ((readSecret P mount (loads slot) nowMs w request).2.status = 200 ↔
      '/' ∉ mount ∧ (w.limiter.tryAcquireAt nowMs).2 = .ok () ∧
        ∃ s path value, slot 0 = some s ∧ Readable P mount request s.snapshot path ∧
          s.view.secrets.get path = some value) ∧
    (∀ s path value, '/' ∉ mount → (w.limiter.tryAcquireAt nowMs).2 = .ok () → slot 0 = some s →
      Readable P mount request s.snapshot path → s.view.secrets.get path = some value →
      (readSecret P mount (loads slot) nowMs w request).2 =
        jsonResponse 200 (kvData value s.snapshot.version (rfc3339FromSystemTime s.snapshot.loadedAt))) ∧
    ∀ named path, extractMountAndPath request.uri.path DATA = some (named, path) →
      policyPath request.uri = named ++ "/data/".toList ++ path := by
  have served : ∀ s path value, '/' ∉ mount → (w.limiter.tryAcquireAt nowMs).2 = .ok () → slot 0 = some s →
      Readable P mount request s.snapshot path → s.view.secrets.get path = some value →
      (readSecret P mount (loads slot) nowMs w request).2 =
        jsonResponse 200 (kvData value s.snapshot.version (rfc3339FromSystemTime s.snapshot.loadedAt)) := by
    intro s path value hm hpermit hs readable hv
    rw [readSecret_loaded opens hs readable.method, gate_data.mpr ⟨hpermit, hm, readable.named⟩]
    exact dataReply_readable readable hv
  refine ⟨⟨?_, ?_⟩, served, ?_⟩
  · intro hstatus
    cases hs : slot 0 with
    | none => exact absurd hstatus (readSecret_unloaded hs)
    | some s =>
        by_cases hr : isReadMethod request.method = true
        · rw [readSecret_loaded opens hs hr] at hstatus
          cases hg : gate mount w.limiter nowMs request.uri DATA with
          | error r =>
              rw [hg] at hstatus
              exact absurd hstatus (gate_refused hg)
          | ok path =>
              rw [hg] at hstatus
              obtain ⟨hpermit, hm, named⟩ := gate_data.mp hg
              obtain ⟨readable, value, hv⟩ := (dataReply_ok named hr).mp hstatus
              exact ⟨hm, hpermit, s, path, value, rfl, readable, hv⟩
        · simp [readSecret, hr, denied, jsonResponse] at hstatus
  · rintro ⟨hm, hpermit, s, path, value, hs, readable, hv⟩
    rw [served s path value hm hpermit hs readable hv]
    rfl
  · intro named path hext
    obtain ⟨-, hpath⟩ := (extract_eq_some (by decide)).mp hext
    rw [policyPath_of_named hpath, data_segments]

def servedPath : Text := "app/db".toList
def servedValue : Text := "\x7b\"user\":\"app\"\x7d".toList

/-- AES-256-GCM of `servedValue` under `sampleKey` and the zero nonce, without additional data. -/
def servedSealing : Sealing :=
  ⟨sampleKey, counterNonce 0, [], utf8 servedValue,
    [117, 158, 192, 173, 208, 94, 161, 135, 42, 201, 217, 69, 58, 81, 100, 237, 115, 84, 19, 137, 209, 171,
      132, 181, 188, 226, 243, 20, 213, 52]⟩

/-- `sampleHmac`, and the hash of `servedPath` under the log's key. -/
def servedHmac : Hmac := fun key message =>
  if key.val = sampleLogKey.val ∧ message = utf8 servedPath then
    ⟨[100, 253, 203, 95, 163, 252, 161, 123, 186, 70, 44, 219, 150, 53, 54, 97, 168, 71, 216, 32, 196, 196,
      224, 80, 166, 153, 210, 239, 2, 127, 203, 29], rfl⟩
  else sampleHmac key message

def servedPlatform : Platform := ⟨Aead.recorded [servedSealing], servedHmac, sampleFromSlice⟩

theorem servedPlatform_opens : servedPlatform.aead.Opens := Aead.recorded_opens (by decide)

def servedView : View := ⟨1, .ofList [(servedPath, servedValue)], samplePolicies, sampleTokens, some sampleKeyHex⟩

def servedSlot (view : View) : Nat → Option (Served servedPlatform) :=
  fun _ => Served.of servedPlatform sampleDraw view none

def servedWorker : Worker := ⟨.new 10 10, []⟩

def servedRequest (path : Text) : Request := ⟨"GET".toList, ⟨path, none⟩, [(TOKEN_HEADER, utf8 sampleToken)]⟩

theorem read_exact_sample : servedPlatform.aead.Opens ∧
    ∃ s path value, servedSlot servedView 0 = some s ∧
      Readable servedPlatform "secret".toList (servedRequest "/v1/secret/data/app/db".toList) s.snapshot path ∧
      s.view.secrets.get path = some value := by
  have hstatus : (readSecret servedPlatform "secret".toList (loads (servedSlot servedView)) 0 servedWorker
      (servedRequest "/v1/secret/data/app/db".toList)).2.status = 200 := by decide +kernel
  obtain ⟨hserved, -⟩ := read_exact servedPlatform_opens "secret".toList (servedSlot servedView) 0 servedWorker
    (servedRequest "/v1/secret/data/app/db".toList)
  exact ⟨servedPlatform_opens, (hserved.mp hstatus).2.2⟩

def openView : View := ⟨1, .ofList [(servedPath, servedValue)], .empty, .empty, none⟩

/-- A mount of several segments is never found, though the router delivers its reads. -/
theorem slashed_mount_unserved : servedPlatform.aead.Opens ∧
    ¬ ((readSecret servedPlatform "a/data/b".toList (loads (servedSlot openView)) 0 servedWorker
        (servedRequest "/v1/a/data/b/data/app/db".toList)).2.status = 200 ↔
      (servedWorker.limiter.tryAcquireAt 0).2 = .ok () ∧
        ∃ s path value, servedSlot openView 0 = some s ∧
          Readable servedPlatform "a/data/b".toList (servedRequest "/v1/a/data/b/data/app/db".toList) s.snapshot path ∧
          s.view.secrets.get path = some value) := by
  refine ⟨servedPlatform_opens, ?_⟩
  intro hiff
  have hstatus : (readSecret servedPlatform "a/data/b".toList (loads (servedSlot openView)) 0 servedWorker
      (servedRequest "/v1/a/data/b/data/app/db".toList)).2.status = 404 := by decide +kernel
  have hbuilt : (servedSlot openView 0).map (fun s => (s.snapshot.tokens.isNone, s.view.secrets.get servedPath)) =
      some (true, some servedValue) := by decide +kernel
  obtain ⟨s, hs, hfacts⟩ := Option.map_eq_some_iff.mp hbuilt
  obtain ⟨htokens, hvalue⟩ := Prod.mk.inj hfacts
  have readable : Readable servedPlatform "a/data/b".toList (servedRequest "/v1/a/data/b/data/app/db".toList)
      s.snapshot servedPath := by
    refine ⟨by decide, by decide, permits_of_no_table (Option.isNone_iff_eq_none.mp htokens) _ _ _, ?_⟩
    intro asked hasked
    cases hasked
  have hok := hiff.mpr ⟨by decide, s, servedPath, servedValue, hs, readable, hvalue⟩
  rw [hstatus] at hok
  cases hok

end Kallisto.Server
