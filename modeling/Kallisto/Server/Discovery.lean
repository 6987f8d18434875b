import Kallisto.Resolver.Listing
import Kallisto.Server.Reads

/-!
Finding a secret from outside: the router in front of the handlers, the URIs a client forms
out of a secret's path, and what comes back. Nothing between the two decodes a path.
-/
namespace Kallisto.Server
open Lib Kallisto.Crypto Kallisto.Policy Kallisto.Resolver

/-- The patterns of `kv::routes`, by their action. -/
def KV_ROUTES : List (Text × Route) :=
  [(DATA, .data), (METADATA, .metadata), ("subkeys".toList, .subkeys), ("delete".toList, .delete),
    ("undelete".toList, .undelete), ("destroy".toList, .destroy)]

/-- `/v1/:mount/{action}/*path`. The wildcard takes a non-empty remainder; whether `:mount` may
be empty is left to the router. -/
def matchesRoute (emptyMount : Bool) (uriPath action : Text) : Bool :=
  match extractMountAndPath uriPath action with
  | some (mount, path) => (emptyMount || mount ≠ []) && path ≠ []
  | none => false

def kvRoute (emptyMount : Bool) (uriPath : Text) : Option Route :=
  (KV_ROUTES.find? fun r => matchesRoute emptyMount uriPath r.1).map Prod.snd

/-- What a handler of `kv::routes` answers; nothing where the router delivers the request to
the status endpoints or to the fallback. -/
def serveKv (P : Platform) (emptyMount : Bool) (mount : Text) (slot : Nat → Option Snapshot) (nowMs : Nat)
    (w : Worker) (request : Request) : Option Response :=
  (kvRoute emptyMount request.uri.path).map fun route => (handle P mount route slot nowMs w request).2

/-- What a URI path may carry as itself: unreserved characters, sub-delimiters, `:`, `@` and the slash. -/
def pathChar (c : Char) : Bool := c.isAlphanum || c ∈ "-._~!$&'()*+,;=:@/".toList

def percent (b : UInt8) : Text := '%' :: (Crypto.encode [b]).map Char.toUpper

def percentEncode (text : Text) : Text :=
  text.flatMap fun c => if pathChar c then [c] else (utf8 [c]).flatMap percent

theorem percentEncode_of_all {text : Text} (h : text.all pathChar) : percentEncode text = text := by
  induction text with
  | nil => rfl
  | cons c text ih =>
      simp only [List.all_cons, Bool.and_eq_true] at h
      rw [percentEncode, List.flatMap_cons, if_pos h.1]
      exact congrArg (c :: ·) (ih h.2)

theorem percentEncode_ne_nil {text : Text} (h : text ≠ []) : percentEncode text ≠ [] := by
  cases text with
  | nil => exact absurd rfl h
  | cons c text =>
      rw [percentEncode, List.flatMap_cons]
      intro hnil
      have hc := (List.append_eq_nil_iff.mp hnil).1
      split_ifs at hc with hp
      have hbytes : utf8 [c] ≠ [] := by
        simp [utf8]
      cases hb : utf8 [c] with
      | nil => exact hbytes hb
      | cons b bytes => simp [hb, percent] at hc

/-- A mount that is one segment, and one the router lets through. -/
structure Segment (emptyMount : Bool) (mount : Text) : Prop where
  single : '/' ∉ mount
  admitted : emptyMount = true ∨ mount ≠ []

section Routing
variable {emptyMount : Bool} {mount uriPath path action : Text}

theorem matchesRoute_iff (ha : '/' ∉ action) : matchesRoute emptyMount uriPath action = true ↔
    ∃ mount path, Segment emptyMount mount ∧ path ≠ [] ∧
      uriPath = V1 ++ (mount ++ '/' :: (action ++ '/' :: path)) := by
  unfold matchesRoute
  constructor
  · intro h
    cases he : extractMountAndPath uriPath action with
    | none => simp [he] at h
    | some named =>
        simp only [he, Bool.and_eq_true, Bool.or_eq_true, decide_eq_true_eq] at h
        obtain ⟨hsingle, hpath⟩ := (extract_eq_some ha).mp he
        exact ⟨named.1, named.2, ⟨hsingle, h.1⟩, h.2, hpath⟩
  · rintro ⟨mount, path, hm, hp, hpath⟩
    rw [(extract_eq_some ha).mpr ⟨hm.single, hpath⟩]
    simpa [hp] using hm.admitted

theorem kvRoute_some {route : Route} (h : kvRoute emptyMount uriPath = some route) :
    ∃ action, (action, route) ∈ KV_ROUTES ∧ matchesRoute emptyMount uriPath action = true := by
  obtain ⟨entry, hfind, rfl⟩ := Option.map_eq_some_iff.mp h
  have hmatch : matchesRoute emptyMount uriPath entry.1 = true := by simpa using List.find?_some hfind
  exact ⟨entry.1, List.mem_of_find?_eq_some hfind, hmatch⟩

/-- The first slash cuts a text in one way. -/
theorem segment_inj {a b x y : Text} (ha : '/' ∉ a) (hb : '/' ∉ b) (h : a ++ '/' :: x = b ++ '/' :: y) :
    a = b ∧ x = y := by
  have hcut := congrArg (splitn '/' 2) h
  rw [splitn_cons ha, splitn_cons hb] at hcut
  simpa [splitn] using hcut

theorem kvRoute_data (hm : Segment emptyMount mount) (hp : path ≠ []) :
    kvRoute emptyMount (V1 ++ (mount ++ '/' :: (DATA ++ '/' :: path))) = some .data := by
  have hmatch : matchesRoute emptyMount (V1 ++ (mount ++ '/' :: (DATA ++ '/' :: path))) DATA = true :=
    (matchesRoute_iff (by decide)).mpr ⟨mount, path, hm, hp, rfl⟩
  simp only [kvRoute, KV_ROUTES, List.find?_cons, hmatch, Option.map_some]

theorem kvRoute_metadata (hm : Segment emptyMount mount) (hp : path ≠ []) :
    kvRoute emptyMount (V1 ++ (mount ++ '/' :: (METADATA ++ '/' :: path))) = some .metadata := by
  have hdata : matchesRoute emptyMount (V1 ++ (mount ++ '/' :: (METADATA ++ '/' :: path))) DATA = false := by
    rw [← Bool.not_eq_true, matchesRoute_iff (by decide)]
    rintro ⟨other, rest, ho, -, heq⟩
    have htail := (segment_inj hm.single ho.single (List.append_cancel_left heq)).2
    exact absurd (segment_inj (by decide) (by decide) htail).1 (by decide)
  have hmatch : matchesRoute emptyMount (V1 ++ (mount ++ '/' :: (METADATA ++ '/' :: path))) METADATA = true :=
    (matchesRoute_iff (by decide)).mpr ⟨mount, path, hm, hp, rfl⟩
  simp only [kvRoute, KV_ROUTES, List.find?_cons, hdata, hmatch, Option.map_some]

end Routing

section Discovery
variable {P : Platform} {emptyMount : Bool} {mount : Text} {slot : Nat → Option (Served P)} {nowMs : Nat}
  {w : Worker} {s : Served P} {path value : Text} {request : Request}

/-- What the gate lets through of a request the router matched. -/
theorem gate_matched {action : Text} (ha : '/' ∉ action)
    (hmatch : matchesRoute emptyMount request.uri.path action = true)
    (hg : gate mount w.limiter nowMs request.uri action = .ok path) :
    Segment emptyMount mount ∧ path ≠ [] ∧ request.uri.path = V1 ++ (mount ++ '/' :: (action ++ '/' :: path)) := by
  obtain ⟨-, hm, hpath⟩ := (gate_ok ha).mp hg
  obtain ⟨named, rest, hn, hne, hrest⟩ := (matchesRoute_iff ha).mp hmatch
  obtain ⟨hnamed, htail⟩ := segment_inj hn.single hm (List.append_cancel_left (hrest.symm.trans hpath))
  have heq : rest = path := (segment_inj ha ha htail).2
  exact ⟨hnamed ▸ hn, heq ▸ hne, hpath⟩

/-- A handler that answers 200 was reached through a non-empty path under the mount. -/
theorem serveKv_ok (opens : P.aead.Opens) (hs : slot 0 = some s) {response : Response}
    (h : serveKv P emptyMount mount (loads slot) nowMs w request = some response) (hok : response.status = 200) :
    ∃ action path, (action = DATA ∨ action = METADATA) ∧ Segment emptyMount mount ∧ path ≠ [] ∧
      request.uri.path = V1 ++ (mount ++ '/' :: (action ++ '/' :: path)) := by
  obtain ⟨route, hroute, rfl⟩ := Option.map_eq_some_iff.mp h
  obtain ⟨action, hmem, hmatch⟩ := kvRoute_some hroute
  have hrefuse : (refuseWrite nowMs w).2.status ≠ 200 := by
    unfold refuseWrite
    rcases w.limiter.tryAcquireAt nowMs with ⟨limiter, permit⟩
    cases permit <;> simp [tooMany, denied, jsonResponse]
  simp only [KV_ROUTES, List.mem_cons, Prod.mk.injEq, List.not_mem_nil, or_false] at hmem
  rcases hmem with ⟨rfl, rfl⟩ | ⟨rfl, rfl⟩ | ⟨-, rfl⟩ | ⟨-, rfl⟩ | ⟨-, rfl⟩ | ⟨-, rfl⟩
  · by_cases hr : isReadMethod request.method = true
    · rw [handle, readSecret_loaded opens hs hr] at hok
      cases hg : gate mount w.limiter nowMs request.uri DATA with
      | error r =>
          rw [hg] at hok
          exact absurd hok (gate_refused hg)
      | ok path => exact ⟨DATA, path, .inl rfl, gate_matched (by decide) hmatch hg⟩
    · simp [handle, readSecret, hr, denied, jsonResponse] at hok
  · by_cases hr : isListing request = true ∨ isReadMethod request.method = true
    · rw [handle, readMetadata_loaded hs hr] at hok
      cases hg : gate mount w.limiter nowMs request.uri METADATA with
      | error r =>
          rw [hg] at hok
          exact absurd hok (gate_refused hg)
      | ok path => exact ⟨METADATA, path, .inr rfl, gate_matched (by decide) hmatch hg⟩
    · simp only [not_or, Bool.not_eq_true] at hr
      simp [handle, readMetadata, hr.1, hr.2, denied, jsonResponse] at hok
  · exact absurd hok hrefuse
  · exact absurd hok hrefuse
  · exact absurd hok hrefuse
  · exact absurd hok hrefuse

/-- The mount's root has no spelling that reaches a listing. -/
theorem root_unlisted (opens : P.aead.Opens) (hs : slot 0 = some s)
    (huri : request.uri.path = V1 ++ (mount ++ "/metadata".toList) ∨
      request.uri.path = V1 ++ (mount ++ "/metadata/".toList)) {response : Response}
    (h : serveKv P emptyMount mount (loads slot) nowMs w request = some response) : response.status ≠ 200 := by
  intro hok
  obtain ⟨action, path, haction, -, hne, hpath⟩ := serveKv_ok opens hs h hok
  have hslash : '/' ∉ action := by
    rcases haction with h | h
    · rw [h]
      decide
    · rw [h]
      decide
  rcases huri with huri | huri
  · have hroot : '/' :: (action ++ '/' :: path) = '/' :: METADATA :=
      List.append_cancel_left (List.append_cancel_left (hpath.symm.trans huri))
    have hmem : '/' ∈ METADATA := List.tail_eq_of_cons_eq hroot ▸ List.mem_append_right action List.mem_cons_self
    exact absurd hmem (by decide)
  · have hroot : '/' :: (action ++ '/' :: path) = '/' :: (METADATA ++ ['/']) :=
      List.append_cancel_left (List.append_cancel_left (hpath.symm.trans huri))
    exact hne (segment_inj hslash (by decide) (List.tail_eq_of_cons_eq hroot)).2

theorem serveKv_listing (hs : slot 0 = some s) (permit : (w.limiter.tryAcquireAt nowMs).2 = .ok ())
    (hm : Segment emptyMount mount) (hlist : isListing request = true) (hne : path ≠ [])
    (huri : request.uri.path = V1 ++ (mount ++ "/metadata/".toList ++ path)) :
    serveKv P emptyMount mount (loads slot) nowMs w request =
      some (listChildren P s.snapshot mount (presentedToken request.headers) path) := by
  have hroute : kvRoute emptyMount request.uri.path = some .metadata := by
    rw [huri, ← metadata_segments]
    exact kvRoute_metadata hm hne
  have hgate : gate mount w.limiter nowMs request.uri METADATA = .ok path := gate_metadata.mpr ⟨permit, hm.single, huri⟩
  rw [serveKv, hroute, Option.map_some, handle, readMetadata_loaded hs (.inl hlist), hgate]
  simp only [metadataReply, hlist, if_true]

theorem list_reply (hs : slot 0 = some s) (hopen : s.snapshot.tokens = none)
    (permit : (w.limiter.tryAcquireAt nowMs).2 = .ok ()) (hm : Segment emptyMount mount)
    (hlist : isListing request = true) {dir : Text} (hne : dir ≠ [])
    (hdir : dir.getLast? = some '/') (huri : request.uri.path = V1 ++ (mount ++ "/metadata/".toList ++ dir)) :
    serveKv P emptyMount mount (loads slot) nowMs w request =
      some (if s.snapshot.children dir = [] then absent else jsonResponse 200 (listKeys (s.snapshot.children dir))) := by
  have hdirectory : directory dir = dir := by rw [directory, if_pos (.inr hdir)]
  rw [serveKv_listing hs permit hm hlist hne huri]
  simp only [listChildren, hdirectory, permits_of_no_table hopen, Bool.not_true, Bool.false_eq_true, if_false,
    List.isEmpty_iff]

theorem read_reply (opens : P.aead.Opens) (hs : slot 0 = some s) (hopen : s.snapshot.tokens = none)
    (permit : (w.limiter.tryAcquireAt nowMs).2 = .ok ()) (hm : Segment emptyMount mount) (hne : path ≠ [])
    (hget : isReadMethod request.method = true)
    (huri : request.uri = ⟨V1 ++ (mount ++ "/data/".toList ++ path), none⟩) :
    serveKv P emptyMount mount (loads slot) nowMs w request = some (secretReply s path) := by
  have hpath : request.uri.path = V1 ++ (mount ++ "/data/".toList ++ path) := by rw [huri]
  have hroute : kvRoute emptyMount request.uri.path = some .data := by
    rw [hpath, ← data_segments]
    exact kvRoute_data hm hne
  have hgate : gate mount w.limiter nowMs request.uri DATA = .ok path := gate_data.mpr ⟨permit, hm.single, hpath⟩
  have hrefusal : readRefusal P s.snapshot request.headers request.uri = none := by
    rw [readRefusal_eq_none, huri]
    exact ⟨permits_of_no_table hopen _ _ _, nofun⟩
  rw [serveKv, hroute, Option.map_some, handle, readSecret_loaded opens hs hget, hgate]
  simp only [dataReply, hrefusal, Option.getD_none]

theorem kvData_inj {a b : Text} {version : UInt64} {time : Text} (h : kvData a version time = kvData b version time) :
    a = b := by
  unfold kvData at h
  -- The literals must not be unfolded to characters while the two sides are matched.
  generalize "\x7b\"request_id\":\"\",\"lease_id\":\"\",\"renewable\":false,\"lease_duration\":0,".toList = head at h
  generalize "\"data\":\x7b\"data\":".toList = label at h
  simp only [List.append_assoc] at h
  have hdata := List.append_cancel_left (List.append_cancel_left h)
  exact List.append_cancel_right hdata

theorem secretReply_iff : secretReply s path =
    jsonResponse 200 (kvData value s.snapshot.version (rfc3339FromSystemTime s.snapshot.loadedAt)) ↔
      s.view.secrets.get path = some value := by
  unfold secretReply
  cases s.view.secrets.get path with
  | none => simp [absent, jsonResponse]
  | some held =>
      simp only [jsonResponse, Response.mk.injEq, true_and, Option.some.injEq]
      exact ⟨kvData_inj, fun h => h ▸ rfl⟩

end Discovery

section Claims
variable {P : Platform} (emptyMount : Bool) (mount : Text) (slot : Nat → Option (Served P)) (nowMs : Nat)
  (w : Worker) (s : Served P) (path value : Text)

/-- A client that only knows the mount can walk down to the secret and read it. -/
structure Discoverable : Prop where
  listed : ∀ dir rest request, path = dir ++ rest → (dir = [] ∨ dir.getLast? = some '/') →
    isListing request = true → request.uri.path = V1 ++ (mount ++ "/metadata/".toList ++ percentEncode dir) →
    ∃ keys, Snapshot.childOf rest ∈ keys ∧
      serveKv P emptyMount mount (loads slot) nowMs w request = some (jsonResponse 200 (listKeys keys))
  read : ∀ request, request.method = "GET".toList →
    request.uri = ⟨V1 ++ (mount ++ "/data/".toList ++ percentEncode path), none⟩ →
    serveKv P emptyMount mount (loads slot) nowMs w request =
      some (jsonResponse 200 (kvData value s.snapshot.version (rfc3339FromSystemTime s.snapshot.loadedAt)))

variable {emptyMount mount slot nowMs w s path value}

/-- No secret is discoverable, since the walk starts at the root. Below the root a directory
lists where its spelling needs no encoding, and a read succeeds exactly where the file holds
the same value under the encoded spelling. -/
theorem discovery_stops_at_the_root (opens : P.aead.Opens) (hs : slot 0 = some s) (hopen : s.snapshot.tokens = none)
    (permit : (w.limiter.tryAcquireAt nowMs).2 = .ok ()) (hp : s.view.secrets.get path = some value)
    (hne : path ≠ []) :
    ¬ Discoverable emptyMount mount slot nowMs w s path value ∧
    (∀ request response, request.uri.path = V1 ++ (mount ++ "/metadata".toList) ∨
        request.uri.path = V1 ++ (mount ++ "/metadata/".toList) →
      serveKv P emptyMount mount (loads slot) nowMs w request = some response → response.status ≠ 200) ∧
    (Segment emptyMount mount → ∀ dir rest request, path = dir ++ rest → dir.getLast? = some '/' →
      dir.all pathChar = true → isListing request = true →
      request.uri.path = V1 ++ (mount ++ "/metadata/".toList ++ percentEncode dir) →
      ∃ keys, Snapshot.childOf rest ∈ keys ∧
        serveKv P emptyMount mount (loads slot) nowMs w request = some (jsonResponse 200 (listKeys keys))) ∧
    ∀ request, request.method = "GET".toList →
      request.uri = ⟨V1 ++ (mount ++ "/data/".toList ++ percentEncode path), none⟩ →
      (serveKv P emptyMount mount (loads slot) nowMs w request =
          some (jsonResponse 200 (kvData value s.snapshot.version (rfc3339FromSystemTime s.snapshot.loadedAt))) ↔
        Segment emptyMount mount ∧ s.view.secrets.get (percentEncode path) = some value) := by
  refine ⟨?_, fun request response huri h => root_unlisted opens hs huri h, ?_, ?_⟩
  · intro found
    let request : Request := ⟨"LIST".toList, ⟨V1 ++ (mount ++ "/metadata/".toList), none⟩, []⟩
    obtain ⟨keys, -, hreply⟩ := found.listed [] path request rfl (.inl rfl) rfl
      (by simp only [request, percentEncode, List.flatMap_nil, List.append_nil])
    exact root_unlisted opens hs (.inr rfl) hreply rfl
  · intro hm dir rest request hsplit hdir hall hlist huri
    rw [percentEncode_of_all hall] at huri
    have hdne : dir ≠ [] := by
      rintro rfl
      cases hdir
    have hsorted : s.snapshot.sortedPaths.Pairwise (· < ·) := s.image.paths ▸ s.view.secrets.keys_sorted
    have hmem : dir ++ rest ∈ s.snapshot.sortedPaths := by
      rw [← hsplit, s.image.paths, SortedMap.mem_keys, hp]
      rfl
    have hchild := childOf_mem_children hsorted hmem
    refine ⟨_, hchild, ?_⟩
    rw [list_reply hs hopen permit hm hlist hdne hdir huri, if_neg (List.ne_nil_of_mem hchild)]
  · intro request hget huri
    have hr : isReadMethod request.method = true := by
      rw [hget]
      decide
    have hene : percentEncode path ≠ [] := percentEncode_ne_nil hne
    constructor
    · intro hreply
      obtain ⟨-, -, -, hm, -⟩ := serveKv_ok opens hs hreply rfl
      rw [read_reply opens hs hopen permit hm hene hr huri, Option.some.injEq, secretReply_iff] at hreply
      exact ⟨hm, hreply⟩
    · rintro ⟨hm, hget⟩
      rw [read_reply opens hs hopen permit hm hene hr huri, secretReply_iff.mpr hget]

end Claims

def spacedPath : Text := "my app".toList

def spacedView : View := ⟨1, .ofList [(spacedPath, servedValue)], .empty, .empty, none⟩

def listRoot : Request := ⟨"LIST".toList, ⟨"/v1/secret/metadata/".toList, none⟩, []⟩

def readSpaced : Request := ⟨"GET".toList, ⟨"/v1/secret/data/my%20app".toList, none⟩, []⟩

/-- Neither the root that holds the secret nor the secret itself can be asked for. -/
theorem spaced_secret_undiscoverable : ∃ s, servedSlot spacedView 0 = some s ∧ s.snapshot.tokens = none ∧
    s.view.secrets.get spacedPath = some servedValue ∧ (servedWorker.limiter.tryAcquireAt 0).2 = .ok () ∧
    serveKv servedPlatform false "secret".toList (loads (servedSlot spacedView)) 0 servedWorker listRoot = none ∧
    serveKv servedPlatform false "secret".toList (loads (servedSlot spacedView)) 0 servedWorker readSpaced =
      some absent ∧
    ¬ Discoverable false "secret".toList (servedSlot spacedView) 0 servedWorker s spacedPath servedValue := by
  have hbuilt : (servedSlot spacedView 0).map (fun s => (s.snapshot.tokens.isNone, s.view.secrets.get spacedPath)) =
      some (true, some servedValue) := by decide +kernel
  obtain ⟨s, hs, hfacts⟩ := Option.map_eq_some_iff.mp hbuilt
  obtain ⟨htokens, hvalue⟩ := Prod.mk.inj hfacts
  have hroot : serveKv servedPlatform false "secret".toList (loads (servedSlot spacedView)) 0 servedWorker listRoot =
      none := by decide +kernel
  refine ⟨s, hs, Option.isNone_iff_eq_none.mp htokens, hvalue, by decide, hroot, by decide +kernel, ?_⟩
  intro found
  obtain ⟨keys, -, hreply⟩ := found.listed [] spacedPath listRoot rfl (.inl rfl) rfl rfl
  rw [hroot] at hreply
  cases hreply

theorem discovery_stops_at_the_root_sample : servedPlatform.aead.Opens ∧
    ∃ s, servedSlot openView 0 = some s ∧
      serveKv servedPlatform false "secret".toList (loads (servedSlot openView)) 0 servedWorker
          ⟨"GET".toList, ⟨"/v1/secret/data/app/db".toList, none⟩, []⟩ =
        some (jsonResponse 200 (kvData servedValue s.snapshot.version
          (rfc3339FromSystemTime s.snapshot.loadedAt))) ∧
      ¬ Discoverable false "secret".toList (servedSlot openView) 0 servedWorker s servedPath servedValue := by
  have hbuilt : (servedSlot openView 0).map (fun s => (s.snapshot.tokens.isNone, s.view.secrets.get servedPath)) =
      some (true, some servedValue) := by decide +kernel
  obtain ⟨s, hs, hfacts⟩ := Option.map_eq_some_iff.mp hbuilt
  obtain ⟨htokens, hvalue⟩ := Prod.mk.inj hfacts
  have hpermit : (servedWorker.limiter.tryAcquireAt 0).2 = .ok () := by decide
  obtain ⟨hnot, -, -, hread⟩ : ¬ Discoverable false "secret".toList (servedSlot openView) 0 servedWorker s servedPath
    servedValue ∧ _ :=
    discovery_stops_at_the_root servedPlatform_opens hs (Option.isNone_iff_eq_none.mp htokens) hpermit hvalue (by decide)
  exact ⟨servedPlatform_opens, s, hs, (hread _ rfl (by decide)).mpr ⟨⟨by decide, by decide⟩, hvalue⟩, hnot⟩

end Kallisto.Server
