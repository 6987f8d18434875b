import Kallisto.Resolver.Snapshot
import Kallisto.Server.RateLimit
import Kallisto.Server.Request
import Kallisto.Server.Responses

/-!
The handlers behind the KV routes and behind the two token routes. A worker owns a limiter
and a decryption buffer; `slot i` is what the `i`-th load of the snapshot slot during one
request returns, so that stores by the refresher may fall between any two loads.
-/
namespace Kallisto.Server
open Lib Kallisto.Crypto Kallisto.Policy Kallisto.Resolver

structure Response where
  status : Nat
  headers : List (Text × Text)
  body : Text
  deriving DecidableEq, Repr

structure Worker where
  limiter : RateLimiter
  scratch : Bytes
  deriving DecidableEq, Repr

def CONTENT_TYPE : Text × Text := ("content-type".toList, "application/json".toList)

def jsonResponse (status : Nat) (body : Text) : Response := ⟨status, [CONTENT_TYPE], body⟩

def sealed : Response := jsonResponse 503 (errors "Vault is sealed".toList)

def denied : Response := jsonResponse 403 (errors "permission denied".toList)

def absent : Response := jsonResponse 404 "\x7b\"errors\":[]\x7d".toList

def tooMany (retryAfterSecs : Nat) : Response :=
  ⟨429, [CONTENT_TYPE, ("retry-after".toList, decimal retryAfterSecs)], errors "request rate exceeded".toList⟩

def routeNotFound (path : Text) : Response :=
  let route := (stripPrefix V1 path).getD path
  jsonResponse 404 (errors ("no handler for route \"".toList ++ route ++ "\". route entry not found.".toList))

/-- Rate limit, then the sealed check, then the route and the mount. -/
def accept (mount : Text) (slot : Nat → Option Snapshot) (nowMs : Nat) (w : Worker) (uri : Uri) (action : Text) :
    Worker × Except Response (Snapshot × Text) :=
  let (limiter, permit) := w.limiter.tryAcquireAt nowMs
  let w := { w with limiter }
  match permit with
  | .error retryAfter => (w, .error (tooMany retryAfter))
  | .ok () =>
      match slot 0 with
      | none => (w, .error sealed)
      | some snapshot =>
          match extractMountAndPath uri.path action with
          | none => (w, .error (routeNotFound uri.path))
          | some (named, path) =>
              if named ≠ mount then (w, .error (routeNotFound uri.path))
              else (w, .ok (snapshot, path))

def readRefusal (P : Platform) (snapshot : Snapshot) (headers : List (Text × Bytes)) (uri : Uri) :
    Option Response :=
  if !snapshot.permits P (presentedToken headers) (policyPath uri) .read then some denied
  else
    match versionParam uri with
    | some asked => if asked ≠ 0 ∧ asked ≠ snapshot.version then some absent else none
    | none => none

def renderSecret (P : Platform) (snapshot : Snapshot) (path : Text) (w : Worker) : Worker × Response :=
  let (scratch, outcome) := snapshot.withSecret P path
    (fun value => kvData value snapshot.version snapshot.loadedAtRfc3339) w.scratch
  let response := match outcome with
    | some (.ok body) => jsonResponse 200 body
    | some (.error _) => jsonResponse 500 (errors "internal error".toList)
    | none => absent
  ({ w with scratch }, response)

def DATA : Text := "data".toList
def METADATA : Text := "metadata".toList

def readSecret (P : Platform) (mount : Text) (slot : Nat → Option Snapshot) (nowMs : Nat) (w : Worker)
    (request : Request) : Worker × Response :=
  if !isReadMethod request.method then (w, denied)
  else
    match accept mount slot nowMs w request.uri DATA with
    | (w, .error response) => (w, response)
    | (w, .ok (snapshot, path)) =>
        match readRefusal P snapshot request.headers request.uri with
        | some refusal => (w, refusal)
        | none => renderSecret P snapshot path w

/-- A LIST names a directory with or without its trailing slash. -/
def directory (path : Text) : Text :=
  if path = [] ∨ path.getLast? = some '/' then path else path ++ ['/']

def listChildren (P : Platform) (snapshot : Snapshot) (mount : Text) (token : Option Text) (path : Text) :
    Response :=
  let pre := directory path
  if !snapshot.permits P token (mount ++ "/metadata/".toList ++ pre) .list then denied
  else
    let keys := snapshot.children pre
    if keys.isEmpty then absent else jsonResponse 200 (listKeys keys)

def describeSecret (P : Platform) (snapshot : Snapshot) (token : Option Text) (uri : Uri) (path : Text) :
    Response :=
  if !snapshot.permits P token (policyPath uri) .read then denied
  else if !snapshot.hasSecret path then absent
  else jsonResponse 200 (kvMetadata snapshot.version snapshot.loadedAtRfc3339)

def isListing (request : Request) : Bool :=
  isListMethod request.method || (isReadMethod request.method && wantsList request.uri)

def readMetadata (P : Platform) (mount : Text) (slot : Nat → Option Snapshot) (nowMs : Nat) (w : Worker)
    (request : Request) : Worker × Response :=
  let listing := isListing request
  if !listing && !isReadMethod request.method then (w, denied)
  else
    match accept mount slot nowMs w request.uri METADATA with
    | (w, .error response) => (w, response)
    | (w, .ok (snapshot, path)) =>
        let token := presentedToken request.headers
        if listing then (w, listChildren P snapshot mount token path)
        else (w, describeSecret P snapshot token request.uri path)

def refuseWrite (nowMs : Nat) (w : Worker) : Worker × Response :=
  let (limiter, permit) := w.limiter.tryAcquireAt nowMs
  let w := { w with limiter }
  match permit with
  | .error retryAfter => (w, tooMany retryAfter)
  | .ok () => (w, denied)

/-- No call to the limiter here: the worker comes back as it was. -/
def tokenSelf (P : Platform) (slot : Nat → Option Snapshot) (w : Worker) (request : Request) : Worker × Response :=
  match slot 0 with
  | none => (w, sealed)
  | some snapshot =>
      if !snapshot.enforces then (w, jsonResponse 200 (tokenLookup ["root".toList]))
      else
        match snapshot.grant P (presentedToken request.headers) with
        | some grant => (w, jsonResponse 200 (tokenLookup grant.policies))
        | none => (w, denied)

/-- The routes of `kv::routes`, and the two of `sys::router` that look at the token. -/
inductive Route where
  | data
  | metadata
  | subkeys
  | delete
  | undelete
  | destroy
  | lookupSelf
  | renewSelf
  deriving DecidableEq, Repr

def handle (P : Platform) (mount : Text) (route : Route) (slot : Nat → Option Snapshot) (nowMs : Nat)
    (w : Worker) (request : Request) : Worker × Response :=
  match route with
  | .data => readSecret P mount slot nowMs w request
  | .metadata => readMetadata P mount slot nowMs w request
  | .subkeys | .delete | .undelete | .destroy => refuseWrite nowMs w
  | .lookupSelf | .renewSelf => tokenSelf P slot w request

/-- A snapshot together with the file it was built from; there is no other way to make one. -/
structure Served (P : Platform) where
  snapshot : Snapshot
  view : View
  draw : Draw
  etag : Option Text
  built : Snapshot.build P draw view etag = .ok snapshot

theorem Served.image {P : Platform} (s : Served P) : Image P s.view s.snapshot := (build_image s.built).1

/-- The slot as the handlers see it. -/
def loads {P : Platform} (slot : Nat → Option (Served P)) : Nat → Option Snapshot :=
  fun i => (slot i).map Served.snapshot

def Served.of (P : Platform) (draw : Draw) (view : View) (etag : Option Text) : Option (Served P) :=
  match h : Snapshot.build P draw view etag with
  | .ok snapshot => some ⟨snapshot, view, draw, etag, h⟩
  | .error _ => none

section Accept
variable {mount : Text} {slot : Nat → Option Snapshot} {nowMs : Nat} {w : Worker} {uri : Uri} {action : Text}

/-- The gate asks the limiter once, whatever it answers. -/
theorem accept_limiter : (accept mount slot nowMs w uri action).1 =
    { w with limiter := (w.limiter.tryAcquireAt nowMs).1 } := by
  unfold accept
  rcases w.limiter.tryAcquireAt nowMs with ⟨limiter, permit⟩
  cases permit with
  | error retryAfter => rfl
  | ok u =>
      cases slot 0 with
      | none => rfl
      | some s =>
          cases extractMountAndPath uri.path action with
          | none => rfl
          | some named =>
              dsimp only
              split_ifs <;> rfl

/-- The gate as it stands once a snapshot is loaded: nothing of the snapshot is looked at. -/
def gate (mount : Text) (limiter : RateLimiter) (nowMs : Nat) (uri : Uri) (action : Text) : Except Response Text :=
  match (limiter.tryAcquireAt nowMs).2 with
  | .error retryAfter => .error (tooMany retryAfter)
  | .ok () =>
      match extractMountAndPath uri.path action with
      | none => .error (routeNotFound uri.path)
      | some (named, path) => if named ≠ mount then .error (routeNotFound uri.path) else .ok path

theorem accept_loaded {snapshot : Snapshot} (h : slot 0 = some snapshot) :
    (accept mount slot nowMs w uri action).2 =
      (gate mount w.limiter nowMs uri action).map fun path => (snapshot, path) := by
  unfold accept gate
  rcases w.limiter.tryAcquireAt nowMs with ⟨limiter, permit⟩
  cases permit with
  | error retryAfter => rfl
  | ok u =>
      simp only [h]
      cases extractMountAndPath uri.path action with
      | none => rfl
      | some named =>
          dsimp only
          split_ifs <;> rfl

theorem accept_unloaded (h : slot 0 = none) :
    ∃ r, (accept mount slot nowMs w uri action).2 = .error r ∧ r.status ≠ 200 := by
  unfold accept
  rcases w.limiter.tryAcquireAt nowMs with ⟨limiter, permit⟩
  cases permit with
  | error retryAfter => exact ⟨_, rfl, by simp [tooMany]⟩
  | ok u =>
      simp only [h]
      exact ⟨_, rfl, by simp [sealed, jsonResponse]⟩

theorem gate_ok {limiter : RateLimiter} {path : Text} (ha : '/' ∉ action) :
    gate mount limiter nowMs uri action = .ok path ↔ (limiter.tryAcquireAt nowMs).2 = .ok () ∧ '/' ∉ mount ∧
      uri.path = V1 ++ (mount ++ '/' :: (action ++ '/' :: path)) := by
  rw [← extract_eq_some ha]
  unfold gate
  cases (limiter.tryAcquireAt nowMs).2 with
  | error retryAfter => simp
  | ok u =>
      cases extractMountAndPath uri.path action with
      | none => simp
      | some named =>
          obtain ⟨named, p⟩ := named
          by_cases hm : named = mount <;> simp [hm]

theorem gate_refused {limiter : RateLimiter} {r : Response} (h : gate mount limiter nowMs uri action = .error r) :
    r.status ≠ 200 := by
  unfold gate at h
  cases hl : (limiter.tryAcquireAt nowMs).2 with
  | error retryAfter =>
      simp only [hl, Except.error.injEq] at h
      subst h
      simp [tooMany]
  | ok u =>
      have hroute : ∀ path, (routeNotFound path).status ≠ 200 := by simp [routeNotFound, jsonResponse]
      simp only [hl] at h
      cases he : extractMountAndPath uri.path action with
      | none =>
          simp only [he, Except.error.injEq] at h
          exact h ▸ hroute _
      | some named =>
          simp only [he] at h
          split_ifs at h
          cases h
          exact hroute _

end Accept

end Kallisto.Server
