import Kallisto.Crypto.Barrier
import Kallisto.Policy.Token
import Kallisto.Server.TimeFormat
import Kallisto.Telemetry.Redact
import Mathlib.Data.List.Sort

/-!
The table the HTTP layer answers out of, built once per file and swapped in whole.
-/
namespace Kallisto.Resolver
open Lib Kallisto.Crypto Kallisto.Policy Kallisto.Telemetry Kallisto.Server

/-- The code this program calls and does not contain. -/
structure Platform where
  aead : Aead
  hmac : Hmac
  fromSlice : Bytes → Option View

structure Entry where
  sealed : Sealed
  pathId : Id
  deriving DecidableEq

/-- `secrets` is asked by key and for its size only, so its order does not matter. -/
structure Snapshot where
  version : UInt64
  etag : Option Text
  loadedAt : SystemTime
  loadedAtRfc3339 : Text
  secrets : SortedMap Text Entry
  barrier : Barrier
  tokens : Option TokenTable
  sortedPaths : List Text
  logKey : Option LogKey

inductive SnapshotError where
  | tokens (e : TokenError)
  | barrier (e : SealError)
  deriving DecidableEq, Repr

/-- What `build` takes from the machine: the barrier's key, if the generator gave one, and
the time. -/
structure Draw where
  seed : Option SealKey
  now : SystemTime
  deriving DecidableEq

def buildTokens (view : View) : Except TokenError (Option TokenTable) :=
  match view.tokenKey, view.tokens.entries with
  | some keyHex, _ => (TokenTable.build keyHex view.tokens view.policies).map some
  | none, [] => .ok none
  | none, row :: rows => .error (.keyMissing (row :: rows).length)

/-- The loop that seals every secret and collects the paths. -/
def sealSecrets (P : Platform) (logKey : Option LogKey) :
    List (Text × Text) → Barrier → SortedMap Text Entry → List Text →
      Except SealError (Barrier × SortedMap Text Entry × List Text)
  | [], barrier, secrets, paths => .ok (barrier, secrets, paths)
  | (path, value) :: rest, barrier, secrets, paths =>
      match barrier.seal P.aead (utf8 value) with
      | .error e => .error e
      | .ok (sealed, barrier) =>
          let pathId := logKey.elim Id.NONE fun key => key.id P.hmac path
          sealSecrets P logKey rest barrier (secrets.insert path ⟨sealed, pathId⟩) (paths ++ [path])

def Snapshot.build (P : Platform) (draw : Draw) (view : View) (etag : Option Text) :
    Except SnapshotError Snapshot :=
  match buildTokens view with
  | .error e => .error (.tokens e)
  | .ok tokens =>
      let logKey := tokens.map fun table => LogKey.mk (table.derive P.hmac LOG_LABEL)
      match Barrier.new draw.seed with
      | .error e => .error (.barrier e)
      | .ok barrier =>
          match sealSecrets P logKey view.secrets.entries barrier .empty [] with
          | .error e => .error (.barrier e)
          | .ok (barrier, secrets, paths) =>
              .ok {
                version := view.version
                etag
                loadedAt := draw.now
                loadedAtRfc3339 := rfc3339FromSystemTime draw.now
                secrets
                barrier
                tokens
                sortedPaths := paths.insertionSort (· ≤ ·)
                logKey }

namespace Snapshot

def hasSecret (s : Snapshot) (path : Text) : Bool := (s.secrets.get path).isSome

/-- The thread's scratch buffer goes in and comes out. -/
def withSecret {R : Type} (P : Platform) (s : Snapshot) (path : Text) (f : Text → R) (scratch : Bytes) :
    Bytes × Option (Except SealError R) :=
  match s.secrets.get path with
  | none => (scratch, none)
  | some entry =>
      let (scratch, outcome) := s.barrier.withPlaintext P.aead entry.sealed f scratch
      (scratch, some outcome)

def pathId (P : Platform) (s : Snapshot) (path : Text) (fallback : LogKey) : Id :=
  match s.secrets.get path, s.logKey with
  | some entry, some _ => entry.pathId
  | _, some key => key.id P.hmac path
  | _, none => fallback.id P.hmac path

def tokenId (P : Platform) (s : Snapshot) (presented : Option Text) : Id :=
  match s.tokens, presented with
  | some table, some presented => .fromBytes (table.tokenId P.hmac presented).val
  | _, _ => .NONE

def enforces (s : Snapshot) : Bool := s.tokens.isSome

def grant (P : Platform) (s : Snapshot) (presented : Option Text) : Option Grant := do
  let table ← s.tokens
  table.lookup P.hmac (← presented)

def permits (P : Platform) (s : Snapshot) (presented : Option Text) (path : Text)
    (capability : Capability) : Bool :=
  match s.tokens with
  | none => true
  | some table =>
      match presented with
      | none => false
      | some presented => (table.lookup P.hmac presented).any fun grant => grant.rules.allows path capability

def secretCount (s : Snapshot) : Nat := s.secrets.entries.length

/-- The part of a path up to and including its first slash, or all of it. -/
def childOf (rest : Text) : Text :=
  match rest.dropWhile (· != '/') with
  | [] => rest
  | _ :: _ => rest.takeWhile (· != '/') ++ ['/']

def childrenLoop (pre : Text) (seen : List Text) : List Text → List Text
  | [] => seen
  | path :: paths =>
      match stripPrefix pre path with
      | none => seen
      | some rest =>
          let child := childOf rest
          childrenLoop pre (if seen.getLast? ≠ some child then seen ++ [child] else seen) paths

/-- `partition_point` on sorted paths is the number of leading paths below the prefix. -/
def children (s : Snapshot) (pre : Text) : List Text :=
  childrenLoop pre [] (s.sortedPaths.dropWhile (· < pre))

end Snapshot

/-- Each row gets its own turn of the counter, and the identifier of its path. -/
theorem sealSecrets_ok {P : Platform} {logKey : Option LogKey} {rest : List (Text × Text)}
    {barrier barrier' : Barrier} {secrets secrets' : SortedMap Text Entry} {paths paths' : List Text}
    (h : sealSecrets P logKey rest barrier secrets paths = .ok (barrier', secrets', paths'))
    (sorted : rest.Pairwise fun a b => a.1 < b.1) :
    barrier'.key = barrier.key ∧ paths' = paths ++ rest.map Prod.fst ∧
      (∀ path, path ∉ rest.map Prod.fst → secrets'.get path = secrets.get path) ∧
      ∀ i path value, rest[i]? = some (path, value) → ∃ entry, secrets'.get path = some entry ∧
        entry.sealed.nonce = counterNonce (barrier.nonce + UInt64.ofNat i) ∧
        entry.pathId = logKey.elim Id.NONE (fun key => key.id P.hmac path) ∧
        P.aead.sealInPlaceAppendTag barrier.key entry.sealed.nonce [] (utf8 value) = some entry.sealed.bytes := by
  induction rest generalizing barrier secrets paths with
  | nil =>
      cases h
      simp
  | cons row rest ih =>
      obtain ⟨path, value⟩ := row
      obtain ⟨hhead, htail⟩ := List.pairwise_cons.mp sorted
      simp only [sealSecrets] at h
      cases hs : barrier.seal P.aead (utf8 value) with
      | error e => simp [hs] at h
      | ok r =>
          obtain ⟨sealed, next⟩ := r
          simp only [hs] at h
          obtain ⟨hkey, hnonce, hused, hseal⟩ := seal_ok hs
          obtain ⟨hk, hp, hother, hmine⟩ := ih h htail
          have hnew : path ∉ rest.map Prod.fst := by
            rintro hm
            obtain ⟨e, he, heq⟩ := List.mem_map.mp hm
            exact absurd heq (ne_of_gt (hhead e he))
          refine ⟨hk.trans hkey, ?_, ?_, ?_⟩
          · rw [hp, List.map_cons, List.append_assoc, List.singleton_append]
          · intro q hq
            rw [List.map_cons, List.mem_cons, not_or] at hq
            rw [hother q hq.2, SortedMap.get_insert_of_ne _ hq.1]
          · intro i q v hi
            cases i with
            | zero =>
                cases hi
                refine ⟨_, (hother path hnew).trans (SortedMap.get_insert_self ..), ?_, rfl, hseal⟩
                simpa using hused
            | succ i =>
                obtain ⟨entry, hentry, hcount, hid, hsealed⟩ := hmine i q v hi
                refine ⟨entry, hentry, ?_, hid, hkey ▸ hsealed⟩
                rw [hcount, hnonce, Nat.succ_eq_add_one, UInt64.ofNat_add, UInt64.add_assoc, UInt64.add_comm 1]
                rfl

theorem build_parts {P : Platform} {draw : Draw} {view : View} {etag : Option Text} {s : Snapshot}
    (h : Snapshot.build P draw view etag = .ok s) :
    ∃ key, draw.seed = some key ∧ buildTokens view = .ok s.tokens ∧
      s.logKey = s.tokens.map (fun table => LogKey.mk (table.derive P.hmac LOG_LABEL)) ∧
      s.version = view.version ∧ s.etag = etag ∧ s.loadedAt = draw.now ∧
      s.loadedAtRfc3339 = rfc3339FromSystemTime draw.now ∧
      ∃ paths, s.sortedPaths = paths.insertionSort (· ≤ ·) ∧
        sealSecrets P s.logKey view.secrets.entries ⟨key, 0⟩ .empty [] = .ok (s.barrier, s.secrets, paths) := by
  unfold Snapshot.build at h
  cases ht : buildTokens view with
  | error e => simp [ht] at h
  | ok tokens =>
      simp only [ht] at h
      cases hseed : draw.seed with
      | none => simp [hseed, Barrier.new] at h
      | some key =>
          simp only [hseed, Barrier.new] at h
          split at h
          · cases h
          · rename_i barrier secrets paths hs
            cases h
            exact ⟨key, rfl, rfl, rfl, rfl, rfl, rfl, rfl, paths, rfl, hs⟩

/-- What a built snapshot has kept of its file. -/
structure Image (P : Platform) (view : View) (s : Snapshot) : Prop where
  version : s.version = view.version
  tokens : buildTokens view = .ok s.tokens
  paths : s.sortedPaths = view.secrets.keys
  absent : ∀ path, view.secrets.get path = none → s.secrets.get path = none
  present : ∀ path value, view.secrets.get path = some value → ∃ entry, s.secrets.get path = some entry ∧
    P.aead.sealInPlaceAppendTag s.barrier.key entry.sealed.nonce [] (utf8 value) = some entry.sealed.bytes

theorem build_image {P : Platform} {draw : Draw} {view : View} {etag : Option Text} {s : Snapshot}
    (h : Snapshot.build P draw view etag = .ok s) :
    Image P view s ∧ s.etag = etag ∧ s.loadedAt = draw.now ∧
      s.loadedAtRfc3339 = rfc3339FromSystemTime draw.now := by
  obtain ⟨key, -, ht, -, hversion, hetag, hat, hrfc, paths, hsorted, hs⟩ := build_parts h
  obtain ⟨hkey, hpaths, hother, hmine⟩ := sealSecrets_ok hs view.secrets.sorted
  have hkeys : paths = view.secrets.keys := by rw [hpaths, List.nil_append, SortedMap.keys]
  refine ⟨⟨hversion, ht, ?_, ?_, ?_⟩, hetag, hat, hrfc⟩
  · rw [hsorted, hkeys]
    exact List.Pairwise.insertionSort_eq (view.secrets.keys_sorted.imp le_of_lt)
  · intro path hp
    exact (hother path (SortedMap.get_eq_none.mp hp)).trans (SortedMap.get_empty path)
  · intro path value hp
    obtain ⟨i, hi⟩ := List.mem_iff_getElem?.mp (SortedMap.get_eq_some.mp hp)
    obtain ⟨entry, he, -, -, hseal⟩ := hmine i path value hi
    exact ⟨entry, he, hkey ▸ hseal⟩

namespace Image
variable {P : Platform} {view : View} {s : Snapshot}

theorem hasSecret (h : Image P view s) (path : Text) : s.hasSecret path = (view.secrets.get path).isSome := by
  cases hv : view.secrets.get path with
  | none => simp [Snapshot.hasSecret, h.absent path hv]
  | some value =>
      obtain ⟨entry, he, -⟩ := h.present path value hv
      simp [Snapshot.hasSecret, he]

theorem withSecret {R : Type} (h : Image P view s) (opens : P.aead.Opens) (path : Text) (f : Text → R)
    (scratch : Bytes) :
    (s.withSecret P path f scratch).2 = (view.secrets.get path).map fun value => .ok (f value) := by
  cases hv : view.secrets.get path with
  | none => simp [Snapshot.withSecret, h.absent path hv]
  | some value =>
      obtain ⟨entry, he, hseal⟩ := h.present path value hv
      simp only [Snapshot.withSecret, he, Option.map_some, withPlaintext_sealed opens hseal f scratch]

end Image

def samplePlatform : Platform := ⟨Aead.recorded [sampleSealing], sampleHmac, sampleFromSlice⟩

def sampleDraw : Draw := ⟨some sampleKey, 1672531200123000000⟩

/-- AES-256-GCM under `sampleKey` and the counter, without additional data. -/
def treeSealings : List Sealing :=
  [⟨sampleKey, counterNonce 0, [], utf8 "1".toList,
      [63, 217, 226, 241, 11, 40, 180, 208, 35, 126, 230, 60, 126, 116, 108, 41, 88]⟩,
    ⟨sampleKey, counterNonce 1, [], utf8 "2".toList,
      [208, 181, 29, 186, 179, 209, 194, 54, 57, 239, 8, 170, 3, 237, 244, 144, 170]⟩,
    ⟨sampleKey, counterNonce 2, [], utf8 "3".toList,
      [213, 44, 11, 180, 221, 61, 110, 181, 105, 145, 89, 149, 79, 196, 86, 61, 45]⟩]

/-- The HMAC-SHA256 of `app/db` under `sampleLogKey`. -/
def dbHash : Bytes :=
  [100, 253, 203, 95, 163, 252, 161, 123, 186, 70, 44, 219, 150, 53, 54, 97, 168, 71, 216, 32, 196, 196,
    224, 80, 166, 153, 210, 239, 2, 127, 203, 29]

/-- `sampleHmac`, and the hashes of the tree's paths under the log's key. -/
def treeHmac : Hmac := fun key message =>
  if key.val = sampleLogKey.val ∧ message = utf8 "app".toList then
    ⟨[66, 88, 116, 244, 220, 188, 92, 144, 172, 126, 252, 141, 225, 124, 164, 190, 1, 124, 85, 158, 236, 97,
      237, 171, 139, 9, 69, 189, 160, 122, 97, 102], rfl⟩
  else if key.val = sampleLogKey.val ∧ message = utf8 "app.old".toList then
    ⟨[46, 62, 181, 1, 12, 223, 187, 178, 229, 248, 58, 62, 44, 68, 11, 9, 39, 219, 201, 193, 26, 58, 211, 43,
      36, 34, 189, 186, 234, 169, 153, 244], rfl⟩
  else if key.val = sampleLogKey.val ∧ message = utf8 "app/db".toList then ⟨dbHash, rfl⟩
  else sampleHmac key message

def treePlatform : Platform := ⟨Aead.recorded treeSealings, treeHmac, sampleFromSlice⟩

/-- A secret, a neighbour that sorts before the directory of the same name, and a secret in it. -/
def treeView : View :=
  ⟨1, .ofList [("app".toList, "1".toList), ("app.old".toList, "2".toList), ("app/db".toList, "3".toList)],
    samplePolicies, sampleTokens, some sampleKeyHex⟩

theorem treeView_builds : ∃ s, Snapshot.build treePlatform sampleDraw treeView none = .ok s := by
  have hok : (Snapshot.build treePlatform sampleDraw treeView none).isOk := by decide +kernel
  cases hb : Snapshot.build treePlatform sampleDraw treeView none with
  | error e =>
      rw [hb] at hok
      cases hok
  | ok s => exact ⟨s, rfl⟩

end Kallisto.Resolver
