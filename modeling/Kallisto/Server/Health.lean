import Kallisto.Lib.Json
import Kallisto.Resolver.Identity
import Kallisto.Server.VaultApi

/-!
`GET /v1/sys/health`, where an operator asks which file a machine serves. What is answered comes
from the snapshot, which holds the tag it was loaded under; the refresher holds another one,
which it renews at every poll that brings the version already served.
-/
namespace Kallisto.Server
open Lib Kallisto.Crypto Kallisto.Resolver

def VAULT_COMPAT_VERSION : Text := "1.13.0".toList
def CLUSTER_NAME : Text := "kallisto".toList
def PACKAGE_VERSION : Text := "2.0.2".toList
def NULL : Text := "null".toList

def healthBody (sealed : Bool) (serverTimeUtc : UInt64) (fileVersion : Option UInt64) (etag loadedAt : Option Text)
    (enforces : Option Bool) : Text :=
  "\x7b\"initialized\":true,\"sealed\":".toList ++ (if sealed then "true".toList else "false".toList) ++
    ",\"standby\":false,\"performance_standby\":false,\"replication_performance_mode\":\"disabled\",".toList ++
    "\"replication_dr_mode\":\"disabled\",\"server_time_utc\":".toList ++ decimal serverTimeUtc.toNat ++
    ",\"version\":\"".toList ++ VAULT_COMPAT_VERSION ++ "\",\"cluster_name\":\"".toList ++ CLUSTER_NAME ++
    "\",\"cluster_id\":\"\",\"kallisto_version\":\"".toList ++ PACKAGE_VERSION ++
    "\",\"kallisto_file_version\":".toList ++ fileVersion.elim NULL (fun v => decimal v.toNat) ++
    ",\"kallisto_etag\":".toList ++ etag.elim NULL jsonString ++
    ",\"kallisto_loaded_at\":".toList ++ loadedAt.elim NULL jsonString ++
    ",\"kallisto_authorization\":".toList ++
    enforces.elim NULL (fun enforced => if enforced then "\"enforced\"".toList else "\"none\"".toList) ++
    "\x7d".toList

def health (slot : Option Snapshot) (nowSecs : UInt64) : Response :=
  match slot with
  | some s => jsonResponse 200
      (healthBody false nowSecs (some s.version) s.etag (some s.loadedAtRfc3339) (some s.enforces))
  | none => jsonResponse 503 (healthBody true nowSecs none none none none)

theorem readString_jsonChar (c : Char) (s : Text) :
    Json.readString (jsonChar c ++ s) = Json.push c (Json.readString s) := by
  have hhex : ∀ n < 0x20, "\\u".toList ++ hex4 n = ['\\', 'u', '0', '0', Json.hexChar (n / 16), Json.hexChar (n % 16)] := by
    decide
  unfold jsonChar
  split_ifs with h1 h2 h3 h4 h5 h6
  · subst h1; rfl
  · subst h2; rfl
  · subst h3; rfl
  · subst h4; rfl
  · subst h5; rfl
  · rw [hhex _ h6]
    exact Json.readString_control h6 s
  · have hplain : Json.mustEscape c = false := by simp [Json.mustEscape, h1, h2, h6]
    rw [← Json.escapeChar_plain hplain]
    exact Json.readString_escapeChar c s

theorem readString_jsonString (t s : Text) : Json.readString (t.flatMap jsonChar ++ '"' :: s) = some (t, s) := by
  induction t with
  | nil => rfl
  | cons c t ih =>
      rw [List.flatMap_cons, List.append_assoc, readString_jsonChar, ih]
      rfl

/-- What is written under `kallisto_etag` tells every tag from every other, and from none. -/
theorem etagText_injective {a b : Option Text} (h : a.elim NULL jsonString = b.elim NULL jsonString) : a = b := by
  cases a with
  | none =>
      cases b with
      | none => rfl
      | some b => exact absurd (congrArg List.head? h) (by simp [NULL, jsonString])
  | some a =>
      cases b with
      | none => exact absurd (congrArg List.head? h) (by simp [NULL, jsonString])
      | some b =>
          have htail : a.flatMap jsonChar ++ ['"'] = b.flatMap jsonChar ++ ['"'] := (List.cons.inj h).2
          have hread := congrArg Json.readString htail
          rw [readString_jsonString, readString_jsonString] at hread
          exact congrArg some (Prod.mk.inj (Option.some.inj hread)).1

/-- The answer carries this tag, and for the rest tells of what is in the slot. -/
def Reports (slot : Option Snapshot) (etag : Option Text) : Prop :=
  ∀ nowSecs, (health slot nowSecs).body = healthBody slot.isNone nowSecs (slot.map Snapshot.version) etag
    (slot.map Snapshot.loadedAtRfc3339) (slot.map Snapshot.enforces)

theorem reports_iff (slot : Option Snapshot) (etag : Option Text) :
    Reports slot etag ↔ slot.bind Snapshot.etag = etag := by
  have hbody : ∀ nowSecs, (health slot nowSecs).body = healthBody slot.isNone nowSecs (slot.map Snapshot.version)
      (slot.bind Snapshot.etag) (slot.map Snapshot.loadedAtRfc3339) (slot.map Snapshot.enforces) := by
    intro nowSecs
    cases slot <;> rfl
  constructor
  · intro h
    have heq := (hbody 0).symm.trans (h 0)
    unfold healthBody at heq
    simp only [List.append_cancel_right_eq, List.append_cancel_left_eq] at heq
    exact etagText_injective heq
  · rintro rfl
    exact hbody

/-- A poll that brings a body of the version it leaves in the slot has put it there, with its
tag, or has left the snapshot that was there alone. -/
theorem pollOnce_etag {P : Platform} {r : Refresher} {p : Poll} {bytes : Bytes} {etag : Option Text} {v : UInt64}
    (arrived : p.fetched = .body bytes etag) (header : peek bytes = .ok v)
    (served : (r.pollOnce P p).1.version = some v) :
    (r.version ≠ some v ∧ (r.pollOnce P p).1.slot.bind Snapshot.etag = etag) ∨
      (r.version = some v ∧ (r.pollOnce P p).1.slot = r.slot) := by
  have hsame : examine P r.key p.draw bytes etag r.version = .same ↔ r.version = some v := by
    rw [examine_same]
    constructor
    · rintro ⟨w, hw, hheld⟩
      rw [hheld, Except.ok.inj (header.symm.trans hw)]
    · intro hheld
      exact ⟨v, header, hheld⟩
  rcases pollOnce_body P r arrived with ⟨e, he, hp⟩ | ⟨he, hp⟩ | ⟨version, snapshot, he, hp⟩
  · rw [hp] at served
    rw [hsame.mpr served] at he
    cases he
  · refine .inr ⟨hsame.mp he, ?_⟩
    rw [hp]
  · refine .inl ⟨?_, ?_⟩
    · intro hheld
      rw [hsame.mpr hheld] at he
      cases he
    · obtain ⟨-, view, -, -, -, -, -, hbuild, -⟩ := examine_servable he
      rw [hp]
      exact (build_image hbuild).2.1

/-- After a poll that brought the version now served, the tag reported is the one the body came
with exactly where this poll loaded it, or the snapshot held before it carried the same tag. -/
theorem health_identity_iff (P : Platform) (key : SealKey) (disk : Option Disk) (draw : Draw) (fault : Option Text)
    (polls : List Poll) (p : Poll) {bytes : Bytes} {etag : Option Text} {v : UInt64}
    (arrived : p.fetched = .body bytes etag) (header : peek bytes = .ok v) :
    let warm := ((Refresher.new key disk).warmFromCache P draw fault).1
    let r := (run (Refresher.pollOnce P) warm polls).1
    let after := (r.pollOnce P p).1
    after.version = some v →
      (Reports after.slot etag ↔ r.version ≠ some v ∨ r.slot.bind Snapshot.etag = etag) := by
  intro warm r after served
  rw [reports_iff]
  rcases pollOnce_etag arrived header served with ⟨hfresh, hetag⟩ | ⟨hheld, hslot⟩
  · exact iff_of_true hetag (.inl hfresh)
  · rw [show after.slot = r.slot from hslot]
    constructor
    · exact .inr
    · rintro (hfresh | hetag)
      · exact absurd hheld hfresh
      · exact hetag

/-- A machine that starts with this cache file and polls once. -/
def started (cache : Option Bytes) (p : Poll) : Refresher × Tick :=
  ((Refresher.new sampleKey (some ⟨cache, none⟩)).warmFromCache samplePlatform sampleDraw none).1.pollOnce
    samplePlatform p

theorem health_identity_loaded : (started none (taggedPoll sampleFile "a".toList)).1.version = some 1 ∧
    Reports (started none (taggedPoll sampleFile "a".toList)).1.slot (some "a".toList) := by
  have hversion : (started none (taggedPoll sampleFile "a".toList)).1.version = some 1 := by decide +kernel
  refine ⟨hversion, ?_⟩
  exact (health_identity_iff samplePlatform sampleKey (some ⟨none, none⟩) sampleDraw none []
    (taggedPoll sampleFile "a".toList) rfl (v := 1) (by decide +kernel) hversion).mpr (.inl (by decide +kernel))

/-- Two machines at the same object: the one that found it in the bucket reports its tag, the
one that found the same file in its cache reports none. -/
theorem cold_start_anonymous : peek sampleFile = .ok 1 ∧
    (started (some sampleFile) (taggedPoll sampleFile "a".toList)).2 = .unchanged ∧
    (started (some sampleFile) (taggedPoll sampleFile "a".toList)).1.version = some 1 ∧
    ¬ Reports (started (some sampleFile) (taggedPoll sampleFile "a".toList)).1.slot (some "a".toList) ∧
    Reports (started (some sampleFile) (taggedPoll sampleFile "a".toList)).1.slot none ∧
    Reports (started none (taggedPoll sampleFile "a".toList)).1.slot (some "a".toList) := by
  rw [reports_iff, reports_iff, reports_iff]
  exact ⟨by decide +kernel, by decide +kernel, by decide +kernel, by decide +kernel, by decide +kernel, by decide +kernel⟩

end Kallisto.Server
