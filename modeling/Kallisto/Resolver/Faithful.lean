import Kallisto.Resolver.Authorization

/-!
A built snapshot against its file. The sealed map, the sorted paths, the identifiers and the
nonce counter are filled in one loop and read through different doors; all of them tell of
the same file.
-/
namespace Kallisto.Resolver
open Lib Kallisto.Crypto Kallisto.Policy Kallisto.Telemetry

theorem counterNonce_injective {a b : UInt64} (h : counterNonce a = counterNonce b) : a = b := by
  have hbytes : toLeBytes 8 a.toNat = toLeBytes 8 b.toNat :=
    List.append_cancel_right (congrArg Subtype.val h)
  have hvalue := congrArg fromLeBytes hbytes
  rw [fromLeBytes_toLeBytes a.toNat_lt, fromLeBytes_toLeBytes b.toNat_lt] at hvalue
  exact UInt64.toNat_inj.mp hvalue

/-- The key of the access log: derived from the file's token key where the file has one. -/
def FileLogKey (hmac : Hmac) (view : View) (fallback : LogKey) (key : LogKey) : Prop :=
  match view.tokenKey with
  | none => key = fallback
  | some keyHex => ∃ tokenKey, TokenKey.fromHex keyHex = .ok tokenKey ∧ key = ⟨tokenKey.derive hmac LOG_LABEL⟩

section Built
variable {P : Platform} {draw : Draw} {view : View} {etag : Option Text} {s : Snapshot}

/-- The row of a stored path, the counter it was sealed under and its identifier. -/
theorem build_entry (h : Snapshot.build P draw view etag = .ok s) {path : Text} {entry : Entry}
    (he : s.secrets.get path = some entry) :
    ∃ i, i < view.secrets.entries.length ∧ view.secrets.keys[i]? = some path ∧
      entry.sealed.nonce = counterNonce (UInt64.ofNat i) ∧
      entry.pathId = s.logKey.elim Id.NONE (fun key => key.id P.hmac path) := by
  obtain ⟨image, -⟩ := build_image h
  obtain ⟨key, -, -, -, -, -, -, -, paths, -, hs⟩ := build_parts h
  obtain ⟨-, -, -, hmine⟩ := sealSecrets_ok hs view.secrets.sorted
  cases hv : view.secrets.get path with
  | none =>
      rw [image.absent path hv] at he
      cases he
  | some value =>
      obtain ⟨i, hi⟩ := List.mem_iff_getElem?.mp (SortedMap.get_eq_some.mp hv)
      obtain ⟨entry', he', hnonce, hid, -⟩ := hmine i path value hi
      obtain rfl : entry = entry' := Option.some.inj (he.symm.trans he')
      refine ⟨i, (List.getElem?_eq_some_iff.mp hi).1, ?_, ?_, hid⟩
      · rw [SortedMap.keys, List.getElem?_map, hi]
        rfl
      · rw [hnonce, UInt64.zero_add]

theorem build_keys (image : Image P view s) : s.secrets.keys = view.secrets.keys := by
  apply List.Pairwise.eq_of_mem_iff s.secrets.keys_sorted view.secrets.keys_sorted
  intro path
  rw [SortedMap.mem_keys, SortedMap.mem_keys]
  exact Bool.eq_iff_iff.mp (image.hasSecret path)

/-- A counter that has not come round gives every stored secret a nonce of its own. -/
theorem build_nonces (h : Snapshot.build P draw view etag = .ok s)
    (few : view.secrets.entries.length < 2 ^ 64) {path path' : Text} {entry entry' : Entry}
    (he : s.secrets.get path = some entry) (he' : s.secrets.get path' = some entry')
    (same : entry.sealed.nonce = entry'.sealed.nonce) : path = path' := by
  obtain ⟨i, hi, hpath, hnonce, -⟩ := build_entry h he
  obtain ⟨j, hj, hpath', hnonce', -⟩ := build_entry h he'
  have hcount : UInt64.ofNat i = UInt64.ofNat j :=
    counterNonce_injective (hnonce.symm.trans (same.trans hnonce'))
  have hij : i = j := by
    have hnat := congrArg UInt64.toNat hcount
    rwa [UInt64.toNat_ofNat_of_lt' (hi.trans few), UInt64.toNat_ofNat_of_lt' (hj.trans few)] at hnat
  rw [hij, hpath'] at hpath
  exact (Option.some.inj hpath).symm

/-- The stored identifier is the one the key gives, so the fast path and the slow one agree. -/
theorem build_pathId (h : Snapshot.build P draw view etag = .ok s) (path : Text) (fallback : LogKey) :
    s.pathId P path fallback = (s.logKey.getD fallback).id P.hmac path := by
  unfold Snapshot.pathId
  cases hk : s.logKey with
  | none => cases s.secrets.get path <;> rfl
  | some key =>
      cases he : s.secrets.get path with
      | none => rfl
      | some entry =>
          obtain ⟨-, -, -, -, hid⟩ := build_entry h he
          rw [hk] at hid
          exact hid

theorem build_logKey (h : Snapshot.build P draw view etag = .ok s) (fallback : LogKey) :
    FileLogKey P.hmac view fallback (s.logKey.getD fallback) := by
  obtain ⟨key, -, ht, hlog, -⟩ := build_parts h
  cases hs : s.tokens with
  | none =>
      rw [hs] at ht hlog
      rw [FileLogKey, (buildTokens_none ht).1, hlog]
      rfl
  | some table =>
      rw [hs] at ht hlog
      obtain ⟨keyHex, hkey, hb⟩ := buildTokens_some ht
      rw [FileLogKey, hkey, hlog]
      exact ⟨table.key, (build_ok hb).1, rfl⟩

end Built

/-- A built snapshot is the file: its texts, its paths, a nonce for each, and one identifier
for a path whether it is stored or not. -/
theorem build_faithful {P : Platform} (opens : P.aead.Opens) {draw : Draw} {view : View} {etag : Option Text}
    {s : Snapshot} (h : Snapshot.build P draw view etag = .ok s) (few : view.secrets.entries.length < 2 ^ 64) :
    (∀ (R : Type) (path : Text) (f : Text → R) (scratch : Bytes),
      (s.withSecret P path f scratch).2 = (view.secrets.get path).map fun text => .ok (f text)) ∧
    (∀ path, s.hasSecret path = (view.secrets.get path).isSome) ∧
    s.secretCount = view.secrets.keys.length ∧
    s.sortedPaths = view.secrets.keys ∧
    (∀ path path' entry entry', s.secrets.get path = some entry → s.secrets.get path' = some entry' →
      path ≠ path' → entry.sealed.nonce ≠ entry'.sealed.nonce) ∧
    ∀ fallback, ∃ key, FileLogKey P.hmac view fallback key ∧
      ∀ path, s.pathId P path fallback = key.id P.hmac path := by
  obtain ⟨image, -⟩ := build_image h
  refine ⟨fun R => image.withSecret opens, image.hasSecret, ?_, image.paths, ?_, ?_⟩
  · rw [← build_keys image, SortedMap.keys, List.length_map, Snapshot.secretCount]
  · intro path path' entry entry' he he' hne same
    exact hne (build_nonces h few he he' same)
  · intro fallback
    exact ⟨s.logKey.getD fallback, build_logKey h fallback, fun path => build_pathId h path fallback⟩

theorem build_faithful_tree : treePlatform.aead.Opens ∧
    ∃ s, Snapshot.build treePlatform sampleDraw treeView none = .ok s ∧ s.secretCount = 3 ∧
      ∀ scratch, (s.withSecret treePlatform "app/db".toList id scratch).2 = some (.ok "3".toList) := by
  have opens : treePlatform.aead.Opens := Aead.recorded_opens (by decide)
  obtain ⟨s, hs⟩ := treeView_builds
  obtain ⟨hread, -, hcount, -⟩ := build_faithful opens hs (by decide)
  refine ⟨opens, s, hs, hcount, ?_⟩
  intro scratch
  rw [hread]
  rfl

end Kallisto.Resolver
