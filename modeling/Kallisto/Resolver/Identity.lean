import Kallisto.Resolver.Refresh

/-!
The tag a refresher remembers. It is sent with the next poll, and a source may answer that
nothing has changed since; then nothing is looked at. So the tag has to belong to a body of
the version that is served, whatever the source answered before.
-/
namespace Kallisto.Resolver
open Lib Kallisto.Crypto

/-- The poll sets the remembered tag: a body arrived and was not rejected. -/
def Remembers (P : Platform) (r : Refresher) (p : Poll) : Prop :=
  (∃ bytes etag, p.fetched = .body bytes etag) ∧ ∀ e, (r.pollOnce P p).2 ≠ .rejected e

section Poll
variable {P : Platform} {r : Refresher} {p : Poll}

theorem pollOnce_forgets (h : ¬ Remembers P r p) : (r.pollOnce P p).1 = r := by
  apply pollOnce_quiet
  cases hf : p.fetched with
  | notModified => exact .inl rfl
  | unavailable e => exact .inr (.inr ⟨e, by simp [Refresher.pollOnce, hf]⟩)
  | body bytes etag =>
      have hrejected : ¬ ∀ e, (r.pollOnce P p).2 ≠ .rejected e := fun hall => h ⟨⟨bytes, etag, hf⟩, hall⟩
      push Not at hrejected
      exact .inr (.inl hrejected)

/-- Both exits that set the tag leave the version of the body's header in the slot: one because
it was there already, the other because it has just been published. -/
theorem pollOnce_remembers (h : Remembers P r p) :
    ∃ bytes etag v, p.fetched = .body bytes etag ∧ peek bytes = .ok v ∧
      (r.pollOnce P p).1.etag = etag ∧ (r.pollOnce P p).1.version = some v := by
  obtain ⟨⟨bytes, etag, hf⟩, hkept⟩ := h
  rcases pollOnce_body P r hf with ⟨e, -, hp⟩ | ⟨he, hp⟩ | ⟨version, snapshot, he, hp⟩
  · exact absurd (congrArg Prod.snd hp) (hkept e)
  · obtain ⟨v, hv, hheld⟩ := examine_same.mp he
    exact ⟨bytes, etag, v, hf, hv, by rw [hp], by rw [hp]; exact hheld⟩
  · obtain ⟨opened, view, ho, hver, -, -, hs, -, -⟩ := examine_servable he
    refine ⟨bytes, etag, version, hf, hver ▸ openSealed_peek ho, by rw [hp], ?_⟩
    rw [hp, ← hs]
    rfl

end Poll

/-- What came from the cache came without a tag. -/
theorem warmFromCache_etag (P : Platform) (key : SealKey) (disk : Option Disk) (draw : Draw) (fault : Option Text) :
    ((Refresher.new key disk).warmFromCache P draw fault).1.etag = none := by
  unfold Refresher.warmFromCache
  cases disk with
  | none => rfl
  | some disk =>
      dsimp only [Refresher.new]
      cases diskFetch disk fault with
      | notModified => rfl
      | unavailable e => rfl
      | body bytes etag =>
          dsimp only [Refresher.adopt]
          cases examine P key draw bytes none none <;> rfl

/-- The last poll that set the tag brought it, with a body of the version now served. -/
theorem etag_last_set (P : Platform) {r : Refresher} (start : r.etag = none) (polls : List Poll) {e : Text}
    (h : (run (Refresher.pollOnce P) r polls).1.etag = some e) :
    ∃ before p after bytes v, polls = before ++ p :: after ∧ p.fetched = .body bytes (some e) ∧
      Remembers P (run (Refresher.pollOnce P) r before).1 p ∧
      Silent (Refresher.pollOnce P) (Remembers P) (run (Refresher.pollOnce P) r (before ++ [p])).1 after ∧
      peek bytes = .ok v ∧ (run (Refresher.pollOnce P) r polls).1.version = some v := by
  rcases run_last_write (fun s i => pollOnce_forgets (P := P) (r := s) (p := i)) r polls with
    hnone | ⟨before, p, after, hpolls, hset, hsilent, hstate⟩
  · rw [hnone, start] at h
    cases h
  · obtain ⟨bytes, etag, v, hf, hv, hetag, hversion⟩ := pollOnce_remembers hset
    rw [hstate, hetag] at h
    subst h
    refine ⟨before, p, after, bytes, v, hpolls, hf, hset, ?_, hv, hstate ▸ hversion⟩
    rw [run_snoc]
    exact hsilent

/-- The source gave the tag to one object only. -/
def Labels (polls : List Poll) (e : Text) (object : Bytes) : Prop :=
  ∀ p ∈ polls, ∀ bytes, p.fetched = .body bytes (some e) → bytes = object

/-- A remembered tag came with a body of the version that is served, at the last poll that set
it. So where a source says "not modified" of the one object it gave the tag to, that object
carries the version served. A body that was rejected leaves the tag as it was. -/
theorem not_modified_hides_nothing (P : Platform) (key : SealKey) (disk : Option Disk) (draw : Draw)
    (fault : Option Text) (polls : List Poll) :
    let warm := ((Refresher.new key disk).warmFromCache P draw fault).1
    let r := (run (Refresher.pollOnce P) warm polls).1
    (∀ e, r.etag = some e → ∃ before p after bytes v, polls = before ++ p :: after ∧
      p.fetched = .body bytes (some e) ∧ Remembers P (run (Refresher.pollOnce P) warm before).1 p ∧
      Silent (Refresher.pollOnce P) (Remembers P) (run (Refresher.pollOnce P) warm (before ++ [p])).1 after ∧
      peek bytes = .ok v ∧ r.version = some v) ∧
    (∀ e object, r.etag = some e → Labels polls e object → ∀ p : Poll, p.fetched = .notModified →
      r.pollOnce P p = (r, .unchanged) ∧ ∃ v, peek object = .ok v ∧ r.version = some v) ∧
    ∀ p e, (r.pollOnce P p).2 = .rejected e → (r.pollOnce P p).1.etag = r.etag := by
  intro warm r
  have start : warm.etag = none := warmFromCache_etag P key disk draw fault
  refine ⟨fun e he => etag_last_set P start polls he, ?_, ?_⟩
  · intro e object he hlabel p hp
    obtain ⟨before, q, after, bytes, v, hpolls, hf, -, -, hv, hversion⟩ := etag_last_set P start polls he
    have hmem : q ∈ polls := by
      rw [hpolls]
      exact List.mem_append_right before List.mem_cons_self
    refine ⟨?_, v, hlabel q hmem bytes hf ▸ hv, hversion⟩
    rw [Refresher.pollOnce, hp]
  · intro p e hrejected
    rw [pollOnce_quiet (.inr (.inl ⟨e, hrejected⟩))]

def taggedPoll (bytes : Bytes) (tag : Text) : Poll := ⟨.body bytes (some tag), sampleDraw, ⟨.ok, true⟩⟩

/-- The header of a later version in front of a body it was not sealed with. -/
def forgedFile : Bytes := Header.write 2 sampleNonce ++ sampleCiphertext

def quietPoll : Poll := ⟨.notModified, sampleDraw, ⟨.ok, true⟩⟩

/-- A file under one tag, a forgery under another, and "not modified". -/
theorem not_modified_hides_nothing_sample :
    let r := (run (Refresher.pollOnce samplePlatform)
      ((Refresher.new sampleKey (some ⟨none, none⟩)).warmFromCache samplePlatform sampleDraw none).1
      [taggedPoll sampleFile "a".toList, taggedPoll forgedFile "b".toList]).1
    r.etag = some "a".toList ∧ ∃ v, peek sampleFile = .ok v ∧ r.version = some v := by
  intro r
  have hetag : r.etag = some "a".toList := by decide +kernel
  have hlabel : Labels [taggedPoll sampleFile "a".toList, taggedPoll forgedFile "b".toList]
      "a".toList sampleFile := by
    intro p hp bytes hf
    rcases List.mem_cons.mp hp with rfl | hp
    · exact (Fetched.body.inj hf).1.symm
    · obtain rfl := List.mem_singleton.mp hp
      exact absurd (Fetched.body.inj hf).2 (by decide)
  have hsound := not_modified_hides_nothing samplePlatform sampleKey (some ⟨none, none⟩) sampleDraw none
    [taggedPoll sampleFile "a".toList, taggedPoll forgedFile "b".toList]
  exact ⟨hetag, (hsound.2.1 "a".toList sampleFile hetag hlabel quietPoll rfl).2⟩

end Kallisto.Resolver
