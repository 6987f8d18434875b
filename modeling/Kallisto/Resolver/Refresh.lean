import Kallisto.Lib.Runs
import Kallisto.Resolver.Snapshot

/-!
The poll loop. `examine` is everything `adopt` does before it changes anything; what it
lets through is published to the slot, and then written to the local cache.
-/
namespace Kallisto.Resolver
open Lib Kallisto.Crypto

inductive SourceError where
  | unreachable (kind : Text)
  | status (status : UInt16)
  | slowDown
  | absent
  deriving DecidableEq, Repr

inductive Fetched where
  | notModified
  | body (bytes : Bytes) (etag : Option Text)
  | unavailable (e : SourceError)
  deriving DecidableEq, Repr

inductive RefreshError where
  | seal (e : SealError)
  | unservable (e : SnapshotError)
  deriving DecidableEq, Repr

inductive Tick where
  | unchanged
  | loaded (version : UInt64) (cached enforces : Bool)
  | rejected (e : RefreshError)
  | sourceDown (e : SourceError)
  deriving DecidableEq, Repr

/-- The cache file and the temporary file next to it, where they exist. -/
structure Disk where
  cache : Option Bytes
  temp : Option Bytes
  deriving DecidableEq, Repr

/-- `disk` is `none` where no cache path is configured. -/
structure Refresher where
  key : SealKey
  slot : Option Snapshot
  etag : Option Text
  disk : Option Disk

def Refresher.new (key : SealKey) (disk : Option Disk) : Refresher :=
  { key, slot := none, etag := none, disk }

/-- `SnapshotSlot::version`. -/
def Refresher.version (r : Refresher) : Option UInt64 := r.slot.map Snapshot.version

inductive Offer where
  | rejected (e : RefreshError)
  | same
  | servable (version : UInt64) (snapshot : Snapshot)

def examine (P : Platform) (key : SealKey) (draw : Draw) (bytes : Bytes) (etag : Option Text)
    (held : Option UInt64) : Offer :=
  match peek bytes with
  | .error e => .rejected (.seal e)
  | .ok offered =>
      if some offered = held then .same
      else
        match openSealed P.aead P.fromSlice bytes key held with
        | .error e => .rejected (.seal e)
        | .ok opened =>
            match opened.view P.fromSlice with
            | .error e => .rejected (.seal e)
            | .ok view =>
                match Snapshot.build P draw view etag with
                | .error e => .rejected (.unservable e)
                | .ok snapshot => .servable opened.contentVersion snapshot

/-- How writing the temporary file ended; a failure leaves something in it, or nothing. -/
inductive WriteResult where
  | ok
  | failed (left : Option Bytes)
  deriving DecidableEq, Repr

structure Io where
  write : WriteResult
  renamed : Bool
  deriving DecidableEq, Repr

def writeCache (io : Io) (disk : Option Disk) (bytes : Bytes) : Option Disk × Bool :=
  match disk with
  | none => (none, true)
  | some disk =>
      match io.write with
      | .failed left => (some { disk with temp := left }, false)
      | .ok =>
          if io.renamed then (some { cache := some bytes, temp := none }, true)
          else (some { disk with temp := some bytes }, false)

def Refresher.adopt (P : Platform) (draw : Draw) (io : Io) (r : Refresher) (bytes : Bytes)
    (etag : Option Text) (held : Option UInt64) (write : Bool) : Refresher × Tick :=
  match examine P r.key draw bytes etag held with
  | .rejected e => (r, .rejected e)
  | .same => ({ r with etag }, .unchanged)
  | .servable version snapshot =>
      let r := { r with slot := some snapshot, etag }
      let (disk, cached) := if write then writeCache io r.disk bytes else (r.disk, true)
      ({ r with disk }, .loaded version cached snapshot.enforces)

/-- `DiskSource::fetch`; `fault` is the kind of an I/O error other than a missing file. -/
def diskFetch (disk : Disk) (fault : Option Text) : Fetched :=
  match fault, disk.cache with
  | some kind, _ => .unavailable (.unreachable kind)
  | none, some bytes => .body bytes none
  | none, none => .unavailable .absent

def Refresher.warmFromCache (P : Platform) (draw : Draw) (fault : Option Text) (r : Refresher) :
    Refresher × Tick :=
  match r.disk with
  | none => (r, .sourceDown .absent)
  | some disk =>
      match diskFetch disk fault with
      | .body bytes _ => r.adopt P draw ⟨.ok, true⟩ bytes none none false
      | .unavailable e => (r, .sourceDown e)
      | .notModified => (r, .unchanged)

/-- One poll: what the source answered, and what the machine contributed. -/
structure Poll where
  fetched : Fetched
  draw : Draw
  io : Io

def Refresher.pollOnce (P : Platform) (r : Refresher) (p : Poll) : Refresher × Tick :=
  let held := r.version
  match p.fetched with
  | .notModified => (r, .unchanged)
  | .unavailable e => (r, .sourceDown e)
  | .body bytes etag => r.adopt P p.draw p.io bytes etag held true

section Examine
variable {P : Platform} {key : SealKey} {draw : Draw} {bytes : Bytes} {etag : Option Text}
  {held : Option UInt64} {version : UInt64} {snapshot : Snapshot}

/-- What passed `examine` opened under the key, carries one version three times over, and
is strictly newer than what was held. -/
theorem examine_servable (h : examine P key draw bytes etag held = .servable version snapshot) :
    ∃ opened view, openSealed P.aead P.fromSlice bytes key held = .ok opened ∧
      opened.contentVersion = version ∧ P.fromSlice opened.plaintext = some view ∧
      view.version = version ∧ snapshot.version = version ∧
      Snapshot.build P draw view etag = .ok snapshot ∧ ∀ v ∈ held, v < version := by
  unfold examine at h
  cases hp : peek bytes with
  | error e => simp [hp] at h
  | ok offered =>
      simp only [hp] at h
      by_cases hsame : some offered = held
      · simp [hsame] at h
      rw [if_neg hsame] at h
      cases ho : openSealed P.aead P.fromSlice bytes key held with
      | error e => simp [ho] at h
      | ok opened =>
          simp only [ho, Opened.view] at h
          obtain ⟨-, -, hfloor, -, view, hview, hver⟩ := openFile_ok (openSealed_eq.mp ho)
          simp only [hview] at h
          cases hb : Snapshot.build P draw view etag with
          | error e => simp [hb] at h
          | ok built =>
              simp only [hb, Offer.servable.injEq] at h
              obtain ⟨rfl, rfl⟩ := h
              refine ⟨opened, view, rfl, rfl, hview, hver, ?_, hb, ?_⟩
              · exact (build_image hb).1.version.trans hver
              · intro v hv
                rw [UInt64.lt_iff_le_and_ne]
                refine ⟨hfloor v hv, fun heq => hsame ?_⟩
                rw [← openSealed_version hp ho, ← heq]
                exact hv.symm

end Examine

/-- The cipher opens under this key only what the key's holder sealed. -/
def OnlySealed (A : Aead) (key : SealKey) (sealings : Set Sealing) : Prop :=
  ∀ nonce aad sealed buffer len, A.openInPlace key nonce aad sealed = (buffer, some len) →
    (⟨key, nonce, aad, buffer.take len, sealed⟩ : Sealing) ∈ sealings

/-- The snapshot is built from the plaintext of a file the key's holder sealed, whose header
and body carry the snapshot's version. -/
def Genuine (P : Platform) (key : SealKey) (sealings : Set Sealing) (s : Snapshot) : Prop :=
  ∃ sealing ∈ sealings, sealing.key = key ∧
    Header.parse (sealing.aad ++ sealing.sealed) = some (.ok ⟨s.version, sealing.nonce⟩) ∧
    sealing.aad = Header.write s.version sealing.nonce ∧
    ∃ view draw etag, P.fromSlice sealing.plain = some view ∧ view.version = s.version ∧
      Snapshot.build P draw view etag = .ok s

section Adopt
variable {P : Platform} {sealings : Set Sealing}

theorem genuine_of_servable {key : SealKey} (only : OnlySealed P.aead key sealings) {draw : Draw}
    {bytes : Bytes} {etag : Option Text} {held : Option UInt64} {version : UInt64} {snapshot : Snapshot}
    (h : examine P key draw bytes etag held = .servable version snapshot) :
    Genuine P key sealings snapshot := by
  obtain ⟨opened, view, ho, hv, hview, hbody, hs, hb, -⟩ := examine_servable h
  obtain ⟨nonce, -, -, ⟨buffer, len, hopen, hplain⟩, -⟩ := openFile_ok (openSealed_eq.mp ho)
  have hmem := only _ _ _ _ _ hopen
  have hsv : snapshot.version = opened.contentVersion := hs.trans hv.symm
  refine ⟨_, hmem, rfl, ?_, ?_, view, draw, etag, hplain ▸ hview, hbody.trans hs.symm, hb⟩
  · rw [hsv]
    exact Header.parse_write ..
  · rw [hsv]

/-- `adopt` changes the slot to something genuine and strictly newer, or not at all. -/
theorem adopt_slot {r : Refresher} (only : OnlySealed P.aead r.key sealings) (draw : Draw) (io : Io)
    (bytes : Bytes) (etag : Option Text) (held : Option UInt64) (write : Bool) :
    (r.adopt P draw io bytes etag held write).1.key = r.key ∧
    ((r.adopt P draw io bytes etag held write).1.slot = r.slot ∨
      ∃ s, (r.adopt P draw io bytes etag held write).1.slot = some s ∧ (∀ v ∈ held, v < s.version) ∧
        Genuine P r.key sealings s) := by
  unfold Refresher.adopt
  cases he : examine P r.key draw bytes etag held with
  | rejected e => exact ⟨rfl, .inl rfl⟩
  | same => exact ⟨rfl, .inl rfl⟩
  | servable version snapshot =>
      obtain ⟨-, -, -, -, -, -, hs, -, hnew⟩ := examine_servable he
      refine ⟨rfl, .inr ⟨snapshot, rfl, ?_, genuine_of_servable only he⟩⟩
      intro v hv
      rw [hs]
      exact hnew v hv

/-- One poll keeps the snapshot or replaces it by a genuine one of greater version. -/
theorem pollOnce_slot {r : Refresher} (only : OnlySealed P.aead r.key sealings) (p : Poll) :
    (r.pollOnce P p).1.key = r.key ∧
    ((r.pollOnce P p).1.slot = r.slot ∨
      ∃ s, (r.pollOnce P p).1.slot = some s ∧ (∀ v ∈ r.version, v < s.version) ∧
        Genuine P r.key sealings s) := by
  unfold Refresher.pollOnce
  cases p.fetched with
  | notModified => exact ⟨rfl, .inl rfl⟩
  | unavailable e => exact ⟨rfl, .inl rfl⟩
  | body bytes etag => exact adopt_slot only ..

theorem onlySealed_univ (A : Aead) (key : SealKey) : OnlySealed A key Set.univ := fun _ _ _ _ _ _ => Set.mem_univ _

theorem pollOnce_key (r : Refresher) (p : Poll) : (r.pollOnce P p).1.key = r.key :=
  (pollOnce_slot (onlySealed_univ P.aead r.key) p).1

theorem warmFromCache_slot {r : Refresher} (only : OnlySealed P.aead r.key sealings) (draw : Draw)
    (fault : Option Text) :
    (r.warmFromCache P draw fault).1.key = r.key ∧
    ((r.warmFromCache P draw fault).1.slot = r.slot ∨
      ∃ s, (r.warmFromCache P draw fault).1.slot = some s ∧ Genuine P r.key sealings s) := by
  unfold Refresher.warmFromCache
  cases r.disk with
  | none => exact ⟨rfl, .inl rfl⟩
  | some disk =>
      dsimp only
      cases diskFetch disk fault with
      | notModified => exact ⟨rfl, .inl rfl⟩
      | unavailable e => exact ⟨rfl, .inl rfl⟩
      | body bytes etag =>
          obtain ⟨hk, hold | ⟨s, hs, -, hg⟩⟩ := adopt_slot only draw ⟨.ok, true⟩ bytes none none false
          · exact ⟨hk, .inl hold⟩
          · exact ⟨hk, .inr ⟨s, hs, hg⟩⟩

end Adopt

/-- The version is still there, and no smaller. -/
def AtLeast (before after : Option UInt64) : Prop := ∀ v ∈ before, ∃ w ∈ after, v ≤ w

theorem AtLeast.refl (v : Option UInt64) : AtLeast v v := fun w hw => ⟨w, hw, UInt64.le_refl w⟩

theorem AtLeast.trans {a b c : Option UInt64} (hab : AtLeast a b) (hbc : AtLeast b c) : AtLeast a c := by
  intro v hv
  obtain ⟨w, hw, hvw⟩ := hab v hv
  obtain ⟨x, hx, hwx⟩ := hbc w hw
  exact ⟨x, hx, UInt64.le_trans hvw hwx⟩

section Runs
variable {P : Platform} {sealings : Set Sealing}

theorem pollOnce_atLeast {r : Refresher} (only : OnlySealed P.aead r.key sealings) (p : Poll) :
    AtLeast r.version (r.pollOnce P p).1.version := by
  rcases (pollOnce_slot only p).2 with hold | ⟨s, hs, hnew, -⟩
  · rw [Refresher.version, Refresher.version, hold]
    exact AtLeast.refl _
  · intro v hv
    refine ⟨s.version, ?_, UInt64.le_of_lt (hnew v hv)⟩
    rw [Refresher.version, hs]
    rfl

/-- What every run of polls preserves: the key, a version that only grows, and a genuine
snapshot. -/
theorem polls_sound {r : Refresher} (only : OnlySealed P.aead r.key sealings)
    (genuine : ∀ s ∈ r.slot, Genuine P r.key sealings s) (polls : List Poll) :
    let after := (run (Refresher.pollOnce P) r polls).1
    after.key = r.key ∧ AtLeast r.version after.version ∧ ∀ s ∈ after.slot, Genuine P r.key sealings s := by
  refine run_invariant (P := fun _ (after : Refresher) => after.key = r.key ∧ AtLeast r.version after.version ∧
    ∀ s ∈ after.slot, Genuine P r.key sealings s) ⟨rfl, AtLeast.refl _, genuine⟩ ?_ polls
  rintro - after p ⟨hk, hver, hgen⟩
  have only' : OnlySealed P.aead after.key sealings := hk ▸ only
  refine ⟨(pollOnce_slot only' p).1.trans hk, hver.trans (pollOnce_atLeast only' p), ?_⟩
  rcases (pollOnce_slot only' p).2 with hold | ⟨s, hs, -, hg⟩
  · rw [hold]
    exact hgen
  · rw [hs, ← hk]
    rintro t ⟨⟩
    exact hg

end Runs

/-- Anti-rollback and authenticity over a process lifetime, against any cache file and any
answers of the source. -/
theorem lifetime_sound {P : Platform} {key : SealKey} {sealings : Set Sealing}
    (only : OnlySealed P.aead key sealings) (disk : Option Disk) (draw : Draw) (fault : Option Text)
    (polls more : List Poll) :
    let warm := ((Refresher.new key disk).warmFromCache P draw fault).1
    let r := (run (Refresher.pollOnce P) warm polls).1
    (∀ s ∈ r.slot, Genuine P key sealings s) ∧
    (∀ v ∈ r.version, ∃ w ∈ (run (Refresher.pollOnce P) r more).1.version, v ≤ w) ∧
    ∀ p, (r.pollOnce P p).1.slot = r.slot ∨
      ∃ s, (r.pollOnce P p).1.slot = some s ∧ ∀ v ∈ r.version, v < s.version := by
  intro warm r
  obtain ⟨hk, hslot⟩ := warmFromCache_slot (r := Refresher.new key disk) only draw fault
  have hkey : warm.key = key := hk
  have hwarm : ∀ s ∈ warm.slot, Genuine P warm.key sealings s := by
    rw [hkey]
    rcases hslot with hold | ⟨s, hs, hg⟩
    · rw [show warm.slot = none from hold]
      rintro t ⟨⟩
    · rw [show warm.slot = some s from hs]
      rintro t ⟨⟩
      exact hg
  have only' : OnlySealed P.aead warm.key sealings := hkey ▸ only
  obtain ⟨hrk, -, hgen⟩ := polls_sound only' hwarm polls
  have hr : r.key = key := hrk.trans hkey
  have only'' : OnlySealed P.aead r.key sealings := hr ▸ only
  refine ⟨hkey ▸ hgen, (polls_sound only'' (hrk ▸ hgen) more).2.1, ?_⟩
  intro p
  rcases (pollOnce_slot only'' p).2 with hold | ⟨s, hs, hnew, -⟩
  · exact .inl hold
  · exact .inr ⟨s, hs, hnew⟩

theorem recorded_onlySealed (table : List Sealing) (key : SealKey) :
    OnlySealed (Aead.recorded table) key { s | s ∈ table } := by
  intro nonce aad sealed buffer len hopen
  simp only [Aead.recorded] at hopen
  cases hs : table.find? fun s => s.key = key ∧ s.nonce = nonce ∧ s.aad = aad ∧ s.sealed = sealed with
  | none =>
      rw [hs] at hopen
      cases hopen
  | some s =>
      simp only [hs, Prod.mk.injEq, Option.some.injEq] at hopen
      obtain ⟨rfl, rfl⟩ := hopen
      obtain ⟨rfl, rfl, rfl, rfl⟩ : s.key = key ∧ s.nonce = nonce ∧ s.aad = aad ∧ s.sealed = sealed := by
        simpa using List.find?_some hs
      rw [List.take_left]
      exact List.mem_of_find?_eq_some hs

def samplePoll : Poll := ⟨.body sampleFile none, sampleDraw, ⟨.ok, true⟩⟩

theorem lifetime_sound_sample :
    OnlySealed samplePlatform.aead sampleKey { s | s ∈ [sampleSealing] } ∧
    ∃ s, (run (Refresher.pollOnce samplePlatform)
        ((Refresher.new sampleKey (some ⟨none, none⟩)).warmFromCache samplePlatform sampleDraw none).1
        [samplePoll]).1.slot = some s ∧ s.version = 1 ∧
      Genuine samplePlatform sampleKey { s | s ∈ [sampleSealing] } s := by
  have only : OnlySealed samplePlatform.aead sampleKey { s | s ∈ [sampleSealing] } :=
    recorded_onlySealed [sampleSealing] sampleKey
  have hver : (run (Refresher.pollOnce samplePlatform)
      ((Refresher.new sampleKey (some ⟨none, none⟩)).warmFromCache samplePlatform sampleDraw none).1
      [samplePoll]).1.version = some 1 := by decide +kernel
  obtain ⟨s, hs, hv⟩ := Option.map_eq_some_iff.mp hver
  exact ⟨only, s, hs, hv, (lifetime_sound only _ _ _ [samplePoll] []).1 s hs⟩

/-- The cache file, where a cache path is configured. -/
def Refresher.cacheFile (r : Refresher) : Option (Option Bytes) := r.disk.map Disk.cache

/-- The answer says whether the bytes are in place; where they are not, nothing is disturbed. -/
theorem writeCache_cache (io : Io) (disk : Disk) (bytes : Bytes) :
    (writeCache io (some disk) bytes).1.map Disk.cache =
      some (if (writeCache io (some disk) bytes).2 then some bytes else disk.cache) := by
  unfold writeCache
  cases io.write with
  | failed left => rfl
  | ok =>
      by_cases hr : io.renamed = true
      · simp [hr]
      · simp [hr]

/-- The body is skipped exactly where its header carries the version already held. -/
theorem examine_same {P : Platform} {key : SealKey} {draw : Draw} {bytes : Bytes} {etag : Option Text}
    {held : Option UInt64} :
    examine P key draw bytes etag held = .same ↔ ∃ v, peek bytes = .ok v ∧ held = some v := by
  unfold examine
  cases hp : peek bytes with
  | error e => simp
  | ok offered =>
      simp only [Except.ok.injEq, exists_eq_left']
      by_cases hsame : some offered = held
      · simp [hsame]
      · rw [if_neg hsame]
        constructor
        · intro h
          split at h
          · cases h
          · split at h
            · cases h
            · split at h <;> cases h
        · intro h
          exact absurd h.symm hsame

/-- What a body can end in: rejected, skipped, or published before it was written out. -/
theorem pollOnce_body (P : Platform) (r : Refresher) {p : Poll} {bytes : Bytes} {etag : Option Text}
    (hf : p.fetched = .body bytes etag) :
    (∃ e, examine P r.key p.draw bytes etag r.version = .rejected e ∧ r.pollOnce P p = (r, .rejected e)) ∨
    (examine P r.key p.draw bytes etag r.version = .same ∧ r.pollOnce P p = ({ r with etag }, .unchanged)) ∨
    ∃ version snapshot, examine P r.key p.draw bytes etag r.version = .servable version snapshot ∧
      r.pollOnce P p = ({ r with slot := some snapshot, etag, disk := (writeCache p.io r.disk bytes).1 },
        .loaded version (writeCache p.io r.disk bytes).2 snapshot.enforces) := by
  unfold Refresher.pollOnce
  rw [hf]
  dsimp only [Refresher.adopt]
  cases examine P r.key p.draw bytes etag r.version with
  | rejected e => exact .inl ⟨e, rfl, rfl⟩
  | same => exact .inr (.inl ⟨rfl, rfl⟩)
  | servable version snapshot => exact .inr (.inr ⟨version, snapshot, rfl, rfl⟩)

/-- Without a body there is nothing to look at. -/
theorem pollOnce_cases (P : Platform) (r : Refresher) (p : Poll) :
    (p.fetched = .notModified ∧ r.pollOnce P p = (r, .unchanged)) ∨
    (∃ e, p.fetched = .unavailable e ∧ r.pollOnce P p = (r, .sourceDown e)) ∨
    ∃ bytes etag, p.fetched = .body bytes etag := by
  unfold Refresher.pollOnce
  cases p.fetched with
  | notModified => exact .inl ⟨rfl, rfl⟩
  | unavailable e => exact .inr (.inl ⟨e, rfl, rfl⟩)
  | body bytes etag => exact .inr (.inr ⟨bytes, etag, rfl⟩)

section Ticks
variable {P : Platform} {r : Refresher} {p : Poll}

theorem pollOnce_quiet (h : p.fetched = .notModified ∨ (∃ e, (r.pollOnce P p).2 = .rejected e) ∨
    ∃ e, (r.pollOnce P p).2 = .sourceDown e) : (r.pollOnce P p).1 = r := by
  rcases pollOnce_cases P r p with ⟨-, hp⟩ | ⟨e, -, hp⟩ | ⟨bytes, etag, hf⟩
  · rw [hp]
  · rw [hp]
  · rcases pollOnce_body P r hf with ⟨e, -, hp⟩ | ⟨-, hp⟩ | ⟨version, snapshot, -, hp⟩
    · rw [hp]
    · simp [hf, hp] at h
    · simp [hf, hp] at h

theorem pollOnce_skipped {bytes : Bytes} {etag : Option Text} (hf : p.fetched = .body bytes etag) :
    ((r.pollOnce P p).2 = .unchanged ↔ ∃ v, peek bytes = .ok v ∧ r.version = some v) ∧
    ((r.pollOnce P p).2 = .unchanged → (r.pollOnce P p).1 = { r with etag }) := by
  have hsame : examine P r.key p.draw bytes etag r.version = .same ↔
    ∃ v, peek bytes = .ok v ∧ r.version = some v := examine_same
  rw [← hsame]
  rcases pollOnce_body P r hf with ⟨e, he, hp⟩ | ⟨he, hp⟩ | ⟨version, snapshot, he, hp⟩
  · simp [he, hp]
  · simp [he, hp]
  · simp [he, hp]

theorem pollOnce_loaded {version : UInt64} {cached enforces : Bool}
    (h : (r.pollOnce P p).2 = .loaded version cached enforces) :
    ∃ bytes etag snapshot, p.fetched = .body bytes etag ∧ snapshot.version = version ∧
      snapshot.enforces = enforces ∧ cached = (writeCache p.io r.disk bytes).2 ∧
      (r.pollOnce P p).1 = { r with slot := some snapshot, etag, disk := (writeCache p.io r.disk bytes).1 } := by
  rcases pollOnce_cases P r p with ⟨-, hp⟩ | ⟨e, -, hp⟩ | ⟨bytes, etag, hf⟩
  · simp [hp] at h
  · simp [hp] at h
  · rcases pollOnce_body P r hf with ⟨e, -, hp⟩ | ⟨-, hp⟩ | ⟨v, snapshot, he, hp⟩
    · simp [hp] at h
    · simp [hp] at h
    · rw [hp] at h
      obtain ⟨rfl, rfl, rfl⟩ := Tick.loaded.inj h
      obtain ⟨-, -, -, -, -, -, hs, -⟩ := examine_servable he
      exact ⟨bytes, etag, snapshot, hf, hs, rfl, rfl, by rw [hp]⟩

end Ticks

/-- A tick says what happened: one that does not load leaves the snapshot, the remembered tag
and the cache file alone, and one that loads describes what is now served and cached. -/
theorem pollOnce_truthful (P : Platform) (r : Refresher) (p : Poll) :
    let after := (r.pollOnce P p).1
    let tick := (r.pollOnce P p).2
    ((p.fetched = .notModified ∨ (∃ e, tick = .rejected e) ∨ ∃ e, tick = .sourceDown e) →
      after.slot = r.slot ∧ after.etag = r.etag ∧ after.cacheFile = r.cacheFile) ∧
    (∀ bytes etag, p.fetched = .body bytes etag →
      (tick = .unchanged ↔ ∃ v, peek bytes = .ok v ∧ r.version = some v) ∧
      (tick = .unchanged → after = { r with etag })) ∧
    ∀ version cached enforces, tick = .loaded version cached enforces →
      ∃ bytes etag snapshot, p.fetched = .body bytes etag ∧ after.slot = some snapshot ∧
        snapshot.version = version ∧ snapshot.enforces = enforces ∧ after.etag = etag ∧
        ∀ file, r.cacheFile = some file →
          (cached = true → after.cacheFile = some (some bytes)) ∧
          (cached = false → after.cacheFile = some file) := by
  intro after tick
  refine ⟨?_, fun bytes etag hf => pollOnce_skipped hf, ?_⟩
  · intro h
    have hr : after = r := pollOnce_quiet h
    rw [hr]
    exact ⟨rfl, rfl, rfl⟩
  · intro version cached enforces h
    obtain ⟨bytes, etag, snapshot, hf, hv, he, hc, ha⟩ := pollOnce_loaded h
    have hafter : after = { r with slot := some snapshot, etag, disk := (writeCache p.io r.disk bytes).1 } := ha
    rw [hafter]
    refine ⟨bytes, etag, snapshot, hf, rfl, hv, he, rfl, ?_⟩
    intro file hfile
    obtain ⟨disk, hd, rfl⟩ := Option.map_eq_some_iff.mp hfile
    have hcache := writeCache_cache p.io disk bytes
    rw [← hd, ← hc] at hcache
    constructor
    · rintro rfl
      exact hcache
    · rintro rfl
      exact hcache

def forgedPoll : Poll := ⟨.body (sampleFile ++ [0]) none, sampleDraw, ⟨.ok, true⟩⟩

def diskFullPoll : Poll := { samplePoll with io := ⟨.failed none, true⟩ }

/-- A load that is cached and the same body again, a load whose cache write fails, and a body that
does not open. -/
theorem pollOnce_truthful_sample :
    let r := Refresher.new sampleKey (some ⟨none, none⟩)
    (r.pollOnce samplePlatform samplePoll).2 = .loaded 1 true false ∧
    (r.pollOnce samplePlatform samplePoll).1.cacheFile = some (some sampleFile) ∧
    ((r.pollOnce samplePlatform samplePoll).1.pollOnce samplePlatform samplePoll).2 = .unchanged ∧
    (r.pollOnce samplePlatform diskFullPoll).2 = .loaded 1 false false ∧
    (r.pollOnce samplePlatform diskFullPoll).1.cacheFile = some none ∧
    (r.pollOnce samplePlatform forgedPoll).1.slot.isNone = true := by
  intro r
  have hcached : (r.pollOnce samplePlatform samplePoll).2 = .loaded 1 true false := by decide +kernel
  have huncached : (r.pollOnce samplePlatform diskFullPoll).2 = .loaded 1 false false := by decide +kernel
  have hrejected : (r.pollOnce samplePlatform forgedPoll).2 = .rejected (.seal .authFailed) := by decide +kernel
  obtain ⟨bytes, etag, snapshot, hbody, -, -, -, -, hwritten⟩ :=
    (pollOnce_truthful samplePlatform r samplePoll).2.2 1 true false hcached
  obtain ⟨bytes', etag', snapshot', -, -, -, -, -, hkept⟩ :=
    (pollOnce_truthful samplePlatform r diskFullPoll).2.2 1 false false huncached
  refine ⟨hcached, ?_, by decide +kernel, huncached, (hkept none rfl).2 rfl, ?_⟩
  · obtain ⟨rfl, -⟩ := Fetched.body.inj hbody
    exact (hwritten none rfl).1 rfl
  · rw [((pollOnce_truthful samplePlatform r forgedPoll).1 (.inr (.inl ⟨_, hrejected⟩))).1]
    rfl

end Kallisto.Resolver
