import Kallisto.Crypto.Codec
import Kallisto.Resolver.Refresh

/-!
Process lifetimes that share one cache file. `adopt` is cut where a kill can fall: after the
snapshot is published, and after the temporary file is written. Every write that runs to
its end succeeds, and the rename is atomic.
-/
namespace Kallisto.Resolver
open Lib Kallisto.Crypto

inductive Phase where
  | boot
  | idle
  | published (bytes : Bytes)
  | written (bytes : Bytes)
  deriving DecidableEq, Repr

/-- `visible` lists the content versions any lifetime has shown in its slot so far. -/
structure Machine where
  key : SealKey
  disk : Disk
  slot : Option Snapshot
  etag : Option Text
  phase : Phase
  visible : List UInt64

def Machine.start (key : SealKey) (disk : Disk) : Machine :=
  { key, disk, slot := none, etag := none, phase := .boot, visible := [] }

def Machine.version (m : Machine) : Option UInt64 := m.slot.map Snapshot.version

inductive Action where
  | warm (draw : Draw) (fault : Option Text)
  | poll (fetched : Fetched) (draw : Draw)
  | write
  | rename
  | kill (left : Option Bytes)

/-- What `adopt` does up to and including `slot.store`, and where it stands then. -/
def Machine.publish (P : Platform) (m : Machine) (draw : Draw) (bytes : Bytes) (etag : Option Text)
    (held : Option UInt64) (next : Phase) : Machine :=
  match examine P m.key draw bytes etag held with
  | .rejected _ => m
  | .same => { m with etag }
  | .servable _ snapshot =>
      { m with slot := some snapshot, etag, phase := next, visible := m.visible ++ [snapshot.version] }

/-- A step that the current phase does not allow changes nothing. A kill while the
temporary file is being written leaves anything in it. -/
def Machine.step (P : Platform) (m : Machine) : Action → Machine
  | .warm draw fault =>
      if m.phase = .boot then
        let m := { m with phase := .idle }
        match diskFetch m.disk fault with
        | .body bytes _ => m.publish P draw bytes none none .idle
        | _ => m
      else m
  | .poll fetched draw =>
      if m.phase = .idle then
        match fetched with
        | .body bytes etag => m.publish P draw bytes etag m.version (.published bytes)
        | _ => m
      else m
  | .write =>
      match m.phase with
      | .published bytes => { m with disk := { m.disk with temp := some bytes }, phase := .written bytes }
      | _ => m
  | .rename =>
      match m.phase with
      | .written bytes => { m with disk := { cache := some bytes, temp := none }, phase := .idle }
      | _ => m
  | .kill left =>
      let disk := match m.phase with
        | .published _ => { m.disk with temp := left }
        | _ => m.disk
      { m with disk, slot := none, etag := none, phase := .boot }

def Machine.run (P : Platform) (m : Machine) (actions : List Action) : Machine :=
  actions.foldl (Machine.step P) m

/-- The refresher inside a machine. -/
def Machine.refresher (m : Machine) : Refresher := ⟨m.key, m.slot, m.etag, some m.disk⟩

/-- Uninterrupted, the cut steps are `poll_once` with a cache write that succeeds. -/
theorem run_poll (P : Platform) {m : Machine} (h : m.phase = .idle) (fetched : Fetched) (draw : Draw) :
    (m.run P [.poll fetched draw, .write, .rename]).refresher =
      (m.refresher.pollOnce P ⟨fetched, draw, ⟨.ok, true⟩⟩).1 := by
  simp only [Machine.run, List.foldl_cons, List.foldl_nil]
  cases fetched with
  | notModified => simp [Machine.step, h, Refresher.pollOnce]
  | unavailable e => simp [Machine.step, h, Refresher.pollOnce]
  | body bytes etag =>
      have hkey : m.refresher.key = m.key := rfl
      have hheld : m.refresher.version = m.version := rfl
      simp only [Machine.step, h, if_true, Refresher.pollOnce, Refresher.adopt, Machine.publish, hkey, hheld]
      cases examine P m.key draw bytes etag m.version with
      | rejected e => simp [h]
      | same => simp [Machine.refresher]
      | servable version snapshot => simp [Machine.refresher, writeCache]

theorem run_warm (P : Platform) {m : Machine} (h : m.phase = .boot) (draw : Draw) (fault : Option Text) :
    (m.step P (.warm draw fault)).refresher = (m.refresher.warmFromCache P draw fault).1 := by
  simp only [Machine.step, h, if_true, Machine.refresher, Refresher.warmFromCache]
  cases diskFetch m.disk fault with
  | notModified => rfl
  | unavailable e => rfl
  | body bytes etag =>
      simp only [Machine.publish, Refresher.adopt]
      cases examine P m.key draw bytes none none <;> rfl

/-- Sealing fails on some plaintexts, under every key and nonce or under none. -/
def UniformSeal (A : Aead) : Prop :=
  ∀ key nonce key' nonce' plain, (A.sealInPlaceAppendTag key nonce [] plain).isSome →
    (A.sealInPlaceAppendTag key' nonce' [] plain).isSome

section Loads
variable {P : Platform} (uniform : UniformSeal P.aead)
include uniform

theorem seal_again {b b' : Barrier} {plaintext : Bytes} {r : Sealed × Barrier}
    (h : b.seal P.aead plaintext = .ok r) : ∃ r', b'.seal P.aead plaintext = .ok r' := by
  obtain ⟨-, -, -, hs⟩ := seal_ok h
  obtain ⟨bytes, hb⟩ := Option.isSome_iff_exists.mp
    (uniform b.key r.1.nonce b'.key (counterNonce b'.nonce) plaintext (by rw [hs]; rfl))
  exact ⟨_, by simp only [Barrier.seal, hb]; rfl⟩

theorem sealSecrets_again {logKey : Option Telemetry.LogKey} {rest : List (Text × Text)}
    {b b' : Barrier} {secrets secrets' : SortedMap Text Entry} {paths paths' : List Text}
    {r : Barrier × SortedMap Text Entry × List Text}
    (h : sealSecrets P logKey rest b secrets paths = .ok r) :
    ∃ r', sealSecrets P logKey rest b' secrets' paths' = .ok r' := by
  induction rest generalizing b b' secrets secrets' paths paths' with
  | nil => exact ⟨_, rfl⟩
  | cons row rest ih =>
      obtain ⟨path, value⟩ := row
      simp only [sealSecrets] at h ⊢
      cases hs : b.seal P.aead (utf8 value) with
      | error e => simp [hs] at h
      | ok sealed =>
          obtain ⟨r', hs'⟩ : ∃ r', b'.seal P.aead (utf8 value) = .ok r' := seal_again uniform hs
          obtain ⟨sealed', next⟩ := r'
          simp only [hs] at h
          simp only [hs']
          exact ih h

theorem build_again {draw draw' : Draw} {view : View} {etag etag' : Option Text} {s : Snapshot}
    (h : Snapshot.build P draw view etag = .ok s) (seed : draw'.seed.isSome) :
    ∃ s', Snapshot.build P draw' view etag' = .ok s' ∧ s'.version = s.version := by
  have hversion : ∀ s', Snapshot.build P draw' view etag' = .ok s' → s'.version = s.version := fun s' h' =>
    (build_image h').1.version.trans (build_image h).1.version.symm
  suffices hok : ∃ s', Snapshot.build P draw' view etag' = .ok s' by
    obtain ⟨s', h'⟩ := hok
    exact ⟨s', h', hversion s' h'⟩
  obtain ⟨key', hkey'⟩ := Option.isSome_iff_exists.mp seed
  unfold Snapshot.build at h ⊢
  cases ht : buildTokens view with
  | error e => simp [ht] at h
  | ok tokens =>
      simp only [ht] at h ⊢
      cases hb : Barrier.new draw.seed with
      | error e => simp [hb] at h
      | ok barrier =>
          simp only [hb] at h
          simp only [hkey', Barrier.new]
          split at h
          · cases h
          · rename_i hs
            obtain ⟨r', hs'⟩ : ∃ r', sealSecrets P _ view.secrets.entries ⟨key', 0⟩ .empty [] = .ok r' :=
              sealSecrets_again uniform hs
            obtain ⟨b, m, ps⟩ := r'
            simp only [hs']
            exact ⟨_, rfl⟩

end Loads

/-- The file loads at a cold start, with this version, whenever a barrier key can be drawn. -/
def Loads (P : Platform) (key : SealKey) (bytes : Bytes) (version : UInt64) : Prop :=
  ∀ draw : Draw, draw.seed.isSome → ∃ s, examine P key draw bytes none none = .servable version s ∧
    s.version = version

theorem loads_of_servable {P : Platform} (uniform : UniformSeal P.aead) {key : SealKey} {draw : Draw}
    {bytes : Bytes} {etag : Option Text} {held : Option UInt64} {version : UInt64} {s : Snapshot}
    (h : examine P key draw bytes etag held = .servable version s) : Loads P key bytes version := by
  intro draw' seed
  obtain ⟨opened, view, ho, hv, hview, -, hs, hb, -⟩ := examine_servable h
  obtain ⟨s', hb', hs'⟩ : ∃ s', Snapshot.build P draw' view none = .ok s' ∧ s'.version = s.version :=
    build_again uniform hb seed
  obtain ⟨nonce, hbytes, -⟩ := openFile_ok (openSealed_eq.mp ho)
  have hpeek : peek bytes = .ok opened.contentVersion := by
    rw [hbytes]
    exact peek_of_parse (Header.parse_write ..)
  refine ⟨s', ?_, hs'.trans hs⟩
  simp only [examine, hpeek, reduceCtorEq, if_false, openSealed_unheld ho, Opened.view, hview, hb', hv]

/-- The file the next cold start is meant to read. In the phases between publishing and
the completed rename it is still on its way to the cache. -/
def Phase.pending (phase : Phase) (disk : Disk) : Option Bytes :=
  match phase with
  | .boot | .idle => disk.cache
  | .published bytes | .written bytes => some bytes

structure Persisted (P : Platform) (m : Machine) : Prop where
  floor : ∀ v ∈ m.visible, ∃ b w, m.phase.pending m.disk = some b ∧ Loads P m.key b w ∧ v ≤ w
  served : m.phase ≠ .boot → ∀ v ∈ m.visible, ∃ w ∈ m.version, v ≤ w

/-- The step does not meet the defect: no kill before the rename is done, and a cold start
that can read its file and draw a barrier key. -/
def Action.Clean (m : Machine) : Action → Prop
  | .warm draw fault => fault = none ∧ draw.seed.isSome
  | .kill _ => m.phase = .boot ∨ m.phase = .idle
  | _ => True

/-- Every step of the run is clean in the state it is taken in. -/
def CleanRun (P : Platform) (m : Machine) : List Action → Prop
  | [] => True
  | a :: actions => a.Clean m ∧ CleanRun P (m.step P a) actions

section Steps
variable {P : Platform} {m : Machine}

theorem Loads.unique {key : SealKey} {bytes : Bytes} {v w : UInt64} (hv : Loads P key bytes v)
    {draw : Draw} {s : Snapshot} (seed : draw.seed.isSome)
    (hs : examine P key draw bytes none none = .servable w s) : v = w := by
  obtain ⟨s', hs', -⟩ := hv draw seed
  rw [hs, Offer.servable.injEq] at hs'
  exact hs'.1.symm

/-- A cold start shows at least what the cache covers. -/
theorem warm_covers (h : Persisted P m) (hboot : m.phase = .boot) {draw : Draw} (seed : draw.seed.isSome) :
    ∀ v ∈ m.visible, ∃ w ∈ (m.step P (.warm draw none)).version, v ≤ w := by
  intro v hv
  obtain ⟨b, w, hb, hl, hvw⟩ := h.floor v hv
  rw [hboot, Phase.pending] at hb
  obtain ⟨s, hs, hsw⟩ := hl draw seed
  refine ⟨w, ?_, hvw⟩
  simp [Machine.step, hboot, diskFetch, hb, Machine.publish, hs, Machine.version, hsw]

/-- Publishing a file that is newer than everything shown, and on its way to the cache. -/
theorem persisted_servable (uniform : UniformSeal P.aead) {draw : Draw} {bytes : Bytes}
    {etag : Option Text} {held : Option UInt64} {version : UInt64} {s : Snapshot} {next : Phase}
    (he : examine P m.key draw bytes etag held = .servable version s)
    (older : ∀ v ∈ m.visible, v ≤ version) (hnext : next.pending m.disk = some bytes) :
    Persisted P { m with slot := some s, etag, phase := next, visible := m.visible ++ [s.version] } := by
  obtain ⟨-, -, -, -, -, -, hs, -, -⟩ := examine_servable he
  have all : ∀ v ∈ m.visible ++ [s.version], v ≤ version := by
    intro v hv
    rcases List.mem_append.mp hv with hold | hnew
    · exact older v hold
    · rw [List.mem_singleton.mp hnew, hs]
      exact UInt64.le_refl _
  exact ⟨fun v hv => ⟨bytes, version, hnext, loads_of_servable uniform he, all v hv⟩,
    fun _ v hv => ⟨version, by rw [← hs]; rfl, all v hv⟩⟩

theorem persisted_warm (uniform : UniformSeal P.aead) (h : Persisted P m) {draw : Draw}
    (seed : draw.seed.isSome) : Persisted P (m.step P (.warm draw none)) := by
  by_cases hboot : m.phase = .boot
  swap
  · simpa [Machine.step, hboot] using h
  have hcovers := warm_covers h hboot seed
  have hfloor := h.floor
  rw [hboot, Phase.pending] at hfloor
  simp only [Machine.step, hboot, if_true, diskFetch] at hcovers ⊢
  cases hc : m.disk.cache with
  | none =>
      simp only [hc] at hcovers ⊢
      exact ⟨by simpa [Phase.pending, hc] using hfloor, fun _ => hcovers⟩
  | some bytes =>
      simp only [hc, Machine.publish] at hcovers ⊢
      cases he : examine P m.key draw bytes none none with
      | rejected e =>
          simp only [he] at hcovers ⊢
          exact ⟨hfloor, fun _ => hcovers⟩
      | same =>
          simp only [he] at hcovers ⊢
          exact ⟨hfloor, fun _ => hcovers⟩
      | servable version s =>
          refine persisted_servable (m := { m with phase := .idle }) uniform he (fun v hv => ?_) hc
          obtain ⟨b, w, hb, hl, hvw⟩ := hfloor v hv
          obtain rfl : bytes = b := Option.some.inj (hc.symm.trans hb)
          rwa [hl.unique seed he] at hvw

theorem persisted_poll (uniform : UniformSeal P.aead) (h : Persisted P m) (fetched : Fetched) (draw : Draw) :
    Persisted P (m.step P (.poll fetched draw)) := by
  by_cases hidle : m.phase = .idle
  swap
  · simpa [Machine.step, hidle] using h
  simp only [Machine.step, hidle, if_true]
  cases fetched with
  | notModified => exact h
  | unavailable e => exact h
  | body bytes etag =>
      simp only [Machine.publish]
      cases he : examine P m.key draw bytes etag m.version with
      | rejected e => exact h
      | same => exact ⟨h.floor, h.served⟩
      | servable version s =>
          obtain ⟨-, -, -, -, -, -, -, -, hnew⟩ := examine_servable he
          refine persisted_servable uniform he (fun v hv => ?_) rfl
          obtain ⟨w, hw, hvw⟩ := h.served (by rw [hidle]; simp) v hv
          exact UInt64.le_trans hvw (UInt64.le_of_lt (hnew w hw))

theorem persisted_step (uniform : UniformSeal P.aead) (h : Persisted P m) {a : Action} (clean : a.Clean m) :
    Persisted P (m.step P a) := by
  cases a with
  | warm draw fault =>
      obtain ⟨rfl, seed⟩ := clean
      exact persisted_warm uniform h seed
  | poll fetched draw => exact persisted_poll uniform h fetched draw
  | write =>
      simp only [Machine.step]
      cases hp : m.phase with
      | published bytes =>
          refine ⟨?_, fun _ => h.served (by rw [hp]; simp)⟩
          have hfloor := h.floor
          rw [hp] at hfloor
          exact hfloor
      | _ => exact h
  | rename =>
      simp only [Machine.step]
      cases hp : m.phase with
      | written bytes =>
          refine ⟨?_, fun _ => h.served (by rw [hp]; simp)⟩
          have hfloor := h.floor
          rw [hp] at hfloor
          exact hfloor
      | _ => exact h
  | kill left =>
      have hfloor := h.floor
      simp only [Machine.step]
      rcases clean with hp | hp
      · rw [hp] at hfloor ⊢
        exact ⟨hfloor, fun hne => absurd rfl hne⟩
      · rw [hp] at hfloor ⊢
        exact ⟨hfloor, fun hne => absurd rfl hne⟩

end Steps

theorem persisted_run {P : Platform} (uniform : UniformSeal P.aead) {m : Machine} (h : Persisted P m)
    {actions : List Action} (clean : CleanRun P m actions) : Persisted P (m.run P actions) := by
  induction actions generalizing m with
  | nil => exact h
  | cons a actions ih => exact ih (persisted_step uniform h clean.1) clean.2

/-- In a run whose every step is clean, a restart is not a rollback window: what a cold start
serves is at least everything earlier lifetimes showed. -/
theorem restart_no_rollback {P : Platform} (uniform : UniformSeal P.aead) (key : SealKey) (disk : Disk)
    (actions : List Action) (clean : CleanRun P (Machine.start key disk) actions)
    (hboot : ((Machine.start key disk).run P actions).phase = .boot) (draw : Draw) (fault : Option Text)
    (cold : (Action.warm draw fault).Clean ((Machine.start key disk).run P actions)) :
    ∀ v ∈ ((Machine.start key disk).run P actions).visible,
      ∃ w ∈ (((Machine.start key disk).run P actions).step P (.warm draw fault)).version, v ≤ w := by
  obtain ⟨rfl, seed⟩ := cold
  have start : Persisted P (Machine.start key disk) := ⟨by simp [Machine.start], by simp [Machine.start]⟩
  exact warm_covers (persisted_run uniform start clean) hboot seed

/-- AES-256-GCM of a file with one secret, and of the secret under the barrier. -/
def secretTable : List Sealing :=
  [plainSealing, ⟨sampleKey, counterNonce 0, [], utf8 "\x7b\"user\":\"app\"\x7d".toList,
    [117, 158, 192, 173, 208, 94, 161, 135, 42, 201, 217, 69, 58, 81, 100, 237, 115, 84, 19, 137, 209, 171, 132,
      181, 188, 226, 243, 20, 213, 52]⟩]

/-- The table, and beyond it a cipher that seals everything; only the length is that of AES-GCM there. -/
def tableAead (table : List Sealing) : Aead where
  sealInPlaceAppendTag key nonce aad plain :=
    ((Aead.recorded table).sealInPlaceAppendTag key nonce aad plain).orElse fun _ =>
      some (plain ++ List.replicate 16 0)
  openInPlace := (Aead.recorded table).openInPlace

theorem tableAead_uniform (table : List Sealing) : UniformSeal (tableAead table) := by
  intro key nonce key' nonce' plain _
  simp only [tableAead]
  cases (Aead.recorded table).sealInPlaceAppendTag key' nonce' [] plain <;> rfl

def secretPlatform : Platform := ⟨tableAead secretTable, samplePlatform.hmac, compactSerde.fromSlice⟩

def secretFile : Bytes := Header.write 1 sampleNonce ++ plainSealing.sealed

/-- A lifetime that loads the file and writes it to the cache. -/
def secretLifetime : List Action :=
  [.warm sampleDraw none, .poll (.body secretFile none) sampleDraw, .write, .rename]

def secretMachine : Machine :=
  (Machine.start sampleKey ⟨none, none⟩).run secretPlatform (secretLifetime ++ [.kill none])

theorem restart_no_rollback_sample : UniformSeal secretPlatform.aead ∧
    (secretMachine.step secretPlatform (.warm sampleDraw none)).slot.map Snapshot.secretCount = some 1 ∧
    ∃ w ∈ (secretMachine.step secretPlatform (.warm sampleDraw none)).version, 1 ≤ w := by
  have hvisible : secretMachine.visible = [1] := by decide +kernel
  have hidle : ((Machine.start sampleKey ⟨none, none⟩).run secretPlatform secretLifetime).phase = .idle := by
    decide +kernel
  simp only [Machine.run, secretLifetime, List.foldl_cons, List.foldl_nil] at hidle
  have clean : CleanRun secretPlatform (Machine.start sampleKey ⟨none, none⟩) (secretLifetime ++ [.kill none]) :=
    ⟨⟨rfl, rfl⟩, trivial, trivial, trivial, .inr hidle, trivial⟩
  have hcovered := restart_no_rollback (tableAead_uniform secretTable) sampleKey ⟨none, none⟩ _ clean
    (by decide +kernel) sampleDraw none ⟨rfl, rfl⟩
  change ∀ v ∈ secretMachine.visible, ∃ w ∈ (secretMachine.step secretPlatform (.warm sampleDraw none)).version, v ≤ w
    at hcovered
  rw [hvisible] at hcovered
  exact ⟨tableAead_uniform secretTable, by decide +kernel, hcovered 1 List.mem_cons_self⟩

def samplePublish : List Action := [.warm sampleDraw none, .poll (.body sampleFile none) sampleDraw]

/-- Killed right after `slot.store`, the process comes back with nothing loaded and would
take any older file. -/
theorem kill_after_publish : ¬ ∀ v ∈ ((Machine.start sampleKey ⟨none, none⟩).run samplePlatform
      (samplePublish ++ [.kill none])).visible,
    ∃ w ∈ (((Machine.start sampleKey ⟨none, none⟩).run samplePlatform (samplePublish ++ [.kill none])).step
      samplePlatform (.warm sampleDraw none)).version, v ≤ w := by
  have hvisible : ((Machine.start sampleKey ⟨none, none⟩).run samplePlatform
      (samplePublish ++ [.kill none])).visible = [1] := by decide +kernel
  have hversion : (((Machine.start sampleKey ⟨none, none⟩).run samplePlatform
      (samplePublish ++ [.kill none])).step samplePlatform (.warm sampleDraw none)).version = none := by
    decide +kernel
  rw [hvisible, hversion]
  intro h
  obtain ⟨w, hw, -⟩ := h 1 List.mem_cons_self
  cases hw

end Kallisto.Resolver
