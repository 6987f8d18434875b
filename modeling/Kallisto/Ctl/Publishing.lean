import Kallisto.Ctl.Versions
import Kallisto.Lib.Chronicle
import Mathlib.Logic.Function.Basic

/-!
One sealed file, the commands that write it, and any number of resolvers that read it from its
path, each with a cache of its own and each killed and started again at any time. The file takes
the place of every message between them, so what they agree on is what its versions name.
-/
namespace Kallisto.Ctl
open Lib Kallisto.Crypto Kallisto.Policy Kallisto.Resolver

structure Fleet (n : Nat) where
  target : Target
  resolvers : Fin n → Refresher

/-- A command; a poll of the file and how it went, up to the cache; the end of a process and the
cold start of the next. -/
inductive Move (n : Nat) where
  | command (i : Invocation)
  | poll (t : Fin n) (fault : Option Text) (draw : Draw) (io : Io)
  | restart (t : Fin n) (fault : Option Text) (draw : Draw)

inductive Report (n : Nat) where
  | ended (outcome : Except Stop Unit)
  | ticked (t : Fin n) (tick : Tick)

/-- `DiskSource` at the path the commands write to. -/
def Target.fetch (target : Target) (fault : Option Text) : Fetched := diskFetch ⟨target.file, target.temporary⟩ fault

namespace Fleet
variable {n : Nat}

def new (target : Target) (keys : Fin n → SealKey) (disks : Fin n → Option Disk) : Fleet n :=
  ⟨target, fun t => .new (keys t) (disks t)⟩

/-- What a process of this machine comes up with. -/
def revived (f : Fleet n) (t : Fin n) : Refresher := .new (f.resolvers t).key (f.resolvers t).disk

def ticked (f : Fleet n) (t : Fin n) (result : Refresher × Tick) : Fleet n × Report n :=
  ({ f with resolvers := Function.update f.resolvers t result.1 }, .ticked t result.2)

def step {V : Type} (T : Toolbox V) (P : Platform) (f : Fleet n) : Move n → Fleet n × Report n
  | .command i =>
      let (target, outcome) := Ctl.step T f.target i
      ({ f with target }, .ended outcome)
  | .poll t fault draw io => f.ticked t ((f.resolvers t).pollOnce P ⟨f.target.fetch fault, draw, io⟩)
  | .restart t fault draw => f.ticked t ((f.revived t).warmFromCache P draw fault)

end Fleet

/-- A command is not forced and meets neither of the two holes. -/
def Fleet.Allows {n : Nat} (f : Fleet n) : Move n → Prop
  | .command i => i.Unforced ∧ i.Clear f.target
  | .poll .. | .restart .. => True

section Examine
variable {P : Platform} {key : SealKey} {draw : Draw} {bytes : Bytes} {etag : Option Text} {held : Option UInt64}

/-- A floor that the file reaches makes no difference to opening it. -/
theorem openSealed_floor {w : UInt64} (hpeek : peek bytes = .ok w) (hfloor : ∀ v ∈ held, v ≤ w) :
    openSealed P.aead P.fromSlice bytes key held = openSealed P.aead P.fromSlice bytes key none := by
  rw [openSealed_eq]
  obtain ⟨r, hr⟩ := Header.parse_total bytes
  cases r with
  | error e => rw [openFile_error hr, openSealed_eq.mpr (openFile_error hr)]
  | ok header =>
      have hversion : header.contentVersion = w := Except.ok.inj ((peek_of_parse hr).symm.trans hpeek)
      have hcurrent : ∀ v ∈ held, ¬ header.contentVersion < v := by
        intro v hv
        rw [hversion]
        exact UInt64.not_lt.mpr (hfloor v hv)
      rw [openFile_body hr hcurrent, openSealed_eq.mpr (openFile_body hr (by simp))]

/-- So a resolver judges a file as one that has served nothing yet would. -/
theorem examine_floor {w : UInt64} (hpeek : peek bytes = .ok w) (hfloor : ∀ v ∈ held, v ≤ w) :
    examine P key draw bytes etag held =
      if some w = held then .same else examine P key draw bytes etag none := by
  unfold examine
  simp only [hpeek, openSealed_floor hpeek hfloor, reduceCtorEq, if_false]

theorem openSealed_unpeeked {e : SealError} (h : peek bytes = .error e) :
    openSealed P.aead P.fromSlice bytes key held = .error e := by
  obtain ⟨r, hr⟩ := Header.parse_total bytes
  cases r with
  | ok header =>
      rw [peek_of_parse hr] at h
      cases h
  | error e' =>
      obtain rfl : e' = e := by simpa [peek, peekVersion, hr, Except.map] using h
      exact openSealed_eq.mpr (openFile_error hr)

theorem openSealed_unheld_error {e : SealError} (h : openSealed P.aead P.fromSlice bytes key none = .error e)
    (v offered : UInt64) : e ≠ .rollback v offered := by
  rintro rfl
  cases openFile_cases (openSealed_eq.mp h) with
  | rollback _ _ _ w hw _ => cases hw
  | body _ _ _ _ _ last =>
      rcases last _ rfl with he | he | ⟨body, he⟩
      · cases he
      · cases he
      · cases he

/-- A resolver that serves nothing has nothing to compare a version with. -/
theorem examine_unheld (v offered : UInt64) :
    examine P key draw bytes etag none ≠ .rejected (.seal (.rollback v offered)) := by
  intro h
  unfold examine at h
  cases hp : peek bytes with
  | error e =>
      simp only [hp, Offer.rejected.injEq, RefreshError.seal.injEq] at h
      have hopen : openSealed P.aead P.fromSlice bytes key none = .error e := openSealed_unpeeked hp
      exact openSealed_unheld_error hopen v offered h
  | ok w =>
      simp only [hp, reduceCtorEq, if_false] at h
      cases ho : openSealed P.aead P.fromSlice bytes key none with
      | error e =>
          simp only [ho, Offer.rejected.injEq, RefreshError.seal.injEq] at h
          exact openSealed_unheld_error ho v offered h
      | ok opened =>
          obtain ⟨-, -, -, -, view, hview, -⟩ := openFile_ok (openSealed_eq.mp ho)
          simp only [ho, Opened.view, hview] at h
          split at h <;> cases h

end Examine

/-- The version at the front of a file, where there is one. -/
def stampOf (bytes : Bytes) : Option Nat := (peek bytes).toOption.map UInt64.toNat

/-- The snapshot is of one of the files there have been. -/
def Copied (P : Platform) (key : SealKey) (past : Set Bytes) (s : Snapshot) : Prop :=
  ∃ bytes ∈ past, peek bytes = .ok s.version ∧ ∃ opened view draw etag,
    openSealed P.aead P.fromSlice bytes key none = .ok opened ∧ P.fromSlice opened.plaintext = some view ∧
      Snapshot.build P draw view etag = .ok s

/-- What a resolver serves and what it has put aside are of files there have been. -/
structure Keeps (P : Platform) (key : SealKey) (past : Set Bytes) (r : Refresher) : Prop where
  keyed : r.key = key
  served : ∀ s ∈ r.slot, Copied P key past s
  cached : ∀ disk ∈ r.disk, ∀ bytes ∈ disk.cache, bytes ∈ past

section Keeps
variable {P : Platform} {key : SealKey} {past past' : Set Bytes} {r : Refresher}

theorem Keeps.mono (h : Keeps P key past r) (hsub : past ⊆ past') : Keeps P key past' r where
  keyed := h.keyed
  served s hs := by
    obtain ⟨bytes, hbytes, hrest⟩ := h.served s hs
    exact ⟨bytes, hsub hbytes, hrest⟩
  cached disk hdisk bytes hbytes := hsub (h.cached disk hdisk bytes hbytes)

theorem writeCache_keeps {disk : Option Disk} {bytes : Bytes} (hbytes : bytes ∈ past)
    (h : ∀ d ∈ disk, ∀ b ∈ d.cache, b ∈ past) (io : Io) :
    ∀ d ∈ (writeCache io disk bytes).1, ∀ b ∈ d.cache, b ∈ past := by
  cases disk with
  | none => rintro d ⟨⟩
  | some disk =>
      have hold := h disk rfl
      unfold writeCache
      cases io.write with
      | failed left =>
          rintro d ⟨⟩
          exact hold
      | ok =>
          by_cases hrenamed : io.renamed = true
          · simp only [if_pos hrenamed]
            rintro d ⟨⟩ b ⟨⟩
            exact hbytes
          · simp only [if_neg hrenamed]
            rintro d ⟨⟩
            exact hold

/-- A file is loaded, and put aside, only where its version could be read. -/
theorem adopt_keeps (h : Keeps P key past r) {bytes : Bytes} (hbytes : (stampOf bytes).isSome → bytes ∈ past)
    (draw : Draw) (io : Io) (etag : Option Text) (held : Option UInt64) (write : Bool) :
    Keeps P key past (r.adopt P draw io bytes etag held write).1 := by
  unfold Refresher.adopt
  cases he : examine P r.key draw bytes etag held with
  | rejected e => exact h
  | same => exact { h with }
  | servable version snapshot =>
      obtain ⟨opened, view, hopen, hversion, hview, -, hsnapshot, hbuild, -⟩ := examine_servable he
      have hpeek : peek bytes = .ok snapshot.version := by rw [hsnapshot, ← hversion, openSealed_peek hopen]
      have hmem : bytes ∈ past := hbytes (by rw [stampOf, hpeek]; rfl)
      have hcached : ∀ d ∈ (if write then writeCache io r.disk bytes else (r.disk, true)).1, ∀ b ∈ d.cache,
          b ∈ past := by
        by_cases hw : write = true
        · rw [if_pos hw]
          exact writeCache_keeps hmem h.cached io
        · rw [if_neg hw]
          exact h.cached
      refine ⟨h.keyed, ?_, hcached⟩
      rintro s ⟨⟩
      exact ⟨bytes, hmem, hpeek, opened, view, draw, etag, h.keyed ▸ openSealed_unheld hopen, hview, hbuild⟩

theorem pollOnce_keeps {target : Target} (chronicle : Chronicle stampOf past target.file) (h : Keeps P key past r)
    (fault : Option Text) (draw : Draw) (io : Io) :
    Keeps P key past (r.pollOnce P ⟨target.fetch fault, draw, io⟩).1 := by
  unfold Refresher.pollOnce Target.fetch diskFetch
  cases fault with
  | some kind => exact h
  | none =>
      cases hfile : target.file with
      | none => exact h
      | some bytes => exact adopt_keeps h (chronicle.held bytes (hfile ▸ rfl)) draw io none _ true

theorem warmFromCache_keeps (h : Keeps P key past r) (draw : Draw) (fault : Option Text) :
    Keeps P key past (r.warmFromCache P draw fault).1 := by
  unfold Refresher.warmFromCache
  cases hdisk : r.disk with
  | none => exact h
  | some disk =>
      cases fault with
      | some kind => exact h
      | none =>
          cases hcache : disk.cache with
          | none =>
              simp only [diskFetch, hcache]
              exact h
          | some bytes =>
              simp only [diskFetch, hcache]
              exact adopt_keeps h (fun _ => h.cached disk hdisk bytes hcache) draw _ none none false

/-- No resolver is ahead of the file. -/
theorem Keeps.atLeast {target : Target} (chronicle : Chronicle stampOf past target.file) (h : Keeps P key past r) :
    AtLeast r.version target.version := by
  intro v hv
  obtain ⟨s, hs, rfl⟩ := Option.map_eq_some_iff.mp hv
  obtain ⟨bytes, hbytes, hpeek, -⟩ := h.served s hs
  obtain ⟨i, hi, held, hheld, j, hj, hle⟩ := chronicle.newest bytes hbytes
  rw [stampOf, hpeek] at hi
  cases hi
  obtain ⟨w, hw, rfl⟩ := Option.map_eq_some_iff.mp hj
  refine ⟨w, ?_, UInt64.le_iff_toNat_le.mpr hle⟩
  rw [Target.version, hheld]
  exact hw

/-- A poll judges the file as a resolver that serves nothing would, unless it serves it already. -/
theorem Keeps.judges {target : Target} (chronicle : Chronicle stampOf past target.file) (h : Keeps P key past r)
    {bytes : Bytes} (hfile : target.file = some bytes) (draw : Draw) :
    (∃ v, r.version = some v ∧ peek bytes = .ok v ∧ examine P r.key draw bytes none r.version = .same) ∨
      examine P r.key draw bytes none r.version = examine P r.key draw bytes none none := by
  cases hpeek : peek bytes with
  | error e =>
      right
      simp only [examine, hpeek]
  | ok w =>
      have hfloor : ∀ v ∈ r.version, v ≤ w := by
        intro v hv
        obtain ⟨u, hu, hle⟩ := h.atLeast chronicle v hv
        rw [Target.version, hfile, Option.bind_some, hpeek] at hu
        cases hu
        exact hle
      rw [examine_floor hpeek hfloor]
      by_cases hsame : some w = r.version
      · exact .inl ⟨w, hsame.symm, rfl, if_pos hsame⟩
      · exact .inr (if_neg hsame)

theorem adopt_rejected {draw : Draw} {io : Io} {bytes : Bytes} {etag : Option Text} {held : Option UInt64} {write : Bool}
    {e : RefreshError} (h : (r.adopt P draw io bytes etag held write).2 = .rejected e) :
    examine P r.key draw bytes etag held = .rejected e := by
  unfold Refresher.adopt at h
  cases he : examine P r.key draw bytes etag held with
  | rejected e' =>
      rw [he] at h
      cases h
      rfl
  | same =>
      rw [he] at h
      cases h
  | servable version snapshot =>
      rw [he] at h
      cases h

theorem pollOnce_no_rollback {target : Target} (chronicle : Chronicle stampOf past target.file)
    (h : Keeps P key past r) (fault : Option Text) (draw : Draw) (io : Io) (v offered : UInt64) :
    (r.pollOnce P ⟨target.fetch fault, draw, io⟩).2 ≠ .rejected (.seal (.rollback v offered)) := by
  unfold Refresher.pollOnce Target.fetch diskFetch
  cases fault with
  | some kind => exact nofun
  | none =>
      cases hfile : target.file with
      | none => exact nofun
      | some bytes =>
          intro htick
          have hexamined := adopt_rejected htick
          rcases h.judges chronicle hfile draw with ⟨-, -, -, hsame⟩ | hfresh
          · rw [hsame] at hexamined
            cases hexamined
          · rw [hfresh] at hexamined
            exact examine_unheld v offered hexamined

theorem warmFromCache_no_rollback (draw : Draw) (fault : Option Text) (v offered : UInt64) :
    (r.warmFromCache P draw fault).2 ≠ .rejected (.seal (.rollback v offered)) := by
  unfold Refresher.warmFromCache
  cases r.disk with
  | none => exact nofun
  | some disk =>
      dsimp only
      cases diskFetch disk fault with
      | notModified => exact nofun
      | unavailable e => exact nofun
      | body bytes etag => exact fun htick => examine_unheld v offered (adopt_rejected htick)

end Keeps

/-- A command that succeeds opens a new page, of a version that was not there before. -/
theorem Forward.chronicle {past : Set Bytes} {t : Target} {result : Target × Except Stop Unit}
    (forward : Forward t result) (h : Chronicle stampOf past t.file) :
    ∃ past', past ⊆ past' ∧ Chronicle stampOf past' result.1.file := by
  obtain ⟨after, outcome⟩ := result
  cases outcome with
  | error stop =>
      have hfile : after.file = t.file := forward.1 stop rfl
      exact ⟨past, le_refl past, hfile ▸ h⟩
  | ok u =>
      cases hversion : t.version with
      | none =>
          apply h.restart
          intro bytes hbytes
          rw [Target.version, hbytes, Option.bind_some] at hversion
          rw [stampOf, hversion]
          rfl
      | some v =>
          obtain ⟨w, hw, hlt⟩ := forward.2 rfl v hversion
          obtain ⟨bytes, hfile, hpeek⟩ := Option.bind_eq_some_iff.mp hw
          have hstamp : stampOf bytes = some w.toNat := by rw [stampOf, hpeek]; rfl
          refine ⟨insert bytes past, Set.subset_insert _ _, ?_⟩
          have hafter : after.file = some bytes := hfile
          simp only [hafter]
          apply h.write hstamp
          intro old hold u hu
          rw [Target.version, hold, Option.bind_some] at hversion
          rw [stampOf, hversion] at hu
          cases hu
          exact UInt64.lt_iff_toNat_lt.mp hlt

/-- One file's history, and resolvers that keep to it. -/
def Kept {n : Nat} (P : Platform) (keys : Fin n → SealKey) (past : Set Bytes) (f : Fleet n) : Prop :=
  Chronicle stampOf past f.target.file ∧ ∀ t, Keeps P (keys t) past (f.resolvers t)

/-- No file was refused for being older than what was served. -/
def Unrefused {n : Nat} (trace : List (Report n)) : Prop :=
  ∀ t tick, .ticked t tick ∈ trace → ∀ v offered, tick ≠ .rejected (.seal (.rollback v offered))

section Fleet
variable {V : Type} {T : Toolbox V} {P : Platform} {n : Nat} {keys : Fin n → SealKey} {past : Set Bytes} {f : Fleet n}

theorem kept_new {disks : Fin n → Option Disk} (target : Target) (keys : Fin n → SealKey)
    (fresh : ∀ t, ∀ disk ∈ disks t, disk.cache = none) :
    Kept P keys { bytes | bytes ∈ target.file ∧ (stampOf bytes).isSome } (.new target keys disks) := by
  refine ⟨.start target.file, fun t => ⟨rfl, nofun, ?_⟩⟩
  intro disk hdisk bytes hbytes
  rw [fresh t disk hdisk] at hbytes
  cases hbytes

theorem Kept.ticked (h : Kept P keys past f) {t : Fin n} {result : Refresher × Tick}
    (hkeeps : Keeps P (keys t) past result.1) : Kept P keys past (f.ticked t result).1 := by
  refine ⟨h.1, ?_⟩
  intro u
  by_cases hu : u = t
  · subst hu
    simpa only [Fleet.ticked, Function.update_self] using hkeeps
  · simpa only [Fleet.ticked, Function.update_of_ne hu] using h.2 u

theorem Unrefused.snoc {trace : List (Report n)} (h : Unrefused trace) {report : Report n}
    (hreport : ∀ t tick, report = .ticked t tick → ∀ v offered, tick ≠ .rejected (.seal (.rollback v offered))) :
    Unrefused (trace ++ [report]) := by
  intro t tick hmem
  rcases List.mem_append.mp hmem with hold | hnew
  · exact h t tick hold
  · exact hreport t tick (List.mem_singleton.mp hnew).symm

/-- One move: the history grows at its end or not at all. -/
theorem kept_step (h : Kept P keys past f) {m : Move n} (proper : f.Allows m) :
    (∃ past', past ⊆ past' ∧ Kept P keys past' (f.step T P m).1) ∧
      ∀ t tick, (f.step T P m).2 = .ticked t tick → ∀ v offered, tick ≠ .rejected (.seal (.rollback v offered)) := by
  cases m with
  | command i =>
      obtain ⟨past', hsub, hchronicle⟩ := (step_forward (T := T) proper.1 proper.2).chronicle h.1
      exact ⟨⟨past', hsub, hchronicle, fun t => (h.2 t).mono hsub⟩, nofun⟩
  | poll t fault draw io =>
      refine ⟨⟨past, le_refl past, h.ticked (pollOnce_keeps h.1 (h.2 t) fault draw io)⟩, ?_⟩
      rintro _ _ ⟨⟩
      exact pollOnce_no_rollback h.1 (h.2 t) fault draw io
  | restart t fault draw =>
      have hrevived : Keeps P (keys t) past (f.revived t) := ⟨(h.2 t).keyed, nofun, (h.2 t).cached⟩
      refine ⟨⟨past, le_refl past, h.ticked (warmFromCache_keeps hrevived draw fault)⟩, ?_⟩
      rintro _ _ ⟨⟩
      exact warmFromCache_no_rollback draw fault

theorem kept_run (h : Kept P keys past f) {moves : List (Move n)}
    (proper : Guarded (Fleet.step T P) Fleet.Allows f moves) :
    (∃ past', past ⊆ past' ∧ Kept P keys past' (run (Fleet.step T P) f moves).1) ∧
      Unrefused (run (Fleet.step T P) f moves).2 := by
  have hstep : ∀ trace (g : Fleet n) m, ((∃ past', past ⊆ past' ∧ Kept P keys past' g) ∧ Unrefused trace) →
      g.Allows m → (∃ past', past ⊆ past' ∧ Kept P keys past' (g.step T P m).1) ∧
        Unrefused (trace ++ [(g.step T P m).2]) := by
    rintro trace g m ⟨⟨past', hsub, hkept⟩, hquiet⟩ hproper
    obtain ⟨⟨past'', hsub', hkept'⟩, hreport⟩ := kept_step (T := T) hkept hproper
    exact ⟨⟨past'', hsub.trans hsub', hkept'⟩, hquiet.snoc hreport⟩
  exact run_guarded (P := fun trace f => (∃ past', past ⊆ past' ∧ Kept P keys past' f) ∧ Unrefused trace)
    ⟨⟨past, le_refl past, h⟩, nofun⟩ hstep proper

/-- Two snapshots of one version are of one file. -/
theorem copied_agree {key : SealKey} {s s' : Snapshot} {current : Option Bytes}
    (chronicle : Chronicle stampOf past current) (h : Copied P key past s) (h' : Copied P key past s')
    (hversion : s.version = s'.version) : ∃ view, Image P view s ∧ Image P view s' := by
  obtain ⟨bytes, hmem, hpeek, opened, view, draw, etag, hopen, hview, hbuild⟩ := h
  obtain ⟨bytes', hmem', hpeek', opened', view', draw', etag', hopen', hview', hbuild'⟩ := h'
  have hbytes : bytes = bytes' := by
    apply chronicle.unique bytes hmem bytes' hmem'
    rw [stampOf, stampOf, hpeek, hpeek', hversion]
  subst hbytes
  obtain rfl : opened = opened' := Except.ok.inj (hopen.symm.trans hopen')
  obtain rfl : view = view' := Option.some.inj (hview.symm.trans hview')
  exact ⟨view, (build_image hbuild).1, (build_image hbuild').1⟩

theorem poll_catches_up (h : Kept P keys past f) {t : Fin n} {draw : Draw} {bytes : Bytes} {version : UInt64}
    {snapshot : Snapshot} (hfile : f.target.file = some bytes)
    (servable : examine P (keys t) draw bytes none none = .servable version snapshot) (io : Io) :
    ((f.resolvers t).pollOnce P ⟨.body bytes none, draw, io⟩).1.version = some version := by
  obtain ⟨opened, -, hopen, hopened, -, -, hsnapshot, -, -⟩ := examine_servable servable
  rw [← (h.2 t).keyed] at servable
  rcases (h.2 t).judges h.1 hfile draw with ⟨v, hv, hpeek, hsame⟩ | hfresh
  · rw [openSealed_peek hopen, hopened] at hpeek
    cases hpeek
    simp only [Refresher.pollOnce, Refresher.adopt, hsame]
    exact hv
  · rw [servable] at hfresh
    simp only [Refresher.pollOnce, Refresher.adopt, hfresh]
    simp only [Refresher.version, Option.map_some, hsnapshot]

end Fleet

/-- Any number of resolvers around one file, their caches empty at first, in any order of commands,
polls and restarts. No resolver refuses a file as a rollback, none is ahead of the file, one that
polls a file it can serve has caught up with it, and a version names the same contents on all
machines at all times. -/
theorem fleet_follows {V : Type} (T : Toolbox V) (P : Platform) {n : Nat} (target : Target) (keys : Fin n → SealKey)
    {disks : Fin n → Option Disk} (fresh : ∀ t, ∀ disk ∈ disks t, disk.cache = none) {moves : List (Move n)}
    (proper : Guarded (Fleet.step T P) Fleet.Allows (.new target keys disks) moves) :
    let f := (run (Fleet.step T P) (.new target keys disks) moves).1
    Unrefused (run (Fleet.step T P) (.new target keys disks) moves).2 ∧
    (∀ t, AtLeast (f.resolvers t).version f.target.version) ∧
    (∀ t draw io bytes version snapshot, f.target.file = some bytes →
      examine P (keys t) draw bytes none none = .servable version snapshot →
      ((f.resolvers t).pollOnce P ⟨.body bytes none, draw, io⟩).1.version = some version) ∧
    ∀ before after, moves = before ++ after → ∀ t u s s', keys t = keys u →
      ((run (Fleet.step T P) (.new target keys disks) before).1.resolvers t).slot = some s →
      (f.resolvers u).slot = some s' → s.version = s'.version → ∃ view, Image P view s ∧ Image P view s' := by
  intro f
  have hstart := kept_new (P := P) target keys fresh
  obtain ⟨⟨past, -, hkept⟩, hquiet⟩ := kept_run hstart proper
  refine ⟨hquiet, fun t => (hkept.2 t).atLeast hkept.1, ?_, ?_⟩
  · intro t draw io bytes version snapshot hfile servable
    exact poll_catches_up hkept hfile servable io
  · rintro before after rfl t u s s' hkeys hs hs' hversion
    obtain ⟨hbefore, hlater⟩ := guarded_append.mp proper
    obtain ⟨⟨early, -, hearly⟩, -⟩ := kept_run hstart hbefore
    obtain ⟨⟨late, hsub, hlate⟩, -⟩ := kept_run hearly hlater
    have hend : (run (Fleet.step T P) (run (Fleet.step T P) (.new target keys disks) before).1 after).1 = f := by
      simp only [f, run_append]
    rw [hend] at hlate
    have hold : Copied P (keys t) late s := ((hearly.2 t).mono hsub).served s hs
    have hnew : Copied P (keys t) late s' := hkeys ▸ (hlate.2 u).served s' hs'
    exact copied_agree hlate.1 hold hnew hversion

def risingPlatform : Platform :=
  ⟨(sampleTool risingSealings).aead, sampleHmac, (sampleTool risingSealings).fromSlice⟩

/-- The first version is published and loaded by one machine, the second by the other. -/
def sampleMoves : List (Move 2) :=
  [.command (sealCommand sampleNonce), .poll 0 none sampleDraw ⟨.ok, true⟩, .command (bumpCommand laterNonce),
    .poll 1 none sampleDraw ⟨.ok, true⟩]

def sampleFleet (moves : List (Move 2)) : Fleet 2 :=
  (run (Fleet.step (sampleTool risingSealings) risingPlatform)
    (.new ⟨none, none⟩ (fun _ => sampleKey) fun _ => some ⟨none, none⟩) moves).1

theorem fleet_follows_sample :
    ((sampleFleet sampleMoves).resolvers 0).version = some 1 ∧
    ((sampleFleet sampleMoves).resolvers 1).version = some 2 ∧
    (sampleFleet sampleMoves).target.version = some 2 ∧
    ∀ bytes version snapshot, (sampleFleet sampleMoves).target.file = some bytes →
      examine risingPlatform sampleKey sampleDraw bytes none none = .servable version snapshot →
      (((sampleFleet sampleMoves).resolvers 0).pollOnce risingPlatform
        ⟨.body bytes none, sampleDraw, ⟨.ok, true⟩⟩).1.version = some version := by
  have hone : (sampleFleet (sampleMoves.take 2)).target.version = some 1 := by decide +kernel
  refine ⟨by decide +kernel, by decide +kernel, by decide +kernel, ?_⟩
  refine (fleet_follows (sampleTool risingSealings) risingPlatform ⟨none, none⟩ (fun _ => sampleKey)
    (by rintro _ _ ⟨⟩; rfl) ?_).2.2.1 0 sampleDraw ⟨.ok, true⟩
  have hheld : (sampleFleet (sampleMoves.take 2)).target.version ≠ some (UInt64.ofNat (2 ^ 64 - 1)) := by
    rw [hone]
    decide
  exact ⟨⟨rfl, .inl rfl⟩, trivial, ⟨trivial, fun _ => hheld⟩, trivial, trivial⟩

end Kallisto.Ctl
