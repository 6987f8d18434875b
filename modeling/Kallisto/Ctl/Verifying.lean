import Kallisto.Ctl.Arguments
import Kallisto.Ctl.Publishing
import Kallisto.Ctl.TokenTable
import Kallisto.Resolver.Faithful
import Kallisto.Resolver.Sigv4

/-!
`verify` opens the file with the resolvers' key and says what it found. What it says is compared
with what a resolver does at its next poll, at any moment of the life of a fleet.
-/
namespace Kallisto.Ctl
open Lib Kallisto.Crypto Kallisto.Policy Kallisto.Resolver

structure Verdict where
  input : Text
  version : UInt64
  secrets : Nat
  policies : Nat
  tokens : Nat
  enforced : Bool
  deriving DecidableEq, Repr

namespace Verdict

def of (input : Text) (opened : Opened) (view : View) : Verdict where
  input
  version := opened.contentVersion
  secrets := view.secrets.entries.length
  policies := view.policies.entries.length
  tokens := view.tokens.entries.length
  enforced := view.tokenKey.isSome

def authorization (enforced : Bool) : Text :=
  if enforced then "enforced".toList else "none — every read is permitted".toList

/-- What is printed, line by line. -/
def lines (v : Verdict) : List Text :=
  [v.input ++ ": authentic".toList,
    "  version   ".toList ++ decimal v.version.toNat,
    "  secrets   ".toList ++ decimal v.secrets,
    "  policies  ".toList ++ decimal v.policies,
    "  tokens    ".toList ++ decimal v.tokens,
    "  authorization ".toList ++ authorization v.enforced]

theorem authorization_injective {b b' : Bool} (h : authorization b = authorization b') : b = b' := by
  revert b b'
  decide

/-- The lines say all there is in the verdict. -/
theorem lines_injective {v v' : Verdict} (h : v.lines = v'.lines) : v = v' := by
  obtain ⟨input, version, secrets, policies, tokens, enforced⟩ := v
  obtain ⟨input', version', secrets', policies', tokens', enforced'⟩ := v'
  simp only [lines, List.cons.injEq, and_true] at h
  obtain ⟨hinput, hversion, hsecrets, hpolicies, htokens, henforced⟩ := h
  obtain rfl := List.append_cancel_right hinput
  obtain rfl := UInt64.toNat_inj.mp (Sigv4.decimal_injective (List.append_cancel_left hversion))
  obtain rfl := Sigv4.decimal_injective (List.append_cancel_left hsecrets)
  obtain rfl := Sigv4.decimal_injective (List.append_cancel_left hpolicies)
  obtain rfl := Sigv4.decimal_injective (List.append_cancel_left htokens)
  obtain rfl := authorization_injective (List.append_cancel_left henforced)
  rfl

end Verdict

section Verify
variable {V : Type} (T : Toolbox V) (m : Machine) (args : Args) (t : Target)

def runVerify : Except Stop (List Text) := do
  args.rejectUnknown ["--in".toList]
  let input ← args.required "--in".toList
  let bytes ← orFail .cannotRead (t.read m)
  let key ← sealKey m
  let opened ← describing .notAuthentic (openSealed T.aead T.fromSlice bytes key none)
  let view ← describing .notReadable (opened.view T.fromSlice)
  return (Verdict.of input opened view).lines

variable {T m args t}

theorem rejectUnknown_error {known : List Text} {stop : Stop} (h : args.rejectUnknown known = .error stop) :
    ∃ flag, stop = .failed (.unrecognised flag) := by
  unfold Args.rejectUnknown at h
  split at h
  · rename_i flag _
    cases h
    exact ⟨flag, rfl⟩
  · cases h

theorem orFail_error {α : Type} {failure : Failure} {x : Option α} {stop : Stop} (h : orFail failure x = .error stop) :
    stop = .failed failure := by
  cases x with
  | none =>
      cases h
      rfl
  | some a => cases h

theorem sealKey_error {stop : Stop} (h : sealKey m = .error stop) :
    stop = .failed .keyUnset ∨ ∃ e, stop = .failed (.keyUnusable e) := by
  unfold sealKey at h
  split at h
  · cases h
    exact .inl rfl
  · split at h
    · cases h
    · rename_i e _
      cases h
      exact .inr ⟨e, rfl⟩

theorem Target.read_file {bytes : Bytes} (h : t.read m = some bytes) : t.file = some bytes := by
  unfold Target.read at h
  split_ifs at h
  exact h

variable (T m t)

/-- How `verify` ends: before it has the file and the key, or with what opening the file gave. -/
inductive Ending : Except Stop (List Text) → Prop where
  | early {failure : Failure} (other : ∀ e, failure ≠ .notAuthentic e ∧ failure ≠ .notReadable e) :
      Ending (fail failure)
  | refused {bytes : Bytes} {key : SealKey} {e : SealError} (file : t.file = some bytes) (keyed : sealKey m = .ok key)
      (opening : openSealed T.aead T.fromSlice bytes key none = .error e) : Ending (fail (.notAuthentic e))
  | accepted (input : Text) {bytes : Bytes} {key : SealKey} {opened : Opened} {view : View}
      (file : t.file = some bytes) (keyed : sealKey m = .ok key)
      (opening : openSealed T.aead T.fromSlice bytes key none = .ok opened)
      (reading : T.fromSlice opened.plaintext = some view) : Ending (.ok (Verdict.of input opened view).lines)

variable {T m t}

theorem runVerify_ending : Ending T m t (runVerify T m args t) := by
  unfold runVerify
  cases hknown : args.rejectUnknown ["--in".toList] with
  | error stop =>
      obtain ⟨flag, rfl⟩ := rejectUnknown_error hknown
      exact .early fun e => ⟨nofun, nofun⟩
  | ok u =>
      cases hin : args.required "--in".toList with
      | error stop =>
          obtain rfl := orFail_error hin
          exact .early fun e => ⟨nofun, nofun⟩
      | ok input =>
          cases hread : orFail .cannotRead (t.read m) with
          | error stop =>
              obtain rfl := orFail_error hread
              exact .early fun e => ⟨nofun, nofun⟩
          | ok bytes =>
              have hfile : t.file = some bytes := Target.read_file (orFail_ok hread)
              cases hkey : sealKey m with
              | error stop =>
                  rcases sealKey_error hkey with rfl | ⟨reason, rfl⟩
                  · exact .early fun e => ⟨nofun, nofun⟩
                  · exact .early fun e => ⟨nofun, nofun⟩
              | ok key =>
                  cases hopen : openSealed T.aead T.fromSlice bytes key none with
                  | error e =>
                      simp only [describing, hopen, bind, Except.bind]
                      exact .refused hfile hkey hopen
                  | ok opened =>
                      -- Opening has read the body once, so it can be read again.
                      obtain ⟨-, -, -, -, view, hview, -⟩ := openFile_ok (openSealed_eq.mp hopen)
                      simp only [describing, hopen, Opened.view, hview, bind, Except.bind]
                      exact .accepted input hfile hkey hopen hview

theorem runVerify_readable (e : SealError) : runVerify T m args t ≠ fail (.notReadable e) := by
  intro h
  have hending : Ending T m t (runVerify T m args t) := runVerify_ending
  rw [h] at hending
  cases hending with
  | early other => exact (other e).2 rfl

theorem runVerify_refuses {key : SealKey} (hkey : sealKey m = .ok key) {e : SealError}
    (h : runVerify T m args t = fail (.notAuthentic e)) :
    ∃ bytes, t.file = some bytes ∧ openSealed T.aead T.fromSlice bytes key none = .error e := by
  have hending : Ending T m t (runVerify T m args t) := runVerify_ending
  rw [h] at hending
  cases hending with
  | early other => exact absurd rfl (other e).1
  | refused file keyed opening =>
      cases hkey.symm.trans keyed
      exact ⟨_, file, opening⟩

theorem runVerify_accepts {key : SealKey} (hkey : sealKey m = .ok key) {verdict : Verdict}
    (h : runVerify T m args t = .ok verdict.lines) :
    ∃ input bytes opened view, t.file = some bytes ∧ openSealed T.aead T.fromSlice bytes key none = .ok opened ∧
      T.fromSlice opened.plaintext = some view ∧ verdict = .of input opened view := by
  have hending : Ending T m t (runVerify T m args t) := runVerify_ending
  generalize hlines : verdict.lines = lines at h
  rw [h] at hending
  cases hending with
  | accepted input file keyed opening reading =>
      cases hkey.symm.trans keyed
      exact ⟨input, _, _, _, file, opening, reading, Verdict.lines_injective hlines⟩

end Verify

/-- The resolver can make a table of the file's tokens, or the file has none and no key. -/
def Servable (view : View) : Prop :=
  match view.tokenKey with
  | some keyHex => Decodes keyHex view.tokens
  | none => view.tokens.entries = []

/-- The machine gives no key for the barrier, or the cipher does not seal one of the secrets. -/
def Hampered (P : Platform) (draw : Draw) (view : View) : Prop :=
  ∀ key ∈ draw.seed, ∃ i row, view.secrets.entries[i]? = some row ∧
    P.aead.sealInPlaceAppendTag key (counterNonce (UInt64.ofNat i)) [] (utf8 row.2) = none

section Build
variable {P : Platform} {draw : Draw} {view : View} {etag : Option Text}

theorem buildTokens_iff : (∃ tokens, buildTokens view = .ok tokens) ↔ Servable view := by
  unfold Servable buildTokens
  cases hkey : view.tokenKey with
  | none =>
      cases view.tokens.entries with
      | nil => simp
      | cons row rows => simp
  | some keyHex =>
      dsimp only
      have hdecodes : (∃ table, TokenTable.build keyHex view.tokens view.policies = .ok table) ↔
          Decodes keyHex view.tokens := tokenTable_build_iff
      rw [← hdecodes]
      cases TokenTable.build keyHex view.tokens view.policies <;> simp [Except.map]

theorem sealSecrets_error {logKey : Option Telemetry.LogKey} {rest : List (Text × Text)} {barrier : Barrier}
    {secrets : SortedMap Text Resolver.Entry} {paths : List Text} {e : SealError}
    (h : sealSecrets P logKey rest barrier secrets paths = .error e) :
    ∃ i row, rest[i]? = some row ∧ P.aead.sealInPlaceAppendTag barrier.key
      (counterNonce (barrier.nonce + UInt64.ofNat i)) [] (utf8 row.2) = none := by
  induction rest generalizing barrier secrets paths with
  | nil => cases h
  | cons row rest ih =>
      obtain ⟨path, value⟩ := row
      rw [sealSecrets] at h
      cases hseal : barrier.seal P.aead (utf8 value) with
      | error e' =>
          refine ⟨0, (path, value), rfl, ?_⟩
          unfold Barrier.seal at hseal
          dsimp only at hseal
          split at hseal
          · simpa using ‹_›
          · cases hseal
      | ok result =>
          obtain ⟨sealed, next⟩ := result
          simp only [hseal] at h
          obtain ⟨i, row, hrow, hnone⟩ := ih h
          obtain ⟨hkey, hnonce, -⟩ := seal_ok hseal
          refine ⟨i + 1, row, hrow, ?_⟩
          rw [hkey, hnonce, UInt64.add_assoc, UInt64.add_comm 1] at hnone
          rw [UInt64.ofNat_add]
          exact hnone

/-- What keeps a readable file from being served: its tokens, or the machine. -/
theorem build_outcome (P : Platform) (draw : Draw) (view : View) (etag : Option Text) :
    (∃ s, Snapshot.build P draw view etag = .ok s ∧ Servable view) ∨
      (∃ e, Snapshot.build P draw view etag = .error (.tokens e) ∧ ¬ Servable view) ∨
      ∃ e, Snapshot.build P draw view etag = .error (.barrier e) ∧ Servable view ∧ Hampered P draw view := by
  rw [← buildTokens_iff]
  unfold Snapshot.build
  cases htokens : buildTokens view with
  | error e => exact .inr (.inl ⟨e, rfl, nofun⟩)
  | ok tokens =>
      dsimp only
      cases hseed : draw.seed with
      | none => exact .inr (.inr ⟨_, rfl, ⟨tokens, rfl⟩, by simp [Hampered, hseed]⟩)
      | some key =>
          simp only [Barrier.new]
          split
          · rename_i e hsealed
            refine .inr (.inr ⟨e, rfl, ⟨tokens, rfl⟩, ?_⟩)
            intro key' hkey'
            cases hseed.symm.trans hkey'
            simpa using sealSecrets_error hsealed
          · exact .inl ⟨_, rfl, tokens, rfl⟩

/-- A resolver that serves nothing judges a file that opens by what is in it. -/
theorem examine_opened {key : SealKey} {bytes : Bytes} {opened : Opened}
    (hopen : openSealed P.aead P.fromSlice bytes key none = .ok opened)
    (hview : P.fromSlice opened.plaintext = some view) :
    examine P key draw bytes etag none =
      match Snapshot.build P draw view etag with
      | .error e => .rejected (.unservable e)
      | .ok snapshot => .servable opened.contentVersion snapshot := by
  cases hbuild : Snapshot.build P draw view etag with
  | error e => simp only [examine, openSealed_peek hopen, reduceCtorEq, if_false, hopen, Opened.view, hview, hbuild]
  | ok s => simp only [examine, openSealed_peek hopen, reduceCtorEq, if_false, hopen, Opened.view, hview, hbuild]

theorem examine_unopened {key : SealKey} {bytes : Bytes} {e : SealError}
    (hopen : openSealed P.aead P.fromSlice bytes key none = .error e) :
    examine P key draw bytes etag none = .rejected (.seal e) := by
  unfold examine
  cases hpeek : peek bytes with
  | error e' =>
      have hsame : openSealed P.aead P.fromSlice bytes key none = .error e' := openSealed_unpeeked hpeek
      rw [hopen] at hsame
      cases hsame
      rfl
  | ok offered => simp only [reduceCtorEq, if_false, hopen]

end Build

/-- The snapshot is what the lines say of the file. -/
structure Verdict.Tells (v : Verdict) (s : Snapshot) : Prop where
  version : s.version = v.version
  secrets : s.secretCount = v.secrets
  enforced : s.enforces = v.enforced
  tokens : ∀ table ∈ s.tokens, table.entries.length = v.tokens

theorem Verdict.tells {P : Platform} {input : Text} {opened : Opened} {view : View} {s : Snapshot}
    (image : Image P view s) (hversion : view.version = opened.contentVersion) :
    (Verdict.of input opened view).Tells s where
  version := image.version.trans hversion
  secrets := by
    have hlength := congrArg List.length (build_keys image)
    simp only [SortedMap.keys, List.length_map] at hlength
    exact hlength
  enforced := by
    have htokens := image.tokens
    cases hs : s.tokens with
    | none =>
        rw [hs] at htokens
        simp [Snapshot.enforces, hs, Verdict.of, (buildTokens_none htokens).1]
    | some table =>
        rw [hs] at htokens
        obtain ⟨keyHex, hkey, -⟩ := buildTokens_some htokens
        simp [Snapshot.enforces, hs, Verdict.of, hkey]
  tokens := by
    intro table htable
    have htokens := image.tokens
    rw [htable] at htokens
    obtain ⟨keyHex, -, hbuild⟩ := buildTokens_some htokens
    exact (build_ok hbuild).2.length_eq.symm

/-- The poll leaves the resolver serving what the lines say. -/
def Verdict.Served (v : Verdict) (polled : Refresher × Tick) : Prop :=
  (polled.2 = .unchanged ∨ ∃ cached, polled.2 = .loaded v.version cached v.enforced) ∧
    ∃ s ∈ polled.1.slot, v.Tells s

section Foretelling
variable {P : Platform} {n : Nat} {keys : Fin n → SealKey} {past : Set Bytes} {f : Fleet n} {t : Fin n} {bytes : Bytes}

/-- A resolver that serves the version in front of the file serves the file. -/
theorem Kept.serves (h : Kept P keys past f) (hfile : f.target.file = some bytes) {v : UInt64}
    (hv : (f.resolvers t).version = some v) (hpeek : peek bytes = .ok v) :
    ∃ s ∈ (f.resolvers t).slot, ∃ opened view draw etag,
      openSealed P.aead P.fromSlice bytes (keys t) none = .ok opened ∧ P.fromSlice opened.plaintext = some view ∧
        Snapshot.build P draw view etag = .ok s := by
  obtain ⟨s, hs, rfl⟩ := Option.map_eq_some_iff.mp hv
  obtain ⟨old, hold, hpeeked, opened, view, draw, etag, hopen, hview, hbuild⟩ := (h.2 t).served s hs
  have hbytes : bytes ∈ past := h.1.held bytes (hfile ▸ rfl) (by rw [stampOf, hpeek]; rfl)
  have hsame : old = bytes := by
    apply h.1.unique old hold bytes hbytes
    rw [stampOf, stampOf, hpeeked, hpeek]
  subst hsame
  exact ⟨s, hs, opened, view, draw, etag, hopen, hview, hbuild⟩

/-- What does not open is refused, and was not served before. -/
theorem poll_refuses (h : Kept P keys past f) (hfile : f.target.file = some bytes) {e : SealError}
    (hopen : openSealed P.aead P.fromSlice bytes (keys t) none = .error e) (draw : Draw) (io : Io) :
    (f.resolvers t).pollOnce P ⟨.body bytes none, draw, io⟩ = (f.resolvers t, .rejected (.seal e)) := by
  rcases (h.2 t).judges h.1 hfile draw with ⟨v, hv, hpeek, -⟩ | hfresh
  · obtain ⟨s, -, opened, view, -, -, hopened, -⟩ := h.serves hfile hv hpeek
    rw [hopen] at hopened
    cases hopened
  · rw [(h.2 t).keyed, examine_unopened hopen] at hfresh
    simp only [Refresher.pollOnce, Refresher.adopt, (h.2 t).keyed, hfresh]

variable {opened : Opened} {view : View}

theorem poll_accepts (h : Kept P keys past f) (hfile : f.target.file = some bytes)
    (hopen : openSealed P.aead P.fromSlice bytes (keys t) none = .ok opened)
    (hview : P.fromSlice opened.plaintext = some view) (input : Text) (draw : Draw) (io : Io) :
    let polled := (f.resolvers t).pollOnce P ⟨.body bytes none, draw, io⟩
    (Servable view → (Verdict.of input opened view).Served polled ∨ Hampered P draw view ∧
      ∃ e, polled = (f.resolvers t, .rejected (.unservable (.barrier e)))) ∧
    (¬ Servable view → ∃ e, polled = (f.resolvers t, .rejected (.unservable (.tokens e)))) := by
  intro polled
  have hversion : view.version = opened.contentVersion := by
    obtain ⟨-, -, -, -, view', hview', hversion⟩ := openFile_ok (openSealed_eq.mp hopen)
    cases hview.symm.trans hview'
    exact hversion
  rcases (h.2 t).judges h.1 hfile draw with ⟨v, hv, hpeek, hsame⟩ | hfresh
  · obtain ⟨s, hs, opened', view', draw', etag, hopened, hviewed, hbuild⟩ := h.serves hfile hv hpeek
    cases hopen.symm.trans hopened
    cases hview.symm.trans hviewed
    have htells : (Verdict.of input opened view).Tells s := Verdict.tells (build_image hbuild).1 hversion
    have hpolled : polled = ({ f.resolvers t with etag := none }, .unchanged) := by
      simp only [polled, Refresher.pollOnce, Refresher.adopt, hsame]
    have hservable : Servable view := buildTokens_iff.mp ⟨_, (build_image hbuild).1.tokens⟩
    refine ⟨fun _ => .inl ⟨.inl (by rw [hpolled]), s, by rw [hpolled]; exact hs, htells⟩, absurd hservable⟩
  · rw [(h.2 t).keyed, examine_opened hopen hview] at hfresh
    rcases build_outcome P draw view none with
      ⟨s, hbuild, hservable⟩ | ⟨e, hbuild, hnot⟩ | ⟨e, hbuild, hservable, hhampered⟩
    · rw [hbuild] at hfresh
      have htells : (Verdict.of input opened view).Tells s := Verdict.tells (build_image hbuild).1 hversion
      refine ⟨fun _ => .inl ⟨.inr ?_, s, ?_, htells⟩, absurd hservable⟩
      · simp only [polled, Refresher.pollOnce, Refresher.adopt, (h.2 t).keyed, hfresh]
        exact ⟨_, by rw [htells.enforced]; rfl⟩
      · simp only [polled, Refresher.pollOnce, Refresher.adopt, (h.2 t).keyed, hfresh]
        rfl
    · rw [hbuild] at hfresh
      refine ⟨fun hservable => absurd hservable hnot, fun _ => ⟨e, ?_⟩⟩
      simp only [polled, Refresher.pollOnce, Refresher.adopt, (h.2 t).keyed, hfresh]
    · rw [hbuild] at hfresh
      refine ⟨fun _ => .inr ⟨hhampered, e, ?_⟩, absurd hservable⟩
      simp only [polled, Refresher.pollOnce, Refresher.adopt, (h.2 t).keyed, hfresh]

end Foretelling

/-- Where nothing is enforced, the lines show whether the file can be served. -/
theorem servable_unenforced {input : Text} {opened : Opened} {view : View}
    (h : (Verdict.of input opened view).enforced = false) :
    Servable view ↔ (Verdict.of input opened view).tokens = 0 := by
  have hkey : view.tokenKey = none := by simpa [Verdict.of] using h
  rw [Servable, hkey]
  exact List.length_eq_zero_iff.symm

def Toolbox.platform {V : Type} (T : Toolbox V) (hmac : Hmac) : Platform := ⟨T.aead, hmac, T.fromSlice⟩

/-- Any number of resolvers around one file, their caches empty at first, at any moment of their
lives. What `verify` says of the file to the holder of a resolver's key is what that resolver's
next poll comes to: the reason for a refusal, or the version, the numbers and the enforcement of
what is then served. What it does not show is whether the token table of a file with a key can be
decoded. -/
theorem verify_foretells {V : Type} (T : Toolbox V) (hmac : Hmac) {n : Nat} (target : Target) (keys : Fin n → SealKey)
    {disks : Fin n → Option Disk} (fresh : ∀ t, ∀ disk ∈ disks t, disk.cache = none) {moves : List (Move n)}
    (proper : Guarded (Fleet.step T (T.platform hmac)) Fleet.Allows (.new target keys disks) moves)
    (m : Machine) (args : Args) (t : Fin n) (keyed : sealKey m = .ok (keys t)) (draw : Draw) (io : Io) :
    let f := (run (Fleet.step T (T.platform hmac)) (.new target keys disks) moves).1
    let polled := (f.resolvers t).pollOnce (T.platform hmac) ⟨f.target.fetch none, draw, io⟩
    (∀ e, runVerify T m args f.target ≠ fail (.notReadable e)) ∧
    (∀ e, runVerify T m args f.target = fail (.notAuthentic e) → polled = (f.resolvers t, .rejected (.seal e))) ∧
    ∀ verdict : Verdict, runVerify T m args f.target = .ok verdict.lines → ∃ bytes opened view,
      f.target.file = some bytes ∧ openSealed T.aead T.fromSlice bytes (keys t) none = .ok opened ∧
      T.fromSlice opened.plaintext = some view ∧ verdict = .of verdict.input opened view ∧
      (Servable view → verdict.Served polled ∨ Hampered (T.platform hmac) draw view ∧
        ∃ e, polled = (f.resolvers t, .rejected (.unservable (.barrier e)))) ∧
      (¬ Servable view → ∃ e, polled = (f.resolvers t, .rejected (.unservable (.tokens e)))) ∧
      (verdict.enforced = false → (Servable view ↔ verdict.tokens = 0)) := by
  intro f polled
  obtain ⟨⟨past, -, hkept⟩, -⟩ := kept_run (kept_new (P := T.platform hmac) target keys fresh) proper
  refine ⟨runVerify_readable, ?_, ?_⟩
  · intro e hrefused
    obtain ⟨bytes, hfile, hopen⟩ := runVerify_refuses keyed hrefused
    have hpolled := poll_refuses hkept hfile hopen draw io
    simpa only [polled, Target.fetch, diskFetch, hfile] using hpolled
  · intro verdict haccepted
    obtain ⟨input, bytes, opened, view, hfile, hopen, hview, rfl⟩ := runVerify_accepts keyed haccepted
    obtain ⟨hserved, hrefused⟩ := poll_accepts hkept hfile hopen hview input draw io
    refine ⟨bytes, opened, view, hfile, hopen, hview, rfl, ?_, ?_, servable_unenforced⟩
    · simpa only [polled, Target.fetch, diskFetch, hfile] using hserved
    · simpa only [polled, Target.fetch, diskFetch, hfile] using hrefused

def verifyArgs : Args := ⟨.ofList [("--in".toList, "secrets.kal".toList)], []⟩

/-- The file that `sampleMoves` leaves: the second version. -/
def risenFile : Target := ⟨risingSealings.getLast?.map fun s => s.aad ++ s.sealed, none⟩

def risenVerdict : Verdict := ⟨"secrets.kal".toList, 2, 0, 0, 0, false⟩

/-- One of the machines still serves the first version; what `verify` reads of the second is what
that machine serves after its next poll. -/
theorem verify_foretells_sample :
    runVerify (sampleTool risingSealings) (sampleMachine laterNonce) verifyArgs (sampleFleet sampleMoves).target =
      .ok risenVerdict.lines ∧
    ((sampleFleet sampleMoves).resolvers 0).version = some 1 ∧
    risenVerdict.Served (((sampleFleet sampleMoves).resolvers 0).pollOnce risingPlatform
      ⟨(sampleFleet sampleMoves).target.fetch none, sampleDraw, ⟨.ok, true⟩⟩) := by
  have htarget : (sampleFleet sampleMoves).target = risenFile := by decide +kernel
  have hverified : runVerify (sampleTool risingSealings) (sampleMachine laterNonce) verifyArgs
      (sampleFleet sampleMoves).target = .ok risenVerdict.lines := by
    rw [htarget]
    decide +kernel
  have hbehind : ((sampleFleet sampleMoves).resolvers 0).version = some 1 := by decide +kernel
  have hone : (sampleFleet (sampleMoves.take 2)).target.version = some 1 := by decide +kernel
  have hheld : (sampleFleet (sampleMoves.take 2)).target.version ≠ some (UInt64.ofNat (2 ^ 64 - 1)) := by
    rw [hone]
    decide
  have hkey : sealKey (sampleMachine laterNonce) = .ok sampleKey := by decide +kernel
  have hplatform : (sampleTool risingSealings).platform sampleHmac = risingPlatform := rfl
  have proper : Guarded (Fleet.step (sampleTool risingSealings) ((sampleTool risingSealings).platform sampleHmac))
      Fleet.Allows (.new ⟨none, none⟩ (fun _ => sampleKey) fun _ => some ⟨none, none⟩) sampleMoves := by
    rw [hplatform]
    exact ⟨⟨rfl, .inl rfl⟩, trivial, ⟨trivial, fun _ => hheld⟩, trivial, trivial⟩
  obtain ⟨-, -, hforetold⟩ := verify_foretells (sampleTool risingSealings) sampleHmac ⟨none, none⟩
    (fun _ => sampleKey) (by rintro _ _ ⟨⟩; rfl) proper (sampleMachine laterNonce) verifyArgs 0 hkey sampleDraw
    ⟨.ok, true⟩
  have hfleet : (run (Fleet.step (sampleTool risingSealings) risingPlatform)
      (.new ⟨none, none⟩ (fun _ => sampleKey) fun _ => some ⟨none, none⟩) sampleMoves).1 =
        sampleFleet sampleMoves := rfl
  rw [hplatform, hfleet] at hforetold
  obtain ⟨bytes, opened, view, -, -, -, hof, hserved, -, hshown⟩ := hforetold risenVerdict hverified
  have hempty : view.secrets.entries = [] := List.length_eq_zero_iff.mp (congrArg Verdict.secrets hof).symm
  refine ⟨hverified, hbehind, ?_⟩
  rcases hserved ((hshown rfl).mpr rfl) with hserved | ⟨hhampered, -⟩
  · exact hserved
  · obtain ⟨i, row, hrow, -⟩ := hhampered sampleKey rfl
    rw [hempty] at hrow
    cases hrow

end Kallisto.Ctl
