import Kallisto.Ctl.Commands
import Kallisto.Resolver.Refresh

/-!
The version of a sealed file over any history of commands on it. Both commands end in the same
atomic write, so a history is judged by what each of them would write.
-/
namespace Kallisto.Ctl
open Lib Kallisto.Crypto Kallisto.Resolver

section Bytes
variable {V : Type} {T : Toolbox V} {m : Machine} {args : Args} {t : Target} {bytes : Bytes}

theorem sealWith_peek {contents : Contents V} {key : SealKey} (h : sealWith T m contents key = .ok bytes) :
    peek bytes = .ok contents.version := by
  unfold sealWith describing sealContents at h
  cases hv : T.toVec contents with
  | none => simp [hv, fail] at h
  | some body =>
      cases hn : m.nonce with
      | none => simp [hv, hn, fail] at h
      | some nonce =>
          cases hs : T.aead.sealInPlaceAppendTag key nonce (Header.write contents.version nonce) body with
          | none => simp [hv, hn, hs, fail] at h
          | some ciphertext =>
              simp only [hv, hn, hs, Except.ok.injEq] at h
              rw [← h]
              exact peek_of_parse (Header.parse_write ..)

theorem orFail_ok {α : Type} {failure : Failure} {x : Option α} {a : α} (h : orFail failure x = .ok a) :
    x = some a := by
  cases x with
  | none => cases h
  | some b => exact congrArg some (Except.ok.inj h)

theorem describing_ok {α : Type} {failure : SealError → Failure} {x : Except SealError α} {a : α}
    (h : describing failure x = .ok a) : x = .ok a := by
  cases x with
  | error e => cases h
  | ok b => exact congrArg Except.ok (Except.ok.inj h)

/-- A command that succeeds has put its bytes in place of the file. -/
theorem writing_ok {outcome : Except Stop Bytes} {t' : Target} (h : writing m t outcome = (t', .ok ())) :
    ∃ bytes, outcome = .ok bytes ∧ t'.file = some bytes := by
  cases outcome with
  | error stop => cases h
  | ok bytes =>
      unfold writing writeAtomically at h
      cases hf : m.fault with
      | some fault =>
          rw [hf] at h
          cases h
      | none =>
          rw [hf] at h
          cases h
          exact ⟨bytes, rfl, rfl⟩

/-- What `seal` writes: the plaintext under the version that was asked for, once the guard and
the token check have let it through. -/
theorem sealedBytes_ok (h : sealedBytes T m args t = .ok bytes) :
    ∃ key text plain asked warnings, sealKey m = .ok key ∧ m.input = some text ∧ T.fromStr text = some plain ∧
      refuseRollback m args t (Option.getD asked plain.version) = .ok () ∧
      validateTokenTable { plain with version := asked.getD plain.version } = .ok warnings ∧
      sealWith T m { plain with version := asked.getD plain.version } key = .ok bytes := by
  unfold sealedBytes at h
  obtain ⟨-, -, h⟩ := bind_ok h
  obtain ⟨-, -, h⟩ := bind_ok h
  obtain ⟨-, -, h⟩ := bind_ok h
  obtain ⟨key, hkey, h⟩ := bind_ok h
  obtain ⟨text, htext, h⟩ := bind_ok h
  obtain ⟨plain, hplain, h⟩ := bind_ok h
  obtain ⟨asked, -, h⟩ := bind_ok h
  obtain ⟨⟨⟩, hguard, h⟩ := bind_ok h
  obtain ⟨warnings, hvalid, h⟩ := bind_ok h
  exact ⟨key, text, plain, asked, warnings, hkey, orFail_ok htext, orFail_ok hplain, hguard, hvalid, h⟩

theorem newerHeld_none {version held : UInt64} (h : newerHeld m t version = none) (hr : m.readable = true)
    (hheld : t.file.bind (fun b => (peek b).toOption) = some held) : held < version := by
  obtain ⟨existing, hfile, hpeek⟩ := Option.bind_eq_some_iff.mp hheld
  have hread : t.read m = some existing := by rw [Target.read, if_pos hr, hfile]
  simp only [newerHeld, hread, hpeek, Option.bind_eq_bind, Option.bind_some] at h
  split_ifs at h with hle
  exact UInt64.not_le.mp hle

theorem bumpedBytes_ok (h : bumpedBytes T m args t = .ok bytes) :
    ∃ old key opened asked next view, t.file = some old ∧ sealKey m = .ok key ∧
      openSealed T.aead T.fromSlice old key none = .ok opened ∧ args.number "--to".toList = .ok asked ∧
      nextVersion opened.contentVersion asked = .ok next ∧ opened.view T.fromSlice = .ok view ∧
      sealWith T m { owned T view with version := next } key = .ok bytes := by
  unfold bumpedBytes at h
  obtain ⟨-, -, h⟩ := bind_ok h
  obtain ⟨-, -, h⟩ := bind_ok h
  obtain ⟨old, hold, h⟩ := bind_ok h
  obtain ⟨key, hkey, h⟩ := bind_ok h
  obtain ⟨opened, hopen, h⟩ := bind_ok h
  obtain ⟨asked, hasked, h⟩ := bind_ok h
  obtain ⟨next, hnext, h⟩ := bind_ok h
  obtain ⟨view, hview, h⟩ := bind_ok h
  have hfile : t.file = some old := by
    have hread := orFail_ok hold
    unfold Target.read at hread
    split_ifs at hread
    exact hread
  exact ⟨old, key, opened, asked, next, view, hfile, hkey, describing_ok hopen, hasked, hnext, describing_ok hview, h⟩

end Bytes

inductive Command where
  | sealFile (args : Args)
  | bumpVersion (args : Args)

/-- A command on the target, and what it meets. -/
structure Invocation where
  command : Command
  machine : Machine

def step {V : Type} (T : Toolbox V) (t : Target) (i : Invocation) : Target × Except Stop Unit :=
  match i.command with
  | .sealFile args => runSeal T i.machine args t
  | .bumpVersion args => runBumpVersion T i.machine args t

/-- `peek_version` of what the file holds. -/
def Target.version (t : Target) : Option UInt64 := t.file.bind fun bytes => (peek bytes).toOption

def Invocation.Unforced (i : Invocation) : Prop :=
  match i.command with
  | .sealFile args => args.has "--force".toList = false
  | .bumpVersion _ => True

/-- The step does not meet the two holes: a file that is there and cannot be read, which `seal`
takes for one that is not there, and a version that has no successor. -/
def Invocation.Clear (i : Invocation) (t : Target) : Prop :=
  match i.command with
  | .sealFile _ => t.file = none ∨ i.machine.readable = true
  | .bumpVersion args => args.value "--to".toList = none → t.version ≠ some (UInt64.ofNat (2 ^ 64 - 1))

/-- A failure leaves the file; a success replaces a version by a greater one. -/
def Forward (t : Target) (result : Target × Except Stop Unit) : Prop :=
  (∀ stop, result.2 = .error stop → result.1.file = t.file) ∧
    (result.2 = .ok () → ∀ v, t.version = some v → ∃ w, result.1.version = some w ∧ v < w)

section Steps
variable {V : Type} {T : Toolbox V} {m : Machine} {args : Args} {t : Target}

theorem writing_forward {outcome : Except Stop Bytes}
    (h : ∀ bytes, outcome = .ok bytes → ∃ w, peek bytes = .ok w ∧ ∀ v, t.version = some v → v < w) :
    Forward t (writing m t outcome) := by
  cases outcome with
  | error stop => exact ⟨fun _ _ => rfl, nofun⟩
  | ok bytes =>
      obtain ⟨w, hpeek, hlt⟩ := h bytes rfl
      unfold writing writeAtomically
      cases m.fault with
      | some fault => exact ⟨fun _ _ => rfl, nofun⟩
      | none =>
          refine ⟨nofun, fun _ v hv => ⟨w, ?_, hlt v hv⟩⟩
          simp only [Target.version, Option.bind_some, hpeek]
          rfl

theorem runSeal_forward (unforced : args.has "--force".toList = false)
    (clear : t.file = none ∨ m.readable = true) : Forward t (runSeal T m args t) := by
  apply writing_forward
  intro bytes hbytes
  obtain ⟨key, text, plain, asked, warnings, -, -, -, hguard, -, hseal⟩ := sealedBytes_ok hbytes
  refine ⟨asked.getD plain.version, sealWith_peek hseal, ?_⟩
  intro v hv
  have hnone : newerHeld m t (asked.getD plain.version) = none := by
    unfold refuseRollback at hguard
    cases hn : newerHeld m t (asked.getD plain.version) with
    | none => rfl
    | some held =>
        simp only [hn, unforced, Bool.false_eq_true, if_false] at hguard
        cases hguard
  rcases clear with hfile | hreadable
  · simp [Target.version, hfile] at hv
  · exact newerHeld_none hnone hreadable hv

theorem lt_add_one {held : UInt64} (h : held ≠ UInt64.ofNat (2 ^ 64 - 1)) : held < held + 1 := by
  have hne : held.toNat ≠ 2 ^ 64 - 1 := by
    intro heq
    apply h
    rw [← heq, UInt64.ofNat_toNat]
  have hlt := held.toNat_lt
  rw [UInt64.lt_iff_toNat_lt, UInt64.toNat_add, UInt64.toNat_one]
  omega

theorem lt_nextVersion {held next : UInt64} {asked : Option UInt64} (h : nextVersion held asked = .ok next)
    (hmax : asked = none → held ≠ UInt64.ofNat (2 ^ 64 - 1)) : held < next := by
  cases asked with
  | some asked =>
      simp only [nextVersion] at h
      split_ifs at h with hle
      · cases h
      · cases h
        exact UInt64.not_le.mp hle
  | none =>
      cases h
      exact lt_add_one (hmax rfl)

theorem number_none {flag : Text} (h : args.number flag = .ok none) : args.value flag = none := by
  unfold Args.number at h
  cases hv : args.value flag with
  | none => rfl
  | some raw =>
      rw [hv] at h
      cases hp : Server.parseU64 raw <;> simp [hp, orFail, fail, Except.map] at h

theorem runBumpVersion_forward
    (clear : args.value "--to".toList = none → t.version ≠ some (UInt64.ofNat (2 ^ 64 - 1))) :
    Forward t (runBumpVersion T m args t) := by
  apply writing_forward
  intro bytes hbytes
  obtain ⟨old, key, opened, asked, next, view, hfile, -, hopen, hasked, hnext, -, hseal⟩ := bumpedBytes_ok hbytes
  refine ⟨next, sealWith_peek hseal, ?_⟩
  intro v hv
  have hpeek : peek old = .ok v := by
    rw [Target.version, hfile, Option.bind_some] at hv
    cases hp : peek old with
    | error e =>
        rw [hp] at hv
        cases hv
    | ok w =>
        rw [hp] at hv
        exact congrArg Except.ok (Option.some.inj hv)
  have hversion : opened.contentVersion = v := openSealed_version hpeek hopen
  rw [hversion] at hnext
  refine lt_nextVersion hnext ?_
  rintro rfl heq
  exact clear (number_none hasked) (heq ▸ hv)

theorem step_forward {i : Invocation} (unforced : i.Unforced) (clear : i.Clear t) : Forward t (step T t i) := by
  obtain ⟨command, machine⟩ := i
  cases command with
  | sealFile args => exact runSeal_forward unforced clear
  | bumpVersion args => exact runBumpVersion_forward clear

theorem forward_atLeast {result : Target × Except Stop Unit} (h : Forward t result) :
    AtLeast t.version result.1.version := by
  obtain ⟨after, outcome⟩ := result
  cases outcome with
  | error stop =>
      have hfile : after.file = t.file := h.1 stop rfl
      rw [Target.version, Target.version, hfile]
      exact AtLeast.refl _
  | ok u =>
      intro v hv
      obtain ⟨w, hw, hlt⟩ := h.2 rfl v hv
      exact ⟨w, hw, UInt64.le_of_lt hlt⟩

end Steps

/-- In every history whose steps stay clear of the two holes, each command that succeeds raises
the version, each that fails changes nothing, and the version never falls. -/
theorem versions_rise {V : Type} (T : Toolbox V) (t : Target) (history : List Invocation)
    (unforced : ∀ i ∈ history, i.Unforced)
    (clear : ∀ before i after, history = before ++ i :: after → i.Clear (run (step T) t before).1) :
    (∀ before i after, history = before ++ i :: after →
      Forward (run (step T) t before).1 (step T (run (step T) t before).1 i)) ∧
    AtLeast t.version (run (step T) t history).1.version := by
  have hforward : ∀ before i after, history = before ++ i :: after →
      Forward (run (step T) t before).1 (step T (run (step T) t before).1 i) := by
    intro before i after heq
    refine step_forward (unforced i ?_) (clear before i after heq)
    rw [heq]
    exact List.mem_append_right before List.mem_cons_self
  refine ⟨hforward, ?_⟩
  have hprefix : ∀ before after, history = before ++ after →
      AtLeast t.version (run (step T) t before).1.version := by
    intro before
    induction before using List.reverseRecOn with
    | nil => exact fun _ _ => AtLeast.refl _
    | append_singleton before i ih =>
        intro after heq
        rw [List.append_assoc, List.singleton_append] at heq
        have hsnoc : (run (step T) t (before ++ [i])).1 = (step T (run (step T) t before).1 i).1 := by
          rw [run_snoc]
        rw [hsnoc]
        exact (ih (i :: after) heq).trans (forward_atLeast (hforward before i after heq))
  exact hprefix history [] (List.append_nil history).symm

def emptyBody (version : UInt64) : Bytes :=
  utf8 (Json.obj ((⟨version, .empty, .empty, .empty, none⟩ : Contents (Json (Number Unit))).members
    (Number.print oneDouble))).text

def emptySealing (version : UInt64) (nonce : Nonce) (ciphertext : Bytes) : Sealing :=
  ⟨sampleKey, nonce, Header.write version nonce, emptyBody version, ciphertext⟩

def laterNonce : Nonce := ⟨List.replicate 12 8, rfl⟩

/-- AES-256-GCM of empty files of the versions 1 and 2. -/
def risingSealings : List Sealing :=
  [emptySealing 1 sampleNonce sampleCiphertext,
    emptySealing 2 laterNonce
      [81, 97, 174, 179, 159, 247, 95, 153, 190, 117, 97, 170, 172, 191, 3, 93, 128, 103, 102, 219, 230, 224, 67,
        20, 56, 58, 43, 81, 146, 198, 34, 156, 45, 224, 78, 213, 84, 170, 83, 27, 181, 168, 131, 182, 154, 107,
        196, 15, 203, 69, 216, 191, 56, 234, 242, 55, 212, 92, 55, 152, 121, 155, 15, 49, 106, 53, 46, 201]]

def sampleMachine (nonce : Nonce) : Machine :=
  ⟨some (encode sampleKey.val), some "\x7b\"version\": 1\x7d".toList, true, some nonce, none, true⟩

def sealCommand (nonce : Nonce) : Invocation :=
  ⟨.sealFile ⟨.ofList [("--in".toList, "plain.json".toList), ("--out".toList, "secrets.kal".toList)], []⟩,
    sampleMachine nonce⟩

def bumpCommand (nonce : Nonce) : Invocation :=
  ⟨.bumpVersion ⟨.ofList [("--in".toList, "secrets.kal".toList)], []⟩, sampleMachine nonce⟩

def sampleTool (table : List Sealing) : Toolbox (Json (Number Unit)) :=
  offline (Aead.recorded table) oneDouble (compactValues oneDouble)

def sampleHistory : List Invocation := [sealCommand sampleNonce, bumpCommand laterNonce]

theorem versions_rise_sample :
    (run (step (sampleTool risingSealings)) ⟨none, none⟩ sampleHistory).1.version = some 2 ∧
    Forward (run (step (sampleTool risingSealings)) ⟨none, none⟩ [sealCommand sampleNonce]).1
      (step (sampleTool risingSealings)
        (run (step (sampleTool risingSealings)) ⟨none, none⟩ [sealCommand sampleNonce]).1 (bumpCommand laterNonce)) := by
  have hone : (run (step (sampleTool risingSealings)) ⟨none, none⟩ [sealCommand sampleNonce]).1.version = some 1 := by
    decide +kernel
  refine ⟨by decide +kernel, ?_⟩
  refine (versions_rise (sampleTool risingSealings) ⟨none, none⟩ sampleHistory ?_ ?_).1 [sealCommand sampleNonce]
    (bumpCommand laterNonce) [] rfl
  · intro i hi
    rcases List.mem_cons.mp hi with rfl | hi
    · rfl
    · rw [List.mem_singleton.mp hi]
      trivial
  · intro before i after heq
    match before, heq with
    | [], heq =>
        obtain ⟨rfl, -⟩ := List.cons.inj heq
        exact .inl rfl
    | [first], heq =>
        obtain ⟨rfl, hrest⟩ := List.cons.inj heq
        obtain ⟨rfl, -⟩ := List.cons.inj hrest
        intro _
        rw [hone]
        decide
    | _ :: _ :: rest, heq => exact absurd (congrArg List.length heq) (by simp [sampleHistory])

/-- AES-256-GCM of empty files of the last version there is, and of version 0. -/
def lastSealings : List Sealing :=
  [emptySealing (UInt64.ofNat (2 ^ 64 - 1)) sampleNonce
      [116, 72, 208, 57, 29, 124, 190, 155, 168, 191, 41, 177, 184, 101, 192, 173, 150, 104, 185, 67, 191, 196,
        182, 41, 199, 142, 107, 203, 50, 239, 7, 55, 5, 55, 148, 29, 243, 37, 128, 225, 32, 196, 218, 128, 238, 53,
        169, 73, 215, 33, 208, 32, 176, 210, 35, 49, 230, 149, 205, 192, 25, 215, 232, 149, 43, 214, 210, 8, 242,
        181, 87, 167, 219, 196, 206, 180, 228, 222, 94, 184, 151, 167, 228, 169, 187, 43, 136],
    emptySealing 0 laterNonce
      [81, 97, 174, 179, 159, 247, 95, 153, 190, 117, 97, 168, 172, 191, 3, 93, 128, 103, 102, 219, 230, 224, 67,
        20, 56, 58, 43, 81, 146, 198, 34, 156, 45, 224, 78, 213, 84, 170, 83, 27, 181, 168, 131, 182, 154, 107,
        196, 15, 203, 69, 216, 191, 145, 2, 170, 54, 50, 12, 181, 241, 240, 186, 208, 74, 86, 246, 98, 72]]

def lastFile : Target := ⟨lastSealings.head?.map fun s => s.aad ++ s.sealed, none⟩

/-- Bumping the last version succeeds, and the file is at version 0. -/
theorem last_version_wraps : lastFile.version = some (UInt64.ofNat (2 ^ 64 - 1)) ∧
    (step (sampleTool lastSealings) lastFile (bumpCommand laterNonce)).2 = .ok () ∧
    (step (sampleTool lastSealings) lastFile (bumpCommand laterNonce)).1.version = some 0 ∧
    ¬ Forward lastFile (step (sampleTool lastSealings) lastFile (bumpCommand laterNonce)) := by
  have hheld : lastFile.version = some (UInt64.ofNat (2 ^ 64 - 1)) := by decide +kernel
  have hok : (step (sampleTool lastSealings) lastFile (bumpCommand laterNonce)).2 = .ok () := by decide +kernel
  have hzero : (step (sampleTool lastSealings) lastFile (bumpCommand laterNonce)).1.version = some 0 := by
    decide +kernel
  refine ⟨hheld, hok, hzero, ?_⟩
  intro forward
  obtain ⟨w, hw, hlt⟩ := forward.2 hok _ hheld
  rw [hzero] at hw
  cases hw
  exact absurd hlt (by decide)

end Kallisto.Ctl
