import Kallisto.Ctl.Arguments
import Kallisto.Ctl.Bump
import Kallisto.Lib.JsonPretty
import Kallisto.Telemetry.LineFormat

/-!
`open` prints a file in the clear, in the form that `seal` reads. Printing a file and sealing
what was printed is therefore a second way to raise its version, and is compared with the first.
-/
namespace Kallisto.Ctl
open Lib Kallisto.Crypto Kallisto.Resolver

def CONFIRM : Text := "--yes-print-secrets-to-stdout".toList

inductive OpenStop where
  | stopped (stop : Stop)
  | unconfirmed
  | unrendered
  deriving DecidableEq, Repr

/-- `serde_json::to_string_pretty` of the contents. -/
def prettyContents {F : Type} (D : Doubles F) (c : Contents (Json (Number F))) : Option Text :=
  some ((Json.obj (c.members (Number.print D))).pretty 0)

/-- What `open` prints, with the end of the line. -/
def runOpen {V : Type} (T : Toolbox V) (render : Contents V → Option Text) (m : Machine) (args : Args) (t : Target) :
    Except OpenStop Text := do
  (args.rejectUnknown ["--in".toList, CONFIRM]).mapError .stopped
  let _ ← (args.required "--in".toList).mapError .stopped
  if args.has CONFIRM = false then .error .unconfirmed
  let bytes ← (orFail .cannotRead (t.read m)).mapError .stopped
  let key ← (sealKey m).mapError .stopped
  let opened ← (describing .notAuthentic (openSealed T.aead T.fromSlice bytes key none)).mapError .stopped
  let view ← (describing .notReadable (opened.view T.fromSlice)).mapError .stopped
  match render (owned T view) with
  | none => .error .unrendered
  | some rendered => return rendered ++ ['\n']

/-- What a command gets of the options on its line. -/
def argsOf (given : List Given) : Args := (given.foldl Given.add .empty).args

def openArgs (file : Text) : Args := argsOf [.value "--in".toList file false, .bare CONFIRM]

def raiseArgs (file : Text) (version : UInt64) : Args :=
  argsOf [.value "--in".toList file false, .value "--to".toList (decimal version.toNat) false]

def resealArgs (plain file : Text) (version : UInt64) : Args :=
  argsOf [.value "--in".toList plain false, .value "--out".toList file false,
    .value "--version".toList (decimal version.toNat) false]

section Rereading
variable {F : Type} {D : Doubles F}

section Printed
variable {v : Json (Number F)} {outer : Nat}

/-- A value that was collected is read as itself below so many containers exactly where it is not
too deep and each of its doubles is read as itself. -/
theorem readJson_print (documented : D.Documented) (hcanon : v.canon = v) :
    readJson D outer (v.map (Number.print D)) = some v ↔
      outer + v.depth < RECURSION_LIMIT ∧ v.All fun n => ∀ f, n = .float f → D.read (D.print f) = some f := by
  have hprinted : (v.map (Number.print D)).canon = v.map (Number.print D) := by
    rw [← hcanon]
    exact Json.canon_map_canon _ v
  have hread : ((v.map (Number.print D)).traverse (readNumber D)).map Json.canon = some v ↔
      (v.map (Number.print D)).traverse (readNumber D) = some v := by
    constructor
    · intro h
      obtain ⟨u, hu, rfl⟩ := Option.map_eq_some_iff.mp h
      rw [hu, Json.canon_of_traverse hprinted hu]
    · intro h
      rw [h, Option.map_some, hcanon]
  rw [readJson, Json.depth_map]
  split_ifs with hdepth
  · rw [hread, Json.traverse_map]
    simp only [readNumber_print documented, hdepth, true_and]
  · simp [hdepth]

theorem readJson_print_isSome (documented : D.Documented) : (readJson D outer (v.map (Number.print D))).isSome ↔
    outer + v.depth < RECURSION_LIMIT ∧ v.All fun n => ∀ f, n = .float f → (D.read (D.print f)).isSome := by
  rw [readJson_isSome, Json.depth_map, Json.all_map]
  simp only [← readNumber_isSome, readNumber_print_isSome documented]

end Printed

theorem owned_canon (raw : Text) :
    ((valueFromStr D raw).getD .null).canon = (valueFromStr D raw).getD .null := by
  cases hread : valueFromStr D raw with
  | none => rfl
  | some v =>
      obtain ⟨w, -, hw⟩ := Option.bind_eq_some_iff.mp hread
      unfold readJson at hw
      split_ifs at hw
      obtain ⟨u, -, rfl⟩ := Option.map_eq_some_iff.mp hw
      exact Json.canon_canon u

/-- No secret is nested so deep that it could not be read two levels further down. -/
def Shallow (c : Contents (Json (Number F))) : Prop :=
  ∀ e ∈ c.secrets.entries, 2 + e.2.depth < RECURSION_LIMIT

instance (c : Contents (Json (Number F))) : Decidable (Shallow c) :=
  List.decidableBAll (fun e : Text × Json (Number F) => 2 + e.2.depth < RECURSION_LIMIT) c.secrets.entries

def EveryDouble (p : F → Prop) (c : Contents (Json (Number F))) : Prop :=
  ∀ e ∈ c.secrets.entries, e.2.All fun n => ∀ f, n = .float f → p f

/-- Every secret was collected into maps, as reading does. -/
def Collected (c : Contents (Json (Number F))) : Prop :=
  ∀ e ∈ c.secrets.entries, e.2.canon = e.2

/-- The contents with every secret printed and read once more, where they can be read. -/
def reread (D : Doubles F) (c : Contents (Json (Number F))) : Option (Contents (Json (Number F))) :=
  (c.secrets.traverse fun v => readJson D 2 (v.map (Number.print D))).map fun secrets => { c with secrets }

variable {c : Contents (Json (Number F))}

theorem reread_eq_self (documented : D.Documented) (collected : Collected c) :
    reread D c = some c ↔ Shallow c ∧ EveryDouble (fun f => D.read (D.print f) = some f) c := by
  have hsame : reread D c = some c ↔
      (c.secrets.traverse fun v => readJson D 2 (v.map (Number.print D))) = some c.secrets := by
    unfold reread
    constructor
    · intro h
      obtain ⟨secrets, hsecrets, heq⟩ := Option.map_eq_some_iff.mp h
      rw [hsecrets, ← heq]
    · intro h
      rw [h, Option.map_some]
  rw [hsame, SortedMap.traverse_eq_self, Shallow, EveryDouble, ← forall₂_and]
  exact forall₂_congr fun e he => readJson_print documented (collected e he)

theorem reread_isSome (documented : D.Documented) :
    (reread D c).isSome ↔ Shallow c ∧ EveryDouble (fun f => (D.read (D.print f)).isSome) c := by
  rw [reread, Option.isSome_map, SortedMap.traverse_isSome, Shallow, EveryDouble, ← forall₂_and]
  exact forall₂_congr fun e _ => readJson_print_isSome documented

theorem readMap_printed :
    readMap some (readJson D 2) (.obj (c.secrets.entries.map fun e => (e.1, e.2.map (Number.print D)))) =
      c.secrets.traverse fun v => readJson D 2 (v.map (Number.print D)) := by
  rw [readMap, List.mapM_map, SortedMap.traverse]
  congr 2
  funext e
  cases hread : readJson D 2 (e.2.map (Number.print D)) <;> simp [readEntry, hread]

/-- What `open` prints of the file. -/
def printed (D : Doubles F) (c : Contents (Json (Number F))) : Text :=
  (Json.obj (c.members (Number.print D))).pretty 0 ++ ['\n']

theorem parse_printed (documented : D.Documented) (c : Contents (Json (Number F))) :
    Json.parse (printed D c) = some (.obj (c.members (Number.print D))) :=
  Json.parse_pretty (members_wellFormed (print_isNumeral documented)) (List.all_eq_true.mp (by decide))

/-- Of what was printed everything is read as it was, but the secrets are read anew. -/
theorem contentsFromStr_printed (documented : D.Documented) : contentsFromStr D (printed D c) = reread D c := by
  rw [contentsFromStr, parse_printed documented, Option.bind_some, reread, ← readMap_printed]
  have hpolicies := readMap_policies (c := c)
  have htokens := readMap_tokens (c := c)
  obtain ⟨version, secrets, policies, tokens, tokenKey⟩ := c
  cases hsecrets : readMap some (readJson D 2)
      (.obj (secrets.entries.map fun e => (e.1, e.2.map (Number.print D)))) with
  | none =>
      simp [Contents.read, readFields, Contents.members, ContentsFields.visit, once, readU64_decimal, hsecrets]
  | some again =>
      cases tokenKey with
      | none =>
          simp [Contents.read, readFields, Contents.members, ContentsFields.visit, once, readU64_decimal, hsecrets,
            hpolicies, htokens, ContentsFields.contents]
      | some key =>
          simp [Contents.read, readFields, Contents.members, ContentsFields.visit, once, readU64_decimal, hsecrets,
            hpolicies, htokens, ContentsFields.contents, readOptional]

end Rereading

section Lines
variable (plain file : Text) (version : UInt64)

theorem argsOf_means (given : List Given) : Means given (argsOf given) := means_gathered

theorem number_of_decimal {args : Args} {flag : Text} (h : args.value flag = some (decimal version.toNat)) :
    args.number flag = .ok (some version) := by
  have hread : Server.parseU64 (decimal version.toNat) = some version := by
    rw [Telemetry.parseU64_decimal version.toNat_lt, UInt64.ofNat_toNat]
  rw [Args.number, h]
  simp only [hread]
  rfl

theorem openArgs_read : (openArgs file).rejectUnknown ["--in".toList, CONFIRM] = .ok () ∧
    (openArgs file).required "--in".toList = .ok file ∧ (openArgs file).has CONFIRM = true := by
  have hmeans := argsOf_means [.value "--in".toList file false, .bare CONFIRM]
  have hin : (openArgs file).value "--in".toList = some file := by
    refine (hmeans.value _ (by decide)).trans ?_
    rw [valuesFor_self]
    rfl
  refine ⟨?_, ?_, ?_⟩
  · apply (hmeans.known _).mpr
    simp [Given.flag]
  · rw [Args.required, hin]
    rfl
  · apply (hmeans.has _).mpr
    simp

theorem raiseArgs_read : (raiseArgs file version).rejectUnknown ["--in".toList, "--to".toList] = .ok () ∧
    (raiseArgs file version).required "--in".toList = .ok file ∧
    (raiseArgs file version).number "--to".toList = .ok (some version) := by
  have hmeans := argsOf_means
    [.value "--in".toList file false, .value "--to".toList (decimal version.toNat) false]
  have hin : (raiseArgs file version).value "--in".toList = some file := by
    refine (hmeans.value _ (by decide)).trans ?_
    rw [valuesFor_self, valuesFor_other (by decide)]
    rfl
  have hto : (raiseArgs file version).value "--to".toList = some (decimal version.toNat) := by
    refine (hmeans.value _ (by decide)).trans ?_
    rw [valuesFor_other (by decide), valuesFor_self]
    rfl
  refine ⟨?_, ?_, number_of_decimal version hto⟩
  · apply (hmeans.known _).mpr
    simp [Given.flag]
  · rw [Args.required, hin]
    rfl

theorem resealArgs_read :
    (resealArgs plain file version).rejectUnknown
      ["--in".toList, "--out".toList, "--version".toList, "--force".toList] = .ok () ∧
    (resealArgs plain file version).required "--in".toList = .ok plain ∧
    (resealArgs plain file version).required "--out".toList = .ok file ∧
    (resealArgs plain file version).number "--version".toList = .ok (some version) := by
  have hmeans := argsOf_means [.value "--in".toList plain false, .value "--out".toList file false,
    .value "--version".toList (decimal version.toNat) false]
  have hin : (resealArgs plain file version).value "--in".toList = some plain := by
    refine (hmeans.value _ (by decide)).trans ?_
    rw [valuesFor_self, valuesFor_other (by decide), valuesFor_other (by decide)]
    rfl
  have hout : (resealArgs plain file version).value "--out".toList = some file := by
    refine (hmeans.value _ (by decide)).trans ?_
    rw [valuesFor_other (by decide), valuesFor_self, valuesFor_other (by decide)]
    rfl
  have hversion : (resealArgs plain file version).value "--version".toList = some (decimal version.toNat) := by
    refine (hmeans.value _ (by decide)).trans ?_
    rw [valuesFor_other (by decide), valuesFor_other (by decide), valuesFor_self]
    rfl
  refine ⟨?_, ?_, ?_, number_of_decimal version hversion⟩
  · apply (hmeans.known _).mpr
    simp [Given.flag]
  · rw [Args.required, hin]
    rfl
  · rw [Args.required, hout]
    rfl

end Lines

section Raising
variable {F : Type} {A : Aead} {D : Doubles F} {S : SerdeJson (Number F)} {m : Machine} {t : Target} {key : SealKey}
  {bytes : Bytes} {opened : Opened} {view : View} {version : UInt64}

theorem owned_collected : Collected (owned (offline A D S) view) := by
  intro e he
  obtain ⟨row, -, rfl⟩ := List.mem_map.mp he
  exact owned_canon row.2

/-- The file opens under the key, as every command but `seal` begins. -/
theorem opened_and_viewed (hopen : openSealed A S.fromSlice bytes key none = .ok opened)
    (hview : opened.view S.fromSlice = .ok view) :
    describing .notAuthentic (openSealed (offline A D S).aead (offline A D S).fromSlice bytes key none) = .ok opened ∧
      describing .notReadable (opened.view (offline A D S).fromSlice) = .ok view :=
  ⟨congrArg (describing .notAuthentic) hopen, congrArg (describing .notReadable) hview⟩

theorem runOpen_prints (file : Text) (hreadable : m.readable = true) (hfile : t.file = some bytes)
    (hkey : sealKey m = .ok key) (hopen : openSealed A S.fromSlice bytes key none = .ok opened)
    (hview : opened.view S.fromSlice = .ok view) :
    runOpen (offline A D S) (prettyContents D) m (openArgs file) t =
      .ok (printed D (owned (offline A D S) view)) := by
  obtain ⟨hknown, hin, hconfirmed⟩ := openArgs_read file
  have hread : t.read m = some bytes := by rw [Target.read, if_pos hreadable, hfile]
  obtain ⟨hopened, hviewed⟩ := opened_and_viewed (D := D) hopen hview
  simp only [runOpen, hknown, hin, hconfirmed, hread, hkey, orFail, hopened, hviewed, Except.mapError, bind,
    Except.bind]
  rfl

theorem bumpedBytes_raised (file : Text) (hreadable : m.readable = true) (hfile : t.file = some bytes)
    (hkey : sealKey m = .ok key) (hopen : openSealed A S.fromSlice bytes key none = .ok opened)
    (hview : opened.view S.fromSlice = .ok view) (hraised : opened.contentVersion < version) :
    bumpedBytes (offline A D S) m (raiseArgs file version) t =
      sealWith (offline A D S) m { owned (offline A D S) view with version := version } key := by
  obtain ⟨hknown, hin, hto⟩ := raiseArgs_read file version
  have hread : t.read m = some bytes := by rw [Target.read, if_pos hreadable, hfile]
  have hnext : nextVersion opened.contentVersion (some version) = .ok version := by
    rw [nextVersion, if_neg (UInt64.not_le.mpr hraised)]
  obtain ⟨hopened, hviewed⟩ := opened_and_viewed (D := D) hopen hview
  simp only [bumpedBytes, hknown, hin, hto, hread, hkey, orFail, hopened, hviewed, hnext, bind, Except.bind]

theorem newerHeld_raised (hfile : t.file = some bytes) (hopen : openSealed A S.fromSlice bytes key none = .ok opened)
    (hraised : opened.contentVersion < version) : newerHeld m t version = none := by
  cases hreadable : m.readable with
  | false => simp [newerHeld, Target.read, hreadable]
  | true =>
      simp [newerHeld, Target.read, hreadable, hfile, openSealed_peek hopen, Except.toOption,
        UInt64.not_le.mpr hraised]

theorem sealedBytes_printed (documented : D.Documented) (plain file : Text) (hfile : t.file = some bytes)
    (hkey : sealKey m = .ok key) (hopen : openSealed A S.fromSlice bytes key none = .ok opened)
    (hraised : opened.contentVersion < version) {c again : Contents (Json (Number F))}
    (hreread : reread D c = some again) :
    sealedBytes (offline A D S) { m with input := some (printed D c) } (resealArgs plain file version) t =
      (validateTokenTable c).bind fun _ => sealWith (offline A D S) m { again with version := version } key := by
  obtain ⟨hknown, hin, hout, hversion⟩ := resealArgs_read plain file version
  have hsealKey : sealKey { m with input := some (printed D c) } = .ok key := hkey
  have hplain : parsePlaintext (offline A D S) (printed D c) = .ok again :=
    congrArg (orFail .notPlaintext) ((contentsFromStr_printed documented).trans hreread)
  have hheld : newerHeld { m with input := some (printed D c) } t version = none := newerHeld_raised hfile hopen hraised
  have htable : validateTokenTable { again with version := version } = validateTokenTable c := by
    obtain ⟨secrets, -, rfl⟩ := Option.map_eq_some_iff.mp hreread
    rfl
  simp only [sealedBytes, hknown, hin, hout, hsealKey, orFail, hplain, hversion, bind, Except.bind, refuseRollback,
    Option.getD_some, hheld, htable]
  rfl

theorem sealedBytes_unread (documented : D.Documented) (plain file : Text) (hkey : sealKey m = .ok key)
    {c : Contents (Json (Number F))} (hreread : reread D c = none) :
    sealedBytes (offline A D S) { m with input := some (printed D c) } (resealArgs plain file version) t =
      fail .notPlaintext := by
  obtain ⟨hknown, hin, hout, -⟩ := resealArgs_read plain file version
  have hsealKey : sealKey { m with input := some (printed D c) } = .ok key := hkey
  have hplain : parsePlaintext (offline A D S) (printed D c) = fail .notPlaintext :=
    congrArg (orFail .notPlaintext) ((contentsFromStr_printed documented).trans hreread)
  simp only [sealedBytes, hknown, hin, hout, hsealKey, orFail, hplain, bind, Except.bind]
  rfl

/-- Printing a file and sealing what was printed under a higher version, beside `bump-version`.
`seal` reads the secrets once more and looks at the token table, which stops it where there are
tokens and no key, or with a panic. Apart from that the two write the same contents exactly where
no secret is nested too deep to come back from the print and every double is read as itself once
it is printed; a double that is read as another is sealed as that one, and a secret that is too
deep or has a double read as none is refused. -/
theorem open_seal_is_bump (documented : D.Documented) (plain file : Text) (hreadable : m.readable = true)
    (hfile : t.file = some bytes) (hkey : sealKey m = .ok key)
    (hopen : openSealed A S.fromSlice bytes key none = .ok opened) (hview : opened.view S.fromSlice = .ok view)
    (hraised : opened.contentVersion < version) :
    ∃ text, runOpen (offline A D S) (prettyContents D) m (openArgs file) t = .ok text ∧
      runSeal (offline A D S) { m with input := some text } (resealArgs plain file version) t =
        (match reread D (owned (offline A D S) view) with
        | none => (t, fail .notPlaintext)
        | some again =>
          match validateTokenTable (owned (offline A D S) view) with
          | .ok _ => writing m t (sealWith (offline A D S) m { again with version := version } key)
          | .error stop => (t, .error stop)) ∧
      runBumpVersion (offline A D S) m (raiseArgs file version) t =
        writing m t (sealWith (offline A D S) m { owned (offline A D S) view with version := version } key) ∧
      (reread D (owned (offline A D S) view) = some (owned (offline A D S) view) ↔ Shallow (owned (offline A D S) view) ∧
        EveryDouble (fun f => D.read (D.print f) = some f) (owned (offline A D S) view)) ∧
      ((reread D (owned (offline A D S) view)).isSome ↔ Shallow (owned (offline A D S) view) ∧
        EveryDouble (fun f => (D.read (D.print f)).isSome) (owned (offline A D S) view)) := by
  refine ⟨printed D (owned (offline A D S) view), runOpen_prints file hreadable hfile hkey hopen hview, ?_, ?_,
    reread_eq_self documented owned_collected, reread_isSome documented⟩
  · cases hreread : reread D (owned (offline A D S) view) with
    | none =>
        rw [runSeal, sealedBytes_unread documented plain file hkey hreread]
        rfl
    | some again =>
        rw [runSeal, sealedBytes_printed documented plain file hfile hkey hopen hraised hreread]
        cases validateTokenTable (owned (offline A D S) view) with
        | ok warnings => rfl
        | error stop => rfl
  · rw [runBumpVersion, bumpedBytes_raised (D := D) file hreadable hfile hkey hopen hview hraised]

end Raising

theorem open_seal_is_bump_sample : ∃ text,
    runOpen (sampleTool smallSealings) (prettyContents oneDouble) (sampleMachine laterNonce)
      (openArgs "secrets.kal".toList) (heldFile smallSealings) = .ok text ∧
    runSeal (sampleTool smallSealings) { sampleMachine laterNonce with input := some text }
        (resealArgs "plain.json".toList "secrets.kal".toList 2) (heldFile smallSealings) =
      runBumpVersion (sampleTool smallSealings) (sampleMachine laterNonce) (raiseArgs "secrets.kal".toList 2)
        (heldFile smallSealings) ∧
    (runBumpVersion (sampleTool smallSealings) (sampleMachine laterNonce) (raiseArgs "secrets.kal".toList 2)
      (heldFile smallSealings)).2 = .ok () := by
  have hread : ((compactValues oneDouble).fromSlice (heldOpened smallSealings).plaintext).map
      (fun view => (view.secrets.entries, view.tokens.entries)) = some ([("app/db".toList, smallSecret)], []) := by
    decide +kernel
  obtain ⟨view, hslice, hentries⟩ := Option.map_eq_some_iff.mp hread
  obtain ⟨hsecrets, htokens⟩ := Prod.mk.inj hentries
  have hview : (heldOpened smallSealings).view (compactValues oneDouble).fromSlice = .ok view := by
    simp only [Opened.view, hslice]
  have hopen : openSealed (Aead.recorded smallSealings) (compactValues oneDouble).fromSlice
      (heldBytes smallSealings) sampleKey none = .ok (heldOpened smallSealings) := by decide +kernel
  have hkey : sealKey (sampleMachine laterNonce) = .ok sampleKey := by decide +kernel
  have hshallow : Shallow (owned (offline (Aead.recorded smallSealings) oneDouble (compactValues oneDouble)) view) := by
    simp only [Shallow, owned, SortedMap.mapValues, hsecrets]
    decide +kernel
  have htable : validateTokenTable
      (owned (offline (Aead.recorded smallSealings) oneDouble (compactValues oneDouble)) view) = .ok [] := by
    simp [validateTokenTable, owned, htokens, tokenWarnings]
  have hreadable : (sampleMachine laterNonce).readable = true := rfl
  have hfile : (heldFile smallSealings).file = some (heldBytes smallSealings) := rfl
  have hraised : (heldOpened smallSealings).contentVersion < 2 := by decide
  have hsteady : EveryDouble (fun f => oneDouble.read (oneDouble.print f) = some f)
      (owned (offline (Aead.recorded smallSealings) oneDouble (compactValues oneDouble)) view) :=
    fun e _ => Json.all_of (fun _ _ _ => rfl) e.2
  obtain ⟨text, hprinted, hsealed, hbumped, hsame, -⟩ := open_seal_is_bump oneDouble_documented "plain.json".toList
    "secrets.kal".toList hreadable hfile hkey hopen hview hraised
  rw [hsame.mpr ⟨hshallow, hsteady⟩, htable] at hsealed
  exact ⟨text, hprinted, hsealed.trans hbumped.symm, by decide +kernel⟩

/-- Two neighbours, the first printed as a numeral that is read as the second. -/
def driftingDoubles : Doubles Bool where
  read numeral :=
    if numeral = "1.5548607194311924e-7".toList then some false
    else if numeral = "1.5548607194311927e-7".toList ∨ numeral = "1.554860719431193e-7".toList then some true
    else none
  print f := if f then "1.554860719431193e-7".toList else "1.5548607194311927e-7".toList

def driftingSecret (numeral : Text) : Text := "\x7b\"n\":".toList ++ numeral ++ "\x7d".toList

/-- AES-256-GCM of a file with the first, of the file that follows it and of the one made of its print. -/
def driftingSealings : List Sealing :=
  [secretSealing 1 sampleNonce (driftingSecret "1.5548607194311924e-7".toList)
      [116, 72, 208, 57, 29, 124, 190, 155, 168, 191, 41, 177, 172, 115, 135, 254, 194, 46, 232, 7, 251, 213,
        187, 98, 220, 218, 46, 138, 43, 186, 80, 57, 29, 63, 211, 16, 163, 122, 197, 188, 55, 203, 149, 197,
        244, 39, 238, 23, 130, 124, 128, 120, 228, 152, 51, 63, 248, 197, 214, 159, 16, 148, 161, 128, 42, 201,
        153, 81, 224, 173, 89, 227, 118, 160, 74, 108, 197, 247, 127, 177, 161, 86, 33, 2, 140, 213, 54, 73,
        121, 92, 211, 99, 153, 197, 57, 125, 238, 154, 219, 2, 74, 17, 201, 52],
    secretSealing 2 laterNonce (driftingSecret "1.5548607194311927e-7".toList)
      [81, 97, 174, 179, 159, 247, 95, 153, 190, 117, 97, 170, 172, 191, 3, 93, 128, 103, 102, 219, 230, 224,
        67, 20, 103, 119, 121, 81, 210, 206, 41, 221, 126, 254, 31, 153, 76, 235, 31, 25, 162, 233, 216, 229,
        201, 53, 128, 28, 200, 10, 150, 243, 135, 137, 13, 59, 127, 104, 94, 221, 121, 209, 12, 108, 174, 102,
        222, 103, 22, 140, 82, 169, 197, 227, 40, 55, 21, 233, 116, 28, 134, 97, 177, 90, 238, 50, 142, 221,
        121, 154, 133, 168, 30, 26, 95, 92, 179, 212, 165, 138, 32, 181, 208, 193],
    secretSealing 2 laterNonce (driftingSecret "1.554860719431193e-7".toList)
      [81, 97, 174, 179, 159, 247, 95, 153, 190, 117, 97, 170, 172, 191, 3, 93, 128, 103, 102, 219, 230, 224,
        67, 20, 103, 119, 121, 81, 210, 206, 41, 221, 126, 254, 31, 153, 76, 235, 31, 25, 162, 233, 216, 229,
        201, 53, 128, 28, 200, 10, 150, 243, 135, 137, 12, 105, 55, 114, 20, 221, 40, 223, 94, 115, 173, 99,
        212, 109, 26, 154, 3, 177, 132, 229, 121, 57, 67, 242, 112, 18, 141, 124, 224, 66, 175, 52, 142, 87, 69,
        93, 54, 117, 33, 22, 201, 228, 126, 62, 183, 129, 196, 222, 127]]

def driftingTool : Toolbox (Json (Number Bool)) :=
  offline (Aead.recorded driftingSealings) driftingDoubles (compactValues driftingDoubles)

def driftingPrint : Text :=
  ("\x7b\n  \"version\": 1,\n  \"secrets\": \x7b\n    \"app/db\": \x7b\n" ++
    "      \"n\": 1.5548607194311927e-7\n    \x7d\n  \x7d,\n" ++
    "  \"policies\": \x7b\x7d,\n  \"tokens\": \x7b\x7d\n\x7d\n").toList

/-- Both ways end well, with different doubles. -/
theorem drifting_double_differs :
    runOpen driftingTool (prettyContents driftingDoubles) (sampleMachine laterNonce) (openArgs "secrets.kal".toList)
      (heldFile driftingSealings) = .ok driftingPrint ∧
    runSeal driftingTool { sampleMachine laterNonce with input := some driftingPrint }
      (resealArgs "plain.json".toList "secrets.kal".toList 2) (heldFile driftingSealings) =
        (heldFile (driftingSealings.drop 2), .ok ()) ∧
    runBumpVersion driftingTool (sampleMachine laterNonce) (raiseArgs "secrets.kal".toList 2)
      (heldFile driftingSealings) = (heldFile (driftingSealings.drop 1), .ok ()) ∧
    heldFile (driftingSealings.drop 2) ≠ heldFile (driftingSealings.drop 1) :=
  ⟨by decide +kernel, by decide +kernel, by decide +kernel, by decide +kernel⟩

end Kallisto.Ctl
