import Kallisto.Ctl.Versions

/-!
What `bump-version` does to the rest of the file. Every secret is read into a `Value` and
written out again; a text that cannot be read becomes `null`.
-/
namespace Kallisto.Ctl
open Lib Kallisto.Crypto Kallisto.Resolver

/-- The text can be read as a `Value`, and of the members that stay no number changes. -/
def Reread {F : Type} (D : Doubles F) (raw : Text) : Prop :=
  ∃ v, Json.parse raw = some v ∧ v.depth < RECURSION_LIMIT ∧
    (v.All fun n => fits n = true ∨ (D.read n).isSome) ∧ v.canon.All (KeptBy D SameNumber)

/-- The file opens, and holds what `view` holds. -/
def Preserved {N : Type} (A : Aead) (S : SerdeJson N) (key : SealKey) (view : View) (t : Target) : Prop :=
  ∃ bytes opened view', t.file = some bytes ∧ openSealed A S.fromSlice bytes key none = .ok opened ∧
    opened.view S.fromSlice = .ok view' ∧ view'.secrets.keys = view.secrets.keys ∧
    view'.policies = view.policies ∧ view'.tokens = view.tokens ∧ view'.tokenKey = view.tokenKey ∧
    ∀ path raw, view.secrets.get path = some raw →
      ∃ raw', view'.secrets.get path = some raw' ∧ SameValue SameNumber raw raw'

section Rewriting
variable {F : Type} {D : Doubles F}

/-- `owned` and the writer, on one secret. -/
def rewritten (D : Doubles F) (raw : Text) : Text :=
  (((valueFromStr D raw).getD .null).map (Number.print D)).text

theorem rel_null {R : Text → Text → Prop} {v : Json Text} (h : v.canon.Rel R .null) : v = .null := by
  cases v with
  | null => rfl
  | _ => cases h

theorem parse_rewritten (numeral : ∀ n : Number F, Json.isNumeral (n.print D) = true) (raw : Text) :
    Json.parse (rewritten D raw) = some (((valueFromStr D raw).getD .null).map (Number.print D)) :=
  Json.parse_text ((Json.all_map _).mpr (Json.all_of numeral _))

/-- A secret is still the same value exactly where it could be read and no number changed. -/
theorem sameValue_rewritten (numeral : ∀ n : Number F, Json.isNumeral (n.print D) = true) (raw : Text) :
    SameValue SameNumber raw (rewritten D raw) ↔ Reread D raw := by
  simp only [SameValue, parse_rewritten numeral, Reread, Option.some.injEq, exists_and_left, exists_eq_left']
  refine exists_congr fun v => and_congr_right fun hparse => ?_
  have hvalue : valueFromStr D raw = readJson D 0 v := by rw [valueFromStr, hparse, Option.bind_some]
  have hsome : (readJson D 0 v).isSome ↔ 0 + v.depth < RECURSION_LIMIT ∧
      v.All fun n => fits n = true ∨ (D.read n).isSome := readJson_isSome
  rw [Nat.zero_add] at hsome
  rw [hvalue, ← and_assoc, ← hsome]
  cases hread : readJson D 0 v with
  | some w => simpa using rewritten_iff sameNumber_of_integer hread
  | none =>
      refine iff_of_false ?_ (by simp)
      intro hrel
      obtain rfl := rel_null hrel
      cases hread

end Rewriting

section Bump
variable {F : Type} {A : Aead} {D : Doubles F} {S : SerdeJson (Number F)} {m : Machine} {args : Args} {t t' : Target}
  {key : SealKey} {view : View}

theorem owned_unescaped (borrows : S.Borrows) {bytes : Bytes} (hview : S.fromSlice bytes = some view)
    (version : UInt64) : Contents.Unescaped { owned (offline A D S) view with version := version } := by
  obtain ⟨hpaths, hkey⟩ := borrows bytes view hview
  refine ⟨?_, hkey⟩
  intro path hpath
  rw [owned, SortedMap.keys_mapValues] at hpath
  exact hpaths path hpath

/-- Everything but the secrets' texts is kept, and each of these is read and written once. -/
theorem runBumpVersion_view (compact : S.Compact) (prints : S.print = Number.print D)
    (borrows : S.Borrows) (opens : A.Opens) {old : Bytes} {opened : Opened} (hfile : t.file = some old)
    (hkey : sealKey m = .ok key) (hopen : openSealed A S.fromSlice old key none = .ok opened)
    (hview : opened.view S.fromSlice = .ok view)
    (hrun : runBumpVersion (offline A D S) m args t = (t', .ok ())) :
    ∃ bytes opened' view', t'.file = some bytes ∧ openSealed A S.fromSlice bytes key none = .ok opened' ∧
      opened'.view S.fromSlice = .ok view' ∧ view'.secrets = view.secrets.mapValues (rewritten D) ∧
      view'.policies = view.policies ∧ view'.tokens = view.tokens ∧ view'.tokenKey = view.tokenKey := by
  obtain ⟨bytes, hbytes, hwritten⟩ := writing_ok hrun
  obtain ⟨old', key', opened₁, asked, next, view₁, hfile', hkey', hopen', -, -, hview', hseal⟩ := bumpedBytes_ok hbytes
  obtain rfl : old = old' := Option.some.inj (hfile.symm.trans hfile')
  obtain rfl : key = key' := Except.ok.inj (hkey.symm.trans hkey')
  obtain rfl : opened = opened₁ := Except.ok.inj (hopen.symm.trans hopen')
  obtain rfl : view = view₁ := Except.ok.inj (hview.symm.trans hview')
  have hread : S.fromSlice opened.plaintext = some view := by
    unfold Opened.view at hview
    cases hf : S.fromSlice opened.plaintext with
    | none =>
        rw [hf] at hview
        cases hview
    | some read =>
        rw [hf] at hview
        exact congrArg some (Except.ok.inj hview)
  obtain ⟨opened', hopened, hnew⟩ :=
    openFile_unescaped compact opens (owned_unescaped borrows hread next) (describing_ok hseal)
  refine ⟨bytes, opened', _, hwritten, openSealed_eq.mpr hopened, hnew, ?_, rfl, rfl, rfl⟩
  rw [prints]
  exact SortedMap.ext List.map_map

theorem reread_of_preserved (compact : S.Compact) (prints : S.print = Number.print D)
    (borrows : S.Borrows) (opens : A.Opens) {old : Bytes} {opened : Opened} (hfile : t.file = some old)
    (hkey : sealKey m = .ok key) (hopen : openSealed A S.fromSlice old key none = .ok opened)
    (hview : opened.view S.fromSlice = .ok view)
    (hrun : runBumpVersion (offline A D S) m args t = (t', .ok ())) (h : Preserved A S key view t') {path raw : Text}
    (hraw : view.secrets.get path = some raw) : Reread D raw := by
  obtain ⟨bytes, opened', view', hbytes, hopen', hview', hsecrets, -⟩ :=
    runBumpVersion_view compact prints borrows opens hfile hkey hopen hview hrun
  obtain ⟨bytes₁, opened₁, view₁, hbytes₁, hopen₁, hview₁, -, -, -, -, hsame⟩ := h
  obtain rfl : bytes = bytes₁ := Option.some.inj (hbytes.symm.trans hbytes₁)
  obtain rfl : opened' = opened₁ := Except.ok.inj (hopen'.symm.trans hopen₁)
  obtain rfl : view' = view₁ := Except.ok.inj (hview'.symm.trans hview₁)
  obtain ⟨raw', hraw', hvalue⟩ := hsame path raw hraw
  rw [hsecrets, SortedMap.get_mapValues _ hraw] at hraw'
  cases hraw'
  exact (sameValue_rewritten (prints ▸ compact.numeral) raw).mp hvalue

/-- `bump-version` leaves every secret's value as it was exactly where each of them can be read
back without a number changing. -/
theorem bump_preserves_iff (compact : S.Compact) (prints : S.print = Number.print D)
    (borrows : S.Borrows) (opens : A.Opens) {old : Bytes} {opened : Opened} (hfile : t.file = some old)
    (hkey : sealKey m = .ok key) (hopen : openSealed A S.fromSlice old key none = .ok opened)
    (hview : opened.view S.fromSlice = .ok view)
    (hrun : runBumpVersion (offline A D S) m args t = (t', .ok ())) :
    Preserved A S key view t' ↔ ∀ path raw, view.secrets.get path = some raw → Reread D raw := by
  constructor
  · intro h path raw hraw
    exact reread_of_preserved compact prints borrows opens hfile hkey hopen hview hrun h hraw
  · intro hall
    obtain ⟨bytes, opened', view', hbytes, hopen', hview', hsecrets, hpolicies, htokens, htokenKey⟩ :=
      runBumpVersion_view compact prints borrows opens hfile hkey hopen hview hrun
    refine ⟨bytes, opened', view', hbytes, hopen', hview', ?_, hpolicies, htokens, htokenKey, ?_⟩
    · rw [hsecrets, SortedMap.keys_mapValues]
    · intro path raw hraw
      refine ⟨rewritten D raw, ?_, ?_⟩
      · rw [hsecrets]
        exact SortedMap.get_mapValues _ hraw
      · exact (sameValue_rewritten (prints ▸ compact.numeral) raw).mpr (hall path raw hraw)

end Bump

def secretBody (version : UInt64) (raw : Text) : Bytes :=
  utf8 ("\x7b\"version\":".toList ++ decimal version.toNat ++ ",\"secrets\":\x7b\"app/db\":".toList ++ raw ++
    "\x7d,\"policies\":\x7b\x7d,\"tokens\":\x7b\x7d\x7d".toList)

def secretSealing (version : UInt64) (nonce : Nonce) (raw : Text) (ciphertext : Bytes) : Sealing :=
  ⟨sampleKey, nonce, Header.write version nonce, secretBody version raw, ciphertext⟩

def smallSecret : Text := "\x7b\"n\":5\x7d".toList

/-- AES-256-GCM of the file with a small number, before and after. -/
def smallSealings : List Sealing :=
  [secretSealing 1 sampleNonce smallSecret
      [116, 72, 208, 57, 29, 124, 190, 155, 168, 191, 41, 177, 172, 115, 135, 254, 194, 46, 232, 7, 251, 213,
        187, 98, 220, 218, 46, 138, 43, 186, 80, 57, 29, 63, 211, 16, 163, 122, 193, 239, 127, 210, 131, 141,
        173, 123, 176, 69, 210, 45, 192, 107, 239, 218, 124, 39, 191, 156, 142, 137, 8, 214, 240, 210, 127,
        222, 141, 79, 203, 5, 161, 221, 137, 97, 155, 184, 179, 87, 244, 131, 196, 193, 59, 31],
    secretSealing 2 laterNonce smallSecret
      [81, 97, 174, 179, 159, 247, 95, 153, 190, 117, 97, 170, 172, 191, 3, 93, 128, 103, 102, 219, 230, 224,
        67, 20, 103, 119, 121, 81, 210, 206, 41, 221, 126, 254, 31, 153, 76, 235, 27, 74, 234, 240, 206, 173,
        144, 105, 222, 78, 152, 91, 214, 224, 140, 203, 66, 32, 56, 49, 6, 203, 97, 147, 93, 62, 251, 113,
        202, 121, 176, 147, 80, 219, 190, 34, 202, 118, 234, 255, 105, 117, 31, 246, 183, 181]]

def hugeSecret : Text := "\x7b\"n\":1e400\x7d".toList

/-- AES-256-GCM of the file with a number no double reaches, and of the file that follows it. -/
def hugeSealings : List Sealing :=
  [secretSealing 1 sampleNonce hugeSecret
      [116, 72, 208, 57, 29, 124, 190, 155, 168, 191, 41, 177, 172, 115, 135, 254, 194, 46, 232, 7, 251, 213,
        187, 98, 220, 218, 46, 138, 43, 186, 80, 57, 29, 63, 211, 16, 163, 122, 197, 247, 54, 206, 145, 128,
        191, 59, 251, 86, 212, 36, 218, 42, 188, 196, 114, 41, 167, 147, 156, 206, 79, 204, 236, 155, 32, 203,
        131, 16, 179, 179, 87, 188, 137, 50, 90, 190, 170, 22, 237, 106, 235, 203, 15, 86, 83, 42, 120, 102],
    secretSealing 2 laterNonce "null".toList
      [81, 97, 174, 179, 159, 247, 95, 153, 190, 117, 97, 170, 172, 191, 3, 93, 128, 103, 102, 219, 230, 224,
        67, 20, 103, 119, 121, 81, 210, 206, 41, 221, 126, 235, 72, 155, 2, 172, 2, 21, 231, 179, 128, 180,
        156, 108, 210, 94, 211, 4, 222, 191, 154, 146, 75, 99, 113, 32, 7, 211, 38, 199, 85, 97, 188, 25, 25,
        109, 21, 227, 93, 197, 46, 26, 149, 197, 113, 254, 181, 184, 191]]

def heldBytes (table : List Sealing) : Bytes := (table.head?.map fun s => s.aad ++ s.sealed).getD []

def heldFile (table : List Sealing) : Target := ⟨some (heldBytes table), none⟩

def heldOpened (table : List Sealing) : Opened := ⟨(table.head?.map Sealing.plain).getD [], 1⟩

def bumpArgs : Args := ⟨.ofList [("--in".toList, "secrets.kal".toList)], []⟩

def bumpedFile (table : List Sealing) : Target :=
  (runBumpVersion (sampleTool table) (sampleMachine laterNonce) bumpArgs (heldFile table)).1

theorem bumpedFile_eq {table : List Sealing}
    (h : (runBumpVersion (sampleTool table) (sampleMachine laterNonce) bumpArgs (heldFile table)).2 = .ok ()) :
    runBumpVersion (sampleTool table) (sampleMachine laterNonce) bumpArgs (heldFile table) =
      (bumpedFile table, .ok ()) := by
  rw [← h]
  rfl

theorem view_of_entries {o : Opened} {entries : List (Text × Text)}
    (h : (compactSerde.fromSlice o.plaintext).map (fun view => view.secrets.entries) = some entries) :
    ∃ view, o.view (compactValues oneDouble).fromSlice = .ok view ∧ view.secrets.entries = entries := by
  obtain ⟨view, hview, rfl⟩ := Option.map_eq_some_iff.mp h
  refine ⟨view, ?_, rfl⟩
  have hread : (compactValues oneDouble).fromSlice o.plaintext = some view := hview
  simp only [Opened.view, hread]

theorem parse_member {raw numeral : Text} (h : raw = (Json.obj [("n".toList, .num numeral)]).text)
    (hn : Json.isNumeral numeral = true) : Json.parse raw = some (.obj [("n".toList, .num numeral)]) := by
  rw [h]
  exact Json.parse_text ⟨hn, trivial⟩

theorem bump_preserves_iff_sample : (Aead.recorded smallSealings).Opens ∧ (compactValues oneDouble).Borrows ∧
    ∃ view, (heldOpened smallSealings).view (compactValues oneDouble).fromSlice = .ok view ∧
      view.secrets.entries = [("app/db".toList, smallSecret)] ∧
      runBumpVersion (sampleTool smallSealings) (sampleMachine laterNonce) bumpArgs (heldFile smallSealings) =
        (bumpedFile smallSealings, .ok ()) ∧
      Preserved (Aead.recorded smallSealings) (compactValues oneDouble) sampleKey view (bumpedFile smallSealings) := by
  have opens : (Aead.recorded smallSealings).Opens := Aead.recorded_opens (by decide +kernel)
  obtain ⟨view, hview, hentries⟩ : ∃ view,
      (heldOpened smallSealings).view (compactValues oneDouble).fromSlice = .ok view ∧
        view.secrets.entries = [("app/db".toList, smallSecret)] := view_of_entries (by decide +kernel)
  have hopen : openSealed (Aead.recorded smallSealings) (compactValues oneDouble).fromSlice
      (heldBytes smallSealings) sampleKey none = .ok (heldOpened smallSealings) := by decide +kernel
  have hrun : runBumpVersion (sampleTool smallSealings) (sampleMachine laterNonce) bumpArgs (heldFile smallSealings) =
      (bumpedFile smallSealings, .ok ()) := bumpedFile_eq (by decide +kernel)
  have hkey : sealKey (sampleMachine laterNonce) = .ok sampleKey := by decide +kernel
  refine ⟨opens, compactSerde_borrows, view, hview, hentries, hrun, ?_⟩
  refine (bump_preserves_iff (compactValues_compact oneDouble_documented) rfl compactSerde_borrows opens rfl
    hkey hopen hview hrun).mpr ?_
  intro path raw hraw
  have hmem := SortedMap.get_eq_some.mp hraw
  rw [hentries, List.mem_singleton] at hmem
  obtain ⟨rfl, rfl⟩ := Prod.mk.inj hmem
  have hread : Json.parse smallSecret = some (.obj [("n".toList, .num "5".toList)]) :=
    parse_member (by decide) (by decide)
  exact ⟨_, hread, by decide, ⟨.inl (by decide), trivial⟩, .inl (by decide), trivial⟩

/-- A number out of range is no error: the whole secret is `null` afterwards. -/
theorem huge_number_nulled : ∃ view,
    openSealed (Aead.recorded hugeSealings) (compactValues oneDouble).fromSlice (heldBytes hugeSealings)
      sampleKey none = .ok (heldOpened hugeSealings) ∧
    (heldOpened hugeSealings).view (compactValues oneDouble).fromSlice = .ok view ∧
    view.secrets.entries = [("app/db".toList, hugeSecret)] ∧
    runBumpVersion (sampleTool hugeSealings) (sampleMachine laterNonce) bumpArgs (heldFile hugeSealings) =
      (bumpedFile hugeSealings, .ok ()) ∧
    rewritten oneDouble hugeSecret = "null".toList ∧
    ¬ Preserved (Aead.recorded hugeSealings) (compactValues oneDouble) sampleKey view (bumpedFile hugeSealings) := by
  have opens : (Aead.recorded hugeSealings).Opens := Aead.recorded_opens (by decide +kernel)
  obtain ⟨view, hview, hentries⟩ : ∃ view,
      (heldOpened hugeSealings).view (compactValues oneDouble).fromSlice = .ok view ∧
        view.secrets.entries = [("app/db".toList, hugeSecret)] := view_of_entries (by decide +kernel)
  have hopen : openSealed (Aead.recorded hugeSealings) (compactValues oneDouble).fromSlice
      (heldBytes hugeSealings) sampleKey none = .ok (heldOpened hugeSealings) := by decide +kernel
  have hrun : runBumpVersion (sampleTool hugeSealings) (sampleMachine laterNonce) bumpArgs (heldFile hugeSealings) =
      (bumpedFile hugeSealings, .ok ()) := bumpedFile_eq (by decide +kernel)
  refine ⟨view, hopen, hview, hentries, hrun, by decide +kernel, ?_⟩
  intro preserved
  have hraw : view.secrets.get "app/db".toList = some hugeSecret := by
    rw [SortedMap.get_eq_some, hentries]
    exact List.mem_singleton_self _
  have hkey : sealKey (sampleMachine laterNonce) = .ok sampleKey := by decide +kernel
  obtain ⟨v, hparse, -, hrange, -⟩ := reread_of_preserved (compactValues_compact oneDouble_documented) rfl
    compactSerde_borrows opens rfl hkey hopen hview hrun preserved hraw
  have hread : Json.parse hugeSecret = some (.obj [("n".toList, .num "1e400".toList)]) :=
    parse_member (by decide) (by decide)
  rw [hread] at hparse
  cases hparse
  have hone : fits "1e400".toList = true ∨ (oneDouble.read "1e400".toList).isSome := hrange.1
  exact absurd hone (by decide)

end Kallisto.Ctl
