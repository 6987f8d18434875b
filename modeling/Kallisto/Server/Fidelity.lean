import Kallisto.Ctl.Bump
import Kallisto.Server.Bodies
import Kallisto.Server.Reads

/-!
From the plaintext file to the reply: a secret is read into a `Value`, written, sealed,
borrowed as text, sealed again under the barrier and put into the body. Only the first of these
can change it.
-/
namespace Kallisto.Server
open Lib Kallisto.Crypto Kallisto.Policy Kallisto.Resolver Kallisto.Ctl

def member (name : Text) : Json Text → Option (Json Text)
  | .obj members => members.lookup name
  | _ => none

/-- `data.data` of a body, as a client reads it. -/
def dataOf (body : Text) : Option (Json Text) := do
  member "data".toList (← member "data".toList (← Json.parse body))

theorem dataOf_kvData {raw : Text} {data : Json Text} (h : Json.parse raw = some data) (version : UInt64)
    (createdTime : Text) : dataOf (kvData raw version createdTime) = some data := by
  rw [kvData_spliced h, dataOf, parse_written]
  simp [kvDataValue, Json.splice, Json.spliceMembers, member, List.lookup_cons]

/-- The client finds the value that was written: the same but for the order of members, and
every integer literal the same integer. -/
def AsWritten (value : Json Text) (body : Text) : Prop :=
  ∃ value', dataOf body = some value' ∧ value.canon.Rel SameInteger value'.canon

section Pipeline
variable {F : Type} {A : Aead} {D : Doubles F} {S : SerdeJson (Number F)} {m : Ctl.Machine} {args : Args} {t t' : Target}
  {text : Text} {bytes : Bytes} {key : SealKey} {held : Option UInt64} {opened : Opened} {view : View}

/-- What `seal` put into the file is what was written, secret by secret, once through `Value`. -/
theorem runSeal_view (compact : S.Compact) (prints : S.print = Number.print D) (opens : A.Opens)
    (hinput : m.input = some text) (hkey : sealKey m = .ok key)
    (hrun : runSeal (offline A D S) m args t = (t', .ok ())) (hfile : t'.file = some bytes)
    (hopen : openSealed A S.fromSlice bytes key held = .ok opened) (hview : opened.view S.fromSlice = .ok view) :
    ∃ w, written text = some w ∧ ∀ path value, w.secrets.get path = some value →
      ∃ v, readJson D 2 value = some v ∧ view.secrets.get path = some (v.map (Number.print D)).text := by
  obtain ⟨bytes', hbytes, hwrote⟩ := writing_ok hrun
  obtain rfl : bytes = bytes' := Option.some.inj (hfile.symm.trans hwrote)
  obtain ⟨key', text', plain, asked, warnings, hkey', htext, hplain, -, -, hseal⟩ := sealedBytes_ok hbytes
  obtain rfl : key = key' := Except.ok.inj (hkey.symm.trans hkey')
  obtain rfl : text = text' := Option.some.inj (hinput.symm.trans htext)
  have hopened := openSealed_eq.mp (openSealed_unheld hopen)
  have hunescaped : Contents.Unescaped { plain with version := asked.getD plain.version } := by
    by_contra hescaped
    rw [openFile_escaped compact opens hescaped (describing_ok hseal)] at hopened
    cases hopened
  obtain ⟨opened', hopen', hview'⟩ := openFile_unescaped compact opens hunescaped (describing_ok hseal)
  obtain rfl : opened = opened' := Except.ok.inj (Option.some.inj (hopened.symm.trans hopen'))
  obtain rfl := Except.ok.inj (hview.symm.trans hview')
  obtain ⟨j, hj, hread⟩ := Option.bind_eq_some_iff.mp hplain
  obtain ⟨w, hw, -, -, -, -, hsecrets⟩ := read_written hread
  refine ⟨w, ?_, ?_⟩
  · rw [written, hj]
    exact hw
  · intro path value hvalue
    obtain ⟨v, hv, hreadJson⟩ := SortedMap.get_related hsecrets hvalue
    refine ⟨v, hreadJson, ?_⟩
    rw [← prints]
    exact SortedMap.get_mapValues _ hv

/-- The body of a permitted read, with `data.data` as the client finds it. -/
theorem dataOf_readSecret {P : Platform} (opens : P.aead.Opens) {slot : Nat → Option (Served P)} {s : Served P}
    {mount : Text} {nowMs : Nat} {worker : Worker} {request : Request} {path : Text} {data : Json Text}
    (hslot : slot 0 = some s) (hmount : '/' ∉ mount) (hpermit : (worker.limiter.tryAcquireAt nowMs).2 = .ok ())
    (readable : Readable P mount request s.snapshot path) (hdata : s.view.secrets.get path = some data.text)
    (hwell : data.WellFormed) :
    dataOf (readSecret P mount (loads slot) nowMs worker request).2.body = some data := by
  rw [readSecret_loaded opens hslot readable.method, gate_data.mpr ⟨hpermit, hmount, readable.named⟩]
  change dataOf (dataReply s request path).body = some data
  rw [dataReply_readable readable hdata]
  exact dataOf_kvData (Json.parse_text hwell) _ _

/-- A secret of an accepted file is served as it was written exactly where every number of it
that stays fits 64 bits, or is spelled out in full by the double that was read for it. -/
theorem served_as_written_iff {P : Platform} (compact : S.Compact)
    (prints : S.print = Number.print D) (reads : S.fromSlice = P.fromSlice) (opens : P.aead.Opens)
    (hinput : m.input = some text) (hkey : sealKey m = .ok key)
    (hrun : runSeal (offline P.aead D S) m args t = (t', .ok ())) (hfile : t'.file = some bytes)
    (hopen : openSealed P.aead P.fromSlice bytes key held = .ok opened)
    (hview : opened.view P.fromSlice = .ok view) :
    ∃ w, written text = some w ∧ ∀ path value, w.secrets.get path = some value →
      ∀ (slot : Nat → Option (Served P)) (s : Served P) (mount : Text) (nowMs : Nat) (worker : Worker)
        (request : Request), slot 0 = some s → s.view = view → '/' ∉ mount →
        (worker.limiter.tryAcquireAt nowMs).2 = .ok () → Readable P mount request s.snapshot path →
        (AsWritten value (readSecret P mount (loads slot) nowMs worker request).2.body ↔
          value.canon.All (KeptBy D SameInteger)) := by
  rw [← reads] at hopen hview
  obtain ⟨w, hw, hsecrets⟩ := runSeal_view compact prints opens hinput hkey hrun hfile hopen hview
  refine ⟨w, hw, ?_⟩
  intro path value hvalue slot s mount nowMs worker request hslot hs hmount hpermit readable
  obtain ⟨v, hread, hraw⟩ := hsecrets path value hvalue
  have hwell : (v.map (Number.print D)).WellFormed := (Json.all_map v).mpr (Json.all_of (prints ▸ compact.numeral) v)
  have hdata := dataOf_readSecret opens hslot hmount hpermit readable (hs ▸ hraw) hwell
  rw [AsWritten, ← rewritten_iff sameInteger_of_integer hread]
  simp only [hdata, Option.some.injEq, exists_eq_left']

end Pipeline

/-- A file with one secret, as its author wrote it. -/
def plainFile (numeral : Text) : Json Text :=
  .obj [("version".toList, .num "1".toList),
    ("secrets".toList, .obj [(servedPath, .obj [("n".toList, .num numeral)])])]

def barrierSealing (raw : Text) (ciphertext : Bytes) : Sealing :=
  ⟨sampleKey, counterNonce 0, [], utf8 raw, ciphertext⟩

/-- AES-256-GCM of the file with a small number, and of its secret under the barrier. -/
def smallTable : List Sealing :=
  smallSealings.take 1 ++ [barrierSealing smallSecret
      [117, 158, 219, 252, 143, 25, 254, 161, 93, 111, 48, 229, 4, 151, 61, 16, 145, 14, 166, 117, 3, 209, 21]]

def wideSecret : Text := "\x7b\"n\":1.8446744073709552e+19\x7d".toList

/-- The same for the file that `seal` makes of 2^64. -/
def wideTable : List Sealing :=
  [secretSealing 1 sampleNonce wideSecret
      [116, 72, 208, 57, 29, 124, 190, 155, 168, 191, 41, 177, 172, 115, 135, 254, 194, 46, 232, 7, 251, 213,
        187, 98, 220, 218, 46, 138, 43, 186, 80, 57, 29, 63, 211, 16, 163, 122, 197, 188, 58, 202, 149, 203,
        245, 35, 237, 22, 140, 123, 132, 121, 236, 148, 52, 57, 248, 195, 208, 219, 16, 197, 175, 210, 53, 202,
        156, 91, 234, 161, 79, 178, 110, 225, 76, 61, 203, 161, 100, 181, 175, 93, 60, 83, 148, 148, 48, 73,
        146, 191, 164, 101, 198, 233, 89, 86, 243, 181, 220, 15, 170, 31, 170, 18, 78],
    barrierSealing wideSecret
      [117, 158, 219, 252, 143, 29, 173, 133, 60, 156, 159, 2, 44, 24, 161, 174, 225, 116, 102, 106, 29, 180,
        82, 74, 171, 175, 138, 254, 104, 41, 203, 192, 147, 119, 236, 246, 184, 230, 60, 39, 245, 253, 114, 110]]

def tablePlatform (table : List Sealing) : Platform :=
  ⟨Aead.recorded table, sampleHmac, (compactValues oneDouble).fromSlice⟩

def authorMachine (numeral : Text) : Ctl.Machine :=
  { sampleMachine sampleNonce with input := some (plainFile numeral).text }

def sealArgs : Args := ⟨.ofList [("--in".toList, "plain.json".toList), ("--out".toList, "secrets.kal".toList)], []⟩

theorem written_plainFile (numeral : Text) (h : Json.isNumeral numeral = true) :
    ∃ w, written (plainFile numeral).text = some w ∧
      w.secrets.get servedPath = some (.obj [("n".toList, .num numeral)]) := by
  have hversion : Json.isNumeral "1".toList = true := by decide
  have hwell : (plainFile numeral).WellFormed := ⟨hversion, ⟨⟨h, trivial⟩, trivial⟩, trivial⟩
  refine ⟨⟨1, .ofList [(servedPath, .obj [("n".toList, .num numeral)])], .empty, .empty, none⟩, ?_, ?_⟩
  · rw [written, Json.parse_text hwell]
    rfl
  · exact SortedMap.get_eq_some.mpr (List.mem_singleton_self _)

theorem Served.of_view {P : Platform} {draw : Draw} {view : View} {etag : Option Text} {s : Served P}
    (h : Served.of P draw view etag = some s) : s.view = view := by
  unfold Served.of at h
  split at h
  · cases h
    rfl
  · cases h

def tableServed (table : List Sealing) : Option (Served (tablePlatform table)) :=
  ((tablePlatform table).fromSlice (heldOpened table).plaintext).bind fun view =>
    Served.of (tablePlatform table) sampleDraw view none

def tableRequest : Request := servedRequest "/v1/secret/data/app/db".toList

theorem tableServed_readable (table : List Sealing)
    (h : (tableServed table).map (fun s => s.snapshot.tokens.isNone) = some true) :
    ∃ s, tableServed table = some s ∧ (heldOpened table).view (tablePlatform table).fromSlice = .ok s.view ∧
      Readable (tablePlatform table) "secret".toList tableRequest s.snapshot servedPath := by
  obtain ⟨s, hs, htokens⟩ := Option.map_eq_some_iff.mp h
  obtain ⟨view, hview, hof⟩ := Option.bind_eq_some_iff.mp hs
  refine ⟨s, hs, ?_, by decide, by decide, permits_of_no_table (Option.isNone_iff_eq_none.mp htokens) _ _ _, nofun⟩
  rw [Opened.view, hview, Served.of_view hof]

/-- The answer to a read of the one secret, out of the file that `seal` made. -/
def tableReply (table : List Sealing) : Response :=
  (readSecret (tablePlatform table) "secret".toList (loads fun _ => tableServed table) 0 servedWorker tableRequest).2

theorem served_as_written_iff_sample :
    runSeal (sampleTool smallTable) (authorMachine "5".toList) sealArgs ⟨none, none⟩ =
      (heldFile smallTable, .ok ()) ∧
    openSealed (Aead.recorded smallTable) (tablePlatform smallTable).fromSlice (heldBytes smallTable) sampleKey none =
      .ok (heldOpened smallTable) ∧
    AsWritten (.obj [("n".toList, .num "5".toList)]) (tableReply smallTable).body := by
  have opens : (tablePlatform smallTable).aead.Opens := Aead.recorded_opens (by decide +kernel)
  have hinput : (authorMachine "5".toList).input = some (plainFile "5".toList).text := rfl
  have hkey : sealKey (authorMachine "5".toList) = .ok sampleKey := by decide +kernel
  have hrun : runSeal (sampleTool smallTable) (authorMachine "5".toList) sealArgs ⟨none, none⟩ =
      (heldFile smallTable, .ok ()) := by decide +kernel
  have hfile : (heldFile smallTable).file = some (heldBytes smallTable) := rfl
  have hopen : openSealed (tablePlatform smallTable).aead (tablePlatform smallTable).fromSlice (heldBytes smallTable)
      sampleKey none = .ok (heldOpened smallTable) := by decide +kernel
  obtain ⟨s, hs, hview, readable⟩ := tableServed_readable smallTable (by decide +kernel)
  obtain ⟨w, hw, hvalue⟩ := written_plainFile "5".toList (by decide)
  obtain ⟨w', hw', hserved⟩ := served_as_written_iff (P := tablePlatform smallTable)
    (compactValues_compact oneDouble_documented) rfl rfl opens hinput hkey hrun hfile hopen hview
  obtain rfl : w = w' := Option.some.inj (hw.symm.trans hw')
  refine ⟨hrun, hopen, ?_⟩
  unfold tableReply
  refine (hserved servedPath _ hvalue (fun _ => tableServed smallTable) s "secret".toList 0 servedWorker tableRequest hs
    rfl (by decide) (by decide) readable).mpr ?_
  exact ⟨.inl (by decide), trivial⟩

/-- 2^64 is accepted, sealed, opened and served, as another integer. -/
theorem wide_integer_changed :
    runSeal (sampleTool wideTable) (authorMachine "18446744073709551616".toList) sealArgs ⟨none, none⟩ =
      (heldFile wideTable, .ok ()) ∧
    openSealed (Aead.recorded wideTable) (tablePlatform wideTable).fromSlice (heldBytes wideTable) sampleKey none =
      .ok (heldOpened wideTable) ∧
    (∃ w, written (plainFile "18446744073709551616".toList).text = some w ∧
      w.secrets.get servedPath = some (.obj [("n".toList, .num "18446744073709551616".toList)])) ∧
    dataOf (tableReply wideTable).body = some (.obj [("n".toList, .num "1.8446744073709552e+19".toList)]) ∧
    ¬ AsWritten (.obj [("n".toList, .num "18446744073709551616".toList)]) (tableReply wideTable).body := by
  have opens : (tablePlatform wideTable).aead.Opens := Aead.recorded_opens (by decide +kernel)
  obtain ⟨s, hs, -, readable⟩ := tableServed_readable wideTable (by decide +kernel)
  have hraw : s.view.secrets.get servedPath =
      some (Json.obj [("n".toList, .num "1.8446744073709552e+19".toList)]).text := by
    have hget : (tableServed wideTable).map (fun s => s.view.secrets.get servedPath) =
        some (some (Json.obj [("n".toList, .num "1.8446744073709552e+19".toList)]).text) := by decide +kernel
    rw [hs] at hget
    exact Option.some.inj hget
  have hnumeral : Json.isNumeral "1.8446744073709552e+19".toList = true := by decide
  have hdata : dataOf (tableReply wideTable).body =
      some (.obj [("n".toList, .num "1.8446744073709552e+19".toList)]) := by
    unfold tableReply
    exact dataOf_readSecret opens hs (by decide) (by decide) readable hraw ⟨hnumeral, trivial⟩
  refine ⟨by decide +kernel, by decide +kernel, written_plainFile _ (by decide), hdata, ?_⟩
  rintro ⟨value', hvalue, hrel⟩
  rw [hdata] at hvalue
  cases hvalue
  have hsame : SameInteger "18446744073709551616".toList "1.8446744073709552e+19".toList := hrel.2.1
  exact absurd (hsame 18446744073709551616 (by decide)) (by decide)

end Kallisto.Server
