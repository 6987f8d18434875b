import Kallisto.Lib.Json
import Kallisto.Lib.Split
import Kallisto.Server.Request
import Kallisto.Telemetry.AccessLog

/-!
The format of a line, read back. A line is nine fields of the form `name=value` with a blank
between them, written into a buffer that cuts what does not fit; a line that was not cut is
read back as what it was rendered from.
-/
namespace Kallisto.Telemetry
open Lib Kallisto.Crypto Kallisto.Server

/-- An identifier as it may stand in a line: sixteen octets of ASCII and no blank. -/
def Id.Printed (id : Id) : Prop := id.octets.length = ID_LEN ∧ ∀ b ∈ id.octets, b < 0x80 ∧ b ≠ 0x20

theorem Id.none_printed : Id.NONE.Printed := by
  refine ⟨List.length_replicate, ?_⟩
  intro b hb
  rw [List.eq_of_mem_replicate hb]
  decide

theorem nibble_not_blank : ∀ b, nibble b ≠ 0x20 := forall_byte (by decide +kernel)

theorem Id.fromBytes_printed {bytes : Bytes} (h : ID_LEN / 2 ≤ bytes.length) : (Id.fromBytes bytes).Printed := by
  have hlen : (List.replicate ID_LEN (0x30 : UInt8)).length = (bytes.take (ID_LEN / 2)).length * 2 := by
    rw [List.length_replicate, List.length_take, min_eq_left h]
    rfl
  have hhex : (Id.fromBytes bytes).octets = hexBytes (bytes.take (ID_LEN / 2)) := by
    rw [Id.fromBytes, encodeInto, if_neg (not_not.mpr hlen), encodePairs_eq _ _ hlen]
  rw [Id.Printed, hhex, hexBytes_length, List.length_take, min_eq_left h]
  refine ⟨rfl, ?_⟩
  intro b hb
  refine ⟨hexBytes_ascii _ b hb, ?_⟩
  obtain ⟨x, -, hx⟩ := List.mem_flatMap.mp hb
  simp only [List.mem_cons, List.not_mem_nil, or_false] at hx
  rcases hx with rfl | rfl <;> exact nibble_not_blank _

theorem blank_not_mem_ascii {b : Bytes} (h : ∀ x ∈ b, x < 0x80 ∧ x ≠ 0x20) : ' ' ∉ ascii b := by
  have hblank : ∀ x : UInt8, Char.ofNat x.toNat = ' ' → x = 0x20 := forall_byte (by decide +kernel)
  intro hmem
  obtain ⟨x, hx, heq⟩ := List.mem_map.mp hmem
  exact (h x hx).2 (hblank x heq)

theorem parseU64_decimal {n : Nat} (h : n < 2 ^ 64) : parseU64 (decimal n) = some (UInt64.ofNat n) := by
  have hdigits : ∀ c ∈ decimal n, c.isDigit = true := Json.decimal_all_digits n
  have hvalue : (decimal n).foldl (fun n c => n * 10 + (c.toNat - '0'.toNat)) 0 = n := by
    have hfold : (fun (n : Nat) (c : Char) => n * 10 + (c.toNat - '0'.toNat)) =
        fun n c => 10 * n + (c.toNat - '0'.toNat) := by
      funext n c
      rw [Nat.mul_comm]
    rw [hfold, ← Nat.ofDigitChars_eq_foldl]
    exact Nat.ofDigitChars_ten_toDigits
  have hne : decimal n ≠ [] := Nat.toDigits_ne_nil
  unfold parseU64
  extract_lets digits value
  have hsign : digits = decimal n := by
    simp only [digits]
    split
    · rename_i rest heq
      have hplus := hdigits '+' (heq ▸ List.mem_cons_self)
      exact absurd hplus (by decide)
    · rfl
  have hread : value = n := by
    simp only [value, hsign, hvalue]
  rw [hsign, hread, if_pos ⟨hne, List.all_eq_true.mpr hdigits⟩]
  exact if_pos h

/-- ASCII without a blank. -/
def Word (t : Text) : Prop := ∀ c ∈ t, c.val ≤ 127 ∧ c ≠ ' '

instance (t : Text) : Decidable (Word t) := List.decidableBAll (fun c : Char => c.val ≤ 127 ∧ c ≠ ' ') t

namespace Word

theorem unbroken {t : Text} (h : Word t) : ' ' ∉ t := fun hmem => (h ' ' hmem).2 rfl

theorem utf8_length {t : Text} (h : Word t) : (utf8 t).length = t.length := by
  induction t with
  | nil => rfl
  | cons c t ih =>
      have hc := utf8_singleton_of_ascii (h c List.mem_cons_self).1
      rw [utf8_cons, utf8_nil, List.append_nil] at hc
      rw [utf8_cons, hc, List.singleton_append, List.length_cons, List.length_cons,
        ih fun x hx => h x (List.mem_cons_of_mem _ hx)]

theorem decimal (n : Nat) : Word (Lib.decimal n) := by
  intro c hc
  have hdigit := Json.decimal_all_digits n c hc
  simp only [Char.isDigit, Bool.and_eq_true, decide_eq_true_eq] at hdigit
  refine ⟨UInt32.le_trans hdigit.2 (by decide), ?_⟩
  rintro rfl
  exact absurd hdigit.1 (by decide)

end Word

namespace Line

/-- The nine fields as text. -/
def spelled (l : Line) : List Text :=
  ["ts=".toList ++ decimal l.nowMillis.toNat, "seq=".toList ++ decimal l.sequence.toNat,
    "worker=".toList ++ decimal l.worker, "method=".toList ++ l.record.method,
    "action=".toList ++ l.record.action, "path=".toList ++ ascii l.record.path.octets,
    "token=".toList ++ ascii l.record.token.octets, "status=".toList ++ decimal l.record.status.toNat,
    "authz=".toList ++ if l.record.enforced then "on".toList else "off".toList]

def readAuthz (text : Text) : Option Bool :=
  if text = "on".toList then some true else if text = "off".toList then some false else none

/-- Reads a line back: nine fields between blanks, each with its name. -/
def parse (line : Bytes) : Option Line := do
  let text ← fromUtf8 line
  match text.splitOn ' ' with
  | [ts, seq, worker, method, action, path, token, status, authz] =>
      let nowMillis ← (stripPrefix "ts=".toList ts).bind parseU64
      let sequence ← (stripPrefix "seq=".toList seq).bind parseU64
      let worker ← (stripPrefix "worker=".toList worker).bind parseU64
      let method ← stripPrefix "method=".toList method
      let action ← stripPrefix "action=".toList action
      let path ← stripPrefix "path=".toList path
      let token ← stripPrefix "token=".toList token
      let status ← (stripPrefix "status=".toList status).bind parseU64
      let enforced ← (stripPrefix "authz=".toList authz).bind readAuthz
      return ⟨nowMillis, sequence, worker.toNat,
        ⟨method, action, ⟨utf8 path⟩, ⟨utf8 token⟩, status.toUInt16, enforced⟩⟩
  | _ => none

/-- What a request puts into a line: words, identifiers that print, and a worker whose number is
a machine word. -/
structure Plain (l : Line) : Prop where
  worker : l.worker < 2 ^ 64
  method : Word l.record.method
  action : Word l.record.action
  path : l.record.path.Printed
  token : l.record.token.Printed

theorem spelled_unbroken {l : Line} (h : l.Plain) : ∀ piece ∈ l.spelled, ' ' ∉ piece := by
  have hauthz : ' ' ∉ (if l.record.enforced then "on".toList else "off".toList) := by
    cases l.record.enforced <;> decide
  have hpath := blank_not_mem_ascii h.path.2
  have htoken := blank_not_mem_ascii h.token.2
  have hjoin : ∀ {name value : Text}, ' ' ∉ name → ' ' ∉ value → ' ' ∉ name ++ value := fun hn hv =>
    List.not_mem_append hn hv
  intro piece hpiece
  simp only [spelled, List.mem_cons, List.not_mem_nil, or_false] at hpiece
  rcases hpiece with rfl | rfl | rfl | rfl | rfl | rfl | rfl | rfl | rfl
  · exact hjoin (by decide) (Word.decimal _).unbroken
  · exact hjoin (by decide) (Word.decimal _).unbroken
  · exact hjoin (by decide) (Word.decimal _).unbroken
  · exact hjoin (by decide) h.method.unbroken
  · exact hjoin (by decide) h.action.unbroken
  · exact hjoin (by decide) hpath
  · exact hjoin (by decide) htoken
  · exact hjoin (by decide) (Word.decimal _).unbroken
  · exact hjoin (by decide) hauthz

/-- The fields one after the other are the nine fields with their blanks. -/
theorem flatten_fields {l : Line} (h : l.Plain) : l.fields.flatten = utf8 ([' '].intercalate l.spelled) := by
  have hpath := utf8_ascii fun b hb => (h.path.2 b hb).1
  have htoken := utf8_ascii fun b hb => (h.token.2 b hb).1
  rw [fields, ← hpath, ← htoken]
  simp only [List.flatten_cons, List.flatten_nil, List.append_nil, ← utf8_append]
  apply congrArg utf8
  rw [show " seq=".toList = [' '] ++ "seq=".toList from rfl, show " worker=".toList = [' '] ++ "worker=".toList from rfl,
    show " method=".toList = [' '] ++ "method=".toList from rfl, show " action=".toList = [' '] ++ "action=".toList from rfl,
    show " path=".toList = [' '] ++ "path=".toList from rfl, show " token=".toList = [' '] ++ "token=".toList from rfl,
    show " status=".toList = [' '] ++ "status=".toList from rfl, show " authz=".toList = [' '] ++ "authz=".toList from rfl]
  simp only [spelled, List.intercalate_cons_cons, List.intercalate_singleton, List.append_assoc]

theorem asStr_eq {l : Line} (h : l.Plain) : l.asStr = l.fields.flatten ↔ l.fields.flatten.length ≤ LINE_CAPACITY := by
  constructor
  · intro heq
    rw [← heq]
    exact l.asStr_length
  · intro hfit
    have hwhole : l.render = l.fields.flatten := by
      rw [render_eq, List.take_of_length_le hfit]
    rw [asStr, hwhole, flatten_fields h, fromUtf8_utf8, if_pos Option.isSome_some]

theorem readAuthz_written (enforced : Bool) :
    readAuthz (if enforced then "on".toList else "off".toList) = some enforced := by
  cases enforced <;> decide

/-- The nine fields are read back as the line they were spelled from. -/
theorem parse_flatten {l : Line} (h : l.Plain) : parse l.fields.flatten = some l := by
  have hsplit : ([' '].intercalate l.spelled).splitOn ' ' = l.spelled :=
    List.splitOn_intercalate ' ' (spelled_unbroken h) (List.cons_ne_nil _ _)
  have hts := parseU64_decimal l.nowMillis.toNat_lt
  have hseq := parseU64_decimal l.sequence.toNat_lt
  have hworker := parseU64_decimal h.worker
  have hstatus := parseU64_decimal (l.record.status.toNat_lt.trans (by decide))
  have hpath := utf8_ascii fun b hb => (h.path.2 b hb).1
  have htoken := utf8_ascii fun b hb => (h.token.2 b hb).1
  rw [flatten_fields h, parse, fromUtf8_utf8]
  simp only [Option.bind_eq_bind, Option.bind_some, hsplit]
  simp only [spelled, stripPrefix_append, Option.bind_some, hts, hseq, hworker, hstatus, hpath, htoken,
    readAuthz_written]
  have hword : (UInt64.ofNat l.worker).toNat = l.worker := UInt64.toNat_ofNat_of_lt' h.worker
  have hshort : (UInt64.ofNat l.record.status.toNat).toUInt16 = l.record.status := by
    apply UInt16.toNat_inj.mp
    rw [UInt64.toNat_toUInt16, UInt64.toNat_ofNat_of_lt' (l.record.status.toNat_lt.trans (by decide))]
    exact Nat.mod_eq_of_lt l.record.status.toNat_lt
  rw [UInt64.ofNat_toNat, UInt64.ofNat_toNat, hword, hshort]
  rfl

/-- A line that lost nothing: every field whole and in its place, both identifiers of full
length, and the values read back from it the ones it was rendered from. -/
structure Intact (l : Line) : Prop where
  whole : l.asStr = l.fields.flatten
  path : l.record.path.octets.length = ID_LEN
  token : l.record.token.octets.length = ID_LEN
  readBack : parse l.asStr = some l

/-- The characters of a line that depend on the request, the clock and the worker. -/
def varying (l : Line) : Nat :=
  (decimal l.nowMillis.toNat).length + (decimal l.sequence.toNat).length + (decimal l.worker).length +
    l.record.method.length + l.record.action.length + (decimal l.record.status.toNat).length +
    if l.record.enforced then 2 else 3

/-- The names, the blanks and the two identifiers take ninety-two octets. -/
theorem flatten_length {l : Line} (h : l.Plain) : l.fields.flatten.length = 92 + l.varying := by
  have hauthz : (utf8 (if l.record.enforced then "on".toList else "off".toList)).length =
      if l.record.enforced then 2 else 3 := by
    cases l.record.enforced <;> rfl
  have hnames : (utf8 "ts=".toList).length = 3 ∧ (utf8 " seq=".toList).length = 5 ∧
      (utf8 " worker=".toList).length = 8 ∧ (utf8 " method=".toList).length = 8 ∧
      (utf8 " action=".toList).length = 8 ∧ (utf8 " path=".toList).length = 6 ∧
      (utf8 " token=".toList).length = 7 ∧ (utf8 " status=".toList).length = 8 ∧
      (utf8 " authz=".toList).length = 7 := by decide
  have hpath : l.record.path.octets.length = 16 := h.path.1
  have htoken : l.record.token.octets.length = 16 := h.token.1
  simp only [fields, List.flatten_cons, List.flatten_nil, List.length_append, List.length_nil,
    (Word.decimal _).utf8_length, h.method.utf8_length, h.action.utf8_length, hauthz, hnames, hpath, htoken]
  unfold varying
  clear hnames hauthz hpath htoken
  omega

/-- Whether anything was lost is a matter of length alone. -/
theorem intact_iff_fits {l : Line} (h : l.Plain) : l.Intact ↔ l.varying ≤ 100 := by
  have hroom : l.fields.flatten.length ≤ LINE_CAPACITY ↔ l.varying ≤ 100 := by
    rw [flatten_length h, LINE_CAPACITY]
    omega
  rw [← hroom, ← asStr_eq h]
  constructor
  · exact Intact.whole
  · intro hwhole
    exact ⟨hwhole, h.path.1, h.token.1, hwhole ▸ parse_flatten h⟩

end Line

end Kallisto.Telemetry
