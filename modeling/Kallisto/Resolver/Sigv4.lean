import Kallisto.Lib.Split
import Kallisto.Crypto.Hex
import Kallisto.Server.Rfc3339

/-!
Presigned requests for the bucket: a canonical request, a scope and a string to sign, each
joined from text that may hold the very characters it is joined with. The digests are
parameters; with them injective, the signature is shown to determine every input.
-/
namespace Kallisto.Resolver.Sigv4
open Lib Crypto Server

def ALGORITHM : Text := "AWS4-HMAC-SHA256".toList
def SERVICE : Text := "s3".toList
def TERMINATOR : Text := "aws4_request".toList
def UNSIGNED_PAYLOAD : Text := "UNSIGNED-PAYLOAD".toList

structure SigningInputs where
  accessKeyId : Text
  secretAccessKey : Text
  region : Text
  host : Text
  canonicalUri : Text
  expiresSecs : UInt32
  nowSecs : UInt64
  deriving DecidableEq

/-- SHA-256 and HMAC-SHA256, the key first. -/
structure Digests where
  sha256 : Bytes → Bytes
  hmacSha256 : Bytes → Bytes → Bytes

structure Digests.Injective (D : Digests) : Prop where
  sha256 : Function.Injective D.sha256
  hmacSha256 : Function.Injective2 D.hmacSha256

/-- The date and the timestamp. -/
def stamps (nowSecs : UInt64) : Text × Text :=
  let t := civilFromEpochSecs nowSecs
  let date := padded 4 t.year ++ padded 2 t.month ++ padded 2 t.day.toNat
  let timestamp := date ++ ['T'] ++ padded 2 t.hour.toNat ++ padded 2 t.minute.toNat ++
    padded 2 t.second.toNat ++ ['Z']
  (date, timestamp)

def upperDigit (n : UInt8) : Char := if n < 10 then Char.ofNat (n + 0x30).toNat else Char.ofNat (n - 10 + 0x41).toNat

def isUnreserved (b : UInt8) : Bool :=
  (0x41 ≤ b && b ≤ 0x5A) || (0x61 ≤ b && b ≤ 0x7A) || (0x30 ≤ b && b ≤ 0x39) || b == 0x2D || b == 0x5F ||
    b == 0x2E || b == 0x7E

def encodeByte (encodeSlash : Bool) (b : UInt8) : Text :=
  if isUnreserved b then [Char.ofNat b.toNat]
  else if b == 0x2F && !encodeSlash then ['/']
  else ['%', upperDigit (b >>> 4), upperDigit (b &&& 0x0f)]

def uriEncode (input : Text) (encodeSlash : Bool) : Text := (utf8 input).flatMap (encodeByte encodeSlash)

/-- `char::from_digit` with radix 16. -/
def fromDigit (n : Nat) : Option Char := if n < 16 then some (Json.hexChar n) else none

def hex (bytes : Bytes) : Text :=
  bytes.flatMap fun b : UInt8 => [(fromDigit (b >>> 4).toNat).getD '0', (fromDigit (b &&& 0x0f).toNat).getD '0']

def canonicalQuery (inputs : SigningInputs) (timestamp scope : Text) : Text :=
  let credential := inputs.accessKeyId ++ '/' :: scope
  "X-Amz-Algorithm=".toList ++ ALGORITHM ++ "&X-Amz-Credential=".toList ++ uriEncode credential true ++
    "&X-Amz-Date=".toList ++ timestamp ++ "&X-Amz-Expires=".toList ++ decimal inputs.expiresSecs.toNat ++
    "&X-Amz-SignedHeaders=host".toList

def canonicalRequest (inputs : SigningInputs) (query : Text) : Text :=
  "GET\n".toList ++ inputs.canonicalUri ++ "\n".toList ++ query ++ "\nhost:".toList ++ inputs.host ++
    "\n\nhost\n".toList ++ UNSIGNED_PAYLOAD

def stringToSign (D : Digests) (timestamp scope canonical : Text) : Text :=
  ALGORITHM ++ "\n".toList ++ timestamp ++ "\n".toList ++ scope ++ "\n".toList ++ hex (D.sha256 (utf8 canonical))

def sign (D : Digests) (inputs : SigningInputs) (date toSign : Text) : Text :=
  let seed := "AWS4".toList ++ inputs.secretAccessKey
  let kDate := D.hmacSha256 (utf8 seed) (utf8 date)
  let kRegion := D.hmacSha256 kDate (utf8 inputs.region)
  let kService := D.hmacSha256 kRegion (utf8 SERVICE)
  let kSigning := D.hmacSha256 kService (utf8 TERMINATOR)
  hex (D.hmacSha256 kSigning (utf8 toSign))

def presignQuery (D : Digests) (inputs : SigningInputs) : Text :=
  let (date, timestamp) := stamps inputs.nowSecs
  let scope := date ++ "/".toList ++ inputs.region ++ "/".toList ++ SERVICE ++ "/".toList ++ TERMINATOR
  let query := canonicalQuery inputs timestamp scope
  let canonical := canonicalRequest inputs query
  let toSign := stringToSign D timestamp scope canonical
  let signature := sign D inputs date toSign
  query ++ "&X-Amz-Signature=".toList ++ signature

structure BucketConfig where
  bucket : Text
  objectKey : Text
  pathStyle : Bool

def canonicalUri (config : BucketConfig) : Text :=
  let key := uriEncode config.objectKey false
  if config.pathStyle then '/' :: (uriEncode config.bucket false ++ '/' :: key) else '/' :: key

/-- The value of a parameter of a query string. -/
def queryParam (name query : Text) : Option Text :=
  (query.splitOn '&').findSome? fun piece => stripPrefix (name ++ ['=']) piece

/-- A character that neither ends a line nor a parameter. -/
def Plain (c : Char) : Prop := c ≠ '\n' ∧ c ≠ '&'

instance (c : Char) : Decidable (Plain c) := inferInstanceAs (Decidable (_ ∧ _))

theorem plain_digit {c : Char} (h : c.isDigit = true) : Plain c := by
  constructor <;> rintro rfl <;> exact absurd h (by decide)

section Encoding

def upperValue (c : Char) : UInt8 := UInt8.ofNat (if c.toNat < 0x41 then c.toNat - 0x30 else c.toNat - 0x41 + 10)

/-- The octet a percent-encoded text starts with. -/
def decodeByte : Text → Option (UInt8 × Text)
  | '%' :: h :: l :: s => some (upperValue h <<< 4 ||| upperValue l, s)
  | c :: s => some (UInt8.ofNat c.toNat, s)
  | [] => none

theorem encodeByte_table : ∀ b : UInt8,
    (isUnreserved b = true → Char.ofNat b.toNat ≠ '%' ∧ UInt8.ofNat (Char.ofNat b.toNat).toNat = b) ∧
      upperValue (upperDigit (b >>> 4)) <<< 4 ||| upperValue (upperDigit (b &&& 0x0f)) = b ∧
      (encodeByte true b).all (fun c => decide (Plain c)) = true ∧
      (encodeByte false b).all (fun c => decide (Plain c)) = true :=
  forall_byte (by decide +kernel)

theorem decodeByte_of_ne {c : Char} (h : c ≠ '%') (s : Text) : decodeByte (c :: s) = some (UInt8.ofNat c.toNat, s) := by
  unfold decodeByte
  split
  · rename_i heq
    exact absurd (List.cons.inj heq).1 h
  · rename_i heq
    obtain ⟨rfl, rfl⟩ := List.cons.inj heq
    rfl
  · rename_i heq
    cases heq

theorem decodeByte_encodeByte (encodeSlash : Bool) (b : UInt8) (s : Text) :
    decodeByte (encodeByte encodeSlash b ++ s) = some (b, s) := by
  obtain ⟨hplain, hescaped, -⟩ := encodeByte_table b
  unfold encodeByte
  split_ifs with hu hslash
  · rw [List.singleton_append, decodeByte_of_ne (hplain hu).1, (hplain hu).2]
  · obtain ⟨hb, -⟩ := Bool.and_eq_true_iff.mp hslash
    obtain rfl : b = 0x2F := eq_of_beq hb
    rw [List.singleton_append, decodeByte_of_ne (by decide)]
    rfl
  · rw [List.cons_append, List.cons_append, List.singleton_append, decodeByte, hescaped]

theorem uriEncode_injective {s t : Text} {encodeSlash : Bool} (h : uriEncode s encodeSlash = uriEncode t encodeSlash) :
    s = t :=
  utf8_injective (flatMap_injective decodeByte (decodeByte_encodeByte encodeSlash) rfl h)

theorem uriEncode_plain (s : Text) (encodeSlash : Bool) : ∀ c ∈ uriEncode s encodeSlash, Plain c := by
  intro c hc
  obtain ⟨b, -, hb⟩ := List.mem_flatMap.mp hc
  obtain ⟨-, -, htrue, hfalse⟩ := encodeByte_table b
  cases encodeSlash with
  | true => exact of_decide_eq_true (List.all_eq_true.mp htrue c hb)
  | false => exact of_decide_eq_true (List.all_eq_true.mp hfalse c hb)

/-- The octet two hex digits stand for. -/
def readHex : Text → Option (UInt8 × Text)
  | h :: l :: s => some (UInt8.ofNat ((Json.hexDigit h).getD 0 * 16 + (Json.hexDigit l).getD 0), s)
  | _ => none

theorem hex_injective {a b : Bytes} (h : hex a = hex b) : a = b := by
  have table : ∀ b : UInt8, UInt8.ofNat ((Json.hexDigit ((fromDigit (b >>> 4).toNat).getD '0')).getD 0 * 16 +
      (Json.hexDigit ((fromDigit (b &&& 0x0f).toNat).getD '0')).getD 0) = b := forall_byte (by decide +kernel)
  refine flatMap_injective readHex (fun b s => ?_) rfl h
  simp only [List.cons_append, List.nil_append, readHex, table]

theorem decimal_injective {m n : Nat} (h : decimal m = decimal n) : m = n := by
  have hm : Nat.ofDigitChars 10 (decimal m) 0 = m := Nat.ofDigitChars_ten_toDigits
  have hn : Nat.ofDigitChars 10 (decimal n) 0 = n := Nat.ofDigitChars_ten_toDigits
  rw [← hm, h, hn]

end Encoding

section Stamps

theorem timestamp_plain (nowSecs : UInt64) : ∀ c ∈ (stamps nowSecs).2, Plain c := by
  obtain ⟨y, m, hy, hm, -, -⟩ := (civil_valid nowSecs).fields (le_trans (by decide) (civil_year nowSecs))
  intro c hc
  simp only [stamps, hy, hm, List.mem_append, List.mem_singleton] at hc
  rcases hc with (((((((hc | hc) | hc) | rfl) | hc) | hc) | hc) | rfl)
  · exact plain_digit (padded_digits c hc)
  · exact plain_digit (padded_digits c hc)
  · exact plain_digit (padded_digits c hc)
  · decide
  · exact plain_digit (padded_digits c hc)
  · exact plain_digit (padded_digits c hc)
  · exact plain_digit (padded_digits c hc)
  · decide

/-- All fields but the year have a fixed width, so they are cut off from the right. -/
theorem timestamp_injective {a b : UInt64} (h : (stamps a).2 = (stamps b).2) : a = b := by
  have hva := civil_valid a
  have hvb := civil_valid b
  obtain ⟨y, m, hy, hm, hm100, hd100⟩ := hva.fields (le_trans (by decide) (civil_year a))
  obtain ⟨y', m', hy', hm', hm100', hd100'⟩ := hvb.fields (le_trans (by decide) (civil_year b))
  have htwo : ∀ {k l : Nat}, k < 100 → l < 100 → (padded 2 (k : Int)).length = (padded 2 (l : Int)).length :=
    fun hk hl => (padded_length (by decide) hk).trans (padded_length (by decide) hl).symm
  have hha := hva.hour
  have hma := hva.minute
  have hsa := hva.second
  have hhb := hvb.hour
  have hmb := hvb.minute
  have hsb := hvb.second
  simp only [stamps, hy, hm, hy', hm'] at h
  obtain ⟨h, -⟩ := List.append_inj' h rfl
  obtain ⟨h, hsecond⟩ := List.append_inj' h (htwo (by omega) (by omega))
  obtain ⟨h, hminute⟩ := List.append_inj' h (htwo (by omega) (by omega))
  obtain ⟨h, hhour⟩ := List.append_inj' h (htwo (by omega) (by omega))
  obtain ⟨h, -⟩ := List.append_inj' h rfl
  obtain ⟨h, hday⟩ := List.append_inj' h (htwo hd100 hd100')
  obtain ⟨hyear, hmonth⟩ := List.append_inj' h (htwo hm100 hm100')
  have hsecs : (civilFromEpochSecs a).epochSecs = (civilFromEpochSecs b).epochSecs := by
    simp only [CivilTime.epochSecs, CivilTime.date, hy, hm, hy', hm', padded_inj hyear, padded_inj hmonth,
      padded_inj hday, padded_inj hhour, padded_inj hminute, padded_inj hsecond]
  rw [civil_epochSecs, civil_epochSecs] at hsecs
  exact UInt64.toNat.inj (Int.ofNat.inj hsecs)

end Stamps

section Joined
variable {D : Digests} {i j : SigningInputs}

def scopeOf (inputs : SigningInputs) : Text :=
  (stamps inputs.nowSecs).1 ++ "/".toList ++ inputs.region ++ "/".toList ++ SERVICE ++ "/".toList ++ TERMINATOR

def queryOf (inputs : SigningInputs) : Text :=
  canonicalQuery inputs (stamps inputs.nowSecs).2 (scopeOf inputs)

/-- What a presigned query ends with. -/
def signatureOf (D : Digests) (inputs : SigningInputs) : Text :=
  sign D inputs (stamps inputs.nowSecs).1
    (stringToSign D (stamps inputs.nowSecs).2 (scopeOf inputs) (canonicalRequest inputs (queryOf inputs)))

/-- The parameters of the canonical query. -/
def params (inputs : SigningInputs) : List Text :=
  ["X-Amz-Algorithm=".toList ++ ALGORITHM,
    "X-Amz-Credential=".toList ++ uriEncode (inputs.accessKeyId ++ '/' :: scopeOf inputs) true,
    "X-Amz-Date=".toList ++ (stamps inputs.nowSecs).2,
    "X-Amz-Expires=".toList ++ decimal inputs.expiresSecs.toNat,
    "X-Amz-SignedHeaders=host".toList]

theorem queryOf_eq (inputs : SigningInputs) : queryOf inputs = ['&'].intercalate (params inputs) := by
  have hjoin : ∀ a b c d e f g h k : Text,
      a ++ b ++ '&' :: c ++ d ++ '&' :: e ++ f ++ '&' :: g ++ h ++ '&' :: k =
        ['&'].intercalate [a ++ b, c ++ d, e ++ f, g ++ h, k] := by
    intro a b c d e f g h k
    simp only [intercalate_cons, ne_eq, reduceCtorEq, not_false_eq_true, List.intercalate_singleton,
      List.append_assoc, List.cons_append]
  exact hjoin _ _ _ _ _ _ _ _ _

theorem params_plain (inputs : SigningInputs) : ∀ piece ∈ params inputs, '\n' ∉ piece ∧ '&' ∉ piece := by
  have hplain : ∀ {t : Text}, (∀ c ∈ t, Plain c) → '\n' ∉ t ∧ '&' ∉ t :=
    fun h => ⟨fun hm => (h _ hm).1 rfl, fun hm => (h _ hm).2 rfl⟩
  have hjoin : ∀ {c : Char} {s t : Text}, c ∉ s → c ∉ t → c ∉ s ++ t :=
    fun hs ht hm => (List.mem_append.mp hm).elim hs ht
  have henc := hplain (uriEncode_plain (inputs.accessKeyId ++ '/' :: scopeOf inputs) true)
  have hdate := hplain (timestamp_plain inputs.nowSecs)
  have hexp := hplain fun c hc => plain_digit (Json.decimal_all_digits inputs.expiresSecs.toNat c hc)
  intro piece hpiece
  simp only [params, List.mem_cons, List.not_mem_nil, or_false] at hpiece
  rcases hpiece with rfl | rfl | rfl | rfl | rfl
  · exact ⟨by decide, by decide⟩
  · exact ⟨hjoin (by decide) henc.1, hjoin (by decide) henc.2⟩
  · exact ⟨hjoin (by decide) hdate.1, hjoin (by decide) hdate.2⟩
  · exact ⟨hjoin (by decide) hexp.1, hjoin (by decide) hexp.2⟩
  · exact ⟨by decide, by decide⟩

theorem queryOf_no_newline (inputs : SigningInputs) : '\n' ∉ queryOf inputs := by
  rw [queryOf_eq]
  exact not_mem_intercalate (by decide) fun piece hp => (params_plain inputs piece hp).1

/-- The canonical query determines the credential and the lifetime. -/
theorem queryOf_inj (h : queryOf i = queryOf j) :
    i.accessKeyId ++ '/' :: scopeOf i = j.accessKeyId ++ '/' :: scopeOf j ∧ i.expiresSecs = j.expiresSecs := by
  have hsplit : ∀ inputs, (queryOf inputs).splitOn '&' = params inputs := by
    intro inputs
    rw [queryOf_eq, List.splitOn_intercalate _ (fun piece hp => (params_plain inputs piece hp).2) (List.cons_ne_nil _ _)]
  have hparams : params i = params j := by rw [← hsplit, ← hsplit, h]
  obtain ⟨-, hparams⟩ := List.cons.inj hparams
  obtain ⟨hcredential, hparams⟩ := List.cons.inj hparams
  obtain ⟨-, hparams⟩ := List.cons.inj hparams
  obtain ⟨hexpires, -⟩ := List.cons.inj hparams
  refine ⟨uriEncode_injective (List.append_cancel_left hcredential), UInt32.toNat.inj ?_⟩
  exact decimal_injective (List.append_cancel_left hexpires)

/-- The canonical request is cut at its first newlines; the host is what stands between two
constants. -/
theorem canonicalRequest_inj (hi : '\n' ∉ i.canonicalUri) (hj : '\n' ∉ j.canonicalUri)
    (h : canonicalRequest i (queryOf i) = canonicalRequest j (queryOf j)) :
    i.canonicalUri = j.canonicalUri ∧ queryOf i = queryOf j ∧ i.host = j.host := by
  have hjoin : ∀ a b c d e f g : Text, a ++ b ++ ['\n'] ++ c ++ '\n' :: d ++ e ++ f ++ g =
      a ++ (b ++ '\n' :: (c ++ '\n' :: (d ++ (e ++ (f ++ g))))) := by
    intro a b c d e f g
    simp only [List.append_assoc, List.cons_append, List.nil_append]
  have heq : ∀ inputs, canonicalRequest inputs (queryOf inputs) = "GET\n".toList ++ (inputs.canonicalUri ++ '\n' ::
      (queryOf inputs ++ '\n' :: ("host:".toList ++ (inputs.host ++ ("\n\nhost\n".toList ++ UNSIGNED_PAYLOAD))))) :=
    fun inputs => hjoin _ _ _ _ _ _ _
  rw [heq, heq] at h
  obtain ⟨huri, h⟩ := append_sep_inj hi hj (List.append_cancel_left h)
  obtain ⟨hquery, h⟩ := append_sep_inj (queryOf_no_newline i) (queryOf_no_newline j) h
  exact ⟨huri, hquery, List.append_cancel_right (List.append_cancel_left h)⟩

theorem stringToSign_inj (hD : D.Injective) {ts ts' scope canonical canonical' : Text} (hts : '\n' ∉ ts)
    (hts' : '\n' ∉ ts') (h : stringToSign D ts scope canonical = stringToSign D ts' scope canonical') :
    ts = ts' ∧ canonical = canonical' := by
  have hjoin : ∀ a b c d : Text, a ++ ['\n'] ++ b ++ ['\n'] ++ c ++ ['\n'] ++ d =
      (a ++ ['\n']) ++ (b ++ '\n' :: (c ++ (['\n'] ++ d))) := by
    intro a b c d
    simp only [List.append_assoc, List.cons_append, List.nil_append]
  have heq : ∀ ts canonical, stringToSign D ts scope canonical = (ALGORITHM ++ ['\n']) ++
      (ts ++ '\n' :: (scope ++ (['\n'] ++ hex (D.sha256 (utf8 canonical))))) := fun ts canonical => hjoin _ _ _ _
  rw [heq, heq] at h
  obtain ⟨htime, h⟩ := append_sep_inj hts hts' (List.append_cancel_left h)
  have hdigest := hex_injective (List.append_cancel_left (List.append_cancel_left h))
  exact ⟨htime, utf8_injective (hD.sha256 hdigest)⟩

/-- The key derivation gives back the secret, the date and the region. -/
theorem sign_inj (hD : D.Injective) {date date' toSign toSign' : Text}
    (h : sign D i date toSign = sign D j date' toSign') :
    i.secretAccessKey = j.secretAccessKey ∧ date = date' ∧ i.region = j.region ∧ toSign = toSign' := by
  obtain ⟨hsigning, hmessage⟩ := hD.hmacSha256 (hex_injective h)
  obtain ⟨hservice, -⟩ := hD.hmacSha256 hsigning
  obtain ⟨hregion, -⟩ := hD.hmacSha256 hservice
  obtain ⟨hdate, hregion⟩ := hD.hmacSha256 hregion
  obtain ⟨hseed, hdate⟩ := hD.hmacSha256 hdate
  exact ⟨List.append_cancel_left (utf8_injective hseed), utf8_injective hdate, utf8_injective hregion,
    utf8_injective hmessage⟩

theorem signatureOf_inj (hD : D.Injective) (hi : '\n' ∉ i.canonicalUri) (hj : '\n' ∉ j.canonicalUri)
    (h : signatureOf D i = signatureOf D j) : i = j := by
  obtain ⟨hsecret, hdate, hregion, hsign⟩ := sign_inj hD h
  have hscope : scopeOf i = scopeOf j := by
    rw [scopeOf, scopeOf, hdate, hregion]
  rw [hscope] at hsign
  obtain ⟨htime, hcanonical⟩ := stringToSign_inj hD (fun hm => (timestamp_plain _ _ hm).1 rfl)
    (fun hm => (timestamp_plain _ _ hm).1 rfl) hsign
  obtain ⟨huri, hquery, hhost⟩ := canonicalRequest_inj hi hj hcanonical
  obtain ⟨hcredential, hexpires⟩ := queryOf_inj hquery
  rw [hscope] at hcredential
  have hkey := List.append_cancel_right hcredential
  have hnow := timestamp_injective htime
  cases i
  cases j
  simp only at hsecret hregion huri hhost hexpires hkey hnow
  simp only [hsecret, hregion, huri, hhost, hexpires, hkey, hnow]

end Joined

theorem hex_plain (bytes : Bytes) : ∀ c ∈ hex bytes, Plain c := by
  have table : ∀ b : UInt8, ([(fromDigit (b >>> 4).toNat).getD '0', (fromDigit (b &&& 0x0f).toNat).getD '0'] :
      Text).all (fun c => decide (Plain c)) = true := forall_byte (by decide +kernel)
  intro c hc
  obtain ⟨b, -, hb⟩ := List.mem_flatMap.mp hc
  exact of_decide_eq_true (List.all_eq_true.mp (table b) c hb)

theorem presignQuery_eq (D : Digests) (inputs : SigningInputs) : presignQuery D inputs =
    ['&'].intercalate (params inputs ++ ["X-Amz-Signature=".toList ++ signatureOf D inputs]) := by
  have hjoin : ∀ a b c : Text, a ++ '&' :: b ++ c = a ++ '&' :: (b ++ c) := by
    intro a b c
    rw [List.append_assoc, List.cons_append]
  have hne : params inputs ≠ [] := List.cons_ne_nil _ _
  rw [intercalate_concat hne, ← queryOf_eq]
  exact hjoin _ _ _

/-- The parameter that carries the signature holds it and nothing else. -/
theorem queryParam_signature (D : Digests) (inputs : SigningInputs) :
    queryParam "X-Amz-Signature".toList (presignQuery D inputs) = some (signatureOf D inputs) := by
  have hpieces : ∀ piece ∈ params inputs ++ ["X-Amz-Signature=".toList ++ signatureOf D inputs], '&' ∉ piece := by
    intro piece hpiece
    rcases List.mem_append.mp hpiece with hp | hp
    · exact (params_plain inputs piece hp).2
    · rw [List.mem_singleton.mp hp, List.mem_append, not_or]
      exact ⟨by decide, fun hm => (hex_plain _ _ hm).2 rfl⟩
  rw [queryParam, presignQuery_eq, List.splitOn_intercalate _ hpieces (by simp), List.findSome?_append]
  have hothers : ((params inputs).findSome? fun piece => stripPrefix ("X-Amz-Signature".toList ++ ['=']) piece) =
      none := rfl
  have hlast : stripPrefix ("X-Amz-Signature".toList ++ ['='])
      ("X-Amz-Signature=".toList ++ signatureOf D inputs) = some (signatureOf D inputs) :=
    stripPrefix_eq_some.mpr rfl
  rw [hothers, List.findSome?_singleton, hlast, Option.none_or]

/-- What `canonical_uri` builds has no newline. -/
theorem canonicalUri_no_newline (config : BucketConfig) : '\n' ∉ canonicalUri config := by
  have hkey : ∀ s, '\n' ∉ uriEncode s false := fun s h => (uriEncode_plain s false _ h).1 rfl
  unfold canonicalUri
  split_ifs
  · simp only [List.mem_cons, List.mem_append, not_or]
    exact ⟨by decide, hkey _, by decide, hkey _⟩
  · rw [List.mem_cons, not_or]
    exact ⟨by decide, hkey _⟩

/-- Equal signatures come from equal inputs: secret, key id, region, host, path, lifetime and
second. -/
theorem signature_covers_inputs {D : Digests} (hD : D.Injective) :
    (∀ config, '\n' ∉ canonicalUri config) ∧
      ∀ i j : SigningInputs, '\n' ∉ i.canonicalUri → '\n' ∉ j.canonicalUri →
        queryParam "X-Amz-Signature".toList (presignQuery D i) =
          queryParam "X-Amz-Signature".toList (presignQuery D j) → i = j := by
  refine ⟨canonicalUri_no_newline, fun i j hi hj h => signatureOf_inj hD hi hj ?_⟩
  rw [queryParam_signature, queryParam_signature] at h
  exact Option.some.inj h

section Recorded
variable {α : Type} [DecidableEq α] {table : List (α × Bytes)} {other : α → Bytes}

/-- A digest known on a table of inputs, something longer elsewhere. -/
def recordedDigest (table : List (α × Bytes)) (other : α → Bytes) (x : α) : Bytes :=
  ((table.find? fun e => e.1 = x).map Prod.snd).getD (other x)

theorem recordedDigest_cases (table : List (α × Bytes)) (other : α → Bytes) (x : α) :
    (∃ e ∈ table, e.1 = x ∧ recordedDigest table other x = e.2) ∨ recordedDigest table other x = other x := by
  unfold recordedDigest
  cases h : table.find? fun e => e.1 = x with
  | none => exact .inr rfl
  | some e => exact .inl ⟨e, List.mem_of_find?_eq_some h, by simpa using List.find?_some h, rfl⟩

theorem recordedDigest_injective (hother : Function.Injective other) (hlong : ∀ x, 32 < (other x).length)
    (hshort : ∀ e ∈ table, e.2.length = 32) (htable : ∀ e ∈ table, ∀ f ∈ table, e.2 = f.2 → e.1 = f.1) :
    Function.Injective (recordedDigest table other) := by
  intro x y h
  rcases recordedDigest_cases table other x with ⟨e, he, rfl, hx⟩ | hx <;>
    rcases recordedDigest_cases table other y with ⟨f, hf, rfl, hy⟩ | hy <;> rw [hx, hy] at h
  · exact htable e he f hf h
  · exact absurd ((hshort e he).symm.trans (congrArg List.length h)) (hlong y).ne
  · exact absurd ((hshort f hf).symm.trans (congrArg List.length h.symm)) (hlong x).ne
  · exact hother h

end Recorded

/-- A pair of octet strings as one, longer than any digest. -/
def pairBytes (p : Bytes × Bytes) : Bytes :=
  List.replicate 33 0 ++ (List.replicate p.1.length 1 ++ 0 :: (p.1 ++ p.2))

theorem pairBytes_injective : Function.Injective pairBytes := by
  rintro ⟨k, m⟩ ⟨k', m'⟩ h
  have hones : ∀ n, (0 : UInt8) ∉ List.replicate n 1 := fun n h0 => absurd (List.eq_of_mem_replicate h0) (by decide)
  obtain ⟨hlen, h⟩ := append_sep_inj (hones _) (hones _) (List.append_cancel_left h)
  have hkeys := congrArg List.length hlen
  rw [List.length_replicate, List.length_replicate] at hkeys
  obtain ⟨rfl, rfl⟩ := List.append_inj h hkeys
  rfl

/-- The request of the source's own tests, and the same with another host. -/
def exampleInputs : SigningInputs where
  accessKeyId := "AKIDEXAMPLE".toList
  secretAccessKey := "wJalrXUtnFEMI/K7MDENG+bPxRfiCYEXAMPLEKEY".toList
  region := "us-east-1".toList
  host := "examplebucket.s3.amazonaws.com".toList
  canonicalUri := "/test.txt".toList
  expiresSecs := 86400
  nowSecs := 1440938160

def evilInputs : SigningInputs := { exampleInputs with host := "evil.example.com".toList }

def exampleQuery : Text :=
  "X-Amz-Algorithm=AWS4-HMAC-SHA256&X-Amz-Credential=AKIDEXAMPLE%2F20150830%2Fus-east-1%2Fs3%2Faws4_request".toList ++
    "&X-Amz-Date=20150830T123600Z&X-Amz-Expires=86400&X-Amz-SignedHeaders=host".toList

def exampleRequest (host : String) : Bytes :=
  utf8 ("GET\n/test.txt\n".toList ++ exampleQuery ++ "\nhost:".toList ++ host.toList ++
    "\n\nhost\nUNSIGNED-PAYLOAD".toList)

def exampleToSign (digest : String) : Bytes :=
  utf8 ("AWS4-HMAC-SHA256\n20150830T123600Z\n20150830/us-east-1/s3/aws4_request\n".toList ++ digest.toList)

def exampleDateKey : Bytes :=
  [1, 56, 199, 166, 203, 214, 10, 167, 39, 178, 246, 83, 165, 34, 86, 116, 57, 223, 185, 243, 231, 43,
    33, 249, 178, 89, 65, 164, 47, 4, 167, 205]

def exampleRegionKey : Bytes :=
  [243, 61, 88, 8, 80, 75, 243, 72, 18, 229, 250, 222, 99, 48, 139, 66, 75, 36, 76, 89, 24, 155,
    226, 165, 145, 221, 34, 130, 199, 203, 86, 63]

def exampleServiceKey : Bytes :=
  [2, 127, 173, 32, 98, 249, 245, 168, 137, 114, 146, 44, 252, 24, 21, 14, 160, 71, 67, 56, 209, 141,
    50, 213, 165, 192, 16, 88, 66, 55, 159, 105]

def exampleSigningKey : Bytes :=
  [50, 247, 128, 81, 220, 222, 36, 197, 82, 129, 29, 101, 79, 74, 118, 145, 18, 187, 131, 75, 3, 151,
    92, 221, 107, 31, 215, 209, 98, 72, 194, 105]

/-- SHA-256 of the two requests. -/
def exampleHashes : List (Bytes × Bytes) :=
  [(exampleRequest "examplebucket.s3.amazonaws.com",
      [185, 126, 10, 43, 255, 241, 1, 150, 116, 82, 51, 10, 48, 158, 28, 116, 134, 100, 12, 35, 251, 86,
    12, 224, 45, 243, 92, 185, 245, 172, 214, 230]),
    (exampleRequest "evil.example.com",
      [117, 63, 3, 46, 248, 165, 64, 8, 178, 57, 155, 214, 34, 169, 212, 12, 206, 252, 127, 253, 177, 63,
    82, 1, 27, 225, 249, 215, 96, 156, 234, 96])]

/-- HMAC-SHA256 along the key derivation and over the two strings to sign. -/
def exampleTags : List ((Bytes × Bytes) × Bytes) :=
  [((utf8 "AWS4wJalrXUtnFEMI/K7MDENG+bPxRfiCYEXAMPLEKEY".toList, utf8 "20150830".toList), exampleDateKey),
    ((exampleDateKey, utf8 "us-east-1".toList), exampleRegionKey),
    ((exampleRegionKey, utf8 "s3".toList), exampleServiceKey),
    ((exampleServiceKey, utf8 "aws4_request".toList), exampleSigningKey),
    ((exampleSigningKey, exampleToSign "b97e0a2bfff101967452330a309e1c7486640c23fb560ce02df35cb9f5acd6e6"),
      [34, 249, 93, 9, 176, 25, 8, 3, 22, 143, 216, 170, 69, 125, 248, 166, 61, 162, 150, 134, 121, 169,
    219, 82, 45, 195, 237, 227, 196, 136, 252, 111]),
    ((exampleSigningKey, exampleToSign "753f032ef8a54008b2399bd622a9d40ccefc7ffdb13f52011be1f9d7609cea60"),
      [72, 161, 211, 243, 194, 183, 4, 31, 97, 129, 106, 245, 200, 1, 86, 13, 81, 16, 139, 232, 26, 9,
    223, 6, 197, 213, 41, 164, 179, 159, 58, 6])]

def exampleDigests : Digests where
  sha256 := recordedDigest exampleHashes fun x => pairBytes ([], x)
  hmacSha256 k m := recordedDigest exampleTags pairBytes (k, m)

theorem exampleDigests_injective : exampleDigests.Injective := by
  have hlong : ∀ p, 32 < (pairBytes p).length := by
    intro p
    simp only [pairBytes, List.length_append, List.length_replicate]
    omega
  constructor
  · refine recordedDigest_injective (fun x y h => ?_) (fun x => hlong _) (by decide +kernel) (by decide +kernel)
    exact (Prod.mk.inj (pairBytes_injective h)).2
  · intro k k' m m' h
    exact Prod.mk.inj (recordedDigest_injective pairBytes_injective hlong (by decide +kernel) (by decide +kernel) h)

theorem signature_covers_inputs_sample :
    queryParam "X-Amz-Signature".toList (presignQuery exampleDigests exampleInputs) =
        some "22f95d09b0190803168fd8aa457df8a63da2968679a9db522dc3ede3c488fc6f".toList ∧
      queryParam "X-Amz-Signature".toList (presignQuery exampleDigests evilInputs) ≠
        queryParam "X-Amz-Signature".toList (presignQuery exampleDigests exampleInputs) := by
  refine ⟨by decide +kernel, fun h => ?_⟩
  have heq := (signature_covers_inputs exampleDigests_injective).2 evilInputs exampleInputs (by decide) (by decide) h
  exact absurd (congrArg SigningInputs.host heq) (by decide)

end Kallisto.Resolver.Sigv4
