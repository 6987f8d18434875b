import Kallisto.Lib.Text
import Mathlib.Tactic.IntervalCases

/-!
Hex as `kallisto_crypto::hex` reads and writes it. The reader trims, takes either case and
fills a caller's buffer; the writer is lower case only. So a text decodes to `h` exactly
when its trimmed lower-case form is the encoding of `h`.
-/
namespace Kallisto.Crypto
open Lib

inductive HexError where
  | wrongLength (expected got : Nat)
  | notHex (position : Nat)
  deriving DecidableEq, Repr

def digit (c : UInt8) : Option UInt8 :=
  if 0x30 ≤ c ∧ c ≤ 0x39 then some (c - 0x30)
  else if 0x61 ≤ c ∧ c ≤ 0x66 then some (c - 0x61 + 10)
  else if 0x41 ≤ c ∧ c ≤ 0x46 then some (c - 0x41 + 10)
  else none

/-- The loop over pairs of digits, `i` pairs in. A failure leaves the octets after the
last good pair as the caller had them. -/
def decodePairs (i : Nat) : Bytes → Bytes → Bytes × Except HexError Unit
  | a :: b :: text, x :: out =>
      match digit a with
      | none => (x :: out, .error (.notHex (i * 2)))
      | some hi =>
          match digit b with
          | none => (x :: out, .error (.notHex (i * 2 + 1)))
          | some lo =>
              let rest := decodePairs (i + 1) text out
              ((hi <<< 4 ||| lo) :: rest.1, rest.2)
  | _, out => (out, .ok ())

def decodeInto (text : Text) (out : Bytes) : Bytes × Except HexError Unit :=
  let text := utf8 (trim text)
  if text.length ≠ out.length * 2 then (out, .error (.wrongLength (out.length * 2) text.length))
  else decodePairs 0 text out

def NIBBLE : Bytes := "0123456789abcdef".toUTF8.data.toList

def nibble (n : UInt8) : UInt8 := NIBBLE.getD n.toNat 0

def encodePairs : Bytes → Bytes → Bytes
  | b :: bytes, _ :: _ :: out => nibble (b >>> 4) :: nibble (b &&& 0x0f) :: encodePairs bytes out
  | _, out => out

def encodeInto (bytes out : Bytes) : Bytes :=
  if out.length ≠ bytes.length * 2 then out else encodePairs bytes out

def encode (bytes : Bytes) : Text :=
  (fromUtf8 (encodeInto bytes (List.replicate (bytes.length * 2) 0))).getD []

theorem decodePairs_length (i : Nat) (text out : Bytes) :
    (decodePairs i text out).1.length = out.length := by
  fun_induction decodePairs i text out with
  | case1 => rfl
  | case2 => rfl
  | case3 i a b text x out hi ha lo hb rest ih => simpa using ih
  | case4 => rfl

theorem decodeInto_length (text : Text) (out : Bytes) : (decodeInto text out).1.length = out.length := by
  simp only [decodeInto]
  split_ifs
  · rfl
  · exact decodePairs_length 0 _ out

/-- A fresh zeroed array of `n` octets, filled from `text` or dropped. -/
def decodeArray (n : Nat) (text : Text) : Except HexError (ByteVec n) :=
  (decodeInto text (List.replicate n 0)).2.map fun _ =>
    ⟨(decodeInto text (List.replicate n 0)).1, by rw [decodeInto_length, List.length_replicate]⟩

/-- What an octet becomes when the text around it is put in lower case. -/
def lowerByte (b : UInt8) : UInt8 := if 0x41 ≤ b ∧ b ≤ 0x5A then b + 0x20 else b

/-- The octets `encode` writes. -/
def hexBytes (bytes : Bytes) : Bytes := bytes.flatMap fun b : UInt8 => [nibble (b >>> 4), nibble (b &&& 0x0f)]

theorem forall_byte {P : UInt8 → Prop} (h : ∀ n : Fin 256, P (UInt8.ofFin n)) (b : UInt8) : P b := by
  have hb := h b.toFin
  rwa [UInt8.ofFin_toFin] at hb

/-- The codes of the characters a hex text may hold. -/
def hexCodes : List Nat :=
  [48, 49, 50, 51, 52, 53, 54, 55, 56, 57, 97, 98, 99, 100, 101, 102, 65, 66, 67, 68, 69, 70]

theorem digit_table : ∀ a, digit (lowerByte a) = digit a ∧ (∀ d ∈ digit a, d < 16 ∧ nibble d = lowerByte a) ∧
    ((digit a).isNone = true ↔ a.toNat ∉ hexCodes) :=
  forall_byte (by decide +kernel)

theorem nibble_table : ∀ b : UInt8, nibble b < 0x80 ∧ digit (nibble (b >>> 4)) = some (b >>> 4) ∧
    digit (nibble (b &&& 0x0f)) = some (b &&& 0x0f) ∧ (b >>> 4) <<< 4 ||| (b &&& 0x0f) = b :=
  forall_byte (by decide +kernel)

theorem nibble_ascii (b : UInt8) : nibble b < 0x80 := (nibble_table b).1

theorem digit_lowerByte (a : UInt8) : digit (lowerByte a) = digit a := (digit_table a).1

theorem digit_nibble_high (b : UInt8) : digit (nibble (b >>> 4)) = some (b >>> 4) := (nibble_table b).2.1

theorem digit_nibble_low (b : UInt8) : digit (nibble (b &&& 0x0f)) = some (b &&& 0x0f) :=
  (nibble_table b).2.2.1

theorem join_nibbles (b : UInt8) : (b >>> 4) <<< 4 ||| (b &&& 0x0f) = b := (nibble_table b).2.2.2

theorem split_nibbles {hi lo : UInt8} (hhi : hi < 16) (hlo : lo < 16) :
    (hi <<< 4 ||| lo) >>> 4 = hi ∧ (hi <<< 4 ||| lo) &&& 0x0f = lo := by
  have all : ∀ h l : Fin 16, (UInt8.ofNat h <<< 4 ||| UInt8.ofNat l) >>> 4 = UInt8.ofNat h ∧
      (UInt8.ofNat h <<< 4 ||| UInt8.ofNat l) &&& 0x0f = UInt8.ofNat l := by decide +kernel
  simpa only [UInt8.ofNat_toNat] using all ⟨hi.toNat, UInt8.lt_iff_toNat_lt.mp hhi⟩
    ⟨lo.toNat, UInt8.lt_iff_toNat_lt.mp hlo⟩

theorem encodePairs_eq (bytes out : Bytes) (h : out.length = bytes.length * 2) :
    encodePairs bytes out = hexBytes bytes := by
  induction bytes generalizing out with
  | nil => simpa [encodePairs, hexBytes] using h
  | cons b bytes ih =>
      match out, h with
      | _ :: _ :: out, h =>
          have hlen : out.length = bytes.length * 2 := by
            simp only [List.length_cons] at h
            omega
          simp only [encodePairs, ih out hlen, hexBytes, List.flatMap_cons, List.cons_append,
            List.nil_append]
      | [_], h => simp only [List.length_cons, List.length_nil] at h; omega
      | [], h => simp only [List.length_cons, List.length_nil] at h; omega

theorem digit_eq_some {a d : UInt8} (h : digit a = some d) : d < 16 ∧ nibble d = lowerByte a :=
  (digit_table a).2.1 d h

theorem digit_of_lowerByte {a : UInt8} {b : UInt8} (h : lowerByte a = nibble b)
    (hb : digit (nibble b) = some b) : digit a = some b := by
  rw [← digit_lowerByte, h, hb]

/-- The loop succeeds exactly on the spellings of its result. -/
theorem decodePairs_ok {i : Nat} {text out h : Bytes} (hlen : text.length = out.length * 2) :
    decodePairs i text out = (h, .ok ()) ↔ text.map lowerByte = hexBytes h := by
  induction out generalizing i text h with
  | nil =>
      obtain rfl := List.length_eq_zero_iff.mp (hlen.trans (Nat.zero_mul 2))
      cases h <;> simp [decodePairs, hexBytes]
  | cons x out ih =>
      match text, hlen with
      | a :: b :: text, hlen =>
          have hl : text.length = out.length * 2 := by
            simp only [List.length_cons] at hlen
            omega
          simp only [decodePairs]
          constructor
          · intro heq
            cases ha : digit a with
            | none => simp [ha] at heq
            | some hi =>
                cases hb : digit b with
                | none => simp [ha, hb] at heq
                | some lo =>
                    simp only [ha, hb, Prod.mk.injEq] at heq
                    obtain ⟨rfl, hr⟩ := heq
                    obtain ⟨hhi, hna⟩ := digit_eq_some ha
                    obtain ⟨hlo, hnb⟩ := digit_eq_some hb
                    obtain ⟨hs, hs'⟩ := split_nibbles hhi hlo
                    have hrest := (ih (i := i + 1) (h := (decodePairs (i + 1) text out).1) hl).mp
                      (Prod.ext rfl hr)
                    simp only [List.map_cons, hrest, hexBytes, List.flatMap_cons, hs, hs', hna, hnb,
                      List.cons_append, List.nil_append]
          · intro heq
            cases h with
            | nil => simp [hexBytes] at heq
            | cons y h =>
                simp only [List.map_cons, hexBytes, List.flatMap_cons, List.cons_append,
                  List.nil_append, List.cons.injEq] at heq
                obtain ⟨ha, hb, hrest⟩ := heq
                rw [digit_of_lowerByte ha (digit_nibble_high y), digit_of_lowerByte hb (digit_nibble_low y)]
                simp only [(ih (i := i + 1) hl).mpr hrest, join_nibbles]
      | [_], hlen => simp only [List.length_cons, List.length_nil] at hlen; omega
      | [], hlen => simp only [List.length_cons, List.length_nil] at hlen; omega

theorem lowerByte_of_not_ascii {b : UInt8} (h : ¬ b < 0x80) : lowerByte b = b := by
  rw [lowerByte, if_neg]
  rintro ⟨-, hle⟩
  exact h (UInt8.lt_of_le_of_lt hle (by decide : (0x5A : UInt8) < 0x80))

theorem utf8EncodeChar_toLower (c : Char) :
    String.utf8EncodeChar c.toLower = (String.utf8EncodeChar c).map lowerByte := by
  by_cases h : c.val ≤ 127
  · have all : ∀ n : Fin 128, String.utf8EncodeChar (Char.ofNat n).toLower =
        (String.utf8EncodeChar (Char.ofNat n)).map lowerByte := by decide +kernel
    have hc := all ⟨c.toNat, Nat.lt_succ_of_le h⟩
    simpa only [Char.ofNat_toNat] using hc
  · have hlow : c.toLower = c := by
      have hupper : ¬ (c.val ≥ 'A'.val ∧ c.val ≤ 'Z'.val) := by
        rintro ⟨-, hle⟩
        exact h (UInt32.le_trans hle (by decide : 'Z'.val ≤ 127))
      exact dif_neg hupper
    rw [hlow, List.map_congr_left fun b hb => lowerByte_of_not_ascii (utf8EncodeChar_not_ascii h b hb),
      List.map_id']

/-- Lower-casing a text lower-cases its octets: those of other characters are not ASCII. -/
theorem utf8_toAsciiLower (s : Text) : utf8 (toAsciiLower s) = (utf8 s).map lowerByte := by
  induction s with
  | nil => rfl
  | cons c s ih =>
      simp only [toAsciiLower, List.map_cons, utf8_cons, List.map_append] at ih ⊢
      rw [ih, utf8EncodeChar_toLower]

theorem hexBytes_ascii (bytes : Bytes) : ∀ b ∈ hexBytes bytes, b < 0x80 := by
  intro b hb
  obtain ⟨x, -, hx⟩ := List.mem_flatMap.mp hb
  simp only [List.mem_cons, List.not_mem_nil, or_false] at hx
  rcases hx with rfl | rfl <;> exact nibble_ascii _

/-- An ASCII octet is the code of a character. -/
theorem byte_char (x : UInt8) (h : x < 0x80) :
    (Char.ofNat x.toNat).val ≤ 127 ∧ (Char.ofNat x.toNat).val.toUInt8 = x := by
  have hx : x.toNat < 128 := UInt8.lt_iff_toNat_lt.mp h
  have hval : (Char.ofNat x.toNat).val.toNat = x.toNat := by
    rw [Char.ofNat, dif_pos (.inl (by omega))]
    rfl
  refine ⟨UInt32.le_iff_toNat_le.mpr (by rw [hval]; exact Nat.le_of_lt_succ hx), UInt8.toNat.inj ?_⟩
  rw [UInt32.toNat_toUInt8, hval, Nat.mod_eq_of_lt (hx.trans (by decide))]

theorem utf8_ascii {b : Bytes} (h : ∀ x ∈ b, x < 0x80) : utf8 (ascii b) = b := by
  induction b with
  | nil => rfl
  | cons x b ih =>
      have hx := byte_char x (h x List.mem_cons_self)
      have hhead := utf8_singleton_of_ascii hx.1
      simp only [utf8_cons, utf8_nil, List.append_nil] at hhead
      have htail := ih fun y hy => h y (List.mem_cons_of_mem _ hy)
      simp only [ascii] at htail
      rw [ascii, List.map_cons, utf8_cons, hhead, hx.2, htail, List.singleton_append]

theorem utf8_encode (bytes : Bytes) : utf8 (encode bytes) = hexBytes bytes := by
  have hbuf : (List.replicate (bytes.length * 2) (0 : UInt8)).length = bytes.length * 2 :=
    List.length_replicate
  have htext := utf8_ascii (hexBytes_ascii bytes)
  rw [encode, encodeInto, if_neg (not_not.mpr hbuf), encodePairs_eq _ _ hbuf, ← htext, fromUtf8_utf8]
  simp only [Option.getD_some, htext]

theorem hexBytes_length (bytes : Bytes) : (hexBytes bytes).length = bytes.length * 2 := by
  simp [hexBytes, List.length_flatMap]

/-- What decodes to `h`, in either case and with any whitespace around it. -/
theorem decodeInto_ok {text : Text} {out h : Bytes} :
    decodeInto text out = (h, .ok ()) ↔ toAsciiLower (trim text) = encode h ∧ h.length = out.length := by
  have hkey : toAsciiLower (trim text) = encode h ↔ (utf8 (trim text)).map lowerByte = hexBytes h := by
    rw [← utf8_toAsciiLower, ← utf8_encode]
    exact ⟨fun he => by rw [he], utf8_injective⟩
  rw [hkey]
  simp only [decodeInto]
  split_ifs with hlen
  · constructor
    · intro he
      simp at he
    · rintro ⟨he, hh⟩
      have hl := congrArg List.length he
      rw [List.length_map, hexBytes_length, hh] at hl
      exact absurd hl hlen
  · have hlen := not_not.mp hlen
    rw [decodePairs_ok hlen]
    refine ⟨fun he => ⟨he, ?_⟩, And.left⟩
    have hl := congrArg List.length he
    rw [List.length_map, hexBytes_length] at hl
    omega

theorem decodeArray_ok {n : Nat} {text : Text} {h : ByteVec n} :
    decodeArray n text = .ok h ↔ toAsciiLower (trim text) = encode h.val := by
  have hiff : decodeInto text (List.replicate n 0) = (h.val, .ok ()) ↔ _ := decodeInto_ok
  simp only [List.length_replicate, h.property, and_true] at hiff
  rw [← hiff]
  constructor
  · intro he
    unfold decodeArray at he
    cases hr : (decodeInto text (List.replicate n 0)).2 with
    | error e => rw [hr] at he; cases he
    | ok u =>
        rw [hr] at he
        cases he
        exact Prod.ext rfl hr
  · intro he
    simp only [decodeArray, he, Except.map]

/-- The characters a hex text may hold. -/
def HEX_DIGITS : Text := "0123456789abcdefABCDEF".toList

theorem hexDigits_eq : HEX_DIGITS = ['0', '1', '2', '3', '4', '5', '6', '7', '8', '9', 'a', 'b', 'c', 'd', 'e', 'f',
    'A', 'B', 'C', 'D', 'E', 'F'] := by
  unfold HEX_DIGITS
  exact String.toList_ofList

theorem mem_hexDigits_code (c : Char) : c ∈ HEX_DIGITS ↔ c.toNat ∈ hexCodes := by
  have hcodes : HEX_DIGITS.map Char.toNat = hexCodes := by
    rw [hexDigits_eq]
    decide
  rw [← hcodes, List.mem_map_of_injective fun _ _ => Char.toNat_inj.mp]

theorem mem_utf8_hexDigits (b : UInt8) : b ∈ utf8 HEX_DIGITS ↔ b.toNat ∈ hexCodes := by
  have hcodes : (utf8 HEX_DIGITS).map UInt8.toNat = hexCodes := by
    rw [hexDigits_eq]
    decide
  rw [← hcodes, List.mem_map_of_injective fun _ _ => UInt8.toNat.inj]

theorem digit_isNone_iff (b : UInt8) : (digit b).isNone = true ↔ b ∉ utf8 HEX_DIGITS := by
  rw [mem_utf8_hexDigits]
  exact (digit_table b).2.2

/-- What the loop answers: the first octet that is no digit, counted from the start of the text. -/
theorem decodePairs_snd {i : Nat} {text out : Bytes} (hlen : text.length = out.length * 2) :
    (decodePairs i text out).2 = ((text.findIdx? fun b => (digit b).isNone).elim (.ok ())
      fun k => .error (.notHex (i * 2 + k))) := by
  induction out generalizing i text with
  | nil =>
      obtain rfl := List.length_eq_zero_iff.mp (hlen.trans (Nat.zero_mul 2))
      rfl
  | cons x out ih =>
      match text, hlen with
      | a :: b :: text, hlen =>
          have hl : text.length = out.length * 2 := by
            simp only [List.length_cons] at hlen
            omega
          simp only [decodePairs, List.findIdx?_cons]
          cases ha : digit a with
          | none => rfl
          | some hi =>
              cases hb : digit b with
              | none => rfl
              | some lo =>
                  simp only [ih (i := i + 1) hl, Option.isNone_some, Bool.false_eq_true, if_false]
                  cases text.findIdx? fun b => (digit b).isNone with
                  | none => rfl
                  | some k =>
                      have hk : (i + 1) * 2 + k = i * 2 + (k + 1 + 1) := by omega
                      simp only [Option.map_some, Option.elim_some, hk]
      | [_], hlen => simp only [List.length_cons, List.length_nil] at hlen; omega
      | [], hlen => simp only [List.length_cons, List.length_nil] at hlen; omega

theorem decodePairs_snd_ok {i : Nat} {text out : Bytes} (hlen : text.length = out.length * 2) :
    (decodePairs i text out).2 = .ok () ↔ ∀ b ∈ text, b ∈ utf8 HEX_DIGITS := by
  rw [decodePairs_snd hlen]
  cases hf : text.findIdx? fun b => (digit b).isNone with
  | none =>
      refine iff_of_true rfl fun b hb => ?_
      have hd := List.findIdx?_eq_none_iff.mp hf b hb
      exact not_not.mp fun hn => Bool.false_ne_true (hd.symm.trans ((digit_isNone_iff b).mpr hn))
  | some k =>
      refine iff_of_false (by simp) fun hall => ?_
      obtain ⟨hk, hd, -⟩ := List.findIdx?_eq_some_iff_getElem.mp hf
      exact (digit_isNone_iff _).mp hd (hall _ (List.getElem_mem hk))

theorem decodePairs_snd_notHex {text out : Bytes} (hlen : text.length = out.length * 2) (k : Nat) :
    (decodePairs 0 text out).2 = .error (.notHex k) ↔
      (∃ b ∈ text[k]?, b ∉ utf8 HEX_DIGITS) ∧ ∀ b ∈ text.take k, b ∈ utf8 HEX_DIGITS := by
  have hfind : (decodePairs 0 text out).2 = .error (.notHex k) ↔
      text.findIdx? (fun b => (digit b).isNone) = some k := by
    rw [decodePairs_snd hlen]
    cases text.findIdx? fun b => (digit b).isNone <;> simp
  rw [hfind, List.findIdx?_eq_some_iff_getElem]
  constructor
  · rintro ⟨hk, hd, hbefore⟩
    refine ⟨⟨text[k], List.getElem?_eq_getElem hk, (digit_isNone_iff _).mp hd⟩, fun b hb => ?_⟩
    obtain ⟨j, hj, rfl⟩ := List.mem_iff_getElem.mp hb
    rw [List.length_take] at hj
    rw [List.getElem_take]
    exact not_not.mp fun hn => hbefore j (by omega) ((digit_isNone_iff _).mpr hn)
  · rintro ⟨⟨b, hb, hn⟩, hbefore⟩
    obtain ⟨hk, rfl⟩ := List.getElem?_eq_some_iff.mp hb
    refine ⟨hk, (digit_isNone_iff _).mpr hn, fun j hj hd => (digit_isNone_iff _).mp hd (hbefore _ ?_)⟩
    exact List.mem_take_iff_getElem.mpr ⟨j, by omega, rfl⟩

theorem hexCodes_ascii {n : Nat} (h : n ∈ hexCodes) : n < 128 := by
  have all : ∀ n ∈ hexCodes, n < 128 := by decide
  exact all n h

theorem hexDigits_ascii {c : Char} (h : c ∈ HEX_DIGITS) : c.val ≤ 127 :=
  Nat.le_of_lt_succ (hexCodes_ascii ((mem_hexDigits_code c).mp h))

/-- A character is a digit exactly when all its octets are: those of other characters are not ASCII. -/
theorem mem_hexDigits_iff (c : Char) :
    c ∈ HEX_DIGITS ↔ ∀ b ∈ String.utf8EncodeChar c, b ∈ utf8 HEX_DIGITS := by
  by_cases h : c.val ≤ 127
  · have hone := utf8_singleton_of_ascii h
    rw [utf8_cons, utf8_nil, List.append_nil] at hone
    have hcode : c.val.toUInt8.toNat = c.toNat := by
      rw [UInt32.toNat_toUInt8]
      exact Nat.mod_eq_of_lt (Nat.lt_of_le_of_lt h (by decide))
    simp only [hone, List.forall_mem_singleton, mem_hexDigits_code, mem_utf8_hexDigits, hcode]
  · refine iff_of_false (fun hc => h (hexDigits_ascii hc)) fun hall => ?_
    obtain ⟨b, hb⟩ := List.exists_mem_of_length_pos (Nat.lt_of_lt_of_eq c.utf8Size_pos
      (String.length_utf8EncodeChar c).symm)
    exact utf8EncodeChar_not_ascii h b hb (hexCodes_ascii ((mem_utf8_hexDigits b).mp (hall b hb)))

theorem utf8_mem_hexDigits (t : Text) : (∀ b ∈ utf8 t, b ∈ utf8 HEX_DIGITS) ↔ ∀ c ∈ t, c ∈ HEX_DIGITS := by
  simp only [utf8, List.mem_flatMap (l := t), mem_hexDigits_iff, forall_exists_index, and_imp]
  exact ⟨fun h c hc b hb => h b c hc hb, fun h b c hc hb => h c hc b hb⟩

theorem utf8_length_of_hexDigits {t : Text} (h : ∀ c ∈ t, c ∈ HEX_DIGITS) : (utf8 t).length = t.length := by
  induction t with
  | nil => rfl
  | cons c t ih =>
      have hone := congrArg List.length (utf8_singleton_of_ascii (hexDigits_ascii (h c List.mem_cons_self)))
      rw [utf8_cons, utf8_nil, List.append_nil] at hone
      rw [utf8_cons, List.length_append, hone, ih fun d hd => h d (List.mem_cons_of_mem _ hd),
        List.length_singleton, Nat.add_comm, List.length_cons]

theorem encode_digits (bytes : Bytes) : ∀ c ∈ encode bytes, c ∈ HEX_DIGITS := by
  rw [← utf8_mem_hexDigits, utf8_encode]
  intro b hb
  obtain ⟨x, -, hx⟩ := List.mem_flatMap.mp hb
  simp only [List.mem_cons, List.not_mem_nil, or_false] at hx
  by_contra hn
  have hd := (digit_isNone_iff b).mpr hn
  rcases hx with rfl | rfl
  · rw [digit_nibble_high] at hd
    cases hd
  · rw [digit_nibble_low] at hd
    cases hd

theorem trim_encode (bytes : Bytes) : trim (encode bytes) = encode bytes := by
  have hdigits : HEX_DIGITS.all (fun c => !isWhitespace c) = true := by
    rw [hexDigits_eq]
    decide
  apply trim_of_no_whitespace
  intro c hc
  simpa using List.all_eq_true.mp hdigits c (encode_digits bytes c hc)

theorem toAsciiLower_encode (bytes : Bytes) : toAsciiLower (encode bytes) = encode bytes := by
  have hlow : ∀ d : UInt8, digit (nibble d) = some d → lowerByte (nibble d) = nibble d :=
    fun d hd => (digit_eq_some hd).2.symm
  apply utf8_injective
  rw [utf8_toAsciiLower, utf8_encode, hexBytes, List.map_flatMap]
  congr 1
  funext b
  rw [List.map_cons, List.map_cons, List.map_nil, hlow _ (digit_nibble_high b), hlow _ (digit_nibble_low b)]

/-- Success is exactly `2n` hex digits between whitespace, read back in lower case; encodings
decode to what they encode. A wrong length, counted in octets, writes nothing, and the error
otherwise names the first octet that is no digit. -/
theorem decodeInto_exact (text : Text) (out : Bytes) :
    ((decodeInto text out).2 = .ok () ↔
        (trim text).length = out.length * 2 ∧ ∀ c ∈ trim text, c ∈ HEX_DIGITS) ∧
      ((decodeInto text out).2 = .ok () → encode (decodeInto text out).1 = toAsciiLower (trim text)) ∧
      (∀ b : Bytes, b.length = out.length → decodeInto (encode b) out = (b, .ok ())) ∧
      ((utf8 (trim text)).length ≠ out.length * 2 → decodeInto text out =
        (out, .error (.wrongLength (out.length * 2) (utf8 (trim text)).length))) ∧
      (∀ k, (decodeInto text out).2 = .error (.notHex k) ↔ (utf8 (trim text)).length = out.length * 2 ∧
        (∃ b ∈ (utf8 (trim text))[k]?, b ∉ utf8 HEX_DIGITS) ∧
        ∀ b ∈ (utf8 (trim text)).take k, b ∈ utf8 HEX_DIGITS) := by
  refine ⟨?_, fun hok => ?_, fun b hb => ?_, fun hlen => ?_, fun k => ?_⟩
  · simp only [decodeInto]
    split_ifs with hlen
    · refine iff_of_false (by simp) ?_
      rintro ⟨hl, hall⟩
      exact hlen ((utf8_length_of_hexDigits hall).trans hl)
    · have hlen := not_not.mp hlen
      rw [decodePairs_snd_ok hlen, utf8_mem_hexDigits]
      exact ⟨fun h => ⟨(utf8_length_of_hexDigits h).symm.trans hlen, h⟩, And.right⟩
  · exact (decodeInto_ok.mp (Prod.ext rfl hok)).1.symm
  · rw [decodeInto_ok, trim_encode, toAsciiLower_encode]
    exact ⟨rfl, hb⟩
  · simp only [decodeInto]
    rw [if_pos hlen]
  · simp only [decodeInto]
    split_ifs with hlen
    · exact iff_of_false (by simp) fun h => hlen h.1
    · have hlen := not_not.mp hlen
      rw [decodePairs_snd_notHex hlen]
      exact ⟨fun h => ⟨hlen, h⟩, And.right⟩

end Kallisto.Crypto
