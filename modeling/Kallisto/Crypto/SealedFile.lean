import Kallisto.Lib.Text
import Kallisto.Lib.SortedMap
import Mathlib.Data.Char

/-!
The sealed file: a plaintext header that doubles as additional authenticated data, then an
AES-256-GCM ciphertext. The cipher and the JSON reader are parameters. An index the source
would panic on is `none` here, so that it can be shown never to happen.
-/
namespace Kallisto.Crypto
open Lib

def KEY_LEN : Nat := 32
def NONCE_LEN : Nat := 12

abbrev SealKey := ByteVec KEY_LEN
abbrev Nonce := ByteVec NONCE_LEN

/-- AES-256-GCM as the AEAD library offers it. Sealing returns the buffer with the tag
appended; opening returns what the call left in the buffer, and how many octets of its
front are plaintext if the tag was good. -/
structure Aead where
  sealInPlaceAppendTag : SealKey → Nonce → Bytes → Bytes → Option Bytes
  openInPlace : SealKey → Nonce → Bytes → Bytes → Bytes × Option Nat

/-- Opening undoes sealing under one key, nonce and additional data. -/
def Aead.Opens (A : Aead) : Prop :=
  ∀ key nonce aad plain sealed, A.sealInPlaceAppendTag key nonce aad plain = some sealed →
    ∃ buffer, A.openInPlace key nonce aad sealed = (buffer, some plain.length) ∧
      buffer.take plain.length = plain

/-- Only what was sealed under that key, nonce and additional data is opened. -/
def Aead.Authentic (A : Aead) : Prop :=
  ∀ key nonce aad sealed buffer len, A.openInPlace key nonce aad sealed = (buffer, some len) →
    A.sealInPlaceAppendTag key nonce aad (buffer.take len) = some sealed

/-- One sealing: the four inputs and the output. -/
structure Sealing where
  key : SealKey
  nonce : Nonce
  aad : Bytes
  plain : Bytes
  sealed : Bytes
  deriving DecidableEq

/-- A cipher that knows a table of sealings and refuses everything else. -/
def Aead.recorded (table : List Sealing) : Aead where
  sealInPlaceAppendTag key nonce aad plain :=
    (table.find? fun s => s.key = key ∧ s.nonce = nonce ∧ s.aad = aad ∧ s.plain = plain).map Sealing.sealed
  openInPlace key nonce aad sealed :=
    match table.find? fun s => s.key = key ∧ s.nonce = nonce ∧ s.aad = aad ∧ s.sealed = sealed with
    | some s => (s.plain ++ sealed.drop s.plain.length, some s.plain.length)
    | none => (sealed, none)

/-- No two sealings of the table share key, nonce and additional data. -/
def NonceUnique (table : List Sealing) : Prop :=
  ∀ s ∈ table, ∀ t ∈ table, s.key = t.key ∧ s.nonce = t.nonce ∧ s.aad = t.aad → s = t

instance (table : List Sealing) : Decidable (NonceUnique table) :=
  inferInstanceAs (Decidable (∀ s ∈ table, ∀ t ∈ table, _ → _))

theorem Aead.recorded_opens {table : List Sealing} (h : NonceUnique table) : (recorded table).Opens := by
  intro key nonce aad plain sealed hseal
  obtain ⟨s, hs, rfl⟩ := Option.map_eq_some_iff.mp hseal
  obtain ⟨rfl, rfl, rfl, rfl⟩ : s.key = key ∧ s.nonce = nonce ∧ s.aad = aad ∧ s.plain = plain := by
    simpa using List.find?_some hs
  have hsome : (table.find? fun t => t.key = s.key ∧ t.nonce = s.nonce ∧ t.aad = s.aad ∧
      t.sealed = s.sealed).isSome := by
    rw [List.find?_isSome]
    exact ⟨s, List.mem_of_find?_eq_some hs, by simp⟩
  obtain ⟨t, ht⟩ := Option.isSome_iff_exists.mp hsome
  have hkey : t.key = s.key ∧ t.nonce = s.nonce ∧ t.aad = s.aad ∧ t.sealed = s.sealed := by
    simpa using List.find?_some ht
  obtain rfl := h t (List.mem_of_find?_eq_some ht) s (List.mem_of_find?_eq_some hs)
    ⟨hkey.1, hkey.2.1, hkey.2.2.1⟩
  exact ⟨t.plain ++ t.sealed.drop t.plain.length, by simp only [recorded, ht], List.take_left ..⟩

theorem Aead.recorded_authentic {table : List Sealing} (h : NonceUnique table) :
    (recorded table).Authentic := by
  intro key nonce aad sealed buffer len hopen
  simp only [recorded] at hopen
  cases hs : table.find? fun s => s.key = key ∧ s.nonce = nonce ∧ s.aad = aad ∧ s.sealed = sealed with
  | none =>
      rw [hs] at hopen
      cases hopen
  | some s =>
      simp only [hs, Prod.mk.injEq, Option.some.injEq] at hopen
      obtain ⟨rfl, rfl⟩ := hopen
      obtain ⟨rfl, rfl, rfl, rfl⟩ : s.key = key ∧ s.nonce = nonce ∧ s.aad = aad ∧ s.sealed = sealed := by
        simpa using List.find?_some hs
      have hsome : (table.find? fun t => t.key = s.key ∧ t.nonce = s.nonce ∧ t.aad = s.aad ∧
          t.plain = s.plain).isSome := by
        rw [List.find?_isSome]
        exact ⟨s, List.mem_of_find?_eq_some hs, by simp⟩
      obtain ⟨t, ht⟩ := Option.isSome_iff_exists.mp hsome
      have hkey : t.key = s.key ∧ t.nonce = s.nonce ∧ t.aad = s.aad ∧ t.plain = s.plain := by
        simpa using List.find?_some ht
      obtain rfl := h t (List.mem_of_find?_eq_some ht) s (List.mem_of_find?_eq_some hs)
        ⟨hkey.1, hkey.2.1, hkey.2.2.1⟩
      simp only [recorded, List.take_left, ht, Option.map_some]

inductive SealError where
  | badMagic
  | unsupportedFormat (got : UInt8)
  | truncated (got need : Nat)
  | rollback (held offered : UInt64)
  | authFailed
  | malformedBody
  | versionMismatch (header body : UInt64)
  | randomUnavailable
  deriving DecidableEq, Repr

structure PolicyRule where
  path : Text
  capabilities : List Text
  deriving DecidableEq, Repr

/-- The body as its author holds it; `V` is the type of JSON values. -/
structure Contents (V : Type) where
  version : UInt64
  secrets : SortedMap Text V
  policies : SortedMap Text (List PolicyRule)
  tokens : SortedMap Text (List Text)
  tokenKey : Option Text

/-- The body as it is read back: a secret is the JSON text the file has for it. -/
structure View where
  version : UInt64
  secrets : SortedMap Text Text
  policies : SortedMap Text (List PolicyRule)
  tokens : SortedMap Text (List Text)
  tokenKey : Option Text

def MAGIC : Bytes := [75, 65, 76, 76, 73, 83, 84, 79]
def FORMAT_VERSION : UInt8 := 1
def HEADER_LEN : Nat := MAGIC.length + 1 + 8 + NONCE_LEN
def VERSION_AT : Nat := MAGIC.length + 1
def NONCE_AT : Nat := VERSION_AT + 8

example : ascii MAGIC = "KALLISTO".toList := by decide

structure Header where
  contentVersion : UInt64
  nonce : Nonce
  deriving DecidableEq

def Header.parse (bytes : Bytes) : Option (Except SealError Header) :=
  if bytes.length < HEADER_LEN then
    some (.error (.truncated bytes.length HEADER_LEN))
  else do
    let magic ← slice bytes 0 MAGIC.length
    if magic ≠ MAGIC then return .error .badMagic
    let got ← bytes[MAGIC.length]?
    if got ≠ FORMAT_VERSION then return .error (.unsupportedFormat got)
    let version ← slice bytes VERSION_AT NONCE_AT
    let version ← toArray 8 version
    let nonce ← slice bytes NONCE_AT HEADER_LEN
    let nonce ← toArray NONCE_LEN nonce
    return .ok ⟨UInt64.ofNat (fromLeBytes version.val), nonce⟩

def Header.write (contentVersion : UInt64) (nonce : Nonce) : Bytes :=
  MAGIC ++ [FORMAT_VERSION] ++ toLeBytes 8 contentVersion.toNat ++ nonce.val

def peekVersion (bytes : Bytes) : Option (Except SealError UInt64) := do
  let header ← Header.parse bytes
  return header.map Header.contentVersion

/-- `nonce` is what the system's random number generator gave, if it gave anything. -/
def sealContents {V : Type} (A : Aead) (toVec : Contents V → Option Bytes) (nonce : Option Nonce)
    (contents : Contents V) (key : SealKey) : Except SealError Bytes :=
  match toVec contents with
  | none => .error .malformedBody
  | some body =>
      match nonce with
      | none => .error .randomUnavailable
      | some nonce =>
          let header := Header.write contents.version nonce
          match A.sealInPlaceAppendTag key nonce header body with
          | none => .error .authFailed
          | some body => .ok (header ++ body)

structure Opened where
  plaintext : Bytes
  contentVersion : UInt64
  deriving DecidableEq

def Opened.view (fromSlice : Bytes → Option View) (o : Opened) : Except SealError View :=
  match fromSlice o.plaintext with
  | none => .error .malformedBody
  | some view => .ok view

/-- The second half of `open`: authenticate under the rewritten header, then check that the
body agrees with it. -/
def openBody (A : Aead) (fromSlice : Bytes → Option View) (key : SealKey) (header : Header)
    (inOut : Bytes) : Except SealError Opened :=
  let aad := Header.write header.contentVersion header.nonce
  match A.openInPlace key header.nonce aad inOut with
  | (_, none) => .error .authFailed
  | (inOut, some plainLen) =>
      let opened : Opened := { plaintext := inOut.take plainLen, contentVersion := header.contentVersion }
      match opened.view fromSlice with
      | .error e => .error e
      | .ok view =>
          if view.version ≠ header.contentVersion then
            .error (.versionMismatch header.contentVersion view.version)
          else .ok opened

def openFile (A : Aead) (fromSlice : Bytes → Option View) (bytes : Bytes) (key : SealKey)
    (held : Option UInt64) : Option (Except SealError Opened) := do
  match ← Header.parse bytes with
  | .error e => return .error e
  | .ok header =>
      if let some held := held then
        if header.contentVersion < held then return .error (.rollback held header.contentVersion)
      let inOut ← slice bytes HEADER_LEN bytes.length
      return openBody A fromSlice key header inOut

/-- The content version at its offset in the header. -/
def headerVersion (bytes : Bytes) : UInt64 := UInt64.ofNat (fromLeBytes ((bytes.drop VERSION_AT).take 8))

theorem header_len : HEADER_LEN = 29 := rfl

theorem Header.write_length (v : UInt64) (nonce : Nonce) : (Header.write v nonce).length = HEADER_LEN := by
  have hn : nonce.val.length = 12 := nonce.property
  simp [Header.write, toLeBytes_length, hn, HEADER_LEN, NONCE_LEN]

namespace Header
variable {bytes : Bytes}

/-- What `parse` does once the length check has passed: no index is out of range. -/
theorem parse_long (hlen : HEADER_LEN ≤ bytes.length) :
    parse bytes = some
      (if bytes.take MAGIC.length ≠ MAGIC then .error .badMagic
      else if bytes[MAGIC.length]? ≠ some FORMAT_VERSION then
        .error (.unsupportedFormat (bytes.getD MAGIC.length 0))
      else .ok ⟨headerVersion bytes, ⟨(bytes.drop NONCE_AT).take NONCE_LEN, by
        rw [header_len] at hlen
        simp only [List.length_take, List.length_drop, NONCE_AT, VERSION_AT, NONCE_LEN, MAGIC,
          List.length_cons, List.length_nil]
        omega⟩⟩) := by
  have hlen' : 29 ≤ bytes.length := hlen
  have hget : bytes[MAGIC.length]? = some (bytes.getD MAGIC.length 0) := by
    rw [List.getD_eq_getElem?_getD, List.getElem?_eq_getElem (show MAGIC.length < bytes.length from by
      simp only [MAGIC, List.length_cons, List.length_nil]; omega), Option.getD_some]
  have hver : ((bytes.drop VERSION_AT).take 8).length = 8 := by
    simp only [List.length_take, List.length_drop, VERSION_AT, MAGIC, List.length_cons, List.length_nil]
    omega
  have hnon : ((bytes.drop NONCE_AT).take NONCE_LEN).length = NONCE_LEN := by
    simp only [List.length_take, List.length_drop, NONCE_AT, VERSION_AT, NONCE_LEN, MAGIC,
      List.length_cons, List.length_nil]
    omega
  have hs0 : slice bytes 0 MAGIC.length = some (bytes.take MAGIC.length) := by
    rw [slice_of_le (Nat.zero_le _) (by simp only [MAGIC, List.length_cons, List.length_nil]; omega)]
    rfl
  have hs1 : slice bytes VERSION_AT NONCE_AT = some ((bytes.drop VERSION_AT).take 8) :=
    slice_of_le (by decide) (le_trans (by decide) hlen')
  have hs2 : slice bytes NONCE_AT HEADER_LEN = some ((bytes.drop NONCE_AT).take NONCE_LEN) :=
    slice_of_le (by decide) hlen
  rw [parse, if_neg (Nat.not_lt.mpr hlen)]
  simp only [hs0, hs1, hs2, hget, toArray_of_length hver, toArray_of_length hnon, Option.bind_eq_bind,
    Option.bind_some, Option.pure_def, ne_eq, Option.some.injEq, headerVersion]
  split_ifs <;> rfl

theorem parse_total (bytes : Bytes) : ∃ r, parse bytes = some r := by
  by_cases hlen : bytes.length < HEADER_LEN
  · exact ⟨_, if_pos hlen⟩
  · exact ⟨_, parse_long (Nat.not_lt.mp hlen)⟩

/-- Every octet of an accepted header is determined by what was parsed from it. -/
theorem write_of_parse {header : Header} (h : parse bytes = some (.ok header)) :
    write header.contentVersion header.nonce = bytes.take HEADER_LEN := by
  by_cases hlen : bytes.length < HEADER_LEN
  · rw [parse, if_pos hlen] at h
    cases h
  · have hlen := Nat.not_lt.mp hlen
    rw [parse_long hlen] at h
    by_cases hm : bytes.take MAGIC.length = MAGIC
    swap
    · simp [hm] at h
    by_cases hf : bytes[MAGIC.length]? = some FORMAT_VERSION
    swap
    · simp [hm, hf] at h
    simp only [hm, hf, ne_eq, not_true_eq_false, if_false, Option.some.injEq, Except.ok.injEq] at h
    subst h
    have hv : toLeBytes 8 (headerVersion bytes).toNat = (bytes.drop VERSION_AT).take 8 := by
      have hl : ((bytes.drop VERSION_AT).take 8).length = 8 := by
        rw [header_len] at hlen
        simp only [List.length_take, List.length_drop, VERSION_AT, MAGIC, List.length_cons, List.length_nil]
        omega
      have hlt := fromLeBytes_lt ((bytes.drop VERSION_AT).take 8)
      rw [hl] at hlt
      rw [headerVersion, UInt64.toNat_ofNat_of_lt' hlt]
      have hback := toLeBytes_fromLeBytes ((bytes.drop VERSION_AT).take 8)
      rwa [hl] at hback
    have hbyte : (bytes.drop MAGIC.length).take 1 = [FORMAT_VERSION] := by
      rw [List.take_one, List.head?_drop, hf]
      rfl
    change _ = bytes.take (MAGIC.length + 1 + 8 + NONCE_LEN)
    rw [List.take_add, List.take_add, List.take_add, hm, hbyte, write, hv]
    rfl

/-- A prefix of known length is cut off exactly. -/
theorem drop_take_append {a b c : Bytes} {m n : Nat} (ha : a.length = m) (hb : b.length = n) :
    ((a ++ b ++ c).drop m).take n = b := by
  subst ha hb
  simp

theorem parse_write (v : UInt64) (nonce : Nonce) (rest : Bytes) :
    parse (write v nonce ++ rest) = some (.ok ⟨v, nonce⟩) := by
  have hlen : HEADER_LEN ≤ (write v nonce ++ rest).length := by
    rw [List.length_append, write_length]
    exact Nat.le_add_right _ _
  have hmagic : (write v nonce ++ rest).take MAGIC.length = MAGIC := by
    simp only [write, List.append_assoc]
    exact List.take_left ..
  have hformat : (write v nonce ++ rest)[MAGIC.length]? = some FORMAT_VERSION := rfl
  have hversion : headerVersion (write v nonce ++ rest) = v := by
    have hcut : ((write v nonce ++ rest).drop VERSION_AT).take 8 = toLeBytes 8 v.toNat := by
      have h := drop_take_append (a := MAGIC ++ [FORMAT_VERSION]) (b := toLeBytes 8 v.toNat)
        (c := nonce.val ++ rest) (m := VERSION_AT) rfl (toLeBytes_length 8 _)
      simpa only [write, List.append_assoc] using h
    rw [headerVersion, hcut, fromLeBytes_toLeBytes v.toNat_lt, UInt64.ofNat_toNat]
  have hnonce : ((write v nonce ++ rest).drop NONCE_AT).take NONCE_LEN = nonce.val :=
    drop_take_append (a := MAGIC ++ [FORMAT_VERSION] ++ toLeBytes 8 v.toNat)
      (by simp [toLeBytes_length, NONCE_AT, VERSION_AT]) nonce.property
  rw [parse_long hlen]
  simp only [hmagic, hformat, hversion, hnonce, ne_eq, not_true_eq_false, if_false]

end Header

theorem Header.parse_long_length {bytes : Bytes} {header : Header}
    (h : Header.parse bytes = some (.ok header)) : HEADER_LEN ≤ bytes.length := by
  by_contra hlen
  rw [Header.parse, if_pos (Nat.not_le.mp hlen)] at h
  cases h

section Open
variable {A : Aead} {fromSlice : Bytes → Option View} {bytes : Bytes} {key : SealKey} {held : Option UInt64}

theorem openFile_error {e : SealError} (h : Header.parse bytes = some (.error e)) :
    openFile A fromSlice bytes key held = some (.error e) := by
  simp [openFile, h]

theorem openFile_rollback {header : Header} {v : UInt64} (h : Header.parse bytes = some (.ok header))
    (hv : header.contentVersion < v) :
    openFile A fromSlice bytes key (some v) = some (.error (.rollback v header.contentVersion)) := by
  simp [openFile, h, hv]

theorem openFile_body {header : Header} (h : Header.parse bytes = some (.ok header))
    (hv : ∀ v ∈ held, ¬ header.contentVersion < v) :
    openFile A fromSlice bytes key held =
      some (openBody A fromSlice key header (bytes.drop HEADER_LEN)) := by
  have hlen := Header.parse_long_length h
  have hslice : slice bytes HEADER_LEN bytes.length = some (bytes.drop HEADER_LEN) := by
    rw [slice_of_le hlen (le_refl _), List.take_of_length_le (by simp)]
  cases held with
  | none => simp [openFile, h, hslice]
  | some v => simp [openFile, h, hslice, hv v rfl]

theorem openFile_total (A : Aead) (fromSlice : Bytes → Option View) (bytes : Bytes) (key : SealKey)
    (held : Option UInt64) : ∃ r, openFile A fromSlice bytes key held = some r := by
  obtain ⟨r, hr⟩ := Header.parse_total bytes
  cases r with
  | error e => exact ⟨_, openFile_error hr⟩
  | ok header =>
      by_cases hv : ∀ v ∈ held, ¬ header.contentVersion < v
      · exact ⟨_, openFile_body hr hv⟩
      · obtain ⟨v, rfl, hlt⟩ : ∃ v, held = some v ∧ header.contentVersion < v := by
          simpa using hv
        exact ⟨_, openFile_rollback hr hlt⟩

/-- An accepted body was opened by the cipher, parsed, and agrees with its header. -/
theorem openBody_ok {header : Header} {inOut : Bytes} {o : Opened}
    (h : openBody A fromSlice key header inOut = .ok o) :
    o.contentVersion = header.contentVersion ∧
      (∃ buffer len, A.openInPlace key header.nonce (Header.write header.contentVersion header.nonce) inOut =
        (buffer, some len) ∧ o.plaintext = buffer.take len) ∧
      ∃ view, fromSlice o.plaintext = some view ∧ view.version = o.contentVersion := by
  unfold openBody at h
  rcases ho : A.openInPlace key header.nonce (Header.write header.contentVersion header.nonce) inOut
    with ⟨buffer, len⟩
  cases len with
  | none => simp [ho] at h
  | some len =>
      simp only [ho, Opened.view] at h
      cases hf : fromSlice (buffer.take len) with
      | none => simp [hf] at h
      | some view =>
          simp only [hf] at h
          by_cases hver : view.version = header.contentVersion
          · simp only [hver, ne_eq, not_true_eq_false, if_false, Except.ok.injEq] at h
            subst h
            exact ⟨rfl, ⟨buffer, len, rfl, rfl⟩, view, hf, hver⟩
          · simp [hver] at h

theorem openBody_error {header : Header} {inOut : Bytes} {e : SealError}
    (h : openBody A fromSlice key header inOut = .error e) :
    e = .authFailed ∨ e = .malformedBody ∨ ∃ body, e = .versionMismatch header.contentVersion body := by
  unfold openBody at h
  rcases ho : A.openInPlace key header.nonce (Header.write header.contentVersion header.nonce) inOut
    with ⟨buffer, len⟩
  cases len with
  | none =>
      simp only [ho, Except.error.injEq] at h
      exact .inl h.symm
  | some len =>
      simp only [ho, Opened.view] at h
      cases hf : fromSlice (buffer.take len) with
      | none =>
          simp only [hf, Except.error.injEq] at h
          exact .inr (.inl h.symm)
      | some view =>
          simp only [hf] at h
          split_ifs at h
          cases h
          exact .inr (.inr ⟨_, rfl⟩)

/-- Everything an accepted file is: header and ciphertext, with nothing left over. -/
theorem openFile_ok {o : Opened} (h : openFile A fromSlice bytes key held = some (.ok o)) :
    ∃ nonce, bytes = Header.write o.contentVersion nonce ++ bytes.drop HEADER_LEN ∧
      (∀ v ∈ held, v ≤ o.contentVersion) ∧
      (∃ buffer len, A.openInPlace key nonce (Header.write o.contentVersion nonce) (bytes.drop HEADER_LEN) =
        (buffer, some len) ∧ o.plaintext = buffer.take len) ∧
      ∃ view, fromSlice o.plaintext = some view ∧ view.version = o.contentVersion := by
  obtain ⟨r, hr⟩ := Header.parse_total bytes
  cases r with
  | error e =>
      rw [openFile_error hr] at h
      cases h
  | ok header =>
      by_cases hv : ∀ v ∈ held, ¬ header.contentVersion < v
      · rw [openFile_body hr hv, Option.some.injEq] at h
        obtain ⟨hver, hopen, hview⟩ := openBody_ok h
        refine ⟨header.nonce, ?_, ?_, hver ▸ hopen, hview⟩
        · rw [hver, Header.write_of_parse hr, List.take_append_drop]
        · intro v hm
          exact hver ▸ UInt64.not_lt.mp (hv v hm)
      · obtain ⟨v, rfl, hlt⟩ : ∃ v, held = some v ∧ header.contentVersion < v := by simpa using hv
        rw [openFile_rollback hr hlt] at h
        cases h

/-- `open`, now that no index can be out of range. -/
def openSealed (A : Aead) (fromSlice : Bytes → Option View) (bytes : Bytes) (key : SealKey)
    (held : Option UInt64) : Except SealError Opened :=
  (openFile A fromSlice bytes key held).get
    (Option.isSome_iff_exists.mpr (openFile_total A fromSlice bytes key held))

theorem openSealed_eq {r : Except SealError Opened} :
    openSealed A fromSlice bytes key held = r ↔ openFile A fromSlice bytes key held = some r := by
  obtain ⟨r', hr⟩ := openFile_total A fromSlice bytes key held
  simp only [openSealed, hr, Option.get_some, Option.some.injEq]

theorem peekVersion_total (bytes : Bytes) : (peekVersion bytes).isSome := by
  obtain ⟨r, hr⟩ := Header.parse_total bytes
  simp [peekVersion, hr]

def peek (bytes : Bytes) : Except SealError UInt64 := (peekVersion bytes).get (peekVersion_total bytes)

theorem peek_of_parse {header : Header} (h : Header.parse bytes = some (.ok header)) :
    peek bytes = .ok header.contentVersion := by
  simp [peek, peekVersion, h, Except.map]

theorem openSealed_peek {o : Opened} (h : openSealed A fromSlice bytes key held = .ok o) :
    peek bytes = .ok o.contentVersion := by
  obtain ⟨nonce, hbytes, -⟩ := openFile_ok (openSealed_eq.mp h)
  have hparse := Header.parse_write o.contentVersion nonce (bytes.drop HEADER_LEN)
  rw [← hbytes] at hparse
  exact peek_of_parse hparse

/-- A file that opens is not newer than what `peek` said, nor older. -/
theorem openSealed_version {o : Opened} {v : UInt64} (hp : peek bytes = .ok v)
    (h : openSealed A fromSlice bytes key held = .ok o) : o.contentVersion = v :=
  Except.ok.inj ((openSealed_peek h).symm.trans hp)

/-- Without a floor, what opened against one still opens. -/
theorem openSealed_unheld {o : Opened} (h : openSealed A fromSlice bytes key held = .ok o) :
    openSealed A fromSlice bytes key none = .ok o := by
  rw [openSealed_eq] at h ⊢
  obtain ⟨r, hr⟩ := Header.parse_total bytes
  cases r with
  | error e => exact absurd ((openFile_error hr).symm.trans h) (by simp)
  | ok header =>
      by_cases hv : ∀ v ∈ held, ¬ header.contentVersion < v
      · rw [← h, openFile_body hr hv, openFile_body hr (by simp)]
      · obtain ⟨v, rfl, hlt⟩ : ∃ v, held = some v ∧ header.contentVersion < v := by simpa using hv
        exact absurd ((openFile_rollback hr hlt).symm.trans h) (by simp)

/-- The checks on the unauthenticated header, in the order `open` makes them. -/
inductive HeaderCase (bytes : Bytes) (held : Option UInt64) : Except SealError Opened → Prop where
  | truncated (short : bytes.length < HEADER_LEN) :
      HeaderCase bytes held (.error (.truncated bytes.length HEADER_LEN))
  | badMagic (long : HEADER_LEN ≤ bytes.length) (magic : bytes.take MAGIC.length ≠ MAGIC) :
      HeaderCase bytes held (.error .badMagic)
  | unsupportedFormat (long : HEADER_LEN ≤ bytes.length) (magic : bytes.take MAGIC.length = MAGIC)
      (format : bytes[MAGIC.length]? ≠ some FORMAT_VERSION) :
      HeaderCase bytes held (.error (.unsupportedFormat (bytes.getD MAGIC.length 0)))
  | rollback (long : HEADER_LEN ≤ bytes.length) (magic : bytes.take MAGIC.length = MAGIC)
      (format : bytes[MAGIC.length]? = some FORMAT_VERSION) (v : UInt64) (hv : v ∈ held)
      (older : headerVersion bytes < v) :
      HeaderCase bytes held (.error (.rollback v (headerVersion bytes)))
  | body (long : HEADER_LEN ≤ bytes.length) (magic : bytes.take MAGIC.length = MAGIC)
      (format : bytes[MAGIC.length]? = some FORMAT_VERSION)
      (current : ∀ v ∈ held, ¬ headerVersion bytes < v) (r : Except SealError Opened)
      (last : ∀ e, r = .error e → e = .authFailed ∨ e = .malformedBody ∨
        ∃ body, e = .versionMismatch (headerVersion bytes) body) :
      HeaderCase bytes held r

theorem openFile_cases {r : Except SealError Opened}
    (h : openFile A fromSlice bytes key held = some r) : HeaderCase bytes held r := by
  by_cases hlen : bytes.length < HEADER_LEN
  · rw [openFile_error (if_pos hlen), Option.some.injEq] at h
    exact h ▸ .truncated hlen
  have hlen := Nat.not_lt.mp hlen
  have hp := Header.parse_long hlen
  by_cases hm : bytes.take MAGIC.length = MAGIC
  swap
  · rw [openFile_error (hp.trans (by rw [if_pos hm])), Option.some.injEq] at h
    exact h ▸ .badMagic hlen hm
  by_cases hf : bytes[MAGIC.length]? = some FORMAT_VERSION
  swap
  · rw [openFile_error (hp.trans (by rw [if_neg (not_not.mpr hm), if_pos hf])), Option.some.injEq] at h
    exact h ▸ .unsupportedFormat hlen hm hf
  rw [if_neg (not_not.mpr hm), if_neg (not_not.mpr hf)] at hp
  by_cases hv : ∀ v ∈ held, ¬ headerVersion bytes < v
  · rw [openFile_body hp hv, Option.some.injEq] at h
    apply HeaderCase.body hlen hm hf hv r
    intro e he
    exact openBody_error (h.trans he)
  · obtain ⟨v, rfl, hlt⟩ : ∃ v, held = some v ∧ headerVersion bytes < v := by simpa using hv
    rw [openFile_rollback hp hlt, Option.some.injEq] at h
    exact h ▸ .rollback hlen hm hf v rfl hlt

/-- Every octet of an accepted file is authenticated, every rejection has its one cause, and
no input makes `open` index out of range. -/
theorem open_exact (authentic : A.Authentic) (fromSlice : Bytes → Option View) (bytes : Bytes)
    (key : SealKey) (held : Option UInt64) :
    (∀ header, Header.parse bytes = some (.ok header) →
      Header.write header.contentVersion header.nonce = bytes.take HEADER_LEN) ∧
    ∃ r, openFile A fromSlice bytes key held = some r ∧
      (∀ o, r = .ok o → ∃ nonce ciphertext,
        bytes = Header.write o.contentVersion nonce ++ ciphertext ∧
        A.sealInPlaceAppendTag key nonce (Header.write o.contentVersion nonce) o.plaintext =
          some ciphertext) ∧
      ((∃ got need, r = .error (.truncated got need)) ↔ bytes.length < HEADER_LEN) ∧
      (HEADER_LEN ≤ bytes.length →
        (r = .error .badMagic ↔ bytes.take MAGIC.length ≠ MAGIC) ∧
        (bytes.take MAGIC.length = MAGIC →
          ((∃ got, r = .error (.unsupportedFormat got)) ↔ bytes[MAGIC.length]? ≠ some 1) ∧
          (bytes[MAGIC.length]? = some 1 →
            ((∃ v offered, r = .error (.rollback v offered)) ↔ ∃ v ∈ held, headerVersion bytes < v) ∧
            ((¬ ∃ v ∈ held, headerVersion bytes < v) → ∀ e, r = .error e →
              e = .authFailed ∨ e = .malformedBody ∨
                ∃ body, e = .versionMismatch (headerVersion bytes) body)))) := by
  refine ⟨fun header h => Header.write_of_parse h, ?_⟩
  obtain ⟨r, hr⟩ := openFile_total A fromSlice bytes key held
  refine ⟨r, hr, ?_, ?_⟩
  · rintro o rfl
    obtain ⟨nonce, hbytes, -, ⟨buffer, len, hopen, hplain⟩, -⟩ := openFile_ok hr
    exact ⟨nonce, _, hbytes, hplain ▸ authentic _ _ _ _ _ _ hopen⟩
  · cases openFile_cases hr with
    | truncated short => exact ⟨by simp [short], fun long => absurd long (Nat.not_le.mpr short)⟩
    | badMagic long magic =>
        exact ⟨by simpa using long, fun _ => ⟨by simpa using magic, fun hm => absurd hm magic⟩⟩
    | unsupportedFormat long magic format =>
        refine ⟨by simpa using long, fun _ => ⟨by simpa using magic, fun _ => ⟨?_, fun hf => absurd hf format⟩⟩⟩
        simpa [FORMAT_VERSION] using format
    | rollback long magic format v hv older =>
        refine ⟨by simpa using long, fun _ => ⟨by simpa using magic, fun _ => ⟨by simpa [FORMAT_VERSION] using format,
          fun _ => ⟨?_, ?_⟩⟩⟩⟩
        · simpa using ⟨v, hv, older⟩
        · exact fun hnot => absurd ⟨v, hv, older⟩ hnot
    | body long magic format current r last =>
        have other : ∀ {e}, e ≠ .authFailed → e ≠ .malformedBody →
            (∀ body, e ≠ .versionMismatch (headerVersion bytes) body) → r ≠ .error e := by
          intro e h1 h2 h3 he
          rcases last e he with rfl | rfl | ⟨body, rfl⟩
          · exact h1 rfl
          · exact h2 rfl
          · exact h3 body rfl
        refine ⟨?_, fun _ => ⟨?_, fun _ => ⟨?_, fun _ => ⟨?_, fun _ => last⟩⟩⟩⟩
        · refine iff_of_false ?_ (Nat.not_lt.mpr long)
          rintro ⟨got, need, he⟩
          exact other (by simp) (by simp) (by simp) he
        · exact iff_of_false (other (by simp) (by simp) (by simp)) (not_not.mpr magic)
        · refine iff_of_false ?_ (not_not.mpr format)
          rintro ⟨got, he⟩
          exact other (by simp) (by simp) (by simp) he
        · refine iff_of_false ?_ (by simpa using current)
          rintro ⟨v, offered, he⟩
          exact other (by simp) (by simp) (by simp) he

end Open

def sampleKey : SealKey := ⟨(List.range 32).map UInt8.ofNat, rfl⟩

def sampleBody : Bytes :=
  utf8 "\x7b\"version\":1,\"secrets\":\x7b\x7d,\"policies\":\x7b\x7d,\"tokens\":\x7b\x7d\x7d".toList

def sampleNonce : Nonce := ⟨List.replicate 12 7, rfl⟩

/-- AES-256-GCM of `sampleBody` under `sampleKey` and `sampleNonce`, with the header of
version 1 as additional data. -/
def sampleCiphertext : Bytes :=
  [116, 72, 208, 57, 29, 124, 190, 155, 168, 191, 41, 177, 172, 115, 135, 254, 194, 46, 232, 7, 251,
    213, 187, 98, 131, 151, 124, 138, 107, 178, 91, 120, 78, 33, 130, 92, 187, 59, 137, 190, 32, 138,
    206, 150, 167, 121, 170, 4, 129, 51, 206, 52, 10, 158, 99, 201, 233, 42, 126, 146, 170, 138, 102,
    185, 174, 19, 155, 204]

def sampleSealing : Sealing :=
  ⟨sampleKey, sampleNonce, Header.write 1 sampleNonce, sampleBody, sampleCiphertext⟩

def sampleFile : Bytes := Header.write 1 sampleNonce ++ sampleCiphertext

def sampleFromSlice (bytes : Bytes) : Option View :=
  if bytes = sampleBody then some ⟨1, .empty, .empty, .empty, none⟩ else none

theorem open_exact_sample :
    (Aead.recorded [sampleSealing]).Authentic ∧
    openFile (Aead.recorded [sampleSealing]) sampleFromSlice sampleFile sampleKey (some 1) =
      some (.ok ⟨sampleBody, 1⟩) ∧
    ∃ nonce ciphertext, sampleFile = Header.write 1 nonce ++ ciphertext ∧
      (Aead.recorded [sampleSealing]).sealInPlaceAppendTag sampleKey nonce (Header.write 1 nonce)
        sampleBody = some ciphertext := by
  have authentic : (Aead.recorded [sampleSealing]).Authentic := Aead.recorded_authentic (by decide)
  have hopen : openFile (Aead.recorded [sampleSealing]) sampleFromSlice sampleFile sampleKey (some 1) =
      some (.ok ⟨sampleBody, 1⟩) := by decide +kernel
  obtain ⟨-, r, hr, hok, -⟩ := open_exact authentic sampleFromSlice sampleFile sampleKey (some 1)
  exact ⟨authentic, hopen, hok ⟨sampleBody, 1⟩ (Option.some.inj (hr.symm.trans hopen))⟩

end Kallisto.Crypto
