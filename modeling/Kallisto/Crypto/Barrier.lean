import Kallisto.Crypto.SealedFile

/-!
The in-memory barrier: each secret sealed under a key that lives as long as one snapshot,
with a counter for a nonce, and opened one at a time into a buffer the thread keeps.
-/
namespace Kallisto.Crypto
open Lib

structure Sealed where
  nonce : Nonce
  bytes : Bytes
  deriving DecidableEq

structure Barrier where
  key : SealKey
  nonce : UInt64
  deriving DecidableEq

/-- `seed` is what the system's random number generator gave for the key. -/
def Barrier.new (seed : Option SealKey) : Except SealError Barrier :=
  match seed with
  | none => .error .randomUnavailable
  | some key => .ok { key, nonce := 0 }

/-- The counter in the low eight octets, zero above. -/
def counterNonce (counter : UInt64) : Nonce :=
  ⟨toLeBytes 8 counter.toNat ++ List.replicate 4 0, by
    rw [List.length_append, toLeBytes_length, List.length_replicate, NONCE_LEN]⟩

def Barrier.seal (A : Aead) (b : Barrier) (plaintext : Bytes) : Except SealError (Sealed × Barrier) :=
  let nonce := counterNonce b.nonce
  match A.sealInPlaceAppendTag b.key nonce [] plaintext with
  | none => .error .authFailed
  | some bytes => .ok (⟨nonce, bytes⟩, { b with nonce := b.nonce + 1 })

def MINIMUM_SCRATCH : Nat := 1024

/-- The buffer before and after the call is the thread's own; the caller's closure sees the
text and nothing else. -/
def Barrier.withPlaintext {R : Type} (A : Aead) (b : Barrier) (sealed : Sealed) (f : Text → R)
    (scratch : Bytes) : Bytes × Except SealError R :=
  let needed := sealed.bytes.length
  let buffer :=
    if scratch.length < needed then
      scratch ++ List.replicate (max needed MINIMUM_SCRATCH - scratch.length) 0
    else scratch
  let buffer := sealed.bytes ++ buffer.drop needed
  let (front, opened) := A.openInPlace b.key sealed.nonce [] (buffer.take needed)
  let buffer := front ++ buffer.drop needed
  let outcome :=
    match opened with
    | none => .error .authFailed
    | some len =>
        match fromUtf8 (front.take len) with
        | none => .error .malformedBody
        | some text => .ok (f text)
  (List.replicate needed 0 ++ buffer.drop needed, outcome)

/-- What was sealed from a text is handed to the closure as that text. -/
theorem withPlaintext_sealed {R : Type} {A : Aead} (opens : A.Opens) {b : Barrier} {sealed : Sealed}
    {text : Text} (h : A.sealInPlaceAppendTag b.key sealed.nonce [] (utf8 text) = some sealed.bytes)
    (f : Text → R) (scratch : Bytes) : (b.withPlaintext A sealed f scratch).2 = .ok (f text) := by
  obtain ⟨buffer, hopen, hplain⟩ := opens _ _ _ _ _ h
  simp only [Barrier.withPlaintext, List.take_left, hopen, hplain, fromUtf8_utf8]

theorem seal_ok {A : Aead} {b b' : Barrier} {plaintext : Bytes} {sealed : Sealed}
    (h : b.seal A plaintext = .ok (sealed, b')) :
    b'.key = b.key ∧ b'.nonce = b.nonce + 1 ∧ sealed.nonce = counterNonce b.nonce ∧
      A.sealInPlaceAppendTag b.key sealed.nonce [] plaintext = some sealed.bytes := by
  unfold Barrier.seal at h
  cases hs : A.sealInPlaceAppendTag b.key (counterNonce b.nonce) [] plaintext with
  | none => simp [hs] at h
  | some bytes =>
      simp only [hs, Except.ok.injEq, Prod.mk.injEq] at h
      obtain ⟨rfl, rfl⟩ := h
      exact ⟨rfl, rfl, rfl, hs⟩

end Kallisto.Crypto
