import Kallisto.Crypto.Barrier
import Kallisto.Lib.Runs

/-!
The decryption buffer of one thread over a whole run of `with_plaintext`. A call wipes only
the octets it used; that the rest is zero too is an invariant of the run, and the reason a
closure cannot be shown what an earlier call left.
-/
namespace Kallisto.Crypto
open Lib

/-- `open_in_place` writes inside the slice it is given and answers with a part of it. -/
def Aead.InPlace (A : Aead) : Prop :=
  ∀ key nonce aad buffer, (A.openInPlace key nonce aad buffer).1.length = buffer.length ∧
    ∀ len ∈ (A.openInPlace key nonce aad buffer).2, len ≤ buffer.length

/-- `buffer[..needed]` written over; `none` where the index or the lengths would panic. -/
def overwrite (buffer : Bytes) (needed : Nat) (front : Bytes) : Option Bytes :=
  if needed ≤ buffer.length ∧ front.length = needed then some (front ++ buffer.drop needed) else none

/-- `withPlaintext` with every index checked. -/
def Barrier.withPlaintextChecked {R : Type} (A : Aead) (b : Barrier) (sealed : Sealed) (f : Text → R)
    (scratch : Bytes) : Option (Bytes × Except SealError R) := do
  let needed := sealed.bytes.length
  let buffer :=
    if scratch.length < needed then
      scratch ++ List.replicate (max needed MINIMUM_SCRATCH - scratch.length) 0
    else scratch
  let buffer ← overwrite buffer needed sealed.bytes
  let inOut ← slice buffer 0 needed
  let (front, opened) := A.openInPlace b.key sealed.nonce [] inOut
  let buffer ← overwrite buffer needed front
  let outcome ←
    match opened with
    | none => some (.error .authFailed)
    | some len => (slice front 0 len).map fun plain =>
        match fromUtf8 plain with
        | none => .error .malformedBody
        | some text => .ok (f text)
  let buffer ← overwrite buffer needed (List.replicate needed 0)
  return (buffer, outcome)

/-- Whether the buffer holds only zeroes; `none` is a buffer borrowed by a call. -/
def scratchIsWiped : Option Bytes → Bool
  | none => false
  | some buffer => buffer.all (· == 0)

/-- One call of a thread, with a closure of its own result type. -/
structure Opening where
  R : Type
  barrier : Barrier
  sealed : Sealed
  f : Text → R

def Opening.call (A : Aead) (o : Opening) (scratch : Bytes) : Option (Bytes × Except SealError o.R) :=
  o.barrier.withPlaintextChecked A o.sealed o.f scratch

/-- What a thread's calls leave of its buffer, which starts empty. -/
def scratchAfter (A : Aead) (calls : List Opening) : Option Bytes :=
  calls.foldlM (fun scratch o => (o.call A scratch).map Prod.fst) []

/-- What a call hands its closure, from the key and the sealed entry alone. -/
def Opening.plaintext (A : Aead) (o : Opening) : Except SealError Text :=
  match A.openInPlace o.barrier.key o.sealed.nonce [] o.sealed.bytes with
  | (_, none) => .error .authFailed
  | (front, some len) => (fromUtf8 (front.take len)).elim (.error .malformedBody) .ok

theorem overwrite_of_le {buffer front : Bytes} {needed : Nat} (hn : needed ≤ buffer.length)
    (hf : front.length = needed) : overwrite buffer needed front = some (front ++ buffer.drop needed) :=
  if_pos ⟨hn, hf⟩

/-- No index of the call is out of range, whatever the buffer held. -/
theorem withPlaintextChecked_eq {R : Type} {A : Aead} (inPlace : A.InPlace) (b : Barrier) (sealed : Sealed)
    (f : Text → R) (scratch : Bytes) :
    b.withPlaintextChecked A sealed f scratch = some (b.withPlaintext A sealed f scratch) := by
  obtain ⟨hfront, hopened⟩ := inPlace b.key sealed.nonce [] sealed.bytes
  cases hopen : A.openInPlace b.key sealed.nonce [] sealed.bytes with
  | mk front opened =>
      rw [hopen] at hfront hopened
      simp only [Barrier.withPlaintextChecked, Barrier.withPlaintext]
      generalize hgrown : (if scratch.length < sealed.bytes.length then
        scratch ++ List.replicate (max sealed.bytes.length MINIMUM_SCRATCH - scratch.length) 0
        else scratch) = grown
      have hlen : sealed.bytes.length ≤ grown.length := by
        rw [← hgrown]
        split_ifs with h
        · simp only [List.length_append, List.length_replicate]
          omega
        · omega
      have hfull : sealed.bytes.length ≤ (sealed.bytes ++ grown.drop sealed.bytes.length).length := by
        rw [List.length_append]
        omega
      have hwritten : sealed.bytes.length ≤ (front ++ grown.drop sealed.bytes.length).length := by
        rw [List.length_append, hfront]
        omega
      simp only [overwrite_of_le hlen, slice_of_le (Nat.zero_le _) hfull, List.drop_zero, Nat.sub_zero,
        List.take_left, List.drop_left, hopen, overwrite_of_le hfull hfront, Option.bind_eq_bind,
        Option.bind_some, overwrite_of_le hwritten List.length_replicate]
      cases opened with
      | none => rfl
      | some len =>
          have hle : len ≤ front.length := (hopened len rfl).trans (Nat.le_of_eq hfront.symm)
          simp only [slice_of_le (Nat.zero_le _) hle, List.drop_zero, Nat.sub_zero, Option.map_some,
            Option.bind_some]
          rfl

theorem withPlaintext_outcome (A : Aead) (o : Opening) (scratch : Bytes) :
    (o.barrier.withPlaintext A o.sealed o.f scratch).2 = (o.plaintext A).map o.f := by
  cases hopen : A.openInPlace o.barrier.key o.sealed.nonce [] o.sealed.bytes with
  | mk front opened =>
      simp only [Barrier.withPlaintext, Opening.plaintext, List.take_left, hopen]
      cases opened with
      | none => rfl
      | some len =>
          simp only
          cases fromUtf8 (front.take len) <;> rfl

/-- A call on a wiped buffer leaves a wiped buffer, grown where the entry did not fit. -/
theorem withPlaintext_wiped {R : Type} {A : Aead} (inPlace : A.InPlace) (b : Barrier) (sealed : Sealed)
    (f : Text → R) (n : Nat) :
    ∃ m, n ≤ m ∧ (b.withPlaintext A sealed f (List.replicate n 0)).1 = List.replicate m 0 := by
  obtain ⟨hfront, -⟩ := inPlace b.key sealed.nonce [] sealed.bytes
  simp only [Barrier.withPlaintext, List.take_left, List.drop_left, List.length_replicate]
  rw [List.drop_left' hfront]
  split_ifs with h
  · refine ⟨max sealed.bytes.length MINIMUM_SCRATCH, by omega, ?_⟩
    rw [List.replicate_append_replicate, List.drop_replicate, List.replicate_append_replicate]
    congr 1
    omega
  · refine ⟨n, le_rfl, ?_⟩
    rw [List.drop_replicate, List.replicate_append_replicate]
    congr 1
    omega

theorem scratchAfter_snoc (A : Aead) (before : List Opening) (o : Opening) :
    scratchAfter A (before ++ [o]) = (scratchAfter A before).bind fun s => (o.call A s).map Prod.fst := by
  rw [scratchAfter, List.foldlM_append]
  simp only [List.foldlM_cons, List.foldlM_nil, bind_pure]
  rfl

theorem scratchAfter_wiped {A : Aead} (inPlace : A.InPlace) (calls : List Opening) :
    ∃ n, scratchAfter A calls = some (List.replicate n 0) := by
  induction calls using List.reverseRecOn with
  | nil => exact ⟨0, rfl⟩
  | append_singleton before o ih =>
      obtain ⟨n, hn⟩ := ih
      obtain ⟨m, -, hm⟩ := withPlaintext_wiped inPlace o.barrier o.sealed o.f n
      refine ⟨m, ?_⟩
      rw [scratchAfter_snoc, hn, Option.bind_some, Opening.call, withPlaintextChecked_eq inPlace,
        Option.map_some, hm]

theorem scratchIsWiped_replicate (n : Nat) : scratchIsWiped (some (List.replicate n 0)) = true := by
  simp [scratchIsWiped]

/-- Whatever a thread opened before, its next call finds a wiped buffer and leaves one no
shorter, indexes nothing out of range, and hands its closure what was sealed. -/
theorem scratch_wiped_around_every_call {A : Aead} (inPlace : A.InPlace) (opens : A.Opens)
    (before : List Opening) (o : Opening) :
    ∃ scratch scratch', scratchAfter A before = some scratch ∧
      o.call A scratch = some (scratch', (o.plaintext A).map o.f) ∧
      scratchAfter A (before ++ [o]) = some scratch' ∧
      scratchIsWiped (some scratch) = true ∧ scratchIsWiped (some scratch') = true ∧
      scratch.length ≤ scratch'.length ∧
      ∀ plain, A.sealInPlaceAppendTag o.barrier.key o.sealed.nonce [] plain = some o.sealed.bytes →
        o.plaintext A = (fromUtf8 plain).elim (.error .malformedBody) .ok := by
  obtain ⟨n, hn⟩ := scratchAfter_wiped inPlace before
  obtain ⟨m, hnm, hm⟩ := withPlaintext_wiped inPlace o.barrier o.sealed o.f n
  have hcall : o.call A (List.replicate n 0) = some (List.replicate m 0, (o.plaintext A).map o.f) := by
    rw [Opening.call, withPlaintextChecked_eq inPlace, ← hm, ← withPlaintext_outcome A o (List.replicate n 0)]
  refine ⟨_, _, hn, hcall, ?_, scratchIsWiped_replicate n, scratchIsWiped_replicate m, ?_, ?_⟩
  · rw [scratchAfter_snoc, hn, Option.bind_some, hcall, Option.map_some]
  · rwa [List.length_replicate, List.length_replicate]
  · intro plain hsealed
    obtain ⟨buffer, hopen, hplain⟩ := opens _ _ _ _ _ hsealed
    rw [Opening.plaintext, hopen]
    simp only [hplain]

theorem Aead.recorded_inPlace {table : List Sealing} (h : ∀ s ∈ table, s.plain.length ≤ s.sealed.length) :
    (recorded table).InPlace := by
  intro key nonce aad buffer
  simp only [recorded]
  cases hs : table.find? fun s => s.key = key ∧ s.nonce = nonce ∧ s.aad = aad ∧ s.sealed = buffer with
  | none => exact ⟨rfl, fun _ hlen => absurd hlen (by simp)⟩
  | some s =>
      have hle := h s (List.mem_of_find?_eq_some hs)
      have hkey : s.key = key ∧ s.nonce = nonce ∧ s.aad = aad ∧ s.sealed = buffer := by
        simpa using List.find?_some hs
      rw [hkey.2.2.2] at hle
      refine ⟨?_, fun len hlen => Option.some.inj hlen ▸ hle⟩
      rw [List.length_append, List.length_drop]
      omega

def wipeBarrier : Barrier := ⟨⟨List.replicate 32 7, List.length_replicate⟩, 2⟩

/-- AES-256-GCM of `hello` and of two octets that are no UTF-8, under the first two counters. -/
def wipeTable : List Sealing :=
  [⟨wipeBarrier.key, counterNonce 0, [], utf8 "hello".toList,
      [9, 189, 200, 222, 148, 8, 159, 155, 91, 5, 62, 156, 41, 24, 37, 217, 201, 148, 5, 29, 246]⟩,
    ⟨wipeBarrier.key, counterNonce 1, [], [0xff, 0xfe],
      [112, 30, 113, 203, 122, 65, 248, 65, 185, 213, 150, 239, 133, 153, 140, 112, 22, 159]⟩]

def wipeCall (i : Nat) (counter : UInt64) : Opening :=
  ⟨Nat, wipeBarrier, ⟨counterNonce counter, ((wipeTable[i]?).map Sealing.sealed).getD []⟩, List.length⟩

/-- A secret, an entry under the wrong nonce and an entry that is no UTF-8, then the secret again. -/
theorem scratch_wiped_sample :
    ∃ scratch scratch',
      scratchAfter (Aead.recorded wipeTable) [wipeCall 0 0, wipeCall 0 1, wipeCall 1 1] = some scratch ∧
      (wipeCall 0 0).call (Aead.recorded wipeTable) scratch = some (scratch', .ok (5 : Nat)) ∧
      scratchIsWiped (some scratch') = true := by
  have opens : (Aead.recorded wipeTable).Opens := Aead.recorded_opens (by decide +kernel)
  have inPlace : (Aead.recorded wipeTable).InPlace := Aead.recorded_inPlace (by decide +kernel)
  obtain ⟨s, s', hs, hcall, -, -, hwiped, -, hplain⟩ := scratch_wiped_around_every_call inPlace opens
    [wipeCall 0 0, wipeCall 0 1, wipeCall 1 1] (wipeCall 0 0)
  rw [hplain (utf8 "hello".toList) (by decide +kernel), fromUtf8_utf8] at hcall
  exact ⟨s, s', hs, hcall, hwiped⟩

end Kallisto.Crypto
