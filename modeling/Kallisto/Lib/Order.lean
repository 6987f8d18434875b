import Kallisto.Lib.Text
import Mathlib.Data.List.Lex
import Mathlib.Data.List.Pairwise
import Mathlib.Order.Lattice

/-!
Orders a listing rests on. The order of texts is the order of their encodings octet by octet,
and pushing only what differs from the last entry turns an increasing list into a strictly
increasing one.
-/
namespace Lib

theorem cons_ofNat_lt {a b : Nat} (ha : a < 256) (hb : b < 256) {x y : Bytes} :
    UInt8.ofNat a :: x < UInt8.ofNat b :: y ↔ a < b ∨ a = b ∧ x < y := by
  rw [List.cons_lt_cons_iff, ← UInt8.toNat_inj, UInt8.lt_iff_toNat_lt, UInt8.toNat_ofNat', UInt8.toNat_ofNat',
    Nat.mod_eq_of_lt ha, Nat.mod_eq_of_lt hb]

/-- The first octet that differs decides, and it is inside the encodings. -/
theorem utf8EncodeChar_lt {c d : Char} (h : c < d) (x y : Bytes) :
    String.utf8EncodeChar c ++ x < String.utf8EncodeChar d ++ y := by
  have hlt : c.val.toNat < d.val.toNat := UInt32.lt_iff_toNat_lt.mp (Char.lt_def.mp h)
  have hmax : d.val.toNat < 0x110000 := by
    rcases d.valid with hsmall | ⟨-, hlarge⟩
    · exact Nat.lt_trans hsmall (by decide)
    · exact hlarge
  -- the digits of a code point in base 64, so that one chain of quotients serves all lengths
  have base (n : Nat) : n / 4096 = n / 64 / 64 ∧ n / 262144 = n / 64 / 64 / 64 := by omega
  simp only [String.utf8EncodeChar, base]
  split_ifs <;> simp (disch := omega) only [List.cons_append, List.nil_append, cons_ofNat_lt] <;> omega

theorem utf8_lt_of_lt {s t : Text} (h : s < t) : utf8 s < utf8 t := by
  induction s generalizing t with
  | nil =>
      cases t with
      | nil => exact absurd h (List.not_lt_nil [])
      | cons d t =>
          rw [utf8_nil, utf8_cons]
          cases he : String.utf8EncodeChar d with
          | nil => exact absurd he String.utf8EncodeChar_ne_nil
          | cons b bs => exact List.nil_lt_cons b _
  | cons c s ih =>
      cases t with
      | nil => exact absurd h (List.not_lt_nil _)
      | cons d t =>
          rcases List.cons_lt_cons_iff.mp h with hlt | ⟨rfl, hlt⟩
          · exact utf8EncodeChar_lt hlt (utf8 s) (utf8 t)
          · exact List.append_left_lt (ih hlt)

section Push
variable {α : Type} [DecidableEq α]

def pushNew (seen : List α) (x : α) : List α := if seen.getLast? ≠ some x then seen ++ [x] else seen

theorem mem_pushNew {seen : List α} {x y : α} : y ∈ pushNew seen x ↔ y ∈ seen ∨ y = x := by
  unfold pushNew
  split_ifs with hlast
  · rw [List.mem_append, List.mem_singleton]
  · constructor
    · exact .inl
    · rintro (hmem | rfl)
      · exact hmem
      · exact List.mem_of_getLast? (not_not.mp hlast)

theorem mem_foldl_pushNew {l seen : List α} {y : α} : y ∈ l.foldl pushNew seen ↔ y ∈ seen ∨ y ∈ l := by
  induction l generalizing seen with
  | nil => simp
  | cons x l ih => rw [List.foldl_cons, ih, mem_pushNew, List.mem_cons, or_assoc]

variable [PartialOrder α]

theorem pushNew_increasing {seen : List α} {x : α} (hseen : seen.Pairwise (· < ·)) (hle : ∀ y ∈ seen, y ≤ x) :
    (pushNew seen x).Pairwise (· < ·) := by
  unfold pushNew
  split_ifs with hlast
  · rw [List.pairwise_append]
    refine ⟨hseen, List.pairwise_singleton _ _, ?_⟩
    intro y hy z hz
    rw [List.mem_singleton] at hz
    subst hz
    apply lt_of_le_of_ne (hle y hy)
    rintro rfl
    -- an entry no entry exceeds is the last one
    apply hlast
    obtain rfl | ⟨before, last, rfl⟩ := seen.eq_nil_or_concat'
    · cases hy
    · rw [List.getLast?_concat]
      rcases List.mem_append.mp hy with hbefore | hsame
      · have hlt := (List.pairwise_append.mp hseen).2.2 y hbefore last (List.mem_singleton_self last)
        exact absurd hlt (not_lt_of_ge (hle last (by simp)))
      · rw [List.mem_singleton.mp hsame]
  · exact hseen

theorem foldl_pushNew_increasing {l seen : List α} (hl : l.Pairwise (· ≤ ·)) (hseen : seen.Pairwise (· < ·))
    (hle : ∀ y ∈ seen, ∀ x ∈ l, y ≤ x) : (l.foldl pushNew seen).Pairwise (· < ·) := by
  induction l generalizing seen with
  | nil => exact hseen
  | cons x l ih =>
      obtain ⟨hhead, htail⟩ := List.pairwise_cons.mp hl
      apply ih htail (pushNew_increasing hseen fun y hy => hle y hy x List.mem_cons_self)
      intro y hy z hz
      rcases mem_pushNew.mp hy with hold | rfl
      · exact hle y hold z (List.mem_cons_of_mem _ hz)
      · exact hhead z hz

end Push

end Lib
