import Mathlib.Data.Set.Insert
import Mathlib.Order.Basic

/-!
A register whose values carry stamps, and the values it has held. As long as each value written
has a greater stamp than the one it replaces, a stamp names one value of the past, and nothing of
the past is newer than what the register holds.
-/
namespace Lib
variable {α σ : Type*} [Preorder σ] {stamp : α → Option σ} {past : Set α} {current : Option α}

/-- Of the values the register has held, those with a stamp. -/
structure Chronicle (stamp : α → Option σ) (past : Set α) (current : Option α) : Prop where
  held : ∀ a ∈ current, (stamp a).isSome → a ∈ past
  unique : ∀ a ∈ past, ∀ b ∈ past, stamp a = stamp b → a = b
  newest : ∀ a ∈ past, ∃ v ∈ stamp a, ∃ b ∈ current, ∃ w ∈ stamp b, v ≤ w

namespace Chronicle

theorem start (current : Option α) : Chronicle stamp { a | a ∈ current ∧ (stamp a).isSome } current where
  held _ ha hs := ⟨ha, hs⟩
  unique _ ha _ hb _ := Option.some.inj (ha.1.symm.trans hb.1)
  newest a ha := by
    obtain ⟨v, hv⟩ := Option.isSome_iff_exists.mp ha.2
    exact ⟨v, hv, a, ha.1, v, hv, le_refl v⟩

/-- Where the register holds nothing with a stamp, nothing with a stamp has been there. -/
theorem past_empty (h : Chronicle stamp past current) (unstamped : ∀ a ∈ current, stamp a = none) : past = ∅ := by
  rw [Set.eq_empty_iff_forall_notMem]
  intro a ha
  obtain ⟨-, -, b, hb, w, hw, -⟩ := h.newest a ha
  rw [unstamped b hb] at hw
  cases hw

theorem write (h : Chronicle stamp past current) {b : α} {w : σ} (hw : stamp b = some w)
    (rises : ∀ a ∈ current, ∀ v ∈ stamp a, v < w) : Chronicle stamp (insert b past) (some b) := by
  have hless : ∀ a ∈ past, ∃ v ∈ stamp a, v < w := by
    intro a ha
    obtain ⟨v, hv, c, hc, u, hu, hle⟩ := h.newest a ha
    exact ⟨v, hv, lt_of_le_of_lt hle (rises c hc u hu)⟩
  have hother : ∀ a ∈ past, stamp a ≠ stamp b := by
    intro a ha heq
    obtain ⟨v, hv, hlt⟩ := hless a ha
    rw [heq, hw] at hv
    cases hv
    exact lt_irrefl w hlt
  refine ⟨?_, ?_, ?_⟩
  · rintro a ⟨⟩ -
    exact Set.mem_insert ..
  · rintro a (rfl | ha) c (rfl | hc) heq
    · rfl
    · exact absurd heq.symm (hother c hc)
    · exact absurd heq (hother a ha)
    · exact h.unique a ha c hc heq
  · rintro a (rfl | ha)
    · exact ⟨w, hw, a, rfl, w, hw, le_refl w⟩
    · obtain ⟨v, hv, hlt⟩ := hless a ha
      exact ⟨v, hv, b, rfl, w, hw, le_of_lt hlt⟩

/-- Whatever replaces a value without a stamp, the chronicle starts anew. -/
theorem restart (h : Chronicle stamp past current) (unstamped : ∀ a ∈ current, stamp a = none) (next : Option α) :
    ∃ past', past ⊆ past' ∧ Chronicle stamp past' next := by
  refine ⟨_, ?_, start next⟩
  rw [h.past_empty unstamped]
  exact Set.empty_subset _

end Chronicle

end Lib
