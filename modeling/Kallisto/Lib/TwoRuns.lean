import Kallisto.Lib.Runs
import Mathlib.Data.List.Forall2

/-!
Two runs: of one step function from related states under schedules that are related turn by turn,
which stay related and show the same at every step; and of two step functions from one state,
which take the same steps for as long as an invariant of the past holds.
-/
namespace Lib
variable {σ ι ε ω : Type*}

theorem run_related (step : σ → ι → σ × ε) {R : σ → σ → Prop} {Q : ι → ι → Prop} {shown : ε → Option ω}
    (hstep : ∀ s s' i i', R s s' → Q i i' →
      R (step s i).1 (step s' i').1 ∧ shown (step s i).2 = shown (step s' i').2)
    {s s' : σ} (h : R s s') {is is' : List ι} (his : List.Forall₂ Q is is') :
    R (run step s is).1 (run step s' is').1 ∧
      (run step s is).2.filterMap shown = (run step s' is').2.filterMap shown := by
  induction his generalizing s s' with
  | nil => exact ⟨h, rfl⟩
  | cons hi _ ih =>
      obtain ⟨hnext, hshown⟩ := hstep s s' _ _ h hi
      obtain ⟨hend, hrest⟩ := ih hnext
      refine ⟨hend, ?_⟩
      simp only [run, List.filterMap_cons, hshown, hrest]

/-- The invariant speaks of the inputs so far, which are a beginning of the schedule. -/
theorem run_agree {f g : σ → ι → σ × ε} {I : List ι → σ → Prop} {E : ε → ε → Prop} {s : σ} (start : I [] s)
    {is : List ι} (hstep : ∀ past i, past ++ [i] <+: is → ∀ s, I past s →
      (f s i).1 = (g s i).1 ∧ E (f s i).2 (g s i).2 ∧ I (past ++ [i]) (f s i).1) :
    (run f s is).1 = (run g s is).1 ∧ List.Forall₂ E (run f s is).2 (run g s is).2 := by
  suffices h : (run f s is).1 = (run g s is).1 ∧ List.Forall₂ E (run f s is).2 (run g s is).2 ∧ I is (run f s is).1 from
    ⟨h.1, h.2.1⟩
  induction is using List.reverseRecOn with
  | nil => exact ⟨rfl, .nil, start⟩
  | append_singleton is i ih =>
      obtain ⟨hstate, hevents, hinv⟩ := ih fun past j hpast => hstep past j (hpast.trans (List.prefix_append is [i]))
      obtain ⟨hnext, hevent, hafter⟩ := hstep is i (List.prefix_refl _) _ hinv
      simp only [run_snoc]
      refine ⟨?_, ?_, hafter⟩
      · rw [hnext, hstate]
      · refine List.rel_append hevents (.cons ?_ .nil)
        rw [← hstate]
        exact hevent

end Lib
