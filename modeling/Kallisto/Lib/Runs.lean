import Mathlib.Data.List.Induction

/-!
Runs of a deterministic step function under an arbitrary schedule. Every choice the
environment makes (which thread moves, what a call returned) is part of the schedule, so
a statement about all schedules is a statement about all interleavings.
-/
namespace Lib
variable {σ ι ε : Type*}

/-- The state after a schedule, and the events its steps emitted, oldest first. -/
def run (step : σ → ι → σ × ε) (s : σ) : List ι → σ × List ε
  | [] => (s, [])
  | i :: is =>
      let next := step s i
      let rest := run step next.1 is
      (rest.1, next.2 :: rest.2)

@[simp] theorem run_nil (step : σ → ι → σ × ε) (s : σ) : run step s [] = (s, []) := rfl

theorem run_append (step : σ → ι → σ × ε) (s : σ) (is js : List ι) :
    run step s (is ++ js) =
      ((run step (run step s is).1 js).1, (run step s is).2 ++ (run step (run step s is).1 js).2) := by
  induction is generalizing s with
  | nil => rfl
  | cons i is ih => simp only [List.cons_append, run, ih]

theorem run_snoc (step : σ → ι → σ × ε) (s : σ) (is : List ι) (i : ι) :
    run step s (is ++ [i]) =
      ((step (run step s is).1 i).1, (run step s is).2 ++ [(step (run step s is).1 i).2]) := by
  simp only [run_append, run]

/-- What holds at the start and survives one step holds after every schedule. The property
may speak of the whole trace so far. -/
theorem run_invariant {step : σ → ι → σ × ε} {P : List ε → σ → Prop} {s : σ} (start : P [] s)
    (preserve : ∀ trace s i, P trace s → P (trace ++ [(step s i).2]) (step s i).1) (is : List ι) :
    P (run step s is).2 (run step s is).1 := by
  induction is using List.reverseRecOn with
  | nil => exact start
  | append_singleton is i ih =>
      rw [run_snoc]
      exact preserve _ _ i ih

/-- Every step of the run is taken from a state that allows it. -/
def Guarded (step : σ → ι → σ × ε) (allowed : σ → ι → Prop) (s : σ) : List ι → Prop
  | [] => True
  | i :: is => allowed s i ∧ Guarded step allowed (step s i).1 is

theorem guarded_append {step : σ → ι → σ × ε} {allowed : σ → ι → Prop} {s : σ} {is js : List ι} :
    Guarded step allowed s (is ++ js) ↔ Guarded step allowed s is ∧ Guarded step allowed (run step s is).1 js := by
  induction is generalizing s with
  | nil => simp only [List.nil_append, Guarded, true_and, run_nil]
  | cons i is ih => simp only [List.cons_append, Guarded, ih, and_assoc, run]

/-- What holds at the start and survives every step that is allowed. -/
theorem run_guarded {step : σ → ι → σ × ε} {P : List ε → σ → Prop} {allowed : σ → ι → Prop} {s : σ} (start : P [] s)
    (preserve : ∀ trace s i, P trace s → allowed s i → P (trace ++ [(step s i).2]) (step s i).1) {is : List ι}
    (guarded : Guarded step allowed s is) : P (run step s is).2 (run step s is).1 := by
  induction is using List.reverseRecOn with
  | nil => exact start
  | append_singleton is i ih =>
      obtain ⟨hbefore, hlast, -⟩ := guarded_append.mp guarded
      rw [run_snoc]
      exact preserve _ _ i (ih hbefore) hlast

/-- No step of the run writes. -/
def Silent (step : σ → ι → σ × ε) (writes : σ → ι → Prop) (s : σ) : List ι → Prop
  | [] => True
  | i :: is => ¬ writes s i ∧ Silent step writes (step s i).1 is

theorem silent_snoc {step : σ → ι → σ × ε} {writes : σ → ι → Prop} {s : σ} {is : List ι} {i : ι}
    (silent : Silent step writes s is) (h : ¬ writes (run step s is).1 i) : Silent step writes s (is ++ [i]) := by
  induction is generalizing s with
  | nil => exact ⟨h, trivial⟩
  | cons j is ih => exact ⟨silent.1, ih silent.2 h⟩

/-- Where a step that does not write leaves the state as it is, the state after a run is the one
its last write left. -/
theorem run_last_write {step : σ → ι → σ × ε} {writes : σ → ι → Prop}
    (frame : ∀ s i, ¬ writes s i → (step s i).1 = s) (s : σ) (is : List ι) :
    (run step s is).1 = s ∨
      ∃ before i after, is = before ++ i :: after ∧ writes (run step s before).1 i ∧
        Silent step writes (step (run step s before).1 i).1 after ∧
        (run step s is).1 = (step (run step s before).1 i).1 := by
  induction is using List.reverseRecOn with
  | nil => exact .inl rfl
  | append_singleton is i ih =>
      rw [run_snoc]
      by_cases hw : writes (run step s is).1 i
      · exact .inr ⟨is, i, [], rfl, hw, trivial, rfl⟩
      · rw [frame _ _ hw]
        rcases ih with hstart | ⟨before, j, after, rfl, hj, hsilent, hstate⟩
        · exact .inl hstart
        · refine .inr ⟨before, j, after ++ [i], by simp, hj, ?_, hstate⟩
          apply silent_snoc hsilent
          have hrun : (run step (step (run step s before).1 j).1 after).1 = (run step s (before ++ j :: after)).1 := by
            rw [run_append]
            rfl
          rw [hrun]
          exact hw

/-- A computation that went through went through at each of its steps. -/
theorem bind_ok {stop α β : Type} {x : Except stop α} {f : α → Except stop β} {b : β} (h : x >>= f = .ok b) :
    ∃ a, x = .ok a ∧ f a = .ok b := by
  cases x with
  | error e => cases h
  | ok a => exact ⟨a, rfl, h⟩

/-- Of the values the steps set, the last one stays. -/
theorem foldlM_last {stop state α β : Type} {step : state → α → Except stop state} {get : state → Option β}
    {f : α → Option β} (hstep : ∀ s a s', step s a = .ok s' → get s' = (f a).or (get s)) {l : List α} {s s' : state}
    (h : l.foldlM step s = .ok s') : get s' = (l.filterMap f).getLast?.or (get s) := by
  induction l generalizing s with
  | nil =>
      cases h
      rfl
  | cons a l ih =>
      rw [List.foldlM_cons] at h
      obtain ⟨next, hnext, hrest⟩ := bind_ok h
      rw [ih hrest, hstep _ _ _ hnext]
      cases ha : f a with
      | none => rw [List.filterMap_cons_none ha, Option.none_or]
      | some b =>
          rw [List.filterMap_cons_some ha, List.getLast?_cons, Option.some_or]
          cases (l.filterMap f).getLast? <;> rfl

end Lib
