import Kallisto.Telemetry.Wakeup
import Mathlib.Data.List.TakeWhile

/-!
What is in the sink when the writer has returned. The writer leaves on two observations, an
empty queue and then the flag, and a line that comes between them stays behind.
-/
namespace Kallisto.Telemetry
open Lib
variable {n : Nat} {capacity : Nat} {enabled : Bool}

/-- The lines whose `enqueue` has returned `Ok`. -/
def completed (trace : List (Event n)) : List Line :=
  trace.filterMap fun
    | .completed _ line => some line
    | _ => none

def Slot.published (slot : Slot n) : Bool := slot.pending.isNone

/-- A completed line is in the sink, in the batch or published in the queue; a line that is being
put in has its place. -/
structure Placed (trace : List (Event n)) (s : State n) : Prop where
  lines : ∀ line ∈ completed trace, line ∈ s.sink ∨ line ∈ s.batch ∨
    ∃ slot ∈ s.queue, slot.published = true ∧ slot.line = line
  claims : ∀ p line, (s.producers p).pc = .publish line → ∃ slot ∈ s.queue, slot.pending = some p ∧ slot.line = line

theorem completed_append (trace : List (Event n)) (e : Event n) :
    completed (trace ++ [e]) = completed trace ++ completed [e] := List.filterMap_append

/-- The state before the call of `stop`: the writer is not on its way out past a published line,
and no published line waits behind one that is still being put in. -/
structure Settled (s : State n) : Prop where
  writer : s.writer = .loadRunning → ∀ slot ∈ s.queue, slot.published = false
  inOrder : s.queue.Pairwise fun a b => b.published = true → a.published = true

section Placing
variable {trace : List (Event n)} {s s' : State n}

theorem Placed.of_set (h : Placed trace s) {p : Fin n} {producer : Producer} (hpc : ∀ line, producer.pc ≠ .publish line) :
    Placed trace (s.set p producer) := by
  refine ⟨h.lines, ?_⟩
  intro q line hq
  by_cases hqp : q = p
  · subst hqp
    rw [State.set_self] at hq
    exact absurd hq (hpc line)
  · rw [State.set_of_ne s hqp] at hq
    exact h.claims q line hq

theorem Placed.of_other {e : Event n} (h : Placed trace s) (he : completed [e] = []) : Placed (trace ++ [e]) s := by
  refine ⟨?_, h.claims⟩
  rw [completed_append, he, List.append_nil]
  exact h.lines

theorem Placed.claim (h : Placed trace s) (p : Fin n) (line : Line) : Placed trace (s.claim p line) := by
  constructor
  · intro l hl
    rcases h.lines l hl with hsink | hbatch | ⟨slot, hslot, hready⟩
    · exact .inl hsink
    · exact .inr (.inl hbatch)
    · exact .inr (.inr ⟨slot, List.mem_append_left _ hslot, hready⟩)
  · intro q l hq
    by_cases hqp : q = p
    · subst hqp
      simp only [State.claim, State.goto, State.set_self, ProducerPc.publish.injEq] at hq
      subst hq
      exact ⟨⟨line, some q⟩, List.mem_append_right _ (List.mem_singleton_self _), rfl, rfl⟩
    · simp only [State.claim, State.goto, State.set_of_ne s hqp] at hq
      obtain ⟨slot, hslot, hpending⟩ := h.claims q l hq
      exact ⟨slot, List.mem_append_left _ hslot, hpending⟩

/-- What `publish` makes of a slot. -/
theorem mem_publish {p : Fin n} {slot : Slot n} (h : slot ∈ s.queue) :
    (if slot.pending = some p then { slot with pending := none } else slot) ∈ (s.publish p).queue :=
  List.mem_map.mpr ⟨slot, h, rfl⟩

theorem Placed.publish (h : Placed trace s) {p : Fin n} {line : Line} (here : (s.producers p).pc = .publish line) :
    Placed (trace ++ [.completed p line]) (s.publish p) := by
  constructor
  · intro l hl
    rw [completed_append] at hl
    rcases List.mem_append.mp hl with hold | hnew
    · rcases h.lines l hold with hsink | hbatch | ⟨slot, hslot, hready, hline⟩
      · exact .inl hsink
      · exact .inr (.inl hbatch)
      · have hpending : slot.pending ≠ some p := by
          rw [Option.isNone_iff_eq_none.mp hready]
          nofun
        have hmem := mem_publish (p := p) hslot
        rw [if_neg hpending] at hmem
        exact .inr (.inr ⟨slot, hmem, hready, hline⟩)
    · obtain rfl : l = line := by simpa [completed] using hnew
      obtain ⟨slot, hslot, hpending, hline⟩ := h.claims p l here
      have hmem := mem_publish (p := p) hslot
      rw [if_pos hpending] at hmem
      exact .inr (.inr ⟨_, hmem, rfl, hline⟩)
  · intro q l hq
    by_cases hqp : q = p
    · subst hqp
      simp [State.publish, State.goto] at hq
    · simp only [State.publish, State.goto, State.set_of_ne s hqp] at hq
      obtain ⟨slot, hslot, hpending, hline⟩ := h.claims q l hq
      have hmem := mem_publish (p := p) hslot
      rw [if_neg (by rw [hpending, Option.some.injEq]; exact hqp)] at hmem
      exact ⟨slot, hmem, hpending, hline⟩

theorem placed_moved {e : Event n} (h : Placed trace s) (hm : Moved capacity s s' e) : Placed (trace ++ [e]) s' := by
  have hother : Placed (trace ++ [.other]) s := h.of_other rfl
  cases hm with
  | stay => exact hother
  | issue p line here =>
      have hset : Placed trace (s.issue p line) := h.of_set nofun
      exact hset.of_other rfl
  | claim p line here => exact (h.claim p line).of_other rfl
  | refuse p line here => exact hother.of_set nofun
  | publish p line here => exact h.publish here
  | drop p line here =>
      have hset : Placed trace (s.drop p) := h.of_set nofun
      exact hset.of_other rfl
  | leave p here unparked => exact hother.of_set nofun
  | notice p here parked => exact hother.of_set nofun
  | unpark p here =>
      have hset : Placed (trace ++ [.other]) (s.goto p .idle) := hother.of_set nofun
      exact ⟨hset.lines, hset.claims⟩
  | dequeue site before line rest here head next goes =>
      constructor
      · intro l hl
        rcases hother.lines l hl with hsink | hbatch | ⟨slot, hslot, hready, hline⟩
        · exact .inl hsink
        · exact .inr (.inl (List.mem_append_left _ hbatch))
        · rw [head] at hslot
          rcases List.mem_cons.mp hslot with rfl | hrest
          · exact .inr (.inl (List.mem_append_right _ (List.mem_singleton.mpr hline.symm)))
          · exact .inr (.inr ⟨slot, hrest, hready, hline⟩)
      · intro q l hq
        obtain ⟨slot, hslot, hpending, hline⟩ := h.claims q l hq
        rw [head] at hslot
        rcases List.mem_cons.mp hslot with rfl | hrest
        · cases hpending
        · exact ⟨slot, hrest, hpending, hline⟩
  | write here =>
      refine ⟨?_, h.claims⟩
      intro l hl
      rcases hother.lines l hl with hsink | hbatch | hqueue
      · exact .inl (List.mem_append_left _ hsink)
      · exact .inl (List.mem_append_right _ hbatch)
      · exact .inr (.inr hqueue)
  | stop here => exact ⟨(h.of_other (e := .stopped) rfl).lines, h.claims⟩
  | start | empty | goOn | finish | lookAgain | giveUp | setParked | unparked | timedOut | clearEmpty | clearFull
  | stopWakes => exact ⟨hother.lines, hother.claims⟩

end Placing

/-- What the writer can take without waiting for anybody. -/
def State.within (s : State n) : List (Slot n) := s.queue.takeWhile Slot.published

/-- The lines of `owed` are in the sink, or on the writer's way to it; and when it reads
`running` they are all in the sink. -/
structure Reaching (owed : List Line) (s : State n) : Prop where
  lines : ∀ line ∈ owed, line ∈ s.sink ∨ line ∈ s.batch ∨ ∃ slot ∈ s.within, slot.line = line
  leaving : s.writer = .loadRunning ∨ s.writer = .returned → ∀ line ∈ owed, line ∈ s.sink

section Leaving
variable {owed : List Line} {s s' : State n}

theorem within_claim {p : Fin n} {line : Line} {slot : Slot n} (h : slot ∈ s.within) : slot ∈ (s.claim p line).within := by
  change slot ∈ (s.queue ++ [(⟨line, some p⟩ : Slot n)]).takeWhile Slot.published
  rw [List.takeWhile_append]
  split_ifs
  · exact List.mem_append_left _ ((List.takeWhile_prefix _).mem h)
  · exact h

theorem mem_takeWhile_map {p : Fin n} {slot : Slot n} {queue : List (Slot n)}
    (h : slot ∈ queue.takeWhile Slot.published) :
    slot ∈ (queue.map fun slot => if slot.pending = some p then { slot with pending := none } else slot).takeWhile
      Slot.published := by
  induction queue with
  | nil => exact h
  | cons head queue ih =>
      by_cases hhead : head.published = true
      · have hpending : head.pending ≠ some p := by
          rw [Option.isNone_iff_eq_none.mp hhead]
          nofun
        rw [List.takeWhile_cons_of_pos hhead] at h
        rw [List.map_cons, if_neg hpending, List.takeWhile_cons_of_pos hhead]
        rcases List.mem_cons.mp h with rfl | hrest
        · exact List.mem_cons_self
        · exact List.mem_cons_of_mem head (ih hrest)
      · rw [List.takeWhile_cons_of_neg hhead] at h
        cases h

theorem within_empty (h : ¬ s.Dequeuable) : s.within = [] := by
  rw [State.within]
  cases hq : s.queue with
  | nil => rfl
  | cons slot rest =>
      refine List.takeWhile_cons_of_neg fun hready => h ⟨slot.line, rest, ?_⟩
      rw [hq, ← Option.isNone_iff_eq_none.mp hready]

theorem Reaching.of_within (h : Reaching owed s) (sink : s'.sink = s.sink) (batch : s'.batch = s.batch)
    (writer : s'.writer = s.writer) (within : ∀ slot ∈ s.within, slot ∈ s'.within) : Reaching owed s' := by
  constructor
  · intro line hline
    rw [sink, batch]
    rcases h.lines line hline with hsink | hbatch | ⟨slot, hslot, heq⟩
    · exact .inl hsink
    · exact .inr (.inl hbatch)
    · exact .inr (.inr ⟨slot, within slot hslot, heq⟩)
  · rw [writer, sink]
    exact h.leaving

theorem reaching_moved {e : Event n} (hw : Writing s) (h : Reaching owed s) (hm : Moved capacity s s' e) :
    Reaching owed s' := by
  cases hm with
  | stay => exact h
  | issue | refuse | drop | leave | notice | unpark | stop | stopWakes => exact h.of_within rfl rfl rfl fun _ => id
  | claim p line here => exact h.of_within rfl rfl rfl fun _ => within_claim
  | publish p line here => exact h.of_within rfl rfl rfl fun _ => mem_takeWhile_map
  | dequeue site before line rest here head next goes =>
      constructor
      · intro l hl
        rcases h.lines l hl with hsink | hbatch | ⟨slot, hslot, hline⟩
        · exact .inl hsink
        · exact .inr (.inl (List.mem_append_left _ hbatch))
        · rw [State.within, head, List.takeWhile_cons_of_pos rfl] at hslot
          rcases List.mem_cons.mp hslot with rfl | hrest
          · exact .inr (.inl (List.mem_append_right _ (List.mem_singleton.mpr hline.symm)))
          · exact .inr (.inr ⟨slot, hrest, hline⟩)
      · intro hout
        rcases goes with rfl | rfl
        · rcases hout with hout | hout <;> cases hout
        · rw [next_found (hw.here here)] at hout
          cases site <;> rcases hout with hout | hout <;> cases hout
  | empty site before here none =>
      refine ⟨h.lines, ?_⟩
      intro hout l hl
      have hnext : (site.next (before < batchLen s.batch)).Holds s.parked s.started s.batch s.running :=
        holds_next (hw.here here)
      have hbatch : s.batch = [] := by
        rcases hout with hout | hout
        · rw [show site.next _ = _ from hout] at hnext
          exact hnext.2.2
        · rw [show site.next _ = _ from hout] at hnext
          exact hnext.2.2.1
      rcases h.lines l hl with hsink | hin | ⟨slot, hslot, -⟩
      · exact hsink
      · rw [hbatch] at hin
        cases hin
      · rw [within_empty none] at hslot
        cases hslot
  | goOn here running => exact ⟨h.lines, nofun⟩
  | finish here stopped => exact ⟨h.lines, fun _ => h.leaving (.inl here)⟩
  | write here =>
      refine ⟨?_, nofun⟩
      intro l hl
      rcases h.lines l hl with hsink | hbatch | hqueue
      · exact .inl (List.mem_append_left _ hsink)
      · exact .inl (List.mem_append_right _ hbatch)
      · exact .inr (.inr hqueue)
  | start | lookAgain | giveUp | setParked | unparked | timedOut | clearEmpty | clearFull =>
      refine ⟨h.lines, ?_⟩
      rintro (hout | hout) <;> cases hout

theorem mem_takeWhile_of_inOrder {queue : List (Slot n)} {slot : Slot n}
    (inOrder : queue.Pairwise fun a b => b.published = true → a.published = true) (h : slot ∈ queue)
    (hready : slot.published = true) : slot ∈ queue.takeWhile Slot.published := by
  induction queue with
  | nil => cases h
  | cons head queue ih =>
      obtain ⟨hhead, htail⟩ := List.pairwise_cons.mp inOrder
      rcases List.mem_cons.mp h with rfl | hrest
      · rw [List.takeWhile_cons_of_pos hready]
        exact List.mem_cons_self
      · rw [List.takeWhile_cons_of_pos (hhead slot hrest hready)]
        exact List.mem_cons_of_mem head (ih htail hrest)

/-- From a settled state on, nothing that is in the queue can be missed. -/
theorem reaching_of_settled {trace : List (Event n)} (hw : Writing s) (hp : Placed trace s) (hs : Settled s)
    (hr : s.running = true) : Reaching (completed trace) { s with running := false, stopping := .wake } := by
  constructor
  · intro line hline
    rcases hp.lines line hline with hsink | hbatch | ⟨slot, hslot, hready, heq⟩
    · exact .inl hsink
    · exact .inr (.inl hbatch)
    · exact .inr (.inr ⟨slot, mem_takeWhile_of_inOrder hs.inOrder hslot hready, heq⟩)
  · intro hout line hline
    rcases hout with hload | hreturned
    · obtain ⟨-, -, hempty⟩ := hw.here hload
      rcases hp.lines line hline with hsink | hbatch | ⟨slot, hslot, hready, -⟩
      · exact hsink
      · rw [hempty] at hbatch
        cases hbatch
      · rw [hs.writer hload slot hslot] at hready
        cases hready
    · obtain ⟨-, -, -, hstopped⟩ := hw.here hreturned
      rw [hstopped] at hr
      cases hr

end Leaving

/-- Only `stop` touches its own two variables. -/
theorem step_running {s : State n} {c : Choice n} (h : c ≠ .stop) :
    (step capacity enabled s c).1.running = s.running ∧ (step capacity enabled s c).1.stopping = s.stopping := by
  cases c with
  | stop => exact absurd rfl h
  | producer p record nowMillis =>
      simp only [step, recordStep]
      cases (s.producers p).pc with
      | idle | enqueue line =>
          dsimp only
          split_ifs <;> exact ⟨rfl, rfl⟩
      | _ => exact ⟨rfl, rfl⟩
  | writer timeUp =>
      simp only [step, writerStep]
      cases s.writer with
      | drain site before =>
          simp only [drainStep]
          split <;> exact ⟨rfl, rfl⟩
      | park =>
          dsimp only
          split_ifs <;> exact ⟨rfl, rfl⟩
      | _ => exact ⟨rfl, rfl⟩

theorem uncalled_running (schedule : List (Choice n)) (h : Choice.stop ∉ schedule) :
    (run (step capacity enabled) (State.new n) schedule).1.running = true ∧
      (run (step capacity enabled) (State.new n) schedule).1.stopping = .uncalled := by
  induction schedule using List.reverseRecOn with
  | nil => exact ⟨rfl, rfl⟩
  | append_singleton schedule c ih =>
      rw [List.mem_append, not_or] at h
      have hne : c ≠ .stop := by
        rintro rfl
        exact h.2 (List.mem_singleton_self _)
      rw [run_snoc]
      exact ⟨(step_running hne).1.trans (ih h.1).1, (step_running hne).2.trans (ih h.1).2⟩

/-- Where `stop` is called in a settled state, every line whose `enqueue` had returned by then is
in the sink once the writer has returned. -/
theorem stop_drains (capacity : Nat) (enabled : Bool) (before after : List (Choice n))
    (uncalled : Choice.stop ∉ before) (settled : Settled (run (step capacity enabled) (State.new n) before).1) :
    let s := (run (step capacity enabled) (State.new n) (before ++ .stop :: after)).1
    s.writer = .returned →
      ∀ line ∈ completed (run (step capacity enabled) (State.new n) before).2, line ∈ s.sink := by
  intro s hreturned
  let called := run (step capacity enabled) (State.new n) before
  let owed := completed called.2
  obtain ⟨hrunning, hstopping⟩ : called.1.running = true ∧ called.1.stopping = .uncalled :=
    uncalled_running before uncalled
  have hcalled : Writing called.1 ∧ Placed called.2 called.1 := by
    refine moved_invariant (P := fun trace s => Writing s ∧ Placed trace s) ⟨⟨rfl, rfl⟩, nofun, nofun⟩ ?_ before
    rintro trace s s' e ⟨hw, hp⟩ hm
    exact ⟨writing_moved hw hm, placed_moved hp hm⟩
  have hstop : (step capacity enabled called.1 .stop).1 = { called.1 with running := false, stopping := .wake } := by
    simp only [step, stopStep, hstopping]
  have hstart : Writing (step capacity enabled called.1 .stop).1 ∧
      Reaching owed (step capacity enabled called.1 .stop).1 := by
    refine ⟨writing_moved hcalled.1 (step_moved .stop), ?_⟩
    rw [hstop]
    exact reaching_of_settled hcalled.1 hcalled.2 settled hrunning
  have hend : Writing s ∧ Reaching owed s := by
    change Writing (run _ _ (before ++ .stop :: after)).1 ∧ Reaching owed (run _ _ (before ++ .stop :: after)).1
    rw [run_append]
    refine run_invariant (P := fun _ s => Writing s ∧ Reaching owed s) hstart ?_ after
    rintro trace s c ⟨hw, hreach⟩
    exact ⟨writing_moved hw (step_moved c), reaching_moved hw hreach (step_moved c)⟩
  exact hend.2.leaving (.inr hreturned)

/-- The steps of one `record`, up to the end of its `enqueue`. -/
def recorded : List (Choice 1) := List.replicate 3 sampleTurn

def sampleLine : Line := ⟨0, 0, 0, sampleRecord⟩

/-- A writer that has found nothing, with the clock on its side. -/
def looksIn (turns : Nat) : List (Choice 1) := List.replicate turns (.writer false)

theorem stop_drains_sample :
    completed (run (step 2 true) (State.new 1) recorded).2 = [sampleLine] ∧
    (run (step 2 true) (State.new 1) (recorded ++ .stop :: looksIn 6)).1.writer = .returned ∧
    sampleLine ∈ (run (step 2 true) (State.new 1) (recorded ++ .stop :: looksIn 6)).1.sink := by
  have hcompleted : completed (run (step 2 true) (State.new 1) recorded).2 = [sampleLine] := by decide
  have hreturned : (run (step 2 true) (State.new 1) (recorded ++ .stop :: looksIn 6)).1.writer = .returned := by
    decide +kernel
  have settled : Settled (run (step 2 true) (State.new 1) recorded).1 := by
    refine ⟨nofun, ?_⟩
    have hqueue : (run (step 2 true) (State.new 1) recorded).1.queue = [⟨sampleLine, none⟩] := by decide
    rw [hqueue]
    exact List.pairwise_singleton _ _
  refine ⟨hcompleted, hreturned, ?_⟩
  exact stop_drains 2 true recorded (looksIn 6) (by decide) settled hreturned sampleLine
    (hcompleted ▸ List.mem_singleton_self _)

/-- The queue was empty, a line was put in, `stop` was called, and the writer saw that it was. -/
theorem late_line_left :
    completed (run (step 2 true) (State.new 1) (looksIn 2 ++ recorded)).2 = [sampleLine] ∧
    (run (step 2 true) (State.new 1) (looksIn 2 ++ recorded ++ .stop :: looksIn 1)).1.writer = .returned ∧
    sampleLine ∉ (run (step 2 true) (State.new 1) (looksIn 2 ++ recorded ++ .stop :: looksIn 1)).1.sink := by
  refine ⟨by decide, by decide, ?_⟩
  have hsink : (run (step 2 true) (State.new 1) (looksIn 2 ++ recorded ++ .stop :: looksIn 1)).1.sink = [] := by decide
  rw [hsink]
  exact List.not_mem_nil

end Kallisto.Telemetry
