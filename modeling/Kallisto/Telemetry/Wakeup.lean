import Kallisto.Telemetry.AccessLog

/-!
The handshake between the producers and a writer that goes to sleep: the flag is set before the
second look, and read after a line is in the queue.
-/
namespace Kallisto.Telemetry
open Lib
variable {n : Nat} {capacity : Nat} {enabled : Bool}

/-- What the flag, the handle, the batch and the `running` it has seen are at each point of the
writer's loop. -/
def WriterPc.Holds (parked started : Bool) (batch : List Line) (running : Bool) : WriterPc → Prop
  | .start => parked = false ∧ batch = []
  | .drain .main before => parked = false ∧ started = true ∧ before = 0
  | .drain .look before => parked = true ∧ started = true ∧ before = 0
  | .loadRunning | .quiet | .setParked => parked = false ∧ started = true ∧ batch = []
  | .park => parked = true ∧ started = true ∧ batch = []
  | .clearParked => parked = true ∧ started = true
  | .write => parked = false ∧ started = true
  | .returned => parked = false ∧ started = true ∧ batch = [] ∧ running = false

def Writing (s : State n) : Prop := s.writer.Holds s.parked s.started s.batch s.running

theorem batchLen_eq_zero {batch : List Line} : batchLen batch = 0 ↔ batch = [] := by
  cases batch with
  | nil => simp [batchLen]
  | cons line batch => simp [batchLen]

theorem batchLen_pos {batch : List Line} (h : batch ≠ []) : 0 < batchLen batch :=
  Nat.pos_of_ne_zero fun hz => h (batchLen_eq_zero.mp hz)

theorem holds_drain {site : Site} {before : Nat} {parked started running : Bool} {batch : List Line} :
    (WriterPc.drain site before).Holds parked started batch running ↔
      parked = decide (site = .look) ∧ started = true ∧ before = 0 := by
  cases site <;> rfl

/-- `drain` ends with the flag as it was, and without a find only where the batch is empty. -/
theorem holds_next {site : Site} {before : Nat} {parked started running : Bool} {batch batch' : List Line}
    (h : (WriterPc.drain site before).Holds parked started batch running) :
    (site.next (before < batchLen batch')).Holds parked started batch' running := by
  obtain ⟨hparked, hstarted, rfl⟩ := holds_drain.mp h
  by_cases hb : batch' = []
  · subst hb
    cases site <;> exact ⟨hparked, hstarted, rfl⟩
  · rw [decide_eq_true (batchLen_pos hb)]
    cases site <;> exact ⟨hparked, hstarted⟩

/-- Read at the place the writer is at. -/
theorem Writing.here {s : State n} {pc : WriterPc} (h : Writing s) (here : s.writer = pc) :
    pc.Holds s.parked s.started s.batch s.running := here ▸ h

theorem writing_moved {s s' : State n} {e : Event n} (h : Writing s) (hm : Moved capacity s s' e) : Writing s' := by
  cases hm with
  | stay | issue | claim | refuse | publish | drop | leave | notice | unpark | stopWakes => exact h
  | stop here =>
      unfold Writing at h ⊢
      dsimp only
      cases hw : s.writer with
      | returned =>
          rw [hw] at h
          exact ⟨h.1, h.2.1, h.2.2.1, rfl⟩
      | drain site before =>
          rw [hw] at h
          cases site <;> exact h
      | _ =>
          rw [hw] at h
          exact h
  | start here =>
      obtain ⟨hparked, hbatch⟩ := h.here here
      exact ⟨hparked, rfl, batchLen_eq_zero.mpr hbatch⟩
  | dequeue site before line rest here head next goes =>
      rcases goes with rfl | rfl
      · have hdrain := h.here here
        cases site <;> exact hdrain
      · exact holds_next (h.here here)
  | empty site before here none => exact holds_next (h.here here)
  | goOn here running =>
      obtain ⟨hparked, hstarted, hbatch⟩ := h.here here
      exact ⟨hparked, hstarted, hbatch⟩
  | finish here stopped =>
      obtain ⟨hparked, hstarted, hbatch⟩ := h.here here
      exact ⟨hparked, hstarted, hbatch, stopped⟩
  | lookAgain here =>
      obtain ⟨hparked, hstarted, hbatch⟩ := h.here here
      exact ⟨hparked, hstarted, batchLen_eq_zero.mpr hbatch⟩
  | giveUp here =>
      obtain ⟨hparked, hstarted, hbatch⟩ := h.here here
      exact ⟨hparked, hstarted, hbatch⟩
  | setParked here =>
      obtain ⟨-, hstarted, hbatch⟩ := h.here here
      exact ⟨rfl, hstarted, batchLen_eq_zero.mpr hbatch⟩
  | unparked here token =>
      obtain ⟨hparked, hstarted, -⟩ := h.here here
      exact ⟨hparked, hstarted⟩
  | timedOut here =>
      obtain ⟨hparked, hstarted, -⟩ := h.here here
      exact ⟨hparked, hstarted⟩
  | clearEmpty here nothing => exact ⟨rfl, (h.here here).2, batchLen_eq_zero.mpr nothing⟩
  | clearFull here something => exact ⟨rfl, (h.here here).2⟩
  | write here =>
      obtain ⟨hparked, hstarted⟩ := h.here here
      exact ⟨hparked, hstarted, rfl⟩

/-! Going to sleep -/

/-- Between the end of `enqueue` and the end of `wake_if_parked`. -/
def ProducerPc.waking : ProducerPc → Bool
  | .loadParked | .unpark => true
  | _ => false

/-- A sleeping writer with a line to take is going to be woken. -/
def Heard (s : State n) : Prop :=
  s.writer = .park → s.Dequeuable → s.token = true ∨ ∃ p, (s.producers p).pc.waking = true

theorem waking_set {s : State n} {p : Fin n} {producer : Producer} (hp : (s.producers p).pc.waking = false)
    (h : ∃ q, (s.producers q).pc.waking = true) : ∃ q, ((s.set p producer).producers q).pc.waking = true := by
  obtain ⟨q, hq⟩ := h
  have hne : q ≠ p := by
    rintro rfl
    rw [hp] at hq
    cases hq
  exact ⟨q, by rw [State.set_of_ne s hne]; exact hq⟩

theorem dequeuable_claim {s : State n} {p : Fin n} {line : Line} (h : (s.claim p line).Dequeuable) : s.Dequeuable := by
  obtain ⟨head, rest, hq⟩ := h
  change s.queue ++ [⟨line, some p⟩] = _ at hq
  cases hs : s.queue with
  | nil =>
      rw [hs] at hq
      cases hq
  | cons slot slots =>
      rw [hs] at hq
      obtain ⟨rfl, -⟩ := List.cons.inj hq
      exact ⟨head, slots, hs⟩

/-- A drain that took a line does not end in finding nothing. -/
theorem next_found {site : Site} {before : Nat} {parked started running : Bool} {batch : List Line} {line : Line}
    (h : (WriterPc.drain site before).Holds parked started batch running) :
    site.next (before < batchLen (batch ++ [line])) = site.next true := by
  obtain ⟨-, -, rfl⟩ := holds_drain.mp h
  rw [decide_eq_true (batchLen_pos (List.append_ne_nil_of_right_ne_nil batch (List.cons_ne_nil line [])))]

theorem heard_moved {s s' : State n} {e : Event n} (hw : Writing s) (h : Heard s) (hm : Moved capacity s s' e) :
    Heard s' := by
  -- A producer that is not waking anyone moves, and the queue's head stays.
  have hset : ∀ {p : Fin n} (producer : Producer), (s.producers p).pc.waking = false → Heard (s.set p producer) := by
    intro p producer hp hpark hdequeuable
    exact (h hpark hdequeuable).imp_right (waking_set hp)
  cases hm with
  | stay => exact h
  | issue p line here => exact hset _ (by rw [here]; rfl)
  | claim p line here =>
      intro hpark hdequeuable
      exact hset _ (by rw [here]; rfl) hpark (dequeuable_claim hdequeuable)
  | refuse p line here => exact hset _ (by rw [here]; rfl)
  | publish p line here => exact fun _ _ => .inr ⟨p, by simp [State.publish, State.goto, ProducerPc.waking]⟩
  | drop p line here => exact hset _ (by rw [here]; rfl)
  | leave p here unparked =>
      intro hpark
      obtain ⟨hparked, -⟩ := hw.here hpark
      rw [hparked] at unparked
      cases unparked
  | notice p here parked => exact fun _ _ => .inr ⟨p, by simp [State.goto, ProducerPc.waking]⟩
  | unpark p here =>
      intro hpark _
      obtain ⟨-, hstarted, -⟩ := hw.here hpark
      exact .inl (by simp [State.wake, State.goto, State.set, hstarted])
  | dequeue site before line rest here head next goes =>
      rintro rfl
      rcases goes with hdrain | hnext
      · cases hdrain
      · rw [next_found (hw.here here)] at hnext
        cases site <;> cases hnext
  | empty site before here none => exact fun _ hdequeuable => absurd hdequeuable none
  | stop here => exact h
  | stopWakes here =>
      intro hpark hdequeuable
      exact (h hpark hdequeuable).imp_left fun ht => by simp [State.wake, ht]
  | start | goOn | finish | lookAgain | giveUp | setParked | unparked | timedOut | clearEmpty | clearFull | write =>
      intro hpark
      cases hpark

/-- No schedule leaves the writer asleep, without a token, beside a line it could take, once
every producer is past `wake_if_parked`. -/
theorem no_lost_wakeup (capacity : Nat) (enabled : Bool) (schedule : List (Choice n)) :
    let s := (run (step capacity enabled) (State.new n) schedule).1
    ¬ (s.writer = .park ∧ s.token = false ∧ s.Dequeuable ∧ ∀ p, (s.producers p).pc.waking = false) := by
  intro s
  have hinv : Writing s ∧ Heard s := by
    refine moved_invariant (P := fun _ s => Writing s ∧ Heard s) ⟨⟨rfl, rfl⟩, nofun⟩ ?_ schedule
    rintro trace s s' e ⟨hw, hh⟩ hm
    exact ⟨writing_moved hw hm, heard_moved hw hh hm⟩
  rintro ⟨hpark, htoken, hdequeuable, hpast⟩
  rcases hinv.2 hpark hdequeuable with ht | ⟨p, hp⟩
  · rw [htoken] at ht
    cases ht
  · rw [hpast p] at hp
    cases hp

example : (run (step 2 true) (State.new 1) (List.replicate 6 (.writer true))).1.writer = .park := by decide

end Kallisto.Telemetry
