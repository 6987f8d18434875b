import Kallisto.Lib.Potential
import Kallisto.Queue.Safety

/-!
What the queue's loops cost. `claim` retries without a bound of its own; the sequence numbers
stay behind the cursors, so a thread goes round again only after another thread has claimed a
position or its weak compare-exchange has failed for no reason.
-/
namespace Kallisto.Queue
variable {n : Nat} {α : Type}

/-- The step after which the caller has its answer. -/
def Event.returns : Event n α → Bool
  | .refused .. | .enqueued .. | .dequeued .. => true
  | _ => false

theorem slot_gap (c : Capacity) {p q : Nat} (h : slot c.val p = slot c.val q) (hlt : p < q) :
    p + c.val ≤ q := by
  rw [slot_eq_mod, slot_eq_mod] at h
  have hdvd : c.val ∣ q - p := (Nat.modEq_iff_dvd' hlt.le).mp h
  have := Nat.le_of_dvd (Nat.sub_pos_of_lt hlt) hdvd
  omega

theorem Capacity.two_le (c : Capacity) : 2 ≤ c.val := by
  obtain ⟨k, hk⟩ := c.powerOfTwo
  rw [hk, Nat.pow_succ]
  have := Nat.two_pow_pos k
  omega

theorem Memory.advance_sequence (m : Memory α) (op : Op α) : (m.advance op).sequence = m.sequence := by
  cases op <;> rfl

theorem Memory.cursor_le_advance (m : Memory α) (op op' : Op α) : m.cursor op' ≤ (m.advance op).cursor op' := by
  cases op <;> cases op' <;> simp [Memory.advance, Memory.cursor]

/-- No slot is ahead of a cursor: where a thread looks at the position its cursor shows, the lag
is never positive. -/
structure Behind (c : Capacity) (m : Memory α) : Prop where
  sequence : ∀ (op : Op α) (p : Nat), m.cursor op ≤ p → m.sequence (slot c.val p) ≤ p + op.ready
  window : m.enqueuePos ≤ m.dequeuePos + c.val

namespace Behind
variable {c : Capacity} {trace : List (Event n α)} {s : State n α}

theorem start (c : Capacity) : Behind c (new n α).mem where
  sequence op p _ := by
    have hle : slot c.val p ≤ p := by rw [slot_eq_mod]; exact Nat.mod_le _ _
    simp only [new, EMPTY]
    omega
  window := Nat.zero_le _

/-- A claim moves one cursor on; a producer's claim finds its slot released, so its position is
within one lap of the consumers. -/
theorem advance {m : Memory α} (b : Behind c m) (op : Op α)
    (hseq : m.sequence (slot c.val (m.cursor op)) = m.cursor op + op.ready) : Behind c (m.advance op) := by
  refine ⟨?_, ?_⟩
  · intro op' p hp
    rw [m.advance_sequence]
    exact b.sequence op' p (le_trans (m.cursor_le_advance op op') hp)
  · cases op with
    | dequeue => exact le_trans b.window (by simp [Memory.advance])
    | enqueue v =>
        by_contra hfull
        have hpos : m.enqueuePos = m.dequeuePos + c.val := by
          have := b.window
          simp only [Memory.advance] at hfull
          omega
        have hle := b.sequence .dequeue m.dequeuePos (le_refl _)
        simp only [Memory.cursor, Op.ready, EMPTY, FILLED, hpos, slot_add] at hseq hle
        have := c.two_le
        omega

/-- A sequence store gives a slot the number of a position that no cursor has passed by more than
one lap. -/
theorem store {m : Memory α} (b : Behind c m) {pos seq : Nat}
    (h : ∀ (op : Op α) (p : Nat), slot c.val p = slot c.val pos → m.cursor op ≤ p → seq ≤ p + op.ready) :
    Behind c (m.setSequence (slot c.val pos) seq) := by
  refine ⟨?_, b.window⟩
  intro op p hp
  by_cases hslot : slot c.val p = slot c.val pos
  · have hnew : (m.setSequence (slot c.val pos) seq).sequence (slot c.val p) = seq := by
      rw [hslot]
      exact Function.update_self ..
    rw [hnew]
    exact h op p hslot (by cases op <;> exact hp)
  · rw [(sameOff_setSequence m _ seq).sequence _ hslot]
    exact b.sequence op p (by cases op <;> exact hp)

theorem preserve (b : Behind c s.mem) (h : Protocol c trace s) (i : Choice n α) :
    Behind c (step c.val s i).1.mem := by
  have hh := h.holds i.thread
  simp only [step]
  cases hpc : s.pc i.thread with
  | idle => exact b
  | loadCursor op => exact b
  | loadSequence op pos =>
      dsimp only
      split_ifs <;> exact b
  | compareExchange op pos =>
      rw [hpc] at hh
      dsimp only
      split_ifs with hcas
      · apply b.advance
        rw [hcas.1]
        exact hh.2 hcas.1
      · exact b
  | write v pos => exact ⟨fun op p hp => b.sequence op p (by cases op <;> exact hp), b.window⟩
  | read pos => exact ⟨fun op p hp => b.sequence op p (by cases op <;> exact hp), b.window⟩
  | publish v pos =>
      rw [hpc] at hh
      apply b.store
      intro op p hslot hp
      have hlt := hh.1
      have hwindow := b.window
      cases op with
      | enqueue w =>
          have := slot_gap c hslot.symm (lt_of_lt_of_le hlt hp)
          have := c.two_le
          simp only [FILLED]
          omega
      | dequeue =>
          have hle : pos ≤ p := by
            by_contra hgt
            have := slot_gap c hslot (Nat.lt_of_not_le hgt)
            simp only [Memory.cursor] at hp
            omega
          simp only [FILLED, Op.ready]
          omega
  | release v pos =>
      rw [hpc] at hh
      obtain ⟨hlt, -, -, w, -, hlog⟩ := hh
      have henq : pos < s.mem.enqueuePos := by
        rw [← h.log_length]
        exact (List.getElem?_eq_some_iff.mp hlog).1
      apply b.store
      intro op p hslot hp
      have hlt : pos < p := by
        cases op with
        | enqueue w => exact lt_of_lt_of_le henq hp
        | dequeue => exact lt_of_lt_of_le hlt hp
      have := slot_gap c hslot.symm hlt
      omega

end Behind

/-- The steps a thread needs on its own to the end of its call. A position its cursor has left
costs two more: it has to be loaded again. -/
def Pc.remaining (m : Memory α) : Pc α → Nat
  | .idle => 6
  | .loadCursor _ => 5
  | .loadSequence op pos => if pos = m.cursor op then 4 else 6
  | .compareExchange op pos => if pos = m.cursor op then 3 else 5
  | .write .. | .read .. => 2
  | .publish .. | .release .. => 1

/-- What a thread that still has to claim a position sets aside for the others: its claim makes
their positions stale. -/
def Pc.toll (n : Nat) : Pc α → Nat
  | .write .. | .read .. | .publish .. | .release .. => 0
  | _ => 2 * (n - 1)

def State.share (s : State n α) (t : Fin n) : Nat := (s.pc t).remaining s.mem + (s.pc t).toll n

def State.potential (s : State n α) : Nat := ∑ t, s.share t

theorem Pc.remaining_le (m : Memory α) (pc : Pc α) : pc.remaining m ≤ 6 := by
  cases pc <;> grind [Pc.remaining]

theorem Pc.toll_le (pc : Pc α) : pc.toll n ≤ 2 * (n - 1) := by
  cases pc <;> simp [Pc.toll]

theorem Pc.remaining_congr {m m' : Memory α} (h : ∀ op, m'.cursor op = m.cursor op) (pc : Pc α) :
    pc.remaining m' = pc.remaining m := by
  cases pc <;> simp only [Pc.remaining, h]

theorem Pc.remaining_advance (m : Memory α) (op : Op α) (pc : Pc α) :
    pc.remaining (m.advance op) ≤ pc.remaining m + 2 := by
  cases pc <;> grind [Pc.remaining]

section
variable {c : Capacity} {s : State n α}

/-- The thread that moves comes one step closer to its answer. -/
theorem step_remaining (b : Behind c s.mem) (i : Choice n α) :
    ((step c.val s i).1.pc i.thread).remaining (step c.val s i).1.mem + 1 ≤
      (s.pc i.thread).remaining s.mem + (if i.spurious then 2 else 0) +
        if (step c.val s i).2.returns then 6 else 0 := by
  simp only [step]
  cases hpc : s.pc i.thread with
  | idle => simp [Pc.remaining, Event.returns]
  | loadCursor op => simp [Pc.remaining, Event.returns]
  | loadSequence op pos =>
      have hseq := b.sequence op pos
      dsimp only
      by_cases hneg : (s.mem.sequence (slot c.val pos) : Int) - ((pos + op.ready : Nat) : Int) < 0
      · simp only [if_pos hneg, State.goto_pc_self, Pc.remaining, Event.returns, if_true]
        split_ifs <;> omega
      · simp only [if_neg hneg]
        by_cases hlag : 0 < (s.mem.sequence (slot c.val pos) : Int) - ((pos + op.ready : Nat) : Int)
        · have hstale : pos ≠ s.mem.cursor op := by
            intro hcur
            have := hseq hcur.ge
            omega
          simp only [if_pos hlag, State.goto_pc_self, Pc.remaining, if_neg hstale]
          omega
        · simp only [if_neg hlag, State.goto_pc_self, State.goto_mem, Pc.remaining]
          split_ifs <;> omega
  | compareExchange op pos =>
      dsimp only
      by_cases hcas : s.mem.cursor op = pos ∧ i.spurious = false
      · simp only [if_pos hcas, State.goto_pc_self]
        cases op <;> simp [Op.claimed, Pc.remaining, hcas.1, Nat.add_assoc]
      · simp only [if_neg hcas, State.goto_pc_self, State.goto_mem]
        by_cases hcur : s.mem.cursor op = pos
        · have hspurious : i.spurious = true := by simpa [hcur] using hcas
          simp [Pc.remaining, hcur, hspurious]
        · simp only [Pc.remaining, if_neg (Ne.symm hcur), if_true]
          omega
  | write v pos => simp [Pc.remaining, Event.returns]
  | publish v pos => simp [Pc.remaining, Event.returns]
  | read pos => simp [Pc.remaining, Event.returns]
  | release v pos => simp [Pc.remaining, Event.returns]

/-- A step leaves the cursors where they are, or claims a position for its thread. -/
theorem step_cursors (i : Choice n α) :
    (∀ op, (step c.val s i).1.mem.cursor op = s.mem.cursor op) ∧
        ((step c.val s i).1.pc i.thread).toll n ≤
          (s.pc i.thread).toll n + (if (step c.val s i).2.returns then 2 * (n - 1) else 0) ∨
      (∃ op, (step c.val s i).1.mem = s.mem.advance op) ∧
        (s.pc i.thread).toll n = 2 * (n - 1) ∧ ((step c.val s i).1.pc i.thread).toll n = 0 := by
  simp only [step]
  cases hpc : s.pc i.thread with
  | idle => exact .inl ⟨fun _ => rfl, by simp [Pc.toll]⟩
  | loadCursor op => exact .inl ⟨fun _ => rfl, by simp [Pc.toll]⟩
  | loadSequence op pos =>
      dsimp only
      refine .inl ?_
      split_ifs <;> exact ⟨fun _ => rfl, by simp [Pc.toll]⟩
  | compareExchange op pos =>
      by_cases hcas : s.mem.cursor op = pos ∧ i.spurious = false
      · simp only [if_pos hcas]
        exact .inr ⟨⟨op, rfl⟩, rfl, by cases op <;> simp [Op.claimed, Pc.toll]⟩
      · simp only [if_neg hcas]
        exact .inl ⟨fun _ => rfl, by simp [Pc.toll]⟩
  | write v pos => exact .inl ⟨(sameOff_setData s.mem _ _).cursor, by simp [Pc.toll]⟩
  | publish v pos => exact .inl ⟨(sameOff_setSequence s.mem _ _).cursor, by simp [Pc.toll, Event.returns]⟩
  | read pos => exact .inl ⟨(sameOff_setData s.mem _ _).cursor, by simp [Pc.toll]⟩
  | release v pos => exact .inl ⟨(sameOff_setSequence s.mem _ _).cursor, by simp [Pc.toll, Event.returns]⟩

theorem step_potential (b : Behind c s.mem) (i : Choice n α) :
    (step c.val s i).1.potential + 1 ≤
      s.potential + ((if i.spurious then 2 else 0) + if (step c.val s i).2.returns then 2 * n + 4 else 0) := by
  have hrem := step_remaining b i
  have hn := i.thread.isLt
  rcases step_cursors (c := c) (s := s) i with ⟨hcur, htoll⟩ | ⟨⟨op, hmem⟩, hbefore, hafter⟩
  · have hothers : ∀ u, u ≠ i.thread → (step c.val s i).1.share u ≤ s.share u + 0 := by
      intro u hu
      simp only [State.share, step_pc_of_ne hu, Pc.remaining_congr hcur]
      omega
    have hsum := Lib.sum_le_of_step hothers
    simp only [State.potential, State.share] at hsum ⊢
    split_ifs at hrem htoll ⊢ <;> omega
  · have hothers : ∀ u, u ≠ i.thread → (step c.val s i).1.share u ≤ s.share u + 2 := by
      intro u hu
      have := Pc.remaining_advance s.mem op (s.pc u)
      simp only [State.share, step_pc_of_ne hu, hmem]
      omega
    have hsum := Lib.sum_le_of_step hothers
    simp only [State.potential, State.share] at hsum ⊢
    split_ifs at hrem ⊢ <;> omega

theorem potential_le (s : State n α) : s.potential ≤ n * (2 * n + 4) := by
  have hle : s.potential ≤ ∑ _t : Fin n, (2 * n + 4) := by
    apply Finset.sum_le_sum
    intro t _
    rw [State.share]
    have := (s.pc t).remaining_le s.mem
    have := (s.pc t).toll_le (n := n)
    have := t.isLt
    omega
  rwa [Finset.sum_const_nat fun _ _ => rfl, Finset.card_univ, Fintype.card_fin] at hle

end

/-- The states a run can reach, as far as progress is concerned. -/
def Reached (c : Capacity) (s : State n α) : Prop := ∃ trace, Protocol c trace s ∧ Behind c s.mem

theorem Reached.step {c : Capacity} {s : State n α} (h : Reached c s) (i : Choice n α) :
    Reached c (step c.val s i).1 := by
  obtain ⟨trace, hp, hb⟩ := h
  exact ⟨_, hp.preserve i, hb.preserve hp i⟩

theorem reached (c : Capacity) (sched : List (Choice n α)) :
    Reached c (Lib.run (step c.val) (new n α) sched).1 :=
  Lib.run_invariant (P := fun _ s => Reached c s) ⟨[], .start c, .start c⟩ (fun _ _ i h => h.step i) sched

/-- A thread left alone has its answer before its steps run out. -/
theorem Reached.solo {c : Capacity} {s : State n α} (h : Reached c s) (t : Fin n) (op : Op α) {k : Nat}
    (hk : (s.pc t).remaining s.mem ≤ k) :
    ∃ e ∈ (Lib.run (Queue.step c.val) s (List.replicate k ⟨t, op, false⟩)).2, e.returns = true := by
  induction k generalizing s with
  | zero => exact absurd hk (by cases s.pc t <;> grind [Pc.remaining])
  | succ k ih =>
      obtain ⟨trace, hp, hb⟩ := h
      have hstep := step_remaining hb ⟨t, op, false⟩
      simp only [List.replicate_succ, Lib.run, List.mem_cons]
      by_cases hret : (Queue.step c.val s ⟨t, op, false⟩).2.returns = true
      · exact ⟨_, .inl rfl, hret⟩
      · rw [if_neg hret] at hstep
        simp only [Bool.false_eq_true, if_false] at hstep
        obtain ⟨e, he, hr⟩ := ih (Reached.step ⟨trace, hp, hb⟩ ⟨t, op, false⟩) (by omega)
        exact ⟨e, .inr he, hr⟩

/-- The queue is lock-free. From any state a schedule can reach, whatever the schedule does next,
`n` threads make at most `n (2n + 4)` steps, `2n + 4` more for each call that returns and two for
each compare-exchange that fails spuriously; and a thread that runs alone is done in six steps. -/
theorem queue_progress (c : Capacity) (before stretch : List (Choice n α)) :
    let s := (Lib.run (step c.val) (new n α) before).1
    stretch.length ≤ n * (2 * n + 4) + 2 * stretch.countP Choice.spurious +
        (2 * n + 4) * (Lib.run (step c.val) s stretch).2.countP Event.returns ∧
      ∀ t op, ∃ e ∈ (Lib.run (step c.val) s (List.replicate 6 ⟨t, op, false⟩)).2, e.returns = true := by
  intro s
  have hs : Reached c s := reached c before
  refine ⟨?_, fun t op => hs.solo t op ((s.pc t).remaining_le s.mem)⟩
  have hpay := Lib.run_amortized State.potential
    (fun (i : Choice n α) (e : Event n α) => (if i.spurious then 2 else 0) + if e.returns then 2 * n + 4 else 0)
    (fun _ i h => h.step i) (fun _ i ⟨_, _, hb⟩ => step_potential hb i) hs stretch
  rw [Lib.credits_count _ _ _ _ (Lib.run_length _ _ _)] at hpay
  have := potential_le s
  omega

end Kallisto.Queue
