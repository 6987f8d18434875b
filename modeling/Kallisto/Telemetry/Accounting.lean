import Kallisto.Telemetry.AccessLog
import Mathlib.Data.List.Perm.Basic

/-!
Where every line is. A producer's numbers are given out in order, and each is in the queue's
history, among the dropped or in the producer's hands; the queue's history is the sink, the
batch and the queue, in this order.
-/
namespace Kallisto.Telemetry
open Lib
variable {n : Nat} {capacity : Nat} {enabled : Bool}

def issued (trace : List (Event n)) : List Line :=
  trace.filterMap fun
    | .issued _ line => some line
    | _ => none

def enqueued (trace : List (Event n)) : List Line :=
  trace.filterMap fun
    | .enqueued _ line => some line
    | _ => none

def dropped (trace : List (Event n)) : List Line :=
  trace.filterMap fun
    | .dropped _ line => some line
    | _ => none

/-- The sequence numbers of one worker's lines, in order. -/
def seqs (worker : Nat) (lines : List Line) : List UInt64 :=
  (lines.filter fun l => l.worker = worker).map Line.sequence

/-- The line a producer has numbered and neither put into the queue nor counted as dropped. -/
def ProducerPc.inHand : ProducerPc → List Line
  | .enqueue line | .drop line => [line]
  | _ => []

theorem seqs_append (worker : Nat) (a b : List Line) : seqs worker (a ++ b) = seqs worker a ++ seqs worker b := by
  rw [seqs, List.filter_append, List.map_append]
  rfl

theorem seqs_mine {worker : Nat} {line : Line} (h : line.worker = worker) : seqs worker [line] = [line.sequence] := by
  simp [seqs, h]

theorem seqs_other {worker : Nat} {line : Line} (h : line.worker ≠ worker) : seqs worker [line] = [] := by
  simp [seqs, h]

/-- The books of one producer: the numbers it has given out, those it put into the queue, those it
counted as dropped and the one in its hands, and its two counters. -/
structure Books (issued enqueued dropped inHand : List UInt64) (sequence losses : UInt64) : Prop where
  numbers : issued = (List.range issued.length).map UInt64.ofNat
  sequence : sequence = UInt64.ofNat issued.length
  losses : losses = UInt64.ofNat dropped.length
  balance : issued.Perm (enqueued ++ dropped ++ inHand)
  inOrder : (enqueued ++ inHand).Sublist issued

namespace Books
variable {issued enqueued dropped : List UInt64} {x sequence losses : UInt64}

theorem ofNat_length_snoc (l : List UInt64) (x : UInt64) :
    UInt64.ofNat (l ++ [x]).length = UInt64.ofNat l.length + 1 := by
  rw [List.length_append, List.length_singleton, UInt64.ofNat_add]
  rfl

theorem issue (h : Books issued enqueued dropped [] sequence losses) :
    Books (issued ++ [sequence]) enqueued dropped [sequence] (sequence + 1) losses where
  numbers := by
    rw [List.length_append, List.length_singleton, List.range_succ, List.map_append, ← h.numbers, h.sequence]
    rfl
  sequence := by rw [ofNat_length_snoc, ← h.sequence]
  losses := h.losses
  balance := by
    have hbalance := h.balance
    rw [List.append_nil] at hbalance
    exact hbalance.append_right _
  inOrder := by
    have hinOrder := h.inOrder
    rw [List.append_nil] at hinOrder
    exact hinOrder.append_right _

theorem enqueue (h : Books issued enqueued dropped [x] sequence losses) :
    Books issued (enqueued ++ [x]) dropped [] sequence losses where
  numbers := h.numbers
  sequence := h.sequence
  losses := h.losses
  balance := by
    refine h.balance.trans ?_
    rw [List.append_nil, List.append_assoc, List.append_assoc]
    exact List.perm_append_comm.append_left _
  inOrder := by
    rw [List.append_nil]
    exact h.inOrder

theorem drop (h : Books issued enqueued dropped [x] sequence losses) :
    Books issued enqueued (dropped ++ [x]) [] sequence (losses + 1) where
  numbers := h.numbers
  sequence := h.sequence
  losses := by rw [ofNat_length_snoc, ← h.losses]
  balance := by
    rw [List.append_nil, ← List.append_assoc]
    exact h.balance
  inOrder := by
    rw [List.append_nil]
    exact (List.sublist_append_left _ _).trans h.inOrder

section Unwrapped
variable {inHand written rest : List UInt64}

/-- Until the counter wraps, the numbers are given out in increasing order. -/
theorem increasing (h : Books issued enqueued dropped inHand sequence losses) (hlen : issued.length ≤ 2 ^ 64) :
    issued.Pairwise (· < ·) := by
  rw [h.numbers, List.pairwise_map]
  refine List.pairwise_lt_range.imp_of_mem ?_
  intro a b ha hb hlt
  have hb' : b < 2 ^ 64 := lt_of_lt_of_le (List.mem_range.mp hb) hlen
  rw [UInt64.lt_iff_toNat_lt, UInt64.toNat_ofNat_of_lt' (lt_trans hlt hb'), UInt64.toNat_ofNat_of_lt' hb']
  exact hlt

theorem mem_issued_of_lt (h : Books issued enqueued dropped inHand sequence losses) (hlen : issued.length ≤ 2 ^ 64)
    {x k : UInt64} (hx : x ∈ issued) (hlt : k < x) : k ∈ issued := by
  rw [h.numbers] at hx ⊢
  obtain ⟨m, hm, rfl⟩ := List.mem_map.mp hx
  have hm' : m < 2 ^ 64 := lt_of_lt_of_le (List.mem_range.mp hm) hlen
  rw [UInt64.lt_iff_toNat_lt, UInt64.toNat_ofNat_of_lt' hm'] at hlt
  exact List.mem_map.mpr ⟨k.toNat, List.mem_range.mpr (lt_trans hlt (List.mem_range.mp hm)), UInt64.ofNat_toNat⟩

/-- Below a number that was written, what was not written was dropped. -/
theorem missing_iff (h : Books issued (written ++ rest) dropped inHand sequence losses) (hlen : issued.length ≤ 2 ^ 64)
    {x k : UInt64} (hx : x ∈ written) (hlt : k < x) : k ∉ written ↔ k ∈ dropped := by
  have hincreasing := h.increasing hlen
  have hordered : (written ++ (rest ++ inHand)).Pairwise (· < ·) := by
    rw [← List.append_assoc]
    exact hincreasing.sublist h.inOrder
  have hlater : ∀ y ∈ rest ++ inHand, x < y := fun y hy => (List.pairwise_append.mp hordered).2.2 x hx y hy
  have hissued : k ∈ issued := by
    refine h.mem_issued_of_lt hlen ?_ hlt
    exact h.inOrder.subset (List.mem_append_left _ (List.mem_append_left _ hx))
  have hentry : k ∈ written ++ rest ++ dropped ++ inHand := h.balance.mem_iff.mp hissued
  have hnodup : (written ++ rest ++ dropped ++ inHand).Nodup := by
    refine h.balance.nodup_iff.mp ?_
    exact hincreasing.imp UInt64.ne_of_lt
  constructor
  · intro hnot
    simp only [List.mem_append] at hentry hlater
    rcases hentry with ((hwritten | hrest) | hdropped) | hhand
    · exact absurd hwritten hnot
    · exact absurd (hlater k (.inl hrest)) (UInt64.lt_asymm hlt)
    · exact hdropped
    · exact absurd (hlater k (.inr hhand)) (UInt64.lt_asymm hlt)
  · intro hdropped hwritten
    have hdisjoint := (List.nodup_append.mp (List.nodup_append.mp hnodup).1).2.2
    exact hdisjoint k (List.mem_append_left _ hwritten) k hdropped rfl

end Unwrapped

end Books

/-- The books agree with the trace, and what the producer holds is its own. -/
structure Account (trace : List (Event n)) (s : State n) (p : Fin n) : Prop where
  books : Books (seqs p (issued trace)) (seqs p (enqueued trace)) (seqs p (dropped trace))
    (seqs p (s.producers p).pc.inHand) (s.producers p).sequence (s.producers p).dropped
  worker : ∀ line ∈ (s.producers p).pc.inHand, line.worker = p

/-- Nothing is between the three. -/
def Accounted (trace : List (Event n)) (s : State n) : Prop :=
  enqueued trace = s.sink ++ s.batch ++ s.queue.map Slot.line

theorem accounted_moved {trace : List (Event n)} {s s' : State n} {e : Event n} (h : Accounted trace s)
    (hm : Moved capacity s s' e) : Accounted (trace ++ [e]) s' := by
  have hevents : enqueued (trace ++ [e]) = enqueued trace ++ enqueued [e] := List.filterMap_append
  rw [Accounted, hevents, h]
  cases hm with
  | claim p line here room => simp [enqueued, State.claim, State.goto, State.set]
  | publish p line here =>
      have hlines : (s.publish p).queue.map Slot.line = s.queue.map Slot.line := by
        simp only [State.publish, List.map_map]
        refine List.map_congr_left fun slot _ => ?_
        simp only [Function.comp_apply]
        split_ifs <;> rfl
      rw [hlines]
      exact List.append_nil _
  | dequeue site before line rest here head next goes => simp [enqueued, head]
  | write here => simp [enqueued]
  | _ => exact List.append_nil _

section Books
variable {trace : List (Event n)} {s s' : State n} {e : Event n} {p q : Fin n} {line : Line}

/-- What one more event adds to the books. -/
theorem account_snoc
    (books : Books (seqs p (issued trace) ++ seqs p (issued [e])) (seqs p (enqueued trace) ++ seqs p (enqueued [e]))
      (seqs p (dropped trace) ++ seqs p (dropped [e])) (seqs p (s.producers p).pc.inHand) (s.producers p).sequence
      (s.producers p).dropped)
    (worker : ∀ line ∈ (s.producers p).pc.inHand, line.worker = p) : Account (trace ++ [e]) s p := by
  have hissued : issued (trace ++ [e]) = issued trace ++ issued [e] := List.filterMap_append
  have henqueued : enqueued (trace ++ [e]) = enqueued trace ++ enqueued [e] := List.filterMap_append
  have hdropped : dropped (trace ++ [e]) = dropped trace ++ dropped [e] := List.filterMap_append
  refine ⟨?_, worker⟩
  rw [hissued, henqueued, hdropped, seqs_append, seqs_append, seqs_append]
  exact books

/-- The event is no entry in this producer's books. -/
structure Silent (p : Fin n) (e : Event n) : Prop where
  issued : seqs p (issued [e]) = []
  enqueued : seqs p (enqueued [e]) = []
  dropped : seqs p (dropped [e]) = []

theorem Account.silent (h : Account trace s p) (he : Silent p e)
    (sequence : (s'.producers p).sequence = (s.producers p).sequence)
    (losses : (s'.producers p).dropped = (s.producers p).dropped)
    (inHand : (s'.producers p).pc.inHand = (s.producers p).pc.inHand) : Account (trace ++ [e]) s' p := by
  refine account_snoc ?_ (inHand ▸ h.worker)
  rw [he.issued, he.enqueued, he.dropped, List.append_nil, List.append_nil, List.append_nil, sequence, losses, inHand]
  exact h.books

theorem silent_other : Silent p (.other : Event n) := ⟨rfl, rfl, rfl⟩

theorem Account.issue (h : Account trace s p) (here : (s.producers p).pc = .idle)
    (number : line.sequence = (s.producers p).sequence) (worker : line.worker = p) :
    Account (trace ++ [.issued p line]) (s.issue p line) p := by
  have hbooks := h.books
  rw [here] at hbooks
  refine account_snoc ?_ ?_
  · simp only [State.issue, State.set_self]
    change Books (_ ++ seqs p [line]) (_ ++ []) (_ ++ []) (seqs p [line]) _ _
    rw [seqs_mine worker, number, List.append_nil, List.append_nil]
    exact hbooks.issue
  · rw [State.issue, State.set_self]
    intro l hl
    rw [List.mem_singleton.mp hl]
    exact worker

/-- A producer with a line in its hands. -/
theorem Account.holding (h : Account trace s p) (holds : (s.producers p).pc.inHand = [line]) :
    line.worker = p ∧ Books (seqs p (issued trace)) (seqs p (enqueued trace)) (seqs p (dropped trace)) [line.sequence]
      (s.producers p).sequence (s.producers p).dropped := by
  have worker : line.worker = p := h.worker line (holds ▸ List.mem_singleton_self line)
  refine ⟨worker, ?_⟩
  rw [← seqs_mine worker, ← holds]
  exact h.books

theorem Account.claim (h : Account trace s p) (here : (s.producers p).pc = .enqueue line) :
    Account (trace ++ [.enqueued p line]) (s.claim p line) p := by
  obtain ⟨worker, hbooks⟩ := h.holding (by rw [here]; rfl : (s.producers p).pc.inHand = [line])
  refine account_snoc ?_ ?_
  · simp only [State.claim, State.goto, State.set_self]
    change Books (_ ++ []) (_ ++ seqs p [line]) (_ ++ []) [] _ _
    rw [seqs_mine worker, List.append_nil, List.append_nil]
    exact hbooks.enqueue
  · simp only [State.claim, State.goto, State.set_self]
    exact fun l hl => absurd hl List.not_mem_nil

theorem Account.drop (h : Account trace s p) (here : (s.producers p).pc = .drop line) :
    Account (trace ++ [.dropped p line]) (s.drop p) p := by
  obtain ⟨worker, hbooks⟩ := h.holding (by rw [here]; rfl : (s.producers p).pc.inHand = [line])
  refine account_snoc ?_ ?_
  · simp only [State.drop, State.set_self]
    change Books (_ ++ []) (_ ++ []) (_ ++ seqs p [line]) [] _ _
    rw [seqs_mine worker, List.append_nil, List.append_nil]
    exact hbooks.drop
  · simp only [State.drop, State.set_self]
    exact fun l hl => absurd hl List.not_mem_nil

/-- Another producer's move. -/
theorem Account.of_set (h : Account trace s p) (hne : p ≠ q) (he : Silent p e) {producer : Producer}
    (hs : s'.producers = (s.set q producer).producers) : Account (trace ++ [e]) s' p := by
  have hp : s'.producers p = s.producers p := by rw [hs, State.set_of_ne s hne]
  exact h.silent he (by rw [hp]) (by rw [hp]) (by rw [hp])

/-- A move of a producer that changes nothing but its place in the code. -/
theorem Account.of_goto (h : Account trace s p) {pc : ProducerPc} (hs : s'.producers = (s.goto q pc).producers)
    (he : Silent p e) (inHand : pc.inHand = (s.producers q).pc.inHand) : Account (trace ++ [e]) s' p := by
  by_cases hpq : p = q
  · subst hpq
    have hp : s'.producers p = { s.producers p with pc } := by rw [hs, State.goto, State.set_self]
    exact h.silent he (by rw [hp]) (by rw [hp]) (by rw [hp, inHand])
  · exact h.of_set hpq he hs

theorem account_moved (h : ∀ p, Account trace s p) (hm : Moved capacity s s' e) (p : Fin n) :
    Account (trace ++ [e]) s' p := by
  -- Another producer's line is not in these books.
  have hforeign : ∀ {q : Fin n} {line : Line}, p ≠ q → line.worker = q → seqs p [line] = [] := by
    intro q line hne hworker
    refine seqs_other fun heq => hne (Fin.ext ?_)
    rw [← heq, hworker]
  cases hm with
  | issue q line here number worker =>
      by_cases hpq : p = q
      · subst hpq
        exact (h p).issue here number worker
      · exact (h p).of_set hpq ⟨hforeign hpq worker, rfl, rfl⟩ rfl
  | claim q line here room =>
      by_cases hpq : p = q
      · subst hpq
        exact (h p).claim here
      · have worker : line.worker = q := ((h q).holding (by rw [here]; rfl)).1
        exact (h p).of_set hpq ⟨rfl, hforeign hpq worker, rfl⟩ rfl
  | drop q line here =>
      by_cases hpq : p = q
      · subst hpq
        exact (h p).drop here
      · have worker : line.worker = q := ((h q).holding (by rw [here]; rfl)).1
        exact (h p).of_set hpq ⟨rfl, rfl, hforeign hpq worker⟩ rfl
  | refuse q line here full => exact (h p).of_goto rfl silent_other (by rw [here]; rfl)
  | publish q line here => exact (h p).of_goto rfl ⟨rfl, rfl, rfl⟩ (by rw [here]; rfl)
  | leave q here unparked => exact (h p).of_goto rfl silent_other (by rw [here]; rfl)
  | notice q here parked => exact (h p).of_goto rfl silent_other (by rw [here]; rfl)
  | unpark q here => exact (h p).of_goto rfl silent_other (by rw [here]; rfl)
  | _ => exact (h p).silent ⟨rfl, rfl, rfl⟩ rfl rfl rfl

end Books

/-- Every line that was numbered is accounted for, and the lines that were put into the queue are
the sink, the batch and the queue. Of one worker's lines in the sink the numbers increase, and
those that are missing are those that were dropped, until 2^64 of them have been given out. -/
theorem log_accounts (capacity : Nat) (enabled : Bool) (schedule : List (Choice n)) :
    let r := run (step capacity enabled) (State.new n) schedule
    (∀ p : Fin n, Books (seqs p (issued r.2)) (seqs p (enqueued r.2)) (seqs p (dropped r.2))
      (seqs p (r.1.producers p).pc.inHand) (r.1.producers p).sequence (r.1.producers p).dropped ∧
      (r.1.producers p).pc.inHand.length ≤ 1) ∧
    enqueued r.2 = r.1.sink ++ r.1.batch ++ r.1.queue.map Slot.line ∧
    ∀ p : Fin n, (seqs p (issued r.2)).length ≤ 2 ^ 64 →
      (seqs p r.1.sink).Pairwise (· < ·) ∧
      ∀ x ∈ seqs p r.1.sink, ∀ k < x, (k ∉ seqs p r.1.sink ↔ k ∈ seqs p (dropped r.2)) := by
  intro r
  have hinv : (∀ p, Account r.2 r.1 p) ∧ Accounted r.2 r.1 := by
    refine moved_invariant (P := fun trace s => (∀ p, Account trace s p) ∧ Accounted trace s) ⟨?_, rfl⟩ ?_ schedule
    · exact fun p => ⟨⟨rfl, rfl, rfl, .nil, .slnil⟩, fun l hl => absurd hl List.not_mem_nil⟩
    · rintro trace s s' e ⟨haccount, haccounted⟩ hm
      exact ⟨account_moved haccount hm, accounted_moved haccounted hm⟩
  refine ⟨fun p => ⟨(hinv.1 p).books, ?_⟩, hinv.2, ?_⟩
  · cases (r.1.producers p).pc <;> simp [ProducerPc.inHand]
  · intro p hlen
    have hbooks := (hinv.1 p).books
    have hline : enqueued r.2 = r.1.sink ++ (r.1.batch ++ r.1.queue.map Slot.line) := by
      rw [← List.append_assoc]
      exact hinv.2
    rw [hline, seqs_append] at hbooks
    refine ⟨?_, fun x hx k hlt => hbooks.missing_iff hlen hx hlt⟩
    have hordered := (hbooks.increasing hlen).sublist hbooks.inOrder
    exact (List.pairwise_append.mp (List.pairwise_append.mp hordered).1).1

/-- Two requests while there is room for one, and a third once the queue has been drained. -/
def sampleSchedule : List (Choice 1) :=
  List.replicate 7 sampleTurn ++ List.replicate 4 (.writer false) ++
    List.replicate 4 sampleTurn ++ List.replicate 3 (.writer false)

theorem log_accounts_sample :
    seqs 0 (run (step 1 true) (State.new 1) sampleSchedule).1.sink = [0, 2] ∧
    (seqs 0 (run (step 1 true) (State.new 1) sampleSchedule).1.sink).Pairwise (· < ·) ∧
    1 ∈ seqs 0 (dropped (run (step 1 true) (State.new 1) sampleSchedule).2) := by
  have hsink : seqs 0 (run (step 1 true) (State.new 1) sampleSchedule).1.sink = [0, 2] := by decide +kernel
  have hissued : (seqs 0 (issued (run (step 1 true) (State.new 1) sampleSchedule).2)).length = 3 := by decide +kernel
  have hfew : (seqs 0 (issued (run (step 1 true) (State.new 1) sampleSchedule).2)).length ≤ 2 ^ 64 := by
    rw [hissued]
    decide
  obtain ⟨hordered, hmissing⟩ := (log_accounts 1 true sampleSchedule).2.2 0 hfew
  refine ⟨hsink, hordered, (hmissing 2 ?_ 1 (by decide)).mp ?_⟩
  · change (2 : UInt64) ∈ seqs 0 _
    rw [hsink]
    decide
  · change (1 : UInt64) ∉ seqs 0 _
    rw [hsink]
    decide

/-- One request is recorded, and its line is written. -/
def round : List (Choice 1) :=
  List.replicate 4 sampleTurn ++ List.replicate 3 (.writer false)

def afterRounds (k : Nat) : State 1 :=
  { State.new 1 with
    producers := fun _ => ⟨UInt64.ofNat k, 0, .idle⟩
    started := true
    sink := (List.range k).map fun i => ⟨0, UInt64.ofNat i, 0, sampleRecord⟩
    writer := .drain .main 0 }

theorem update_one {α : Type} (a b : α) : Function.update (fun _ : Fin 1 => a) 0 b = fun _ => b := by
  funext p
  rw [Subsingleton.elim p 0, Function.update_self]

theorem run_round (k : Nat) : (run (step 2 true) (afterRounds k) round).1 = afterRounds (k + 1) := by
  have hshort : ∀ l : Line, ¬ BATCH_BYTES < batchLen [l] ∧ 0 < batchLen [l] := by
    intro l
    have hlen := l.asStr_length
    simp only [batchLen, BATCH_BYTES, LINE_CAPACITY, List.map_cons, List.map_nil, List.sum_cons, List.sum_nil] at hlen ⊢
    omega
  have hempty : batchLen [] = 0 := rfl
  simp [round, sampleTurn, List.replicate, run, step, recordStep, writerStep, drainStep, afterRounds, State.new, State.issue,
    State.claim, State.publish, State.goto, State.set, update_one, hshort, hempty, Site.next, loopHead, List.range_succ]

theorem run_rounds (k : Nat) :
    (run (step 2 true) (State.new 1) (.writer false :: (List.replicate k round).flatten)).1 = afterRounds k := by
  induction k with
  | zero => simp [run, step, writerStep, afterRounds, State.new, loopHead, batchLen]
  | succ k ih =>
      rw [List.replicate_succ', List.flatten_append, List.flatten_singleton, ← List.cons_append, run_append]
      simp only [ih, run_round]

theorem seqs_rounds (k : Nat) : seqs 0 (afterRounds k).sink = (List.range k).map UInt64.ofNat := by
  have hall : ∀ l ∈ (afterRounds k).sink, decide (l.worker = 0) = true := by
    intro l hl
    obtain ⟨i, -, rfl⟩ := List.mem_map.mp hl
    rfl
  rw [seqs, List.filter_eq_self.mpr hall]
  simp [afterRounds]

theorem not_increasing {k : Nat} (hpos : 0 < k) (hwrap : UInt64.ofNat k = 0) :
    ¬ ((List.range (k + 1)).map UInt64.ofNat).Pairwise (· < ·) := by
  intro h
  rw [List.range_succ, List.map_append] at h
  have hzero : (0 : UInt64) ∈ (List.range k).map UInt64.ofNat := List.mem_map.mpr ⟨0, List.mem_range.mpr hpos, rfl⟩
  have hlt := (List.pairwise_append.mp h).2.2 0 hzero (UInt64.ofNat k) (List.mem_singleton_self _)
  rw [hwrap] at hlt
  exact absurd hlt (by decide)

theorem not_increasing_of_wrap {k : Nat} (hpos : 0 < k) (hwrap : UInt64.ofNat k = 0) :
    ¬ (seqs 0 (run (step 2 true) (State.new 1)
      (.writer false :: (List.replicate (k + 1) round).flatten)).1.sink).Pairwise (· < ·) := by
  rw [run_rounds, seqs_rounds]
  exact not_increasing hpos hwrap

/-- After 2^64 lines the counter starts again. -/
theorem numbers_start_again : ¬ (seqs 0 (run (step 2 true) (State.new 1)
    (.writer false :: (List.replicate (2 ^ 64 + 1) round).flatten)).1.sink).Pairwise (· < ·) :=
  not_increasing_of_wrap (Nat.two_pow_pos 64) (by decide +kernel)

end Kallisto.Telemetry
