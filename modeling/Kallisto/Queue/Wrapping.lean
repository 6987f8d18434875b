import Kallisto.Queue.LockFreeQueue
import Mathlib.Data.Nat.ModEq

/-!
The queue one call at a time, on machine words. Positions and sequences are counted modulo
`2^w` and the lag is read as a signed difference, so their meaning is only relative; it is the
same as a list bounded by the capacity however often the words wrap around. A weak
compare-exchange may fail for no reason even when nobody else moves.
-/
namespace Kallisto.Queue.Wrapping
open Lib

/-- The word size and the capacity `2^k`, from 2 to half the range of a word. -/
structure Size where
  w : Nat
  k : Nat
  pos : 1 ≤ k
  lt : k < w

def Size.capacity (z : Size) : Nat := 2 ^ z.k

structure Memory (z : Size) (α : Type) where
  enqueuePos : BitVec z.w
  dequeuePos : BitVec z.w
  sequence : Nat → BitVec z.w
  data : Nat → Option α

inductive QueueError where
  | full
  | empty
  deriving DecidableEq, Repr

/-- `self.buffer.len()` as a word. -/
def Size.len (z : Size) : BitVec z.w := BitVec.ofNat z.w z.capacity

def Memory.new (z : Size) (α : Type) : Memory z α where
  enqueuePos := 0
  dequeuePos := 0
  sequence := fun pos => BitVec.ofNat z.w (pos + EMPTY)
  data := fun _ => none

/-- `pos & mask`. -/
def index {z : Size} (pos : BitVec z.w) : Nat := (pos &&& (z.len - 1)).toNat

variable {z : Size} {α : Type}

/-- The loop of `claim` with at most `bound` turns, `none` if those do not do. The first
`failures` compare-exchanges fail for no reason. -/
def claim (m : Memory z α) (cursor : BitVec z.w) (ready : Nat) :
    (bound failures : Nat) → (pos : BitVec z.w) → Option (Option (BitVec z.w))
  | 0, _, _ => none
  | bound + 1, failures, pos =>
      let lag := (m.sequence (index pos) - (pos + BitVec.ofNat z.w ready)).toInt
      if lag < 0 then some none
      else if lag > 0 then claim m cursor ready bound failures cursor
      else if failures = 0 ∧ cursor = pos then some (some pos)
      else claim m cursor ready bound (failures - 1) cursor

def enqueue (m : Memory z α) (bound failures : Nat) (value : α) : Option (Memory z α × Except QueueError Unit) :=
  (claim m m.enqueuePos EMPTY bound failures m.enqueuePos).map fun
    | none => (m, .error .full)
    | some pos =>
        ({ m with
            enqueuePos := pos + 1
            data := Function.update m.data (index pos) (some value)
            sequence := Function.update m.sequence (index pos) (pos + BitVec.ofNat z.w FILLED) }, .ok ())

/-- The value is `none` where the slot read held no live value. -/
def dequeue (m : Memory z α) (bound failures : Nat) : Option (Memory z α × Except QueueError (Option α)) :=
  (claim m m.dequeuePos FILLED bound failures m.dequeuePos).map fun
    | none => (m, .error .empty)
    | some pos =>
        ({ m with
            dequeuePos := pos + 1
            data := Function.update m.data (index pos) none
            sequence := Function.update m.sequence (index pos) (pos + z.len) }, .ok (m.data (index pos)))

/-- `drop`: dequeues until one is refused, at most `calls` of them. The `i`th one's
compare-exchange fails `failures i` times. -/
def drop (m : Memory z α) : (calls : Nat) → (failures : Nat → Nat) → Option (Memory z α × List (Option α))
  | 0, _ => none
  | calls + 1, failures =>
      match dequeue m (failures 0 + 1) (failures 0) with
      | none => none
      | some (m, .error _) => some (m, [])
      | some (m, .ok value) => (drop m calls fun i => failures (i + 1)).map fun (m, rest) => (m, value :: rest)

inductive Reply (α : Type) where
  | enqueued (outcome : Except QueueError Unit)
  | dequeued (outcome : Except QueueError (Option α))

/-- One call and how often its compare-exchange fails for no reason. -/
structure Call (α : Type) where
  op : Op α
  failures : Nat

/-- A call, its loop bounded by one turn more than the failures. -/
def step (m : Memory z α) (c : Call α) : Option (Memory z α × Reply α) :=
  match c.op with
  | .enqueue v => (enqueue m (c.failures + 1) c.failures v).map fun (m, r) => (m, .enqueued r)
  | .dequeue => (dequeue m (c.failures + 1) c.failures).map fun (m, r) => (m, .dequeued r)

def run (m : Memory z α) : List (Call α) → Option (Memory z α × List (Reply α))
  | [] => some (m, [])
  | c :: calls => do
      let (m, reply) ← step m c
      let (m, replies) ← run m calls
      return (m, reply :: replies)

/-- The list the queue stands for. -/
def boundedStep (capacity : Nat) (q : List α) : Op α → List α × Reply α
  | .enqueue v => if q.length = capacity then (q, .enqueued (.error .full)) else (q ++ [v], .enqueued (.ok ()))
  | .dequeue =>
      match q with
      | [] => ([], .dequeued (.error .empty))
      | v :: q => (q, .dequeued (.ok (some v)))

theorem Size.half (z : Size) : 2 ^ z.w = 2 * 2 ^ (z.w - 1) := by
  have := z.lt
  rw [← Nat.pow_succ']
  congr 1
  omega

theorem Size.capacity_le (z : Size) : 2 ≤ z.capacity ∧ z.capacity ≤ 2 ^ (z.w - 1) := by
  have htwo : 2 ^ 1 ≤ 2 ^ z.k := Nat.pow_le_pow_right (by decide) z.pos
  exact ⟨htwo, Nat.pow_le_pow_right (by decide) (Nat.le_sub_one_of_lt z.lt)⟩

theorem index_ofNat (p : Nat) : index (BitVec.ofNat z.w p) = p % z.capacity := by
  obtain ⟨hcap, hhalf⟩ := z.capacity_le
  have hw := z.half
  have hdvd : 2 ^ z.k ∣ 2 ^ z.w := Nat.pow_dvd_pow 2 z.lt.le
  have hone : (1 : BitVec z.w).toNat = 1 := (BitVec.toNat_ofNat 1 z.w).trans (Nat.mod_eq_of_lt (by omega))
  have hword : z.len.toNat = z.capacity := (BitVec.toNat_ofNat ..).trans (Nat.mod_eq_of_lt (by omega))
  have hmask : (z.len - 1).toNat = 2 ^ z.k - 1 := by
    rw [BitVec.toNat_sub_of_le (by rw [BitVec.le_def, hone, hword]; omega), hone, hword, Size.capacity]
  rw [index, BitVec.toNat_and, hmask, Nat.and_two_pow_sub_one_eq_mod, BitVec.toNat_ofNat, Size.capacity,
    Nat.mod_mod_of_dvd p hdvd]

/-- The lag of a sequence behind a position, as long as it is less than half the range. -/
theorem lag_eq {a b : Nat} (h : a ≤ b) (hlt : b - a < 2 ^ (z.w - 1)) :
    (BitVec.ofNat z.w a - BitVec.ofNat z.w b).toInt = (a : Int) - b := by
  have hw := z.half
  rw [BitVec.toInt_sub, BitVec.toInt_ofNat', BitVec.toInt_ofNat', Int.bmod_sub_bmod, Int.sub_bmod_bmod]
  rw [hw]
  generalize 2 ^ (z.w - 1) = half at hlt
  exact Int.bmod_eq_of_le_mul_two (by omega) (by omega)

/-- The memory stands for the list `q`: from the consumers' position `d` on, `C` positions in a row
have a slot each, the first of them filled with `q` in order, the others empty and waiting. -/
structure Refines (m : Memory z α) (q : List α) (d : Nat) : Prop where
  length : q.length ≤ z.capacity
  enqueuePos : m.enqueuePos = BitVec.ofNat z.w (d + q.length)
  dequeuePos : m.dequeuePos = BitVec.ofNat z.w d
  filled : ∀ i (hi : i < q.length), m.sequence ((d + i) % z.capacity) = BitVec.ofNat z.w (d + i + 1) ∧
    m.data ((d + i) % z.capacity) = some q[i]
  waiting : ∀ i, q.length ≤ i → i < z.capacity →
    m.sequence ((d + i) % z.capacity) = BitVec.ofNat z.w (d + i) ∧ m.data ((d + i) % z.capacity) = none

theorem Refines.start (z : Size) (α : Type) : Refines (Memory.new z α) [] 0 := by
  refine ⟨Nat.zero_le _, rfl, rfl, fun i hi => absurd hi (Nat.not_lt_zero i), fun i _ hi => ⟨?_, rfl⟩⟩
  simp only [Memory.new, Nat.zero_add, Nat.mod_eq_of_lt hi, EMPTY, Nat.add_zero]

/-- Positions less than a capacity apart have slots of their own. -/
theorem slot_ne {c d i j : Nat} (hi : i < c) (hj : j < c) (hij : i ≠ j) : (d + i) % c ≠ (d + j) % c := by
  intro h
  have hmod : i % c = j % c := Nat.ModEq.add_left_cancel' d h
  rw [Nat.mod_eq_of_lt hi, Nat.mod_eq_of_lt hj] at hmod
  exact hij hmod

section Claim
variable {m : Memory z α} {ready : Nat} {bound failures : Nat} {cursor pos : BitVec z.w}

theorem claim_refused (hlag : (m.sequence (index pos) - (pos + BitVec.ofNat z.w ready)).toInt < 0) :
    claim m cursor ready (bound + 1) failures pos = some none := by
  rw [claim]
  exact if_pos hlag

/-- A slot that is ready is taken, after as many turns as its compare-exchange fails. -/
theorem claim_taken (hlag : m.sequence (index pos) = pos + BitVec.ofNat z.w ready) (h : failures < bound) :
    claim m pos ready bound failures pos = some (some pos) := by
  have hzero : (m.sequence (index pos) - (pos + BitVec.ofNat z.w ready)).toInt = 0 := by
    rw [hlag, BitVec.sub_self, BitVec.toInt_zero]
  induction failures generalizing bound with
  | zero =>
      obtain ⟨bound, rfl⟩ := Nat.exists_eq_succ_of_ne_zero (Nat.ne_of_gt h)
      simp only [claim, hzero, lt_irrefl, if_false, and_self, if_true]
  | succ failures ih =>
      obtain ⟨bound, rfl⟩ := Nat.exists_eq_succ_of_ne_zero (Nat.ne_of_gt (Nat.zero_lt_of_lt h))
      simp only [claim, hzero, lt_irrefl, if_false, Nat.succ_ne_zero, false_and, Nat.add_sub_cancel]
      exact ih (Nat.lt_of_succ_lt_succ h)

end Claim

section Steps
variable {m : Memory z α} {q : List α} {d bound failures : Nat}

theorem enqueue_full (h : Refines m q d) (hq : q.length = z.capacity) (v : α) :
    enqueue m (bound + 1) failures v = some (m, .error .full) := by
  obtain ⟨htwo, hhalf⟩ := z.capacity_le
  have hslot : m.sequence (index m.enqueuePos) = BitVec.ofNat z.w (d + 1) := by
    have hfirst := (h.filled 0 (by omega)).1
    rw [Nat.add_zero] at hfirst
    rw [h.enqueuePos, index_ofNat, hq, Nat.add_mod_right, hfirst]
  have hlag : (m.sequence (index m.enqueuePos) - (m.enqueuePos + BitVec.ofNat z.w EMPTY)).toInt < 0 := by
    rw [hslot, h.enqueuePos, hq, ← BitVec.ofNat_add, EMPTY, lag_eq (by omega) (by omega)]
    omega
  rw [enqueue, claim_refused hlag]
  rfl

theorem enqueue_room (h : Refines m q d) (hq : q.length < z.capacity) (v : α) (hb : failures < bound) :
    ∃ m', enqueue m bound failures v = some (m', .ok ()) ∧ Refines m' (q ++ [v]) d := by
  have hindex : index m.enqueuePos = (d + q.length) % z.capacity := by rw [h.enqueuePos, index_ofNat]
  have hready : m.sequence (index m.enqueuePos) = m.enqueuePos + BitVec.ofNat z.w EMPTY := by
    rw [hindex, (h.waiting _ le_rfl hq).1, h.enqueuePos, ← BitVec.ofNat_add]
    rfl
  refine ⟨_, by rw [enqueue, claim_taken hready hb]; rfl, ?_⟩
  have hlen : (q ++ [v]).length = q.length + 1 := by rw [List.length_append, List.length_singleton]
  rw [hindex]
  refine ⟨by omega, ?_, h.dequeuePos, fun i hi => ?_, fun i hle hi => ?_⟩
  · rw [h.enqueuePos, hlen, ← Nat.add_assoc, BitVec.ofNat_add _ 1]
    rfl
  · rcases Nat.lt_or_ge i q.length with hlt | hge
    · have hne := slot_ne (d := d) (by omega) hq (Nat.ne_of_lt hlt)
      simp only [Function.update_of_ne hne, List.getElem_append_left hlt]
      exact h.filled i hlt
    · obtain rfl : i = q.length := by omega
      simp only [Function.update_self, List.getElem_concat_length, h.enqueuePos, ← BitVec.ofNat_add]
      exact ⟨rfl, trivial⟩
  · have hne := slot_ne (d := d) hi hq (by omega)
    simp only [Function.update_of_ne hne]
    exact h.waiting i (by omega) hi

theorem dequeue_empty (h : Refines m [] d) :
    dequeue m (bound + 1) failures = some (m, .error .empty) := by
  obtain ⟨htwo, hhalf⟩ := z.capacity_le
  have hslot : m.sequence (index m.dequeuePos) = BitVec.ofNat z.w d := by
    have hfirst := (h.waiting 0 (Nat.zero_le _) (by omega)).1
    rw [Nat.add_zero] at hfirst
    rw [h.dequeuePos, index_ofNat, hfirst]
  have hlag : (m.sequence (index m.dequeuePos) - (m.dequeuePos + BitVec.ofNat z.w FILLED)).toInt < 0 := by
    rw [hslot, h.dequeuePos, ← BitVec.ofNat_add, FILLED, lag_eq (by omega) (by omega)]
    omega
  rw [dequeue, claim_refused hlag]
  rfl

theorem dequeue_some {v : α} (h : Refines m (v :: q) d) (hb : failures < bound) :
    ∃ m', dequeue m bound failures = some (m', .ok (some v)) ∧ Refines m' q (d + 1) := by
  have hlen := h.length
  rw [List.length_cons] at hlen
  have hindex : index m.dequeuePos = (d + 0) % z.capacity := by rw [h.dequeuePos, index_ofNat, Nat.add_zero]
  obtain ⟨hseq, hdata⟩ := h.filled 0 (Nat.succ_pos _)
  have hready : m.sequence (index m.dequeuePos) = m.dequeuePos + BitVec.ofNat z.w FILLED := by
    rw [hindex, hseq, h.dequeuePos, ← BitVec.ofNat_add]
    rfl
  have hvalue : m.data (index m.dequeuePos) = some v := by
    rw [hindex, hdata]
    rfl
  refine ⟨_, by rw [dequeue, claim_taken hready hb, ← hvalue]; rfl, ?_⟩
  refine ⟨by omega, ?_, ?_, fun i hi => ?_, fun i hle hi => ?_⟩
  · rw [h.enqueuePos, List.length_cons]
    congr 1
    omega
  · rw [h.dequeuePos, BitVec.ofNat_add _ 1]
    rfl
  · have hne := slot_ne (c := z.capacity) (d := d) (i := i + 1) (j := 0) (by omega) (by omega) (Nat.succ_ne_zero i)
    have hpos : d + 1 + i = d + (i + 1) := by omega
    simp only [hindex, hpos, Function.update_of_ne hne]
    exact h.filled (i + 1) (Nat.succ_lt_succ hi)
  · have hpos : d + 1 + i = d + (i + 1) := by omega
    rw [hpos]
    rcases Nat.lt_or_ge (i + 1) z.capacity with hlt | hge
    · have hne := slot_ne (d := d) (i := i + 1) (j := 0) hlt (by omega) (Nat.succ_ne_zero i)
      simp only [hindex, Function.update_of_ne hne]
      exact h.waiting (i + 1) (Nat.succ_le_succ hle) hlt
    · -- The slot just drained waits for the position one lap on.
      obtain hlap : i + 1 = z.capacity := by omega
      simp only [hlap, Nat.add_mod_right, h.dequeuePos, index_ofNat, Function.update_self, Size.len,
        ← BitVec.ofNat_add, and_self]

/-- One call does what it does to the list, in at most one turn more than its failures. -/
theorem step_refines (h : Refines m q d) (c : Call α) : ∃ m' d',
    step m c = some (m', (boundedStep z.capacity q c.op).2) ∧ Refines m' (boundedStep z.capacity q c.op).1 d' := by
  obtain ⟨op, failures⟩ := c
  cases op with
  | enqueue v =>
      simp only [step, boundedStep]
      by_cases hq : q.length = z.capacity
      · rw [if_pos hq, enqueue_full h hq]
        exact ⟨m, d, rfl, h⟩
      · have hlen := h.length
        obtain ⟨m', henqueue, hm'⟩ := enqueue_room h (by omega) v (Nat.lt_succ_self failures)
        rw [if_neg hq, henqueue]
        exact ⟨m', d, rfl, hm'⟩
  | dequeue =>
      simp only [step, boundedStep]
      cases q with
      | nil =>
          rw [dequeue_empty h]
          exact ⟨m, d, rfl, h⟩
      | cons v q =>
          obtain ⟨m', hdequeue, hm'⟩ := dequeue_some h (Nat.lt_succ_self failures)
          rw [hdequeue]
          exact ⟨m', d + 1, rfl, hm'⟩

theorem run_refines (h : Refines m q d) (calls : List (Call α)) : ∃ m' d',
    run m calls = some (m', (Lib.run (boundedStep z.capacity) q (calls.map Call.op)).2) ∧
      Refines m' (Lib.run (boundedStep z.capacity) q (calls.map Call.op)).1 d' := by
  induction calls generalizing m q d with
  | nil => exact ⟨m, d, rfl, h⟩
  | cons c calls ih =>
      obtain ⟨m₁, d₁, hstep, h₁⟩ := step_refines h c
      obtain ⟨m₂, d₂, hrun, h₂⟩ := ih h₁
      refine ⟨m₂, d₂, ?_, h₂⟩
      simp only [run, hstep, Option.bind_eq_bind, Option.bind_some, hrun]
      rfl

theorem drop_refines (h : Refines m q d) {calls : Nat} (hc : q.length < calls) (failures : Nat → Nat) :
    ∃ m' d', drop m calls failures = some (m', q.map some) ∧ Refines m' [] d' := by
  induction q generalizing m d calls failures with
  | nil =>
      obtain ⟨calls, rfl⟩ := Nat.exists_eq_succ_of_ne_zero (Nat.ne_of_gt hc)
      refine ⟨m, d, ?_, h⟩
      rw [drop, dequeue_empty h]
      rfl
  | cons v q ih =>
      obtain ⟨calls, rfl⟩ := Nat.exists_eq_succ_of_ne_zero (Nat.ne_of_gt (Nat.zero_lt_of_lt hc))
      obtain ⟨m₁, hdequeue, h₁⟩ := dequeue_some h (Nat.lt_succ_self (failures 0))
      obtain ⟨m₂, d₂, hdrop, h₂⟩ := ih h₁ (Nat.lt_of_succ_lt_succ hc) fun i => failures (i + 1)
      refine ⟨m₂, d₂, ?_, h₂⟩
      rw [drop, hdequeue]
      simp only [hdrop, Option.map_some, List.map_cons]

/-- Any capacity of positions in a row covers every slot. -/
theorem exists_slot {c i : Nat} (hi : i < c) (d : Nat) : ∃ j < c, (d + j) % c = i := by
  have hc := Nat.zero_lt_of_lt hi
  refine ⟨(i + (c - d % c)) % c, Nat.mod_lt _ hc, ?_⟩
  have hlap : d + (i + (c - d % c)) = i + c * (d / c + 1) := by
    have hdiv := Nat.div_add_mod d c
    have hmod := Nat.mod_lt d hc
    rw [Nat.mul_succ]
    omega
  rw [Nat.add_mod_mod, hlap, Nat.add_mul_mod_self_left, Nat.mod_eq_of_lt hi]

end Steps

/-- A list bounded by the capacity, whatever the calls and however many: each call ends after one
turn of `claim`, and one more for each failure of its compare-exchange, and `drop` gives up
what is left, each value once, and leaves every slot empty. -/
theorem queue_is_bounded_list (z : Size) (calls : List (Call α)) :
    ∃ m, run (Memory.new z α) calls = some (m, (Lib.run (boundedStep z.capacity) [] (calls.map Call.op)).2) ∧
      (Lib.run (boundedStep z.capacity) [] (calls.map Call.op)).1.length ≤ z.capacity ∧
      ∀ n > z.capacity, ∀ failures, ∃ m',
        drop m n failures = some (m', (Lib.run (boundedStep z.capacity) [] (calls.map Call.op)).1.map some) ∧
          ∀ i < z.capacity, m'.data i = none := by
  obtain ⟨m, d, hrun, h⟩ := run_refines (Refines.start z α) calls
  refine ⟨m, hrun, h.length, fun n hn failures => ?_⟩
  obtain ⟨m', d', hdrop, h'⟩ := drop_refines h (lt_of_le_of_lt h.length hn) failures
  refine ⟨m', hdrop, fun i hi => ?_⟩
  obtain ⟨j, hj, rfl⟩ := exists_slot hi d'
  exact (h'.waiting j (Nat.zero_le _) hj).2

end Kallisto.Queue.Wrapping
