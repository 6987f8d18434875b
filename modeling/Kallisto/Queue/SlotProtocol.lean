import Kallisto.Queue.LockFreeQueue
import Mathlib.Data.Nat.ModEq

/-!
The invariant behind the queue: what a slot's sequence number says about its value, and
what a thread between two of its accesses may rely on. The sequence number of the slot of
position `p` is `p` while the slot waits for the producer of `p`, `p + 1` while it waits
for the consumer of `p`, and `p + capacity` afterwards.
-/
namespace Kallisto.Queue

/-- A capacity that `LockFreeQueue::new` does not panic on. -/
structure Capacity where
  val : Nat
  powerOfTwo : ∃ k, val = 2 ^ (k + 1)

theorem Capacity.pos (c : Capacity) : 0 < c.val := by
  obtain ⟨k, hk⟩ := c.powerOfTwo
  rw [hk]
  exact Nat.two_pow_pos _

theorem slot_eq_mod (c : Capacity) (p : Nat) : slot c.val p = p % c.val := by
  obtain ⟨k, hk⟩ := c.powerOfTwo
  rw [slot, hk, Nat.and_two_pow_sub_one_eq_mod]

theorem slot_add (c : Capacity) (p : Nat) : slot c.val (p + c.val) = slot c.val p := by
  simp only [slot_eq_mod, Nat.add_mod_right]

/-- Two positions of one slot are never neighbours; capacity 1 is refused for this. -/
theorem ne_succ_of_slot_eq (c : Capacity) {p q : Nat} (h : slot c.val p = slot c.val q) :
    p ≠ q + 1 := by
  obtain ⟨k, hk⟩ := c.powerOfTwo
  rw [slot_eq_mod, slot_eq_mod, hk] at h
  have h2 : p % 2 = q % 2 := by
    rw [← Nat.mod_mod_of_dvd p (Dvd.intro_left (2 ^ k) rfl : 2 ∣ 2 ^ (k + 1)),
      ← Nat.mod_mod_of_dvd q (Dvd.intro_left (2 ^ k) rfl : 2 ∣ 2 ^ (k + 1)), h]
  omega

variable {n : Nat} {α : Type}

/-- A producer's successful compare-exchange: who, where, and the value it brings. -/
def producerClaim : Event n α → Option (Fin n × Nat × α)
  | .claimed t (.enqueue v) pos => some (t, pos, v)
  | _ => none

def consumerClaim : Event n α → Option (Fin n × Nat)
  | .claimed t .dequeue pos => some (t, pos)
  | _ => none

/-- The values of the enqueues that succeeded, in the order they claimed positions. -/
def log (trace : List (Event n α)) : List α := (trace.filterMap producerClaim).map (·.2.2)

theorem log_snoc_of_none {trace : List (Event n α)} {e : Event n α} (h : producerClaim e = none) :
    log (trace ++ [e]) = log trace := by
  simp [log, h]

theorem log_snoc_claimed (trace : List (Event n α)) (t : Fin n) (v : α) (pos : Nat) :
    log (trace ++ [.claimed t (.enqueue v) pos]) = log trace ++ [v] := by
  simp [log, producerClaim]

/-- The position a producer has claimed and not yet published. -/
def Pc.filling : Pc α → Option Nat
  | .write _ pos | .publish _ pos => some pos
  | _ => none

/-- The position a consumer has claimed and not yet released. -/
def Pc.draining : Pc α → Option Nat
  | .read pos | .release _ pos => some pos
  | _ => none

/-- What a thread may rely on at each program counter. -/
def Holds (capacity : Nat) (log : List α) (m : Memory α) : Pc α → Prop
  | .idle | .loadCursor _ => True
  | .loadSequence op pos => pos ≤ m.cursor op
  | .compareExchange op pos =>
      pos ≤ m.cursor op ∧ (m.cursor op = pos → m.sequence (slot capacity pos) = pos + op.ready)
  | .write v pos =>
      pos < m.enqueuePos ∧ m.sequence (slot capacity pos) = pos ∧
        m.data (slot capacity pos) = none ∧ log[pos]? = some v
  | .publish v pos =>
      pos < m.enqueuePos ∧ m.sequence (slot capacity pos) = pos ∧
        m.data (slot capacity pos) = some v ∧ log[pos]? = some v
  | .read pos =>
      pos < m.dequeuePos ∧ m.sequence (slot capacity pos) = pos + 1 ∧
        ∃ v, m.data (slot capacity pos) = some v ∧ log[pos]? = some v
  | .release v pos =>
      pos < m.dequeuePos ∧ m.sequence (slot capacity pos) = pos + 1 ∧
        m.data (slot capacity pos) = none ∧ ∃ w, v = some w ∧ log[pos]? = some w

structure Protocol (c : Capacity) (trace : List (Event n α)) (s : State n α) : Prop where
  producers : (trace.filterMap producerClaim).map (·.2.1) = List.range s.mem.enqueuePos
  consumers : (trace.filterMap consumerClaim).map (·.2) = List.range s.mem.dequeuePos
  holds : ∀ t, Holds c.val (log trace) s.mem (s.pc t)
  filling_unique : ∀ t u p, (s.pc t).filling = some p → (s.pc u).filling = some p → t = u
  draining_unique : ∀ t u p, (s.pc t).draining = some p → (s.pc u).draining = some p → t = u
  empty : ∀ p, s.mem.enqueuePos ≤ p → s.mem.sequence (slot c.val p) = p →
    s.mem.data (slot c.val p) = none
  filled : ∀ p, s.mem.dequeuePos ≤ p → s.mem.sequence (slot c.val p) = p + 1 →
    ∃ v, s.mem.data (slot c.val p) = some v ∧ (log trace)[p]? = some v

theorem Holds.filling {capacity : Nat} {log : List α} {m : Memory α} {pc : Pc α} {p : Nat}
    (h : Holds capacity log m pc) (hp : pc.filling = some p) :
    p < m.enqueuePos ∧ m.sequence (slot capacity p) = p := by
  cases pc <;> simp only [Pc.filling, Option.some.injEq, reduceCtorEq] at hp
  all_goals subst hp; exact ⟨h.1, h.2.1⟩

theorem Holds.draining {capacity : Nat} {log : List α} {m : Memory α} {pc : Pc α} {p : Nat}
    (h : Holds capacity log m pc) (hp : pc.draining = some p) :
    p < m.dequeuePos ∧ m.sequence (slot capacity p) = p + 1 := by
  cases pc <;> simp only [Pc.draining, Option.some.injEq, reduceCtorEq] at hp
  all_goals subst hp; exact ⟨h.1, h.2.1⟩

/-- A slot some thread is moving a value into or out of: `i` is its index. -/
def Pc.Busy (capacity i : Nat) (pc : Pc α) : Prop :=
  ∃ p, slot capacity p = i ∧ (pc.filling = some p ∨ pc.draining = some p)

namespace Protocol
variable {c : Capacity} {trace : List (Event n α)} {s : State n α}

theorem log_length (h : Protocol c trace s) : (log trace).length = s.mem.enqueuePos := by
  have hl := congrArg List.length h.producers
  simpa only [log, List.length_map, List.length_range] using hl

/-- Two threads are never busy with one slot. -/
theorem busy_unique (h : Protocol c trace s) {t u : Fin n} {i : Nat}
    (ht : (s.pc t).Busy c.val i) (hu : (s.pc u).Busy c.val i) : t = u := by
  obtain ⟨p, hp, hp'⟩ := ht
  obtain ⟨q, hq, hq'⟩ := hu
  have hslot : slot c.val p = slot c.val q := hp.trans hq.symm
  rcases hp' with hp' | hp' <;> rcases hq' with hq' | hq'
  · have hs := ((h.holds t).filling hp').2
    rw [hslot, ((h.holds u).filling hq').2] at hs
    subst hs
    exact h.filling_unique t u _ hp' hq'
  · have hs := ((h.holds t).filling hp').2
    rw [hslot, ((h.holds u).draining hq').2] at hs
    exact absurd hs.symm (ne_succ_of_slot_eq c hslot)
  · have hs := ((h.holds t).draining hp').2
    rw [hslot, ((h.holds u).filling hq').2] at hs
    exact absurd hs (ne_succ_of_slot_eq c hslot.symm)
  · have hs := ((h.holds t).draining hp').2
    rw [hslot, ((h.holds u).draining hq').2] at hs
    obtain rfl : p = q := by omega
    exact h.draining_unique t u _ hp' hq'

/-- A thread about to claim the position its cursor shows finds the slot unused. -/
theorem claimable_not_busy (h : Protocol c trace s) {t u : Fin n} {op : Op α} {pos : Nat}
    (hu : s.pc u = .compareExchange op pos) (hcur : s.mem.cursor op = pos) :
    ¬ (s.pc t).Busy c.val (slot c.val pos) := by
  rintro ⟨p, hslot, hp⟩
  have hseq : s.mem.sequence (slot c.val pos) = pos + op.ready := by
    have hh := h.holds u
    rw [hu] at hh
    exact hh.2 hcur
  rw [← hslot] at hseq
  rcases hp with hp | hp
  · obtain ⟨hlt, hs⟩ := (h.holds t).filling hp
    cases op with
    | enqueue v => simp only [Memory.cursor, Op.ready, EMPTY] at hcur hseq; omega
    | dequeue => exact ne_succ_of_slot_eq c hslot (by simpa [Op.ready, FILLED, hs] using hseq)
  · obtain ⟨hlt, hs⟩ := (h.holds t).draining hp
    cases op with
    | enqueue v => exact ne_succ_of_slot_eq c hslot.symm (by simpa [Op.ready, EMPTY, hs] using hseq.symm)
    | dequeue => simp only [Memory.cursor, Op.ready, FILLED] at hcur hseq; omega

/-- A step that touches only its thread's program counter, and moves no value. -/
theorem goto (h : Protocol c trace s) {e : Event n α} (he : producerClaim e = none)
    (he' : consumerClaim e = none) (t : Fin n) {pc : Pc α}
    (hpc : Holds c.val (log trace) s.mem pc) (hf : pc.filling = none) (hd : pc.draining = none) :
    Protocol c (trace ++ [e]) (s.goto t pc) := by
  have hlog : log (trace ++ [e]) = log trace := log_snoc_of_none he
  refine ⟨by simpa [he] using h.producers, by simpa [he'] using h.consumers, ?_, ?_, ?_,
    h.empty, by simpa only [hlog, State.goto_mem] using h.filled⟩
  · intro u
    rw [hlog]
    by_cases hu : u = t
    · subst hu; simpa using hpc
    · simpa [s.goto_pc_of_ne hu] using h.holds u
  · intro a b p ha hb
    have ha' : a ≠ t := fun x => by subst x; simp [hf] at ha
    have hb' : b ≠ t := fun x => by subst x; simp [hf] at hb
    rw [s.goto_pc_of_ne ha'] at ha
    rw [s.goto_pc_of_ne hb'] at hb
    exact h.filling_unique a b p ha hb
  · intro a b p ha hb
    have ha' : a ≠ t := fun x => by subst x; simp [hd] at ha
    have hb' : b ≠ t := fun x => by subst x; simp [hd] at hb
    rw [s.goto_pc_of_ne ha'] at ha
    rw [s.goto_pc_of_ne hb'] at hb
    exact h.draining_unique a b p ha hb

end Protocol

/-- `m'` differs from `m` at most in what slot `i` holds. -/
structure SameOff (i : Nat) (m m' : Memory α) : Prop where
  enqueuePos : m'.enqueuePos = m.enqueuePos
  dequeuePos : m'.dequeuePos = m.dequeuePos
  sequence : ∀ j, j ≠ i → m'.sequence j = m.sequence j
  data : ∀ j, j ≠ i → m'.data j = m.data j

theorem SameOff.cursor {i : Nat} {m m' : Memory α} (h : SameOff i m m') (op : Op α) :
    m'.cursor op = m.cursor op := by
  cases op
  · exact h.enqueuePos
  · exact h.dequeuePos

theorem sameOff_setData (m : Memory α) (i : Nat) (v : Option α) : SameOff i m (m.setData i v) :=
  ⟨rfl, rfl, fun _ _ => rfl, fun _ hj => Function.update_of_ne hj _ _⟩

theorem sameOff_setSequence (m : Memory α) (i seq : Nat) : SameOff i m (m.setSequence i seq) :=
  ⟨rfl, rfl, fun _ hj => Function.update_of_ne hj _ _, fun _ _ => rfl⟩

/-- A thread not concerned with slot `i` does not notice a change there. -/
theorem Holds.frame {capacity i : Nat} {log : List α} {m m' : Memory α} {pc : Pc α}
    (h : Holds capacity log m pc) (hm : SameOff i m m') (hbusy : ¬ pc.Busy capacity i)
    (hcas : ∀ op pos, pc = .compareExchange op pos → m.cursor op = pos → slot capacity pos ≠ i) :
    Holds capacity log m' pc := by
  cases pc with
  | idle => trivial
  | loadCursor op => trivial
  | loadSequence op pos => simpa only [Holds, hm.cursor] using h
  | compareExchange op pos =>
      refine ⟨by simpa only [hm.cursor] using h.1, ?_⟩
      intro hcur
      rw [hm.cursor] at hcur
      rw [hm.sequence _ (hcas op pos rfl hcur)]
      exact h.2 hcur
  | write v pos =>
      have hi : slot capacity pos ≠ i := fun x => hbusy ⟨pos, x, .inl rfl⟩
      simpa only [Holds, hm.enqueuePos, hm.sequence _ hi, hm.data _ hi] using h
  | publish v pos =>
      have hi : slot capacity pos ≠ i := fun x => hbusy ⟨pos, x, .inl rfl⟩
      simpa only [Holds, hm.enqueuePos, hm.sequence _ hi, hm.data _ hi] using h
  | read pos =>
      have hi : slot capacity pos ≠ i := fun x => hbusy ⟨pos, x, .inr rfl⟩
      simpa only [Holds, hm.dequeuePos, hm.sequence _ hi, hm.data _ hi] using h
  | release v pos =>
      have hi : slot capacity pos ≠ i := fun x => hbusy ⟨pos, x, .inr rfl⟩
      simpa only [Holds, hm.dequeuePos, hm.sequence _ hi, hm.data _ hi] using h

/-- A claimed position makes the cursor larger and the log longer, and nothing else. -/
theorem Holds.advance_enqueue {capacity : Nat} {log : List α} {m : Memory α} {pc : Pc α}
    (h : Holds capacity log m pc) (v : α) {log' : List α}
    (hlog : ∀ {p : Nat} {w : α}, log[p]? = some w → log'[p]? = some w) :
    Holds capacity log' (m.advance (.enqueue v)) pc := by
  cases pc with
  | idle => trivial
  | loadCursor op => trivial
  | loadSequence op pos =>
      cases op
      · exact Nat.le_succ_of_le h
      · exact h
  | compareExchange op pos =>
      obtain ⟨hle, hseq⟩ := h
      cases op with
      | enqueue w =>
          simp only [Memory.cursor] at hle
          exact ⟨Nat.le_succ_of_le hle, fun hcur => absurd hcur (by simp [Memory.cursor, Memory.advance]; omega)⟩
      | dequeue => exact ⟨hle, hseq⟩
  | write w pos => exact ⟨Nat.lt_succ_of_lt h.1, h.2.1, h.2.2.1, hlog h.2.2.2⟩
  | publish w pos => exact ⟨Nat.lt_succ_of_lt h.1, h.2.1, h.2.2.1, hlog h.2.2.2⟩
  | read pos =>
      obtain ⟨hlt, hseq, w, hw, hl⟩ := h
      exact ⟨hlt, hseq, w, hw, hlog hl⟩
  | release w pos =>
      obtain ⟨hlt, hseq, hdata, x, hx, hl⟩ := h
      exact ⟨hlt, hseq, hdata, x, hx, hlog hl⟩

theorem Holds.advance_dequeue {capacity : Nat} {log : List α} {m : Memory α} {pc : Pc α}
    (h : Holds capacity log m pc) : Holds capacity log (m.advance .dequeue) pc := by
  cases pc with
  | idle => trivial
  | loadCursor op => trivial
  | loadSequence op pos =>
      cases op
      · exact h
      · exact Nat.le_succ_of_le h
  | compareExchange op pos =>
      obtain ⟨hle, hseq⟩ := h
      cases op with
      | enqueue w => exact ⟨hle, hseq⟩
      | dequeue =>
          simp only [Memory.cursor] at hle
          exact ⟨Nat.le_succ_of_le hle, fun hcur => absurd hcur (by simp [Memory.cursor, Memory.advance]; omega)⟩
  | write w pos => exact h
  | publish w pos => exact h
  | read pos => exact ⟨Nat.lt_succ_of_lt h.1, h.2⟩
  | release w pos => exact ⟨Nat.lt_succ_of_lt h.1, h.2⟩

namespace Protocol
variable {c : Capacity} {trace : List (Event n α)} {s : State n α}

/-- A step by the one thread busy with slot `i` that changes only that slot. It suffices to
look at the slot itself and at the thread's new program counter. -/
theorem update (h : Protocol c trace s) {e : Event n α} (he : producerClaim e = none)
    (he' : consumerClaim e = none) {t : Fin n} {i : Nat} (ht : (s.pc t).Busy c.val i)
    {m : Memory α} (hm : SameOff i s.mem m) {pc : Pc α} (hpc : Holds c.val (log trace) m pc)
    (hf : ∀ p, pc.filling = some p → (s.pc t).filling = some p)
    (hd : ∀ p, pc.draining = some p → (s.pc t).draining = some p)
    (hempty : ∀ p, slot c.val p = i → m.enqueuePos ≤ p → m.sequence i = p → m.data i = none)
    (hfilled : ∀ p, slot c.val p = i → m.dequeuePos ≤ p → m.sequence i = p + 1 →
      ∃ v, m.data i = some v ∧ (log trace)[p]? = some v) :
    Protocol c (trace ++ [e]) { s.goto t pc with mem := m } := by
  have hlog : log (trace ++ [e]) = log trace := log_snoc_of_none he
  have hfill : ∀ a p, ((s.goto t pc).pc a).filling = some p → (s.pc a).filling = some p := by
    intro a p ha
    by_cases hat : a = t
    · subst hat; exact hf p (by simpa using ha)
    · rwa [s.goto_pc_of_ne hat] at ha
  have hdrain : ∀ a p, ((s.goto t pc).pc a).draining = some p → (s.pc a).draining = some p := by
    intro a p ha
    by_cases hat : a = t
    · subst hat; exact hd p (by simpa using ha)
    · rwa [s.goto_pc_of_ne hat] at ha
  refine ⟨by simpa [he, hm.enqueuePos] using h.producers, by simpa [he', hm.dequeuePos] using h.consumers,
    ?_, fun a b p ha hb => h.filling_unique a b p (hfill a p ha) (hfill b p hb),
    fun a b p ha hb => h.draining_unique a b p (hdrain a p ha) (hdrain b p hb), ?_, ?_⟩
  · intro u
    rw [hlog]
    by_cases hu : u = t
    · subst hu; simpa using hpc
    · have hframe : Holds c.val (log trace) m (s.pc u) :=
        (h.holds u).frame hm (fun hb => hu (h.busy_unique hb ht)) fun op pos hop hcur hslot =>
          h.claimable_not_busy (t := t) hop hcur (hslot ▸ ht)
      simpa [s.goto_pc_of_ne hu] using hframe
  · intro p hp hseq
    by_cases hi : slot c.val p = i
    · simp only [hi] at hseq ⊢
      exact hempty p hi hp hseq
    · simp only [hm.sequence _ hi, hm.data _ hi, hm.enqueuePos] at hp hseq ⊢
      exact h.empty p hp hseq
  · intro p hp hseq
    rw [hlog]
    by_cases hi : slot c.val p = i
    · simp only [hi] at hseq ⊢
      exact hfilled p hi hp hseq
    · simp only [hm.sequence _ hi, hm.data _ hi, hm.dequeuePos] at hp hseq ⊢
      exact h.filled p hp hseq

/-- A producer's compare-exchange succeeded. -/
theorem claim_enqueue (h : Protocol c trace s) {t : Fin n} {v : α} {pos : Nat}
    (hpc : s.pc t = .compareExchange (.enqueue v) pos) (hcur : s.mem.enqueuePos = pos) :
    Protocol c (trace ++ [.claimed t (.enqueue v) pos])
      { s.goto t (.write v pos) with mem := s.mem.advance (.enqueue v) } := by
  have hlog := log_snoc_claimed trace t v pos
  have hlen := h.log_length
  have hseq : s.mem.sequence (slot c.val pos) = pos := by
    have hh := h.holds t
    rw [hpc] at hh
    exact hh.2 hcur
  have old : ∀ {p : Nat} {w : α}, (log trace)[p]? = some w → (log trace ++ [v])[p]? = some w := by
    intro p w hw
    rwa [List.getElem?_append_left (List.getElem?_eq_some_iff.mp hw).1]
  have he : consumerClaim (Event.claimed t (.enqueue v) pos) = none := rfl
  refine ⟨?_, by simpa [he, Memory.advance] using h.consumers, ?_, ?_, ?_, ?_, ?_⟩
  · simpa [producerClaim, Memory.advance, List.range_succ, hcur] using h.producers
  · intro u
    rw [hlog]
    by_cases hu : u = t
    · subst hu
      simp only [State.goto_pc_self]
      refine ⟨by simp [Memory.advance, hcur], hseq, h.empty pos (le_of_eq hcur) hseq, ?_⟩
      rw [← hcur, ← hlen]
      simp
    · simp only [s.goto_pc_of_ne hu]
      exact (h.holds u).advance_enqueue v old
  · intro a b p ha hb
    have hold : ∀ d, ((s.goto t (.write v pos)).pc d).filling = some p → d ≠ t → p < pos := by
      intro d hd hdt
      rw [s.goto_pc_of_ne hdt] at hd
      exact hcur ▸ ((h.holds d).filling hd).1
    by_cases hat : a = t <;> by_cases hbt : b = t
    · rw [hat, hbt]
    · subst hat
      simp only [State.goto_pc_self, Pc.filling, Option.some.injEq] at ha
      exact absurd (hold b hb hbt) (by omega)
    · subst hbt
      simp only [State.goto_pc_self, Pc.filling, Option.some.injEq] at hb
      exact absurd (hold a ha hat) (by omega)
    · rw [s.goto_pc_of_ne hat] at ha
      rw [s.goto_pc_of_ne hbt] at hb
      exact h.filling_unique a b p ha hb
  · intro a b p ha hb
    have ne : ∀ d, ((s.goto t (.write v pos)).pc d).draining = some p → d ≠ t := by
      rintro d hd rfl
      simp [Pc.draining] at hd
    rw [s.goto_pc_of_ne (ne a ha)] at ha
    rw [s.goto_pc_of_ne (ne b hb)] at hb
    exact h.draining_unique a b p ha hb
  · intro p hp hs
    exact h.empty p (le_trans (Nat.le_succ _) hp) hs
  · intro p hp hs
    obtain ⟨w, hw, hl⟩ := h.filled p hp hs
    exact ⟨w, hw, hlog ▸ old hl⟩

/-- A consumer's compare-exchange succeeded. -/
theorem claim_dequeue (h : Protocol c trace s) {t : Fin n} {pos : Nat}
    (hpc : s.pc t = .compareExchange .dequeue pos) (hcur : s.mem.dequeuePos = pos) :
    Protocol c (trace ++ [.claimed t .dequeue pos])
      { s.goto t (.read pos) with mem := s.mem.advance .dequeue } := by
  have hlog : log (trace ++ [Event.claimed t .dequeue pos]) = log trace := log_snoc_of_none rfl
  have hseq : s.mem.sequence (slot c.val pos) = pos + 1 := by
    have hh := h.holds t
    rw [hpc] at hh
    exact hh.2 hcur
  have he : producerClaim (Event.claimed t (.dequeue : Op α) pos) = none := rfl
  refine ⟨by simpa [he, Memory.advance] using h.producers, ?_, ?_, ?_, ?_, h.empty, ?_⟩
  · simpa [consumerClaim, Memory.advance, List.range_succ, hcur] using h.consumers
  · intro u
    rw [hlog]
    by_cases hu : u = t
    · subst hu
      simp only [State.goto_pc_self]
      exact ⟨by simp [Memory.advance, hcur], hseq, h.filled pos (le_of_eq hcur) hseq⟩
    · simp only [s.goto_pc_of_ne hu]
      exact (h.holds u).advance_dequeue
  · intro a b p ha hb
    have ne : ∀ d, ((s.goto t (.read pos)).pc d).filling = some p → d ≠ t := by
      rintro d hd rfl
      simp [Pc.filling] at hd
    rw [s.goto_pc_of_ne (ne a ha)] at ha
    rw [s.goto_pc_of_ne (ne b hb)] at hb
    exact h.filling_unique a b p ha hb
  · intro a b p ha hb
    have hold : ∀ d, ((s.goto t (.read pos)).pc d).draining = some p → d ≠ t → p < pos := by
      intro d hd hdt
      rw [s.goto_pc_of_ne hdt] at hd
      exact hcur ▸ ((h.holds d).draining hd).1
    by_cases hat : a = t <;> by_cases hbt : b = t
    · rw [hat, hbt]
    · subst hat
      simp only [State.goto_pc_self, Pc.draining, Option.some.injEq] at ha
      exact absurd (hold b hb hbt) (by omega)
    · subst hbt
      simp only [State.goto_pc_self, Pc.draining, Option.some.injEq] at hb
      exact absurd (hold a ha hat) (by omega)
    · rw [s.goto_pc_of_ne hat] at ha
      rw [s.goto_pc_of_ne hbt] at hb
      exact h.draining_unique a b p ha hb
  · intro p hp hs
    rw [hlog]
    exact h.filled p (le_trans (Nat.le_succ _) hp) hs

theorem start (c : Capacity) : Protocol c [] (new n α) where
  producers := rfl
  consumers := rfl
  holds _ := trivial
  filling_unique _ _ _ h := by simp [new, Pc.filling] at h
  draining_unique _ _ _ h := by simp [new, Pc.draining] at h
  empty _ _ _ := rfl
  filled p _ h := by
    have hle : slot c.val p ≤ p := by rw [slot_eq_mod]; exact Nat.mod_le _ _
    simp only [new, EMPTY] at h
    omega

theorem preserve (h : Protocol c trace s) (i : Choice n α) :
    Protocol c (trace ++ [(step c.val s i).2]) (step c.val s i).1 := by
  have hh := h.holds i.thread
  simp only [step]
  cases hpc : s.pc i.thread with
  | idle => exact h.goto rfl rfl _ trivial rfl rfl
  | loadCursor op => exact h.goto rfl rfl _ (le_refl _) rfl rfl
  | loadSequence op pos =>
      rw [hpc] at hh
      dsimp only
      split_ifs with hneg hlag
      · exact h.goto rfl rfl _ trivial rfl rfl
      · exact h.goto rfl rfl _ trivial rfl rfl
      · exact h.goto rfl rfl _ ⟨hh, fun _ => by omega⟩ rfl rfl
  | compareExchange op pos =>
      dsimp only
      split_ifs with hcas
      · cases op with
        | enqueue v => exact h.claim_enqueue hpc hcas.1
        | dequeue => exact h.claim_dequeue hpc hcas.1
      · exact h.goto rfl rfl _ (le_refl _) rfl rfl
  | write v pos =>
      rw [hpc] at hh
      obtain ⟨hlt, hseq, hdata, hlog⟩ := hh
      have busy : (s.pc i.thread).Busy c.val (slot c.val pos) := ⟨pos, rfl, .inl (by rw [hpc]; rfl)⟩
      refine h.update rfl rfl busy (sameOff_setData s.mem _ (some v)) ?_ (by simp [hpc, Pc.filling])
        (by simp [Pc.draining]) ?_ ?_
      · exact ⟨hlt, hseq, Function.update_self .., hlog⟩
      · intro p hp hle hs
        exact absurd (hs.symm.trans hseq) (Nat.ne_of_gt (lt_of_lt_of_le hlt hle))
      · intro p hp hle hs
        exact absurd (hseq.symm.trans hs) (ne_succ_of_slot_eq c hp.symm)
  | publish v pos =>
      rw [hpc] at hh
      obtain ⟨hlt, hseq, hdata, hlog⟩ := hh
      have busy : (s.pc i.thread).Busy c.val (slot c.val pos) := ⟨pos, rfl, .inl (by rw [hpc]; rfl)⟩
      have hnew : (s.mem.setSequence (slot c.val pos) (pos + FILLED)).sequence (slot c.val pos) = pos + 1 :=
        Function.update_self ..
      refine h.update rfl rfl busy (sameOff_setSequence s.mem _ _) trivial (by simp [Pc.filling])
        (by simp [Pc.draining]) ?_ ?_
      · intro p hp hle hs
        exact absurd (hs.symm.trans hnew) (ne_succ_of_slot_eq c hp)
      · intro p hp hle hs
        obtain rfl : p = pos := by omega
        exact ⟨v, hdata, hlog⟩
  | read pos =>
      rw [hpc] at hh
      obtain ⟨hlt, hseq, v, hdata, hlog⟩ := hh
      have busy : (s.pc i.thread).Busy c.val (slot c.val pos) := ⟨pos, rfl, .inr (by rw [hpc]; rfl)⟩
      refine h.update rfl rfl busy (sameOff_setData s.mem _ none) ?_ (by simp [Pc.filling])
        (by simp [hpc, Pc.draining]) ?_ ?_
      · exact ⟨hlt, hseq, Function.update_self .., v, hdata, hlog⟩
      · intro p hp hle hs
        exact Function.update_self ..
      · intro p hp hle hs
        obtain rfl : pos = p := Nat.succ.inj (hseq.symm.trans hs)
        exact absurd hlt (Nat.not_lt.mpr hle)
  | release v pos =>
      rw [hpc] at hh
      obtain ⟨hlt, hseq, hdata, w, hw, hlog⟩ := hh
      have busy : (s.pc i.thread).Busy c.val (slot c.val pos) := ⟨pos, rfl, .inr (by rw [hpc]; rfl)⟩
      have hnew : (s.mem.setSequence (slot c.val pos) (pos + c.val)).sequence (slot c.val pos) = pos + c.val :=
        Function.update_self ..
      refine h.update rfl rfl busy (sameOff_setSequence s.mem _ _) trivial (by simp [Pc.filling])
        (by simp [Pc.draining]) ?_ ?_
      · intro p hp hle hs
        exact hdata
      · intro p hp hle hs
        refine absurd (hnew.symm.trans hs) (ne_succ_of_slot_eq c ?_)
        rw [slot_add, hp]

end Protocol
end Kallisto.Queue
