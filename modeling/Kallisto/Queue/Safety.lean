import Kallisto.Queue.SlotProtocol
import Mathlib.Algebra.BigOperators.Fin
import Mathlib.Algebra.Order.BigOperators.Group.Finset
import Mathlib.Data.Multiset.Basic
import Mathlib.Tactic.Abel

/-!
What the slot protocol gives a caller: no value is overwritten, read twice or lost, values
leave in the order producers claimed positions, and a refusal is honest.
-/
namespace Kallisto.Queue
open Lib
variable {n : Nat} {α : Type}

/-- A value a thread carries between the queue and its caller. -/
def Pc.hand : Pc α → Multiset α
  | .write v _ => {v}
  | .release (some v) _ => {v}
  | _ => 0

def cell : Option α → Multiset α
  | some v => {v}
  | none => 0

def hands (s : State n α) : Multiset α := ∑ t, (s.pc t).hand

/-- The live values of the buffer. -/
def stored (capacity : Nat) (m : Memory α) : Multiset α := ∑ i ∈ Finset.range capacity, cell (m.data i)

def returnedValue : Event n α → Option α
  | .dequeued _ _ v => v
  | _ => none

/-- The values successful dequeues have returned. -/
def returned (trace : List (Event n α)) : Multiset α := ↑(trace.filterMap returnedValue)

theorem returned_snoc_of_none {trace : List (Event n α)} {e : Event n α} (h : returnedValue e = none) :
    returned (trace ++ [e]) = returned trace := by
  simp [returned, h]

theorem sum_exchange {ι : Type} [DecidableEq ι] {S : Finset ι} {f g : ι → Multiset α} {i : ι}
    (hi : i ∈ S) (h : ∀ j, j ≠ i → f j = g j) : ∑ j ∈ S, f j + g i = ∑ j ∈ S, g j + f i := by
  rw [← Finset.add_sum_erase S f hi, ← Finset.add_sum_erase S g hi,
    Finset.sum_congr rfl fun j hj => h j (Finset.ne_of_mem_erase hj)]
  abel

theorem hands_goto (s : State n α) (t : Fin n) (pc : Pc α) :
    hands (s.goto t pc) + (s.pc t).hand = hands s + pc.hand := by
  have h := sum_exchange (f := fun u => ((s.goto t pc).pc u).hand) (g := fun u => (s.pc u).hand)
    (Finset.mem_univ t) fun u hu => by rw [s.goto_pc_of_ne hu]
  simpa only [hands, State.goto_pc_self] using h

theorem stored_setData {capacity i : Nat} (m : Memory α) (hi : i < capacity) (v : Option α) :
    stored capacity (m.setData i v) + cell (m.data i) = stored capacity m + cell v := by
  have h := sum_exchange (f := fun j => cell ((m.setData i v).data j)) (g := fun j => cell (m.data j))
    (Finset.mem_range.mpr hi) fun j hj => by rw [(sameOff_setData m i v).data j hj]
  simpa only [stored, Memory.setData, Function.update_self] using h

theorem slot_lt (c : Capacity) (p : Nat) : slot c.val p < c.val := by
  rw [slot_eq_mod]
  exact Nat.mod_lt p c.pos

/-- Every value a producer claimed a position for is in exactly one place. -/
def Conserved (c : Capacity) (trace : List (Event n α)) (s : State n α) : Prop :=
  returned trace + stored c.val s.mem + hands s = ↑(log trace)

/-- A step that moves no value leaves all four terms as they are. -/
theorem Conserved.still {c : Capacity} {trace : List (Event n α)} {s : State n α} (hc : Conserved c trace s)
    {t : Fin n} {e : Event n α} {pc : Pc α} {m : Memory α} (he : producerClaim e = none)
    (hr : returnedValue e = none) (hand : (s.pc t).hand = pc.hand) (hm : m.data = s.mem.data) :
    Conserved c (trace ++ [e]) { s.goto t pc with mem := m } := by
  have hg := hands_goto s t pc
  rw [hand, add_left_inj] at hg
  have hs : stored c.val m = stored c.val s.mem := by rw [stored, hm, stored]
  rw [Conserved, returned_snoc_of_none hr, log_snoc_of_none he, hs]
  exact hg ▸ hc

theorem Conserved.preserve {c : Capacity} {trace : List (Event n α)} {s : State n α}
    (hc : Conserved c trace s) (h : Protocol c trace s) (i : Choice n α) :
    Conserved c (trace ++ [(step c.val s i).2]) (step c.val s i).1 := by
  have hsum : returned trace + stored c.val s.mem + hands s = ↑(log trace) := hc
  have hh := h.holds i.thread
  simp only [step]
  cases hpc : s.pc i.thread with
  | idle => exact hc.still rfl rfl (by rw [hpc]; rfl) rfl
  | loadCursor op => exact hc.still rfl rfl (by rw [hpc]; rfl) rfl
  | loadSequence op pos =>
      dsimp only
      split_ifs
      · exact hc.still rfl rfl (by rw [hpc]; rfl) rfl
      · exact hc.still rfl rfl (by rw [hpc]; rfl) rfl
      · exact hc.still rfl rfl (by rw [hpc]; rfl) rfl
  | compareExchange op pos =>
      dsimp only
      split_ifs
      · cases op with
        | enqueue v =>
            have hg := hands_goto s i.thread (.write v pos)
            simp only [hpc, Pc.hand, add_zero] at hg
            rw [Conserved, returned_snoc_of_none rfl, log_snoc_claimed, ← Multiset.coe_add, ← hsum]
            change returned trace + stored c.val s.mem + hands (s.goto i.thread (.write v pos)) = _
            rw [hg, ← add_assoc, Multiset.coe_singleton]
        | dequeue => exact hc.still rfl rfl (by rw [hpc]; rfl) rfl
      · exact hc.still rfl rfl (by rw [hpc]; rfl) rfl
  | write v pos =>
      rw [hpc] at hh
      have hg := hands_goto s i.thread (.publish v pos)
      have hs := stored_setData s.mem (slot_lt c pos) (some v)
      simp only [hpc, Pc.hand, add_zero] at hg
      simp only [hh.2.2.1, cell, add_zero] at hs
      rw [Conserved, returned_snoc_of_none rfl, log_snoc_of_none rfl, ← hsum, ← hg, hs]
      change returned trace + (stored c.val s.mem + {v}) + hands (s.goto i.thread (.publish v pos)) = _
      abel
  | publish v pos => exact hc.still rfl rfl (by rw [hpc]; rfl) rfl
  | read pos =>
      rw [hpc] at hh
      obtain ⟨-, -, v, hv, -⟩ := hh
      have hg := hands_goto s i.thread (.release (some v) pos)
      have hs := stored_setData s.mem (slot_lt c pos) none
      simp only [hpc, Pc.hand, add_zero] at hg
      simp only [hv, cell, add_zero] at hs
      simp only [hv]
      rw [Conserved, returned_snoc_of_none rfl, log_snoc_of_none rfl, ← hsum, ← hs]
      change returned trace + stored c.val (s.mem.setData (slot c.val pos) none) +
        hands (s.goto i.thread (.release (some v) pos)) = _
      rw [hg]
      abel
  | release v pos =>
      rw [hpc] at hh
      obtain ⟨-, -, -, w, rfl, -⟩ := hh
      have hg := hands_goto s i.thread .idle
      simp only [hpc, Pc.hand, add_zero] at hg
      have hr : returned (trace ++ [Event.dequeued i.thread pos (some w)]) = returned trace + {w} := by
        simp [returned, returnedValue, ← Multiset.coe_add]
      rw [Conserved, hr, log_snoc_of_none rfl, ← hsum, ← hg]
      change returned trace + {w} + stored c.val s.mem + hands (s.goto i.thread .idle) = _
      abel

theorem Conserved.start (c : Capacity) : Conserved c [] (new n α) := by
  simp [Conserved, returned, stored, hands, new, Pc.hand, cell, log]

theorem log_grows {trace : List (Event n α)} {p : Nat} {w : α} (h : (log trace)[p]? = some w)
    (e : Event n α) : (log (trace ++ [e]))[p]? = some w := by
  have hsplit : log (trace ++ [e]) = log trace ++ log [e] := by simp [log]
  rw [hsplit, List.getElem?_append_left (List.getElem?_eq_some_iff.mp h).1]
  exact h

/-- A thread that moves a value claimed the position it moves it at. -/
def Origin (trace : List (Event n α)) (t : Fin n) : Pc α → Prop
  | .write v pos | .publish v pos => .claimed t (.enqueue v) pos ∈ trace
  | .read pos | .release _ pos => .claimed t .dequeue pos ∈ trace
  | _ => True

theorem Origin.grows {trace : List (Event n α)} {t : Fin n} {pc : Pc α} (h : Origin trace t pc)
    (e : Event n α) : Origin (trace ++ [e]) t pc := by
  cases pc <;> first | trivial | exact List.mem_append_left _ h

/-- What finished calls leave behind in the sequence numbers. -/
structure History (c : Capacity) (trace : List (Event n α)) (s : State n α) : Prop where
  base : ∀ i, i < c.val → i ≤ s.mem.sequence i
  origin : ∀ t, Origin trace t (s.pc t)
  enqueued : ∀ t p v, .enqueued t p v ∈ trace → p + 1 ≤ s.mem.sequence (slot c.val p)
  dequeued : ∀ t p v, .dequeued t p v ∈ trace → p + c.val ≤ s.mem.sequence (slot c.val p) ∧
    .claimed t .dequeue p ∈ trace ∧ ∃ w, v = some w ∧ (log trace)[p]? = some w

section Inversion
variable {capacity : Nat} {s : State n α} {i : Choice n α} {t : Fin n} {pos : Nat}

theorem step_pc_of_ne {u : Fin n} (h : u ≠ i.thread) : (step capacity s i).1.pc u = s.pc u := by
  simp only [step]
  cases s.pc i.thread with
  | loadSequence op pos => dsimp only; split_ifs <;> exact s.goto_pc_of_ne h _
  | compareExchange op pos => dsimp only; split_ifs <;> exact s.goto_pc_of_ne h _
  | _ => exact s.goto_pc_of_ne h _

theorem step_wrote {v : α} (h : (step capacity s i).2 = .wrote t pos v) : s.pc t = .write v pos := by
  simp only [step] at h
  cases hpc : s.pc i.thread <;> simp only [hpc] at h <;> (try split_ifs at h) <;> cases h
  exact hpc

theorem step_read {v : Option α} (h : (step capacity s i).2 = .read t pos v) :
    s.pc t = .read pos ∧ v = s.mem.data (slot capacity pos) := by
  simp only [step] at h
  cases hpc : s.pc i.thread <;> simp only [hpc] at h <;> (try split_ifs at h) <;> cases h
  exact ⟨hpc, rfl⟩

theorem step_enqueued {v : α} (h : (step capacity s i).2 = .enqueued t pos v) :
    s.pc t = .publish v pos ∧ (step capacity s i).1.mem.sequence (slot capacity pos) = pos + 1 := by
  simp only [step] at h ⊢
  cases hpc : s.pc i.thread <;> simp only [hpc] at h ⊢ <;> (try split_ifs at h) <;> cases h
  exact ⟨hpc, Function.update_self ..⟩

theorem step_dequeued {v : Option α} (h : (step capacity s i).2 = .dequeued t pos v) :
    s.pc t = .release v pos ∧
      (step capacity s i).1.mem.sequence (slot capacity pos) = pos + capacity := by
  simp only [step] at h ⊢
  cases hpc : s.pc i.thread <;> simp only [hpc] at h ⊢ <;> (try split_ifs at h) <;> cases h
  exact ⟨hpc, Function.update_self ..⟩

theorem step_refused {op : Op α} (h : (step capacity s i).2 = .refused t op pos) :
    s.pc t = .loadSequence op pos ∧ s.mem.sequence (slot capacity pos) < pos + op.ready := by
  simp only [step] at h
  cases hpc : s.pc i.thread <;> simp only [hpc] at h <;> (try split_ifs at h) <;> cases h
  exact ⟨hpc, by omega⟩

end Inversion

section Consequences
variable {c : Capacity} {trace : List (Event n α)} {s : State n α}

theorem sequence_mono (h : Protocol c trace s) (i : Choice n α) (j : Nat) :
    s.mem.sequence j ≤ (step c.val s i).1.mem.sequence j := by
  have hh := h.holds i.thread
  have grow : ∀ p q, s.mem.sequence (slot c.val p) ≤ q →
      s.mem.sequence j ≤ Function.update s.mem.sequence (slot c.val p) q j := by
    intro p q hq
    by_cases hj : j = slot c.val p
    · subst hj
      rwa [Function.update_self]
    · rw [Function.update_of_ne hj]
  simp only [step]
  cases hpc : s.pc i.thread with
  | loadSequence op pos => dsimp only; split_ifs <;> exact le_refl _
  | compareExchange op pos =>
      dsimp only
      split_ifs
      · cases op <;> exact le_refl _
      · exact le_refl _
  | publish v pos =>
      rw [hpc] at hh
      exact grow pos _ (hh.2.1.le.trans (Nat.le_add_right _ _))
  | release v pos =>
      rw [hpc] at hh
      exact grow pos _ (hh.2.1.le.trans (Nat.add_le_add_left c.pos pos))
  | _ => exact le_refl _

theorem origin_preserve (h : ∀ t, Origin trace t (s.pc t)) (i : Choice n α) (t : Fin n) :
    Origin (trace ++ [(step c.val s i).2]) t ((step c.val s i).1.pc t) := by
  by_cases ht : t = i.thread
  · subst ht
    have ho := h i.thread
    simp only [step]
    cases hpc : s.pc i.thread with
    | idle => simp [Origin]
    | loadCursor op => simp [Origin]
    | loadSequence op pos => dsimp only; split_ifs <;> simp [Origin]
    | compareExchange op pos =>
        dsimp only
        split_ifs
        · cases op <;> simp [Op.claimed, Origin]
        · simp [Origin]
    | write v pos =>
        rw [hpc] at ho
        simpa [Origin] using ho
    | publish v pos => simp [Origin]
    | read pos =>
        rw [hpc] at ho
        simpa [Origin] using ho
    | release v pos => simp [Origin]
  · rw [step_pc_of_ne ht]
    exact (h t).grows _

theorem History.start (c : Capacity) : History c [] (new n α) where
  base _ _ := le_refl _
  origin _ := trivial
  enqueued _ _ _ h := absurd h List.not_mem_nil
  dequeued _ _ _ h := absurd h List.not_mem_nil

theorem History.preserve (hi : History c trace s) (h : Protocol c trace s) (i : Choice n α) :
    History c (trace ++ [(step c.val s i).2]) (step c.val s i).1 := by
  have mono := sequence_mono h i
  refine ⟨fun j hj => (hi.base j hj).trans (mono j), origin_preserve hi.origin i, ?_, ?_⟩
  · intro t p v hmem
    rcases List.mem_append.mp hmem with hold | hnew
    · exact (hi.enqueued t p v hold).trans (mono _)
    · exact (step_enqueued (List.mem_singleton.mp hnew).symm).2.ge
  · intro t p v hmem
    rcases List.mem_append.mp hmem with hold | hnew
    · obtain ⟨hseq, hclaim, w, hw, hl⟩ := hi.dequeued t p v hold
      exact ⟨hseq.trans (mono _), List.mem_append_left _ hclaim, w, hw, log_grows hl _⟩
    · obtain ⟨hpc, hseq⟩ := step_dequeued (List.mem_singleton.mp hnew).symm
      have hh := h.holds t
      have ho := hi.origin t
      rw [hpc] at hh ho
      obtain ⟨-, -, -, w, hw, hl⟩ := hh
      exact ⟨hseq.ge, List.mem_append_left _ ho, w, hw, log_grows hl _⟩

theorem mem_producers {t : Fin n} {p : Nat} {v : α} :
    .claimed t (.enqueue v) p ∈ trace ↔ (t, p, v) ∈ trace.filterMap producerClaim := by
  rw [List.mem_filterMap]
  constructor
  · exact fun h => ⟨_, h, rfl⟩
  · rintro ⟨e, he, hc⟩
    cases e with
    | claimed u op q => cases op <;> cases hc; exact he
    | _ => cases hc

theorem mem_consumers {t : Fin n} {p : Nat} :
    .claimed t .dequeue p ∈ trace ↔ (t, p) ∈ trace.filterMap consumerClaim := by
  rw [List.mem_filterMap]
  constructor
  · exact fun h => ⟨_, h, rfl⟩
  · rintro ⟨e, he, hc⟩
    cases e with
    | claimed u op q => cases op <;> cases hc; exact he
    | _ => cases hc

/-- No position is claimed twice for an enqueue. -/
theorem Protocol.producer_unique (h : Protocol c trace s) {t u : Fin n} {p : Nat} {v w : α}
    (ht : .claimed t (.enqueue v) p ∈ trace) (hu : .claimed u (.enqueue w) p ∈ trace) :
    u = t ∧ w = v := by
  have heq := List.inj_on_of_nodup_map (h.producers ▸ List.nodup_range) (mem_producers.mp hu)
    (mem_producers.mp ht) rfl
  cases heq
  exact ⟨rfl, rfl⟩

theorem Protocol.consumer_unique (h : Protocol c trace s) {t u : Fin n} {p : Nat}
    (ht : .claimed t .dequeue p ∈ trace) (hu : .claimed u .dequeue p ∈ trace) : u = t := by
  have heq := List.inj_on_of_nodup_map (h.consumers ▸ List.nodup_range) (mem_consumers.mp hu)
    (mem_consumers.mp ht) rfl
  cases heq
  rfl

/-- Entry `p` of the log is what the claim of position `p` brought. -/
theorem Protocol.log_claimed (h : Protocol c trace s) {p : Nat} {w : α}
    (hw : (log trace)[p]? = some w) : ∃ u, .claimed u (.enqueue w) p ∈ trace := by
  rw [log, List.getElem?_map, Option.map_eq_some_iff] at hw
  obtain ⟨⟨u, q, v⟩, hx, rfl⟩ := hw
  have hq := congrArg (·[p]?) h.producers
  simp only [List.getElem?_map, hx, Option.map_some] at hq
  obtain ⟨hlt, hget⟩ := List.getElem?_eq_some_iff.mp hq.symm
  rw [List.getElem_range] at hget
  subst hget
  exact ⟨u, mem_producers.mpr (List.mem_of_getElem? hx)⟩

theorem Protocol.claimed_of_lt (h : Protocol c trace s) {p : Nat} (hp : p < s.mem.enqueuePos) :
    ∃ u w, .claimed u (.enqueue w) p ∈ trace := by
  have hlen : p < (log trace).length := h.log_length ▸ hp
  obtain ⟨u, hu⟩ := h.log_claimed (List.getElem?_eq_getElem hlen)
  exact ⟨u, _, hu⟩

/-- `Full` at `pos`: the value one lap below has been claimed and not yet handed out. -/
theorem refused_enqueue (h : Protocol c trace s) (hi : History c trace s) {t : Fin n} {v : α} {pos : Nat}
    (hpc : s.pc t = .loadSequence (.enqueue v) pos) (hseq : s.mem.sequence (slot c.val pos) < pos) :
    c.val ≤ pos ∧ (∃ u w, .claimed u (.enqueue w) (pos - c.val) ∈ trace) ∧
      ∀ u w, .dequeued u (pos - c.val) w ∉ trace := by
  have hle : c.val ≤ pos := by
    by_contra hlt
    have hs : slot c.val pos = pos := by rw [slot_eq_mod]; exact Nat.mod_eq_of_lt (by omega)
    have hb := hi.base pos (by omega)
    rw [hs] at hseq
    omega
  have hcur : pos ≤ s.mem.enqueuePos := by
    have hh := h.holds t
    rw [hpc] at hh
    exact hh
  have hpos := c.pos
  have hlap : slot c.val (pos - c.val) = slot c.val pos := by
    rw [← slot_add c, Nat.sub_add_cancel hle]
  refine ⟨hle, h.claimed_of_lt (by omega), ?_⟩
  intro u w hmem
  have hd := (hi.dequeued u _ w hmem).1
  rw [hlap] at hd
  omega

end Consequences

/-- The three invariants of a run, together. -/
structure Sound (c : Capacity) (trace : List (Event n α)) (s : State n α) : Prop where
  protocol : Protocol c trace s
  conserved : Conserved c trace s
  history : History c trace s

theorem run_sound (c : Capacity) (sched : List (Choice n α)) :
    Sound c (run (step c.val) (new n α) sched).2 (run (step c.val) (new n α) sched).1 :=
  run_invariant (P := Sound c) ⟨.start c, .start c, .start c⟩
    (fun _ _ i h => ⟨h.protocol.preserve i, h.conserved.preserve h.protocol i,
      h.history.preserve h.protocol i⟩) sched

/-- Whatever the schedule did so far, and whatever step comes next: a slot is written when
empty and read when full, by the thread that claimed the position; nothing is lost or
duplicated; position `p` out is position `p` in; and a refusal names a value that is really
still there, or really not there yet. -/
theorem queue_safe (c : Capacity) (sched : List (Choice n α)) :
    let s := (run (step c.val) (new n α) sched).1
    let trace := (run (step c.val) (new n α) sched).2
    (∀ i t pos v, (step c.val s i).2 = .wrote t pos v →
      s.mem.data (slot c.val pos) = none ∧ .claimed t (.enqueue v) pos ∈ trace ∧
        ∀ u w, .claimed u (.enqueue w) pos ∈ trace → u = t ∧ w = v) ∧
    (∀ i t pos v, (step c.val s i).2 = .read t pos v →
      (∃ w, v = some w ∧ s.mem.data (slot c.val pos) = some w) ∧ .claimed t .dequeue pos ∈ trace ∧
        ∀ u, .claimed u .dequeue pos ∈ trace → u = t) ∧
    returned trace + stored c.val s.mem + hands s = ↑(log trace) ∧
    (trace.filterMap producerClaim).map (·.2.1) = List.range s.mem.enqueuePos ∧
    (trace.filterMap consumerClaim).map (·.2) = List.range s.mem.dequeuePos ∧
    (∀ t pos v, .dequeued t pos v ∈ trace → .claimed t .dequeue pos ∈ trace ∧
      ∃ u w, v = some w ∧ .claimed u (.enqueue w) pos ∈ trace) ∧
    (∀ i t v pos, (step c.val s i).2 = .refused t (.enqueue v) pos →
      c.val ≤ pos ∧ (∃ u w, .claimed u (.enqueue w) (pos - c.val) ∈ trace) ∧
        ∀ u w, .dequeued u (pos - c.val) w ∉ trace) ∧
    (∀ i t pos, (step c.val s i).2 = .refused t .dequeue pos → ∀ u v, .enqueued u pos v ∉ trace) := by
  intro s trace
  obtain ⟨h, hc, hi⟩ : Sound c trace s := run_sound c sched
  refine ⟨?_, ?_, hc, h.producers, h.consumers, ?_, ?_, ?_⟩
  · intro i t pos v he
    have hpc := step_wrote he
    have hh := h.holds t
    have ho := hi.origin t
    rw [hpc] at hh ho
    exact ⟨hh.2.2.1, ho, fun u w hu => h.producer_unique ho hu⟩
  · intro i t pos v he
    obtain ⟨hpc, rfl⟩ := step_read he
    have hh := h.holds t
    have ho := hi.origin t
    rw [hpc] at hh ho
    obtain ⟨-, -, w, hw, -⟩ := hh
    exact ⟨⟨w, hw, hw⟩, ho, fun u hu => h.consumer_unique ho hu⟩
  · intro t pos v hmem
    obtain ⟨-, hclaim, w, rfl, hl⟩ := hi.dequeued t pos v hmem
    obtain ⟨u, hu⟩ := h.log_claimed hl
    exact ⟨hclaim, u, w, rfl, hu⟩
  · intro i t v pos he
    obtain ⟨hpc, hseq⟩ := step_refused he
    exact refused_enqueue h hi hpc hseq
  · intro i t pos he u v hmem
    obtain ⟨-, hseq⟩ := step_refused he
    have hd := hi.enqueued u pos v hmem
    simp only [Op.ready, FILLED] at hseq
    omega

end Kallisto.Queue
