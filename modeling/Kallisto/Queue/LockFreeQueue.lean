import Kallisto.Lib.Runs
import Mathlib.Data.Fintype.Basic

/-!
The bounded queue of `kallisto_queue`, one atomic access at a time. `enqueue` and
`dequeue` share the loop of `claim`; a thread is a program counter between two of its
atomic accesses, and the schedule says which thread moves and whether a weak
compare-exchange fails for no reason. Positions are unbounded here.
-/
namespace Kallisto.Queue

/-- `sequence - pos` of a slot a producer holding `pos` may fill. -/
def EMPTY : Nat := 0
/-- `sequence - pos` of a slot a consumer holding `pos` may read. -/
def FILLED : Nat := 1

inductive Op (α : Type) where
  | enqueue (value : α)
  | dequeue
  deriving DecidableEq, Repr

/-- The `ready` argument the two callers pass to `claim`. -/
def Op.ready {α : Type} : Op α → Nat
  | .enqueue _ => EMPTY
  | .dequeue => FILLED

/-- What a thread does next. The first three are the loop of `claim`; `write` and
`publish` finish an `enqueue`, `read` and `release` finish a `dequeue`. -/
inductive Pc (α : Type) where
  | idle
  | loadCursor (op : Op α)
  | loadSequence (op : Op α) (pos : Nat)
  | compareExchange (op : Op α) (pos : Nat)
  | write (value : α) (pos : Nat)
  | publish (value : α) (pos : Nat)
  | read (pos : Nat)
  | release (value : Option α) (pos : Nat)
  deriving DecidableEq, Repr

/-- The shared memory. A slot's `data` is `none` while it holds no live value: before the
first write, and again once `assume_init_read` moved the value out. -/
structure Memory (α : Type) where
  enqueuePos : Nat
  dequeuePos : Nat
  sequence : Nat → Nat
  data : Nat → Option α

structure State (n : Nat) (α : Type) where
  mem : Memory α
  pc : Fin n → Pc α

def new (n : Nat) (α : Type) : State n α where
  mem := { enqueuePos := 0, dequeuePos := 0, sequence := fun pos => pos + EMPTY, data := fun _ => none }
  pc := fun _ => .idle

/-- `pos & mask`. -/
def slot (capacity pos : Nat) : Nat := pos &&& (capacity - 1)

def Memory.cursor {α : Type} (m : Memory α) : Op α → Nat
  | .enqueue _ => m.enqueuePos
  | .dequeue => m.dequeuePos

def Memory.advance {α : Type} (m : Memory α) : Op α → Memory α
  | .enqueue _ => { m with enqueuePos := m.enqueuePos + 1 }
  | .dequeue => { m with dequeuePos := m.dequeuePos + 1 }

def Memory.setData {α : Type} (m : Memory α) (i : Nat) (v : Option α) : Memory α :=
  { m with data := Function.update m.data i v }

def Memory.setSequence {α : Type} (m : Memory α) (i seq : Nat) : Memory α :=
  { m with sequence := Function.update m.sequence i seq }

/-- What an observer of the run sees. `refused` is `claim` returning `None`, which is
`Full` for an enqueue and `Empty` for a dequeue; `enqueued` and `dequeued` are the
successful returns, at the sequence store that ends the call. -/
inductive Event (n : Nat) (α : Type) where
  | invoked (t : Fin n) (op : Op α)
  | retried (t : Fin n)
  | refused (t : Fin n) (op : Op α) (pos : Nat)
  | claimed (t : Fin n) (op : Op α) (pos : Nat)
  | wrote (t : Fin n) (pos : Nat) (value : α)
  | read (t : Fin n) (pos : Nat) (value : Option α)
  | enqueued (t : Fin n) (pos : Nat) (value : α)
  | dequeued (t : Fin n) (pos : Nat) (value : Option α)
  deriving DecidableEq, Repr

/-- The environment's part of a step: which thread moves, the call an idle thread starts,
and whether its compare-exchange fails spuriously. -/
structure Choice (n : Nat) (α : Type) where
  thread : Fin n
  op : Op α
  spurious : Bool

/-- Where a thread goes once its compare-exchange has given it `pos`. -/
def Op.claimed {α : Type} : Op α → Nat → Pc α
  | .enqueue v, pos => .write v pos
  | .dequeue, pos => .read pos

variable {n : Nat} {α : Type}

def State.goto (s : State n α) (t : Fin n) (pc : Pc α) : State n α :=
  { s with pc := Function.update s.pc t pc }

@[simp] theorem State.goto_mem (s : State n α) (t : Fin n) (pc : Pc α) :
    (s.goto t pc).mem = s.mem := rfl

@[simp] theorem State.goto_pc_self (s : State n α) (t : Fin n) (pc : Pc α) :
    (s.goto t pc).pc t = pc := Function.update_self ..

theorem State.goto_pc_of_ne (s : State n α) {t u : Fin n} (h : u ≠ t) (pc : Pc α) :
    (s.goto t pc).pc u = s.pc u := Function.update_of_ne h ..

def step (capacity : Nat) (s : State n α) (c : Choice n α) : State n α × Event n α :=
  let t := c.thread
  match s.pc t with
  | .idle => (s.goto t (.loadCursor c.op), .invoked t c.op)
  | .loadCursor op => (s.goto t (.loadSequence op (s.mem.cursor op)), .retried t)
  | .loadSequence op pos =>
      let lag : Int := (s.mem.sequence (slot capacity pos) : Int) - ((pos + op.ready : Nat) : Int)
      if lag < 0 then (s.goto t .idle, .refused t op pos)
      else if 0 < lag then (s.goto t (.loadCursor op), .retried t)
      else (s.goto t (.compareExchange op pos), .retried t)
  | .compareExchange op pos =>
      if s.mem.cursor op = pos ∧ c.spurious = false then
        ({ s.goto t (op.claimed pos) with mem := s.mem.advance op }, .claimed t op pos)
      else (s.goto t (.loadSequence op (s.mem.cursor op)), .retried t)
  | .write v pos =>
      ({ s.goto t (.publish v pos) with mem := s.mem.setData (slot capacity pos) (some v) },
        .wrote t pos v)
  | .publish v pos =>
      ({ s.goto t .idle with mem := s.mem.setSequence (slot capacity pos) (pos + FILLED) },
        .enqueued t pos v)
  | .read pos =>
      let v := s.mem.data (slot capacity pos)
      ({ s.goto t (.release v pos) with mem := s.mem.setData (slot capacity pos) none }, .read t pos v)
  | .release v pos =>
      ({ s.goto t .idle with mem := s.mem.setSequence (slot capacity pos) (pos + capacity) },
        .dequeued t pos v)

end Kallisto.Queue
