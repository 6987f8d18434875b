import Kallisto.Lib.Runs
import Kallisto.Telemetry.Redact
import Mathlib.Data.Fintype.Basic

/-!
The access log: producers that number a line, put it into the queue or count it as dropped, and
one writer that drains the queue into a batch and the batch into the sink. An entry of the queue
is claimed and then published; a claim is where the line takes its place. Time enters as a
choice: whether the writer has waited long enough.
-/
namespace Kallisto.Telemetry
open Lib

structure Record where
  method : Text
  action : Text
  path : Id
  token : Id
  status : UInt16
  enforced : Bool
  deriving DecidableEq, Repr

/-- What a line was rendered from. -/
structure Line where
  nowMillis : UInt64
  sequence : UInt64
  worker : Nat
  record : Record
  deriving DecidableEq, Repr

def LINE_CAPACITY : Nat := 192

/-- `Writer::str`: as much as there is room for. -/
def pushStr (bytes text : Bytes) : Bytes := bytes ++ text.take (LINE_CAPACITY - bytes.length)

namespace Line

def fields (l : Line) : List Bytes :=
  [utf8 "ts=".toList, utf8 (decimal l.nowMillis.toNat), utf8 " seq=".toList, utf8 (decimal l.sequence.toNat),
    utf8 " worker=".toList, utf8 (decimal l.worker), utf8 " method=".toList, utf8 l.record.method,
    utf8 " action=".toList, utf8 l.record.action, utf8 " path=".toList, l.record.path.octets,
    utf8 " token=".toList, l.record.token.octets, utf8 " status=".toList, utf8 (decimal l.record.status.toNat),
    utf8 " authz=".toList, utf8 (if l.record.enforced then "on".toList else "off".toList)]

def render (l : Line) : Bytes := l.fields.foldl pushStr []

/-- `as_str`: nothing, where the cut fell inside a character. -/
def asStr (l : Line) : Bytes := if (fromUtf8 l.render).isSome then l.render else []

/-- The buffer keeps the front of what is written into it. -/
theorem foldl_pushStr (fields : List Bytes) (bytes : Bytes) (h : bytes.length ≤ LINE_CAPACITY) :
    fields.foldl pushStr bytes = (bytes ++ fields.flatten).take LINE_CAPACITY := by
  induction fields generalizing bytes with
  | nil => rw [List.foldl_nil, List.flatten_nil, List.append_nil, List.take_of_length_le h]
  | cons field fields ih =>
      have hroom : (pushStr bytes field).length ≤ LINE_CAPACITY := by
        rw [pushStr, List.length_append, List.length_take]
        omega
      rw [List.foldl_cons, ih _ hroom, List.flatten_cons]
      unfold pushStr
      rcases Nat.le_total field.length (LINE_CAPACITY - bytes.length) with hfit | hcut
      · rw [List.take_of_length_le hfit, List.append_assoc]
      · have hfull : (bytes ++ field.take (LINE_CAPACITY - bytes.length)).length = LINE_CAPACITY := by
          rw [List.length_append, List.length_take, min_eq_left hcut]
          omega
        rw [List.take_left' hfull, List.take_append, List.take_of_length_le h, List.take_append_of_le_length hcut]

theorem render_eq (l : Line) : l.render = l.fields.flatten.take LINE_CAPACITY :=
  foldl_pushStr l.fields [] (Nat.zero_le _)

theorem render_length (l : Line) : l.render.length ≤ LINE_CAPACITY := by
  rw [render_eq, List.length_take]
  exact min_le_left _ _

theorem asStr_length (l : Line) : l.asStr.length ≤ LINE_CAPACITY := by
  unfold asStr
  split_ifs
  · exact l.render_length
  · exact Nat.zero_le _

end Line

def BATCH_BYTES : Nat := 60000

/-- The length of the buffer that holds these lines, each with its newline. -/
def batchLen (batch : List Line) : Nat := (batch.map fun l => l.asStr.length + 1).sum

/-- An entry of the queue, and the producer that has still to publish it. -/
structure Slot (n : Nat) where
  line : Line
  pending : Option (Fin n)
  deriving DecidableEq

/-- What a producer does next: `record` up to its return. -/
inductive ProducerPc where
  | idle
  | enqueue (line : Line)
  | publish (line : Line)
  | drop (line : Line)
  | loadParked
  | unpark
  deriving DecidableEq

structure Producer where
  sequence : UInt64
  dropped : UInt64
  pc : ProducerPc
  deriving DecidableEq

/-- The two places `drain` is called from. -/
inductive Site where
  | main
  | look
  deriving DecidableEq

/-- What the writer does next. `drain` holds the length the batch had when it was called. -/
inductive WriterPc where
  | start
  | drain (site : Site) (before : Nat)
  | loadRunning
  | quiet
  | setParked
  | park
  | clearParked
  | write
  | returned
  deriving DecidableEq

inductive StopPc where
  | uncalled
  | wake
  | done
  deriving DecidableEq

structure State (n : Nat) where
  producers : Fin n → Producer
  queue : List (Slot n)
  parked : Bool
  started : Bool
  token : Bool
  running : Bool
  stopping : StopPc
  batch : List Line
  sink : List Line
  writer : WriterPc

/-- What an observer sees. `enqueued` is the claim of a place in the queue, `completed` the end
of that `enqueue`. -/
inductive Event (n : Nat) where
  | issued (p : Fin n) (line : Line)
  | enqueued (p : Fin n) (line : Line)
  | completed (p : Fin n) (line : Line)
  | dropped (p : Fin n) (line : Line)
  | stopped
  | other
  deriving DecidableEq

/-- Who moves, and what the outside has to say: the request that is recorded, or whether the
writer's clock has run out. -/
inductive Choice (n : Nat) where
  | producer (p : Fin n) (record : Record) (nowMillis : UInt64)
  | writer (timeUp : Bool)
  | stop
  deriving DecidableEq

variable {n : Nat}

def State.new (n : Nat) : State n where
  producers := fun _ => ⟨0, 0, .idle⟩
  queue := []
  parked := false
  started := false
  token := false
  running := true
  stopping := .uncalled
  batch := []
  sink := []
  writer := .start

namespace State
variable (s : State n)

def set (p : Fin n) (producer : Producer) : State n := { s with producers := Function.update s.producers p producer }

def goto (p : Fin n) (pc : ProducerPc) : State n := s.set p { s.producers p with pc }

/-- The number is taken and the line is made of it. -/
def issue (p : Fin n) (line : Line) : State n :=
  s.set p { s.producers p with sequence := (s.producers p).sequence + 1, pc := .enqueue line }

def claim (p : Fin n) (line : Line) : State n :=
  { s.goto p (.publish line) with queue := s.queue ++ [⟨line, some p⟩] }

def publish (p : Fin n) : State n :=
  { s.goto p .loadParked with
    queue := s.queue.map fun slot => if slot.pending = some p then { slot with pending := none } else slot }

def drop (p : Fin n) : State n :=
  s.set p { s.producers p with dropped := (s.producers p).dropped + 1, pc := .idle }

/-- `wake`: nobody to unpark before the writer has made itself known. -/
def wake : State n := { s with token := s.token || s.started }

end State

/-- Where the writer goes once `drain` has told whether it found anything. -/
def Site.next : Site → Bool → WriterPc
  | .main, true => .write
  | .main, false => .loadRunning
  | .look, true => .clearParked
  | .look, false => .park

/-- The head of the loop. -/
def loopHead (batch : List Line) : WriterPc := .drain .main (batchLen batch)

section Steps
variable (capacity : Nat) (enabled : Bool) (s : State n)

def recordStep (p : Fin n) (record : Record) (nowMillis : UInt64) : State n × Event n :=
  match (s.producers p).pc with
  | .idle =>
      if enabled then
        let line : Line := ⟨nowMillis, (s.producers p).sequence, p, record⟩
        (s.issue p line, .issued p line)
      else (s, .other)
  | .enqueue line =>
      if s.queue.length < capacity then (s.claim p line, .enqueued p line) else (s.goto p (.drop line), .other)
  | .publish line => (s.publish p, .completed p line)
  | .drop line => (s.drop p, .dropped p line)
  | .loadParked => (s.goto p (if s.parked then .unpark else .idle), .other)
  | .unpark => ((s.goto p .idle).wake, .other)

/-- One turn of the loop in `drain`. A head that is not published yet counts as none. -/
def drainStep (site : Site) (before : Nat) : State n :=
  match s.queue with
  | ⟨line, none⟩ :: rest =>
      let batch := s.batch ++ [line]
      { s with
        queue := rest
        batch
        writer := if BATCH_BYTES < batchLen batch then site.next (before < batchLen batch) else .drain site before }
  | _ => { s with writer := site.next (before < batchLen s.batch) }

def writerStep (timeUp : Bool) : State n :=
  match s.writer with
  | .start => { s with started := true, writer := loopHead s.batch }
  | .drain site before => drainStep s site before
  | .loadRunning => { s with writer := if s.running then .quiet else .returned }
  | .quiet => { s with writer := if timeUp then .setParked else loopHead s.batch }
  | .setParked => { s with parked := true, writer := .drain .look (batchLen s.batch) }
  | .park =>
      if s.token then { s with token := false, writer := .clearParked }
      else { s with writer := if timeUp then .clearParked else .park }
  | .clearParked => { s with parked := false, writer := if s.batch.isEmpty then loopHead s.batch else .write }
  | .write => { s with sink := s.sink ++ s.batch, batch := [], writer := loopHead [] }
  | .returned => s

def stopStep : State n × Event n :=
  match s.stopping with
  | .uncalled => ({ s with running := false, stopping := .wake }, .stopped)
  | .wake => ({ s.wake with stopping := .done }, .other)
  | .done => (s, .other)

def step (c : Choice n) : State n × Event n :=
  match c with
  | .producer p record nowMillis => recordStep capacity enabled s p record nowMillis
  | .writer timeUp => (writerStep s timeUp, .other)
  | .stop => stopStep s

end Steps

namespace State
variable (s : State n) (p : Fin n)

@[simp] theorem set_self (producer : Producer) : (s.set p producer).producers p = producer := Function.update_self ..

theorem set_of_ne {p q : Fin n} (h : q ≠ p) (producer : Producer) :
    (s.set p producer).producers q = s.producers q := Function.update_of_ne h ..

/-- The next line the writer can take. -/
def Dequeuable : Prop := ∃ line rest, s.queue = ⟨line, none⟩ :: rest

end State

/-- Every way a state can change, with what the one who moves has found. -/
inductive Moved (capacity : Nat) (s : State n) : State n → Event n → Prop where
  | stay : Moved capacity s s .other
  | issue (p : Fin n) (line : Line) (here : (s.producers p).pc = .idle) (number : line.sequence = (s.producers p).sequence)
      (worker : line.worker = p) : Moved capacity s (s.issue p line) (.issued p line)
  | claim (p : Fin n) (line : Line) (here : (s.producers p).pc = .enqueue line) (room : s.queue.length < capacity) :
      Moved capacity s (s.claim p line) (.enqueued p line)
  | refuse (p : Fin n) (line : Line) (here : (s.producers p).pc = .enqueue line) (full : capacity ≤ s.queue.length) :
      Moved capacity s (s.goto p (.drop line)) .other
  | publish (p : Fin n) (line : Line) (here : (s.producers p).pc = .publish line) :
      Moved capacity s (s.publish p) (.completed p line)
  | drop (p : Fin n) (line : Line) (here : (s.producers p).pc = .drop line) :
      Moved capacity s (s.drop p) (.dropped p line)
  | leave (p : Fin n) (here : (s.producers p).pc = .loadParked) (unparked : s.parked = false) :
      Moved capacity s (s.goto p .idle) .other
  | notice (p : Fin n) (here : (s.producers p).pc = .loadParked) (parked : s.parked = true) :
      Moved capacity s (s.goto p .unpark) .other
  | unpark (p : Fin n) (here : (s.producers p).pc = .unpark) : Moved capacity s (s.goto p .idle).wake .other
  | start (here : s.writer = .start) : Moved capacity s { s with started := true, writer := loopHead s.batch } .other
  | dequeue (site : Site) (before : Nat) (line : Line) (rest : List (Slot n)) (here : s.writer = .drain site before)
      (head : s.queue = ⟨line, none⟩ :: rest) (next : WriterPc)
      (goes : next = .drain site before ∨ next = site.next (before < batchLen (s.batch ++ [line]))) :
      Moved capacity s { s with queue := rest, batch := s.batch ++ [line], writer := next } .other
  | empty (site : Site) (before : Nat) (here : s.writer = .drain site before) (none : ¬ s.Dequeuable) :
      Moved capacity s { s with writer := site.next (before < batchLen s.batch) } .other
  | goOn (here : s.writer = .loadRunning) (running : s.running = true) :
      Moved capacity s { s with writer := .quiet } .other
  | finish (here : s.writer = .loadRunning) (stopped : s.running = false) :
      Moved capacity s { s with writer := .returned } .other
  | lookAgain (here : s.writer = .quiet) : Moved capacity s { s with writer := loopHead s.batch } .other
  | giveUp (here : s.writer = .quiet) : Moved capacity s { s with writer := .setParked } .other
  | setParked (here : s.writer = .setParked) :
      Moved capacity s { s with parked := true, writer := .drain .look (batchLen s.batch) } .other
  | unparked (here : s.writer = .park) (token : s.token = true) :
      Moved capacity s { s with token := false, writer := .clearParked } .other
  | timedOut (here : s.writer = .park) : Moved capacity s { s with writer := .clearParked } .other
  | clearEmpty (here : s.writer = .clearParked) (nothing : s.batch = []) :
      Moved capacity s { s with parked := false, writer := loopHead s.batch } .other
  | clearFull (here : s.writer = .clearParked) (something : s.batch ≠ []) :
      Moved capacity s { s with parked := false, writer := .write } .other
  | write (here : s.writer = .write) :
      Moved capacity s { s with sink := s.sink ++ s.batch, batch := [], writer := loopHead [] } .other
  | stop (here : s.stopping = .uncalled) : Moved capacity s { s with running := false, stopping := .wake } .stopped
  | stopWakes (here : s.stopping = .wake) : Moved capacity s { s.wake with stopping := .done } .other

section Moves
variable {capacity : Nat} {enabled : Bool} {s : State n}

theorem recordStep_moved (p : Fin n) (record : Record) (nowMillis : UInt64) :
    Moved capacity s (recordStep capacity enabled s p record nowMillis).1
      (recordStep capacity enabled s p record nowMillis).2 := by
  unfold recordStep
  cases hpc : (s.producers p).pc with
  | idle =>
      cases enabled with
      | false => exact .stay
      | true => exact .issue p _ hpc rfl rfl
  | enqueue line =>
      dsimp only
      split_ifs with hroom
      · exact .claim p line hpc hroom
      · exact .refuse p line hpc (Nat.not_lt.mp hroom)
  | publish line => exact .publish p line hpc
  | drop line => exact .drop p line hpc
  | loadParked =>
      cases hparked : s.parked with
      | false => exact .leave p hpc hparked
      | true => exact .notice p hpc hparked
  | unpark => exact .unpark p hpc

theorem drainStep_moved {site : Site} {before : Nat} (h : s.writer = .drain site before) :
    Moved capacity s (drainStep s site before) .other := by
  unfold drainStep
  split
  · rename_i line rest heq
    refine .dequeue site before line rest h heq _ ?_
    split_ifs
    · exact .inr rfl
    · exact .inl rfl
  · rename_i hnot
    refine .empty site before h ?_
    rintro ⟨line, rest, heq⟩
    exact hnot line rest heq

theorem writerStep_moved (timeUp : Bool) : Moved capacity s (writerStep s timeUp) .other := by
  unfold writerStep
  cases hw : s.writer with
  | start => exact .start hw
  | drain site before => exact drainStep_moved hw
  | loadRunning =>
      dsimp only
      split_ifs with hr
      · exact .goOn hw hr
      · exact .finish hw (Bool.eq_false_iff.mpr hr)
  | quiet =>
      cases timeUp with
      | false => exact .lookAgain hw
      | true => exact .giveUp hw
  | setParked => exact .setParked hw
  | park =>
      dsimp only
      split_ifs with ht
      · exact .unparked hw ht
      · exact .timedOut hw
      · have hsame : { s with writer := .park } = s := by rw [← hw]
        rw [hsame]
        exact .stay
  | clearParked =>
      dsimp only
      split_ifs with hb
      · exact .clearEmpty hw (List.isEmpty_iff.mp hb)
      · exact .clearFull hw (fun h => hb (List.isEmpty_iff.mpr h))
  | write => exact .write hw
  | returned => exact .stay

theorem stopStep_moved : Moved capacity s (stopStep s).1 (stopStep s).2 := by
  unfold stopStep
  cases hs : s.stopping with
  | uncalled => exact .stop hs
  | wake => exact .stopWakes hs
  | done => exact .stay

theorem step_moved (c : Choice n) : Moved capacity s (step capacity enabled s c).1 (step capacity enabled s c).2 := by
  cases c with
  | producer p record nowMillis => exact recordStep_moved p record nowMillis
  | writer timeUp => exact writerStep_moved timeUp
  | stop => exact stopStep_moved

/-- What holds at the start and survives every move holds after every schedule. -/
theorem moved_invariant {P : List (Event n) → State n → Prop} (start : P [] (State.new n))
    (preserve : ∀ trace s s' e, P trace s → Moved capacity s s' e → P (trace ++ [e]) s') (schedule : List (Choice n)) :
    P (run (step capacity enabled) (State.new n) schedule).2 (run (step capacity enabled) (State.new n) schedule).1 :=
  run_invariant start (fun trace s c h => preserve trace s _ _ h (step_moved c)) schedule

end Moves

def sampleRecord : Record := ⟨"GET".toList, "data".toList, .NONE, .NONE, 200, true⟩

/-- A step of the one producer of a sample run. -/
def sampleTurn : Choice 1 := .producer 0 sampleRecord 0

end Kallisto.Telemetry
