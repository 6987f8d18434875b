import Kallisto.Configuration.Resolve
import Kallisto.Event.CpuPlan
import Kallisto.Lib.Lines
import Kallisto.Telemetry.LineFormat
import Mathlib.Data.Bool.AllAny

/-!
From the files of the kernel to the CPU each worker runs on. The affinity mask is a list of
ranges in a line of text; what is read of it is the mask, so that who shares a core or a CPU
with whom is a matter of remainders.
-/
namespace Kallisto.Event
open Lib Kallisto.Configuration Kallisto.Server

/-- `fs::read_to_string`, by path. -/
abbrev Files := Text → Option Text

def STATUS : Text := "/proc/self/status".toList
def SYSFS : Text := "/sys/devices/system/cpu".toList
def ALLOWED : Text := "Cpus_allowed_list:".toList

def parseUsize (text : Text) : Option Nat := (parseU64 text).map UInt64.toNat

def parsePart (part : Text) : List Nat :=
  match splitOnce '-' part with
  | some (low, high) =>
      match parseUsize (trim low), parseUsize (trim high) with
      | some low, some high => List.range' low (high + 1 - low)
      | _, _ => []
  | none => (parseUsize (trim part)).toList

def parseCpuList (list : Text) : List Nat := (((trim list).splitOn ',').filter (· ≠ [])).flatMap parsePart

def readUsize (files : Files) (path : Text) : Option Nat := (files path).bind fun text => parseUsize (trim text)

/-- A CPU of which nothing can be read is a core of its own. -/
def coreOf (files : Files) (sysfs : Text) (cpu : Nat) : Nat × Nat :=
  let directory := "cpu".toList ++ decimal cpu ++ "/topology/".toList
  let package := readUsize files (join sysfs (directory ++ "physical_package_id".toList))
  match readUsize files (join sysfs (directory ++ "core_id".toList)) with
  | some core => (package.getD 0, core)
  | none => (2 ^ 64 - 1, cpu)

def allowedLine (text : Text) : Option (List Nat) :=
  (lines text).findSome? fun line => (stripPrefix ALLOWED line).map parseCpuList

def Topology.read (files : Files) (status sysfs : Text) : Topology :=
  let allowed := ((files status).bind allowedLine).getD []
  ⟨allowed.map fun cpu => (cpu, coreOf files sysfs cpu)⟩

def Topology.ofThisProcess (files : Files) : Topology := Topology.read files STATUS SYSFS

/-- `spec.cpus`, taken as given; `none` where an index would panic. -/
def planFrom (workers : Nat) (cpus : List Nat) : Option (List Nat) :=
  if cpus.isEmpty then some [] else (List.range workers).mapM fun worker => cpus[worker % cpus.length]?

def workerCpus (files : Files) (cfg : Config) : Option (List Nat) :=
  match cfg.cpus with
  | some cpus => planFrom cfg.workers.toNat (cpus.map UInt64.toNat)
  | none => plan cfg.workers.toNat (Topology.ofThisProcess files)

/-- The CPUs a process may run on. -/
structure CpuMask where
  cpus : List Nat
  ascending : cpus.Pairwise (· < ·)
  small : ∀ cpu ∈ cpus, cpu < 2 ^ 64

/-- The runs of consecutive numbers, each by its first and last. -/
def runsOf : List Nat → List (Nat × Nat)
  | [] => []
  | n :: ns =>
      match runsOf ns with
      | [] => [(n, n)]
      | (first, last) :: rest => if n + 1 = first then (n, last) :: rest else (n, n) :: (first, last) :: rest

def runText (run : Nat × Nat) : Text :=
  if run.1 = run.2 then decimal run.1 else decimal run.1 ++ '-' :: decimal run.2

/-- The mask as the kernel writes it. -/
def CpuMask.text (mask : CpuMask) : Text := [','].intercalate ((runsOf mask.cpus).map runText)

/-- The status file of a process with this mask. -/
def Reports (files : Files) (mask : CpuMask) : Prop := ∃ (before : List Text) (after : Text),
  files STATUS = some (before.flatMap (· ++ ['\n']) ++ (ALLOWED ++ '\t' :: mask.text ++ '\n' :: after)) ∧
  ∀ line ∈ before, '\n' ∉ line ∧ ¬ ALLOWED <+: line

section Ranges

def runNumbers (run : Nat × Nat) : List Nat := List.range' run.1 (run.2 + 1 - run.1)

theorem runsOf_le (ns : List Nat) : ∀ run ∈ runsOf ns, run.1 ≤ run.2 := by
  induction ns with
  | nil => simp [runsOf]
  | cons n ns ih =>
      intro run hrun
      unfold runsOf at hrun
      split at hrun
      · rw [List.mem_singleton.mp hrun]
      · rename_i first last rest heq
        rw [heq] at ih
        have hfirst : first ≤ last := ih (first, last) List.mem_cons_self
        split_ifs at hrun with hnext
        · rcases List.mem_cons.mp hrun with rfl | hrest
          · change n ≤ last
            omega
          · exact ih run (List.mem_cons_of_mem _ hrest)
        · rcases List.mem_cons.mp hrun with rfl | hrest
          · exact le_refl n
          · exact ih run hrest

theorem runNumbers_single (n : Nat) : runNumbers (n, n) = [n] := by
  rw [runNumbers, Nat.add_sub_cancel_left]
  rfl

theorem runNumbers_cons {n last : Nat} (h : n + 1 ≤ last) : runNumbers (n, last) = n :: runNumbers (n + 1, last) := by
  have hlen : last + 1 - n = (last + 1 - (n + 1)) + 1 := by omega
  rw [runNumbers, runNumbers, hlen, List.range'_succ]

/-- The runs hold the numbers they are the runs of. -/
theorem runsOf_numbers (ns : List Nat) : (runsOf ns).flatMap runNumbers = ns := by
  induction ns with
  | nil => rfl
  | cons n ns ih =>
      have hle := runsOf_le ns
      unfold runsOf
      split
      · rename_i heq
        rw [heq] at ih
        rw [← ih, List.flatMap_cons, runNumbers_single]
        rfl
      · rename_i first last rest heq
        rw [heq] at ih hle
        have hfirst : first ≤ last := hle (first, last) List.mem_cons_self
        split_ifs with hnext
        · subst hnext
          rw [← ih, List.flatMap_cons, List.flatMap_cons, runNumbers_cons hfirst, List.cons_append]
        · rw [← ih, List.flatMap_cons, runNumbers_single, List.singleton_append]

theorem runsOf_mem {ns : List Nat} {run : Nat × Nat} (h : run ∈ runsOf ns) : run.1 ∈ ns ∧ run.2 ∈ ns := by
  have hle := runsOf_le ns run h
  have hmem : ∀ n, run.1 ≤ n → n ≤ run.2 → n ∈ ns := by
    intro n hlow hhigh
    rw [← runsOf_numbers ns]
    refine List.mem_flatMap.mpr ⟨run, h, ?_⟩
    rw [runNumbers, List.mem_range'_1]
    omega
  exact ⟨hmem _ (le_refl _) hle, hmem _ hle (le_refl _)⟩

end Ranges

section Reading
variable {files : Files} {mask : CpuMask}

theorem parseUsize_decimal {n : Nat} (h : n < 2 ^ 64) : parseUsize (decimal n) = some n := by
  rw [parseUsize, Telemetry.parseU64_decimal h, Option.map_some, UInt64.toNat_ofNat_of_lt' h]

/-- What the kernel writes the numbers with is neither a blank nor a mark of the format. -/
theorem digit_plain {c : Char} (h : c.isDigit = true) : isWhitespace c = false ∧ c ≠ '-' ∧ c ≠ ',' := by
  have hrange : 48 ≤ c.toNat ∧ c.toNat ≤ 57 := by
    simpa [Char.isDigit, UInt32.le_iff_toNat_le] using h
  refine ⟨?_, ?_, ?_⟩
  · simp only [isWhitespace, Bool.or_eq_false_iff, Bool.and_eq_false_iff, decide_eq_false_iff_not, beq_eq_false_iff_ne]
    omega
  all_goals
    rintro rfl
    revert hrange
    decide

theorem decimal_plain (n : Nat) : ∀ c ∈ decimal n, isWhitespace c = false ∧ c ≠ '-' ∧ c ≠ ',' :=
  fun c hc => digit_plain (Json.decimal_all_digits n c hc)

theorem trim_decimal (n : Nat) : trim (decimal n) = decimal n :=
  trim_of_no_whitespace fun c hc => (decimal_plain n c hc).1

theorem dash_not_mem_decimal (n : Nat) : '-' ∉ decimal n := fun h => (decimal_plain n _ h).2.1 rfl

theorem parsePart_run {run : Nat × Nat} (hle : run.1 ≤ run.2) (hsmall : run.2 < 2 ^ 64) :
    parsePart (runText run) = runNumbers run := by
  obtain ⟨first, last⟩ := run
  unfold parsePart runText
  split_ifs with heq
  · obtain rfl : first = last := heq
    simp only [splitOnce_of_not_mem (dash_not_mem_decimal first), trim_decimal, parseUsize_decimal hsmall,
      Option.toList_some, runNumbers_single]
  · simp only [splitOnce_append (dash_not_mem_decimal first), trim_decimal, parseUsize_decimal hsmall,
      parseUsize_decimal (Nat.lt_of_le_of_lt hle hsmall)]
    rfl

theorem runText_plain (run : Nat × Nat) :
    runText run ≠ [] ∧ ∀ c ∈ runText run, isWhitespace c = false ∧ c ≠ ',' := by
  have hdash : isWhitespace '-' = false ∧ '-' ≠ ',' := by decide
  unfold runText
  split_ifs
  · refine ⟨Nat.toDigits_ne_nil, ?_⟩
    intro c hc
    exact ⟨(decimal_plain _ c hc).1, (decimal_plain _ c hc).2.2⟩
  · refine ⟨by simp, ?_⟩
    intro c hc
    rw [List.mem_append, List.mem_cons] at hc
    rcases hc with hc | rfl | hc
    · exact ⟨(decimal_plain _ c hc).1, (decimal_plain _ c hc).2.2⟩
    · exact hdash
    · exact ⟨(decimal_plain _ c hc).1, (decimal_plain _ c hc).2.2⟩

theorem CpuMask.text_plain (mask : CpuMask) : ∀ c ∈ mask.text, isWhitespace c = false := by
  intro c hc
  by_contra hblank
  have hcomma : c ≠ ',' := by
    rintro rfl
    exact hblank (by decide)
  refine not_mem_intercalate hcomma ?_ hc
  intro piece hpiece hmem
  obtain ⟨run, -, rfl⟩ := List.mem_map.mp hpiece
  exact hblank ((runText_plain run).2 c hmem).1

theorem parseCpuList_text (mask : CpuMask) : parseCpuList ('\t' :: mask.text) = mask.cpus := by
  have htrim : trim ('\t' :: mask.text) = mask.text := by
    have hskip : ('\t' :: mask.text).dropWhile isWhitespace = mask.text.dropWhile isWhitespace :=
      List.dropWhile_cons_of_pos (by decide)
    rw [trim, hskip]
    exact trim_of_no_whitespace mask.text_plain
  have hruns : ∀ run ∈ runsOf mask.cpus, parsePart (runText run) = runNumbers run := fun run hrun =>
    parsePart_run (runsOf_le _ run hrun) (mask.small _ (runsOf_mem hrun).2)
  have hpieces : ((mask.text.splitOn ',').filter (· ≠ [])) = (runsOf mask.cpus).map runText := by
    by_cases hempty : runsOf mask.cpus = []
    · rw [CpuMask.text, hempty]
      rfl
    · rw [CpuMask.text, List.splitOn_intercalate ',' ?_ (by simpa using hempty), List.filter_eq_self]
      · intro piece hpiece
        obtain ⟨run, -, rfl⟩ := List.mem_map.mp hpiece
        exact decide_eq_true (runText_plain run).1
      · intro piece hpiece hcomma
        obtain ⟨run, -, rfl⟩ := List.mem_map.mp hpiece
        exact ((runText_plain run).2 _ hcomma).2 rfl
  rw [parseCpuList, htrim, hpieces, List.flatMap_map, List.flatMap_congr hruns, runsOf_numbers]

/-- The lines before the one that matters are read past. -/
theorem allowedLine_skips {before : List Text} (h : ∀ line ∈ before, '\n' ∉ line ∧ ¬ ALLOWED <+: line)
    (rest : Text) : allowedLine (before.flatMap (· ++ ['\n']) ++ rest) = allowedLine rest := by
  induction before with
  | nil => rfl
  | cons line before ih =>
      obtain ⟨hline, hother⟩ := h line List.mem_cons_self
      have hskip : stripPrefix ALLOWED (stripCr line) = none := by
        rw [← Option.not_isSome_iff_eq_none, stripPrefix_isSome]
        exact fun hlabel => hother (hlabel.trans (stripCr_shorter line))
      rw [List.flatMap_cons, List.append_assoc, List.append_assoc, List.singleton_append, allowedLine,
        lines_cons_strip hline, List.findSome?_cons, hskip]
      exact ih fun l hl => h l (List.mem_cons_of_mem _ hl)

theorem read_reported (h : Reports files mask) :
    Topology.ofThisProcess files = ⟨mask.cpus.map fun cpu => (cpu, coreOf files SYSFS cpu)⟩ := by
  obtain ⟨before, after, hfile, hbefore⟩ := h
  have hfree : ∀ x ∈ ALLOWED ++ '\t' :: mask.text, x ≠ '\n' ∧ x ≠ '\r' := by
    have hlabel : ∀ x ∈ ALLOWED, x ≠ '\n' ∧ x ≠ '\r' := List.all_iff_forall_prop.mp (by decide)
    have htab : '\t' ≠ '\n' ∧ '\t' ≠ '\r' := by decide
    intro x hx
    rcases List.mem_append.mp hx with hx | hx
    · exact hlabel x hx
    · rcases List.mem_cons.mp hx with rfl | hx
      · exact htab
      · have hplain := mask.text_plain x hx
        constructor <;>
          rintro rfl <;>
          exact absurd hplain (by decide)
  have hallowed : allowedLine (ALLOWED ++ '\t' :: mask.text ++ '\n' :: after) = some mask.cpus := by
    rw [allowedLine, lines_cons (fun hn => (hfree _ hn).1 rfl) (fun hr => (hfree _ hr).2 rfl), List.findSome?_cons,
      stripPrefix_append, Option.map_some, parseCpuList_text]
  simp only [Topology.ofThisProcess, Topology.read, hfile, Option.bind_some, allowedLine_skips hbefore, hallowed,
    Option.getD_some]

end Reading

section Sharing
variable {files : Files} {mask : CpuMask}

def physicalCore (files : Files) (cpu : Nat) : Nat × Nat := coreOf files SYSFS cpu

/-- How many physical cores the allowed CPUs are of. -/
def coreCount (files : Files) (mask : CpuMask) : Nat := (mask.cpus.map (physicalCore files)).dedup.length

/-- How many of the allowed CPUs are of one physical core. -/
def threadCount (files : Files) (mask : CpuMask) (core : Nat × Nat) : Nat :=
  mask.cpus.countP fun cpu => physicalCore files cpu = core

/-- The topology that is read from what the kernel reports. -/
def reported (files : Files) (mask : CpuMask) : Topology := ⟨mask.cpus.map fun cpu => (cpu, physicalCore files cpu)⟩

theorem reported_distinct : (reported files mask).Distinct := by
  have hfirst : (reported files mask).cpus.map Prod.fst = mask.cpus := by
    rw [reported, List.map_map]
    exact List.map_id _
  rw [Topology.Distinct, hfirst]
  exact mask.ascending.imp fun hlt => hlt.ne

theorem mem_reported {cpu : Nat} {core : Nat × Nat} :
    (cpu, core) ∈ (reported files mask).cpus ↔ cpu ∈ mask.cpus ∧ physicalCore files cpu = core := by
  simp only [reported, List.mem_map, Prod.mk.injEq]
  constructor
  · rintro ⟨other, hmem, rfl, rfl⟩
    exact ⟨hmem, rfl⟩
  · rintro ⟨hmem, rfl⟩
    exact ⟨cpu, hmem, rfl, rfl⟩

theorem reported_cores : (reported files mask).cpus.map Prod.snd = mask.cpus.map (physicalCore files) := by
  rw [reported, List.map_map]
  rfl

theorem group_length (core : Nat × Nat) :
    ((reported files mask).group core).length = threadCount files mask core := by
  rw [Topology.group, List.length_map, ← List.countP_eq_length_filter, reported, List.countP_map, threadCount]
  rfl

theorem order_length {ks : List (Nat × Nat)} (o : Order (reported files mask) ks) :
    ks.length = coreCount files mask := by
  have hperm : ks.Perm (mask.cpus.map (physicalCore files)).dedup := by
    rw [List.perm_ext_iff_of_nodup o.nodup (List.nodup_dedup _)]
    intro core
    rw [List.mem_dedup, o.mem, reported_cores]
  exact hperm.length_eq

theorem planFrom_eq (workers : Nat) (cpus : List Nat) : ∃ pins, planFrom workers cpus = some pins ∧
    ∀ worker < workers, pins[worker]? = cpus[worker % cpus.length]? := by
  unfold planFrom
  split_ifs with hempty
  · refine ⟨[], rfl, ?_⟩
    intro worker _
    rw [List.isEmpty_iff.mp hempty]
    rfl
  · have hpos : 0 < cpus.length := List.length_pos_iff.mpr fun hnil => hempty (List.isEmpty_iff.mpr hnil)
    have hentry : ∀ worker, cpus[worker % cpus.length]? = some (cpus.getD (worker % cpus.length) 0) := by
      intro worker
      have hlt := Nat.mod_lt worker hpos
      rw [List.getElem?_eq_getElem hlt, List.getD_eq_getElem _ _ hlt]
    refine ⟨(List.range workers).map fun worker => cpus.getD (worker % cpus.length) 0, ?_, ?_⟩
    · simp only [hentry]
      exact List.mapM_pure ..
    · intro worker hworker
      rw [List.getElem?_map, List.getElem?_range hworker, Option.map_some, hentry]

variable {ks : List (Nat × Nat)}

theorem pin_core (o : Order (reported files mask) ks) (worker : Nat) :
    ∃ hi : worker % ks.length < ks.length, pin (reported files mask) ks worker ∈ mask.cpus ∧
      physicalCore files (pin (reported files mask) ks worker) = ks[worker % ks.length] := by
  have hi := Nat.mod_lt worker o.length_pos
  exact ⟨hi, mem_reported.mp ((pin_on_core o worker hi).mpr rfl)⟩

/-- Two workers share a core exactly where their numbers agree modulo the number of cores. -/
theorem share_core (o : Order (reported files mask) ks) (w w' : Nat) :
    physicalCore files (pin (reported files mask) ks w) = physicalCore files (pin (reported files mask) ks w') ↔
      w % ks.length = w' % ks.length := by
  obtain ⟨hi, -, hcore⟩ := pin_core o w
  obtain ⟨hi', -, hcore'⟩ := pin_core o w'
  rw [hcore, hcore', o.nodup.getElem_inj_iff]

/-- And a CPU exactly where they agree modulo that number times the CPUs of the core. -/
theorem share_cpu (o : Order (reported files mask) ks) (w w' : Nat) :
    pin (reported files mask) ks w = pin (reported files mask) ks w' ↔
      w % (ks.length * threadCount files mask (physicalCore files (pin (reported files mask) ks w))) =
        w' % (ks.length * threadCount files mask (physicalCore files (pin (reported files mask) ks w))) := by
  obtain ⟨hi, -, hcore⟩ := pin_core o w
  have hs := Nat.mod_lt (w / ks.length) (o.group_length_pos hi)
  have hself := (pin_on_cpu o w hi hs).mpr ⟨rfl, rfl⟩
  have hseat := (seat_iff (l := ((reported files mask).group ks[w % ks.length]).length) w hi).mp ⟨rfl, rfl⟩
  rw [hcore, ← group_length, hseat, eq_comm]
  conv_lhs => rw [hself]
  rw [pin_on_cpu o w' hi hs, seat_iff w' hi, eq_comm]

/-- The core of CPU 0 is the last of every round. -/
theorem on_core_zero (o : Order (reported files mask) ks)
    (hlast : ∀ core, (0, core) ∈ (reported files mask).cpus → ks.getLast? = some core) (hzero : 0 ∈ mask.cpus)
    (w : Nat) : physicalCore files (pin (reported files mask) ks w) = physicalCore files 0 ↔
      w % ks.length = ks.length - 1 := by
  obtain ⟨hi, -, hcore⟩ := pin_core o w
  have hpos := o.length_pos
  have hend : ks[ks.length - 1] = physicalCore files 0 := by
    have hget := hlast _ (mem_reported.mpr ⟨hzero, rfl⟩)
    rw [List.getLast?_eq_getElem?, List.getElem?_eq_getElem (by omega)] at hget
    exact Option.some.inj hget
  rw [hcore, ← hend, o.nodup.getElem_inj_iff]

/-- The workers are pinned as the operator says, in turn; or, where nothing is said, to the CPUs of
the mask, so that who shares a core or a CPU with whom is known from the numbers of the workers. -/
theorem workers_pinned (reports : Reports files mask) (cfg : Config) : ∃ pins, workerCpus files cfg = some pins ∧
    (∀ cpus, cfg.cpus = some cpus → ∀ w < cfg.workers.toNat,
      pins[w]? = (cpus[w % cpus.length]?).map UInt64.toNat) ∧
    (cfg.cpus = none → mask.cpus = [] → pins = []) ∧
    (cfg.cpus = none → mask.cpus ≠ [] → pins.length = cfg.workers.toNat ∧
      ∀ w cpu, pins[w]? = some cpu → cpu ∈ mask.cpus ∧
        (∀ w' cpu', pins[w']? = some cpu' →
          (physicalCore files cpu = physicalCore files cpu' ↔
            w % coreCount files mask = w' % coreCount files mask) ∧
          (cpu = cpu' ↔
            w % (coreCount files mask * threadCount files mask (physicalCore files cpu)) =
              w' % (coreCount files mask * threadCount files mask (physicalCore files cpu)))) ∧
        (0 ∈ mask.cpus → (physicalCore files cpu = physicalCore files 0 ↔
          w % coreCount files mask = coreCount files mask - 1))) := by
  cases hcpus : cfg.cpus with
  | some cpus =>
      obtain ⟨pins, hplan, hpins⟩ := planFrom_eq cfg.workers.toNat (cpus.map UInt64.toNat)
      refine ⟨pins, by rw [workerCpus, hcpus]; exact hplan, ?_, by simp, by simp⟩
      intro cpus' hsame w hw
      obtain rfl := Option.some.inj hsame
      rw [hpins w hw, List.length_map, List.getElem?_map]
  | none =>
      have hrun : workerCpus files cfg = plan cfg.workers.toNat (reported files mask) := by
        rw [workerCpus, hcpus]
        exact congrArg (plan cfg.workers.toNat) (read_reported reports)
      obtain ⟨ks, hnodup, hmem, hcores, hlast⟩ := cores_eq (t := reported files mask) reported_distinct
      by_cases hempty : mask.cpus = []
      · have hks : ks = [] := by
          apply List.eq_nil_iff_forall_not_mem.mpr
          intro core hcore
          rw [hmem, reported_cores, hempty] at hcore
          exact List.not_mem_nil hcore
        refine ⟨[], ?_, by simp, fun _ _ => rfl, fun _ hne => absurd hempty hne⟩
        rw [hrun, plan, hcores, hks]
        rfl
      · have hne : ks ≠ [] := by
          obtain ⟨cpu, hcpu⟩ := List.exists_mem_of_ne_nil _ hempty
          refine List.ne_nil_of_mem ((hmem (physicalCore files cpu)).mpr ?_)
          rw [reported_cores]
          exact List.mem_map_of_mem hcpu
        have o : Order (reported files mask) ks := ⟨reported_distinct, hnodup, hmem, hne⟩
        have hpin : ∀ {w cpu}, ((List.range cfg.workers.toNat).map (pin (reported files mask) ks))[w]? = some cpu →
            cpu = pin (reported files mask) ks w := by
          intro w cpu h
          rw [List.getElem?_map, Option.map_eq_some_iff] at h
          obtain ⟨w', hw', rfl⟩ := h
          obtain ⟨-, rfl⟩ := List.getElem?_eq_some_iff.mp hw'
          rw [List.getElem_range]
        refine ⟨_, hrun.trans (plan_eq o hcores _), by simp, fun _ hnil => absurd hnil hempty, ?_⟩
        refine fun _ _ => ⟨by simp, ?_⟩
        intro w cpu hw
        obtain rfl := hpin hw
        obtain ⟨-, hallowed, -⟩ := pin_core o w
        rw [← order_length o]
        refine ⟨hallowed, ?_, fun hzero => on_core_zero o hlast hzero w⟩
        intro w' cpu' hw'
        obtain rfl := hpin hw'
        exact ⟨share_core o w w', share_cpu o w w'⟩

end Sharing

def sampleMask : CpuMask := ⟨[0, 1, 2, 4, 5], by decide, by decide⟩

def topologyFile (cpu : Nat) (name text : String) : Text × Text :=
  (join SYSFS ("cpu".toList ++ decimal cpu ++ "/topology/".toList ++ name.toList), text.toList)

/-- Siblings numbered apart, and a CPU whose package cannot be read. -/
def sampleFiles : Files := fun path =>
  List.lookup path
    [(STATUS, "Name:\tkallisto\nCpus_allowed:\t37\nCpus_allowed_list:\t0-2,4-5\nMems_allowed_list:\t0\n".toList),
      topologyFile 0 "core_id" "0\n", topologyFile 0 "physical_package_id" "0\n",
      topologyFile 1 "core_id" "1\n", topologyFile 1 "physical_package_id" "0\n",
      topologyFile 2 "core_id" "2\n",
      topologyFile 4 "core_id" "0\n", topologyFile 4 "physical_package_id" "0\n",
      topologyFile 5 "core_id" "1\n", topologyFile 5 "physical_package_id" "0\n"]

theorem sample_reports : Reports sampleFiles sampleMask := by
  refine ⟨["Name:\tkallisto".toList, "Cpus_allowed:\t37".toList], "Mems_allowed_list:\t0\n".toList, ?_, ?_⟩
  · decide +kernel
  · decide +kernel

theorem workers_pinned_sample :
    workerCpus sampleFiles { minimalConfig 5 with workers := 8 } = some [1, 2, 0, 5, 2, 4, 1, 2] ∧
    (physicalCore sampleFiles 1 = physicalCore sampleFiles 5 ↔ 0 % 3 = 3 % 3) ∧ ((1 : Nat) = 5 ↔ 0 % 6 = 3 % 6) := by
  have hplan : workerCpus sampleFiles { minimalConfig 5 with workers := 8 } = some [1, 2, 0, 5, 2, 4, 1, 2] := by
    decide +kernel
  obtain ⟨pins, hpins, -, -, hshared⟩ := workers_pinned sample_reports { minimalConfig 5 with workers := 8 }
  obtain rfl := Option.some.inj (hplan.symm.trans hpins)
  have hcount : coreCount sampleFiles sampleMask = 3 := by decide +kernel
  have hthreads : threadCount sampleFiles sampleMask (physicalCore sampleFiles 1) = 2 := by decide +kernel
  obtain ⟨-, hother, -⟩ := (hshared rfl (by decide)).2 0 1 rfl
  have hpair := hother 3 5 rfl
  rw [hcount, hthreads] at hpair
  exact ⟨hplan, hpair⟩

end Kallisto.Event
