import Kallisto.Lib.RoundRobin
import Kallisto.Lib.SortedMap
import Mathlib.Data.List.GetD
import Mathlib.Data.List.Perm.Basic
import Mathlib.Data.List.Sort
import Mathlib.Data.Prod.Lex

/-!
Which logical CPU each worker is pinned to: one worker for each physical core before any core
takes a second, and the core that owns CPU 0 last. Grouping, sorting and moving a group only
reorder the cores, so the plan is two nested round robins over some order of them.
-/
namespace Kallisto.Event
open Lib

/-- Each logical CPU with its package and core. -/
structure Topology where
  cpus : List (Nat × Nat × Nat)
  deriving DecidableEq

def Topology.byCore (t : Topology) : SortedMap (Nat ×ₗ Nat) (List Nat) :=
  t.cpus.foldl (fun m e => m.insert (toLex e.2) ((m.get (toLex e.2)).getD [] ++ [e.1])) .empty

/-- The group that holds CPU 0 goes last, unless it is the only one. -/
def cpuZeroLast (cores : List (List Nat)) : List (List Nat) :=
  if cores.length > 1 then
    match cores.findIdx? fun group => group.contains 0 with
    | some first => cores.eraseIdx first ++ cores[first]?.toList
    | none => cores
  else cores

def Topology.cores (t : Topology) : List (List Nat) :=
  let cores := t.byCore.entries.map Prod.snd
  -- No group is empty, so the first CPU is always there to sort by.
  let cores := cores.insertionSort fun a b => a.headD 0 ≤ b.headD 0
  cpuZeroLast cores

/-- One CPU for each worker; `none` where an index would panic. -/
def plan (workers : Nat) (t : Topology) : Option (List Nat) :=
  let cores := t.cores
  if cores.isEmpty then some []
  else (List.range workers).mapM fun worker => do
    let core ← cores[worker % cores.length]?
    core[worker / cores.length % core.length]?

/-- No logical CPU is listed twice. -/
def Topology.Distinct (t : Topology) : Prop := (t.cpus.map Prod.fst).Nodup

instance (t : Topology) : Decidable t.Distinct := inferInstanceAs (Decidable (List.Nodup _))

/-- The CPUs of one physical core. -/
def Topology.group (t : Topology) (core : Nat × Nat) : List Nat := (t.cpus.filter fun e => e.2 = core).map Prod.fst

/-- How many of the pins are on a physical core. -/
def workersOn (t : Topology) (core : Nat × Nat) (pins : List Nat) : Nat :=
  pins.countP fun cpu => (cpu, core) ∈ t.cpus

section Groups
variable {t : Topology}

theorem mem_group {core : Nat × Nat} {cpu : Nat} : cpu ∈ t.group core ↔ (cpu, core) ∈ t.cpus := by
  simp [Topology.group]

theorem group_nodup (h : t.Distinct) (core : Nat × Nat) : (t.group core).Nodup :=
  h.sublist (List.filter_sublist.map Prod.fst)

/-- A CPU belongs to one core. -/
theorem core_unique (h : t.Distinct) {cpu : Nat} {core core' : Nat × Nat} (hc : (cpu, core) ∈ t.cpus)
    (hc' : (cpu, core') ∈ t.cpus) : core = core' :=
  (Prod.mk.inj (List.inj_on_of_nodup_map h hc hc' rfl)).2

theorem group_eq_nil {core : Nat × Nat} (h : core ∉ t.cpus.map Prod.snd) : t.group core = [] := by
  rw [List.eq_nil_iff_forall_not_mem]
  intro cpu hcpu
  exact h (List.mem_map.mpr ⟨_, mem_group.mp hcpu, rfl⟩)

theorem group_snoc (cpus : List (Nat × Nat × Nat)) (e : Nat × Nat × Nat) (core : Nat × Nat) :
    (Topology.mk (cpus ++ [e])).group core =
      (Topology.mk cpus).group core ++ if e.2 = core then [e.1] else [] := by
  simp only [Topology.group, List.filter_append, List.map_append, List.filter_singleton, Bool.cond_decide]
  split_ifs <;> rfl

/-- The map holds every core with its CPUs, in the order of the list. -/
theorem byCore_get (t : Topology) (core : Nat × Nat) :
    t.byCore.get (toLex core) = if core ∈ t.cpus.map Prod.snd then some (t.group core) else none := by
  obtain ⟨cpus⟩ := t
  induction cpus using List.reverseRecOn generalizing core with
  | nil => rfl
  | append_singleton cpus e ih =>
      have hfold : (Topology.mk (cpus ++ [e])).byCore = (Topology.mk cpus).byCore.insert (toLex e.2)
          (((Topology.mk cpus).byCore.get (toLex e.2)).getD [] ++ [e.1]) := by
        rw [Topology.byCore, List.foldl_append]
        rfl
      have hmem : core ∈ (cpus ++ [e]).map Prod.snd ↔ core ∈ cpus.map Prod.snd ∨ core = e.2 := by
        rw [List.map_append, List.mem_append, List.map_singleton, List.mem_singleton]
      rw [hfold, group_snoc]
      by_cases he : core = e.2
      · subst he
        rw [SortedMap.get_insert_self, ih, if_pos (hmem.mpr (.inr rfl)), if_pos rfl]
        by_cases hold : e.2 ∈ cpus.map Prod.snd
        · rw [if_pos hold, Option.getD_some]
        · rw [if_neg hold, Option.getD_none, group_eq_nil hold]
      · rw [SortedMap.get_insert_of_ne _ (fun h => he (toLex.injective h)), ih, if_neg (Ne.symm he),
          List.append_nil]
        by_cases hold : core ∈ cpus.map Prod.snd
        · rw [if_pos hold, if_pos (hmem.mpr (.inl hold))]
        · rw [if_neg hold, if_neg fun h => (hmem.mp h).elim hold he]

theorem byCore_entry {e : (Nat ×ₗ Nat) × List Nat} (h : e ∈ t.byCore.entries) :
    ofLex e.1 ∈ t.cpus.map Prod.snd ∧ e.2 = t.group (ofLex e.1) := by
  have hget : t.byCore.get (toLex (ofLex e.1)) = some e.2 := SortedMap.get_eq_some.mpr h
  rw [byCore_get] at hget
  split_ifs at hget with hmem
  exact ⟨hmem, (Option.some.inj hget).symm⟩

/-- The cores of the map, each once. -/
theorem byCore_values (t : Topology) : ∃ ks : List (Nat × Nat), ks.Nodup ∧
    (∀ core, core ∈ ks ↔ core ∈ t.cpus.map Prod.snd) ∧ t.byCore.entries.map Prod.snd = ks.map t.group := by
  refine ⟨t.byCore.entries.map fun e => ofLex e.1, ?_, fun core => ⟨?_, ?_⟩, ?_⟩
  · have hsorted := t.byCore.keys_sorted
    rw [SortedMap.keys, List.pairwise_map] at hsorted
    rw [List.Nodup, List.pairwise_map]
    exact hsorted.imp fun hlt heq => absurd (ofLex.injective heq) hlt.ne
  · intro h
    obtain ⟨e, he, rfl⟩ := List.mem_map.mp h
    exact (byCore_entry he).1
  · intro h
    have hget := byCore_get t core
    rw [if_pos h] at hget
    exact List.mem_map.mpr ⟨_, SortedMap.get_eq_some.mp hget, rfl⟩
  · rw [List.map_map]
    exact List.map_congr_left fun e he => (byCore_entry he).2

theorem cpuZeroLast_perm (cores : List (List Nat)) : (cpuZeroLast cores).Perm cores := by
  unfold cpuZeroLast
  split_ifs with hlen
  · cases hfind : cores.findIdx? fun group => group.contains 0 with
    | none => exact .refl _
    | some first =>
        obtain ⟨hfirst, -, -⟩ := List.findIdx?_eq_some_iff_getElem.mp hfind
        simp only [List.getElem?_eq_getElem hfirst, Option.toList_some]
        exact List.perm_append_comm.trans (List.getElem_cons_eraseIdx_perm hfirst)
  · exact .refl _

theorem cpuZeroLast_last {cores : List (List Nat)} {group : List Nat} (hmem : group ∈ cores) (hzero : 0 ∈ group) :
    ∃ last ∈ (cpuZeroLast cores).getLast?, 0 ∈ last := by
  unfold cpuZeroLast
  split_ifs with hlen
  · cases hfind : cores.findIdx? fun group => group.contains 0 with
    | none =>
        have hnone := List.findIdx?_eq_none_iff.mp hfind group hmem
        exact absurd (List.contains_iff_mem.mpr hzero) (by rw [hnone]; decide)
    | some first =>
        obtain ⟨hfirst, hcontains, -⟩ := List.findIdx?_eq_some_iff_getElem.mp hfind
        simp only [List.getElem?_eq_getElem hfirst, Option.toList_some, List.getLast?_concat]
        exact ⟨_, rfl, List.contains_iff_mem.mp hcontains⟩
  · match cores, hmem, hlen with
    | [only], hmem, _ =>
        exact ⟨only, rfl, List.mem_singleton.mp hmem ▸ hzero⟩
    | _ :: _ :: _, _, hlen => exact absurd (by simp) hlen

/-- The cores are the physical cores in some order, each once, the one that owns CPU 0 last. -/
theorem cores_eq (h : t.Distinct) : ∃ ks : List (Nat × Nat), ks.Nodup ∧
    (∀ core, core ∈ ks ↔ core ∈ t.cpus.map Prod.snd) ∧ t.cores = ks.map t.group ∧
    ∀ core, (0, core) ∈ t.cpus → ks.getLast? = some core := by
  obtain ⟨ks, hnodup, hmem, hvalues⟩ := byCore_values t
  have hperm : t.cores.Perm (ks.map t.group) := by
    rw [← hvalues]
    exact (cpuZeroLast_perm _).trans (List.perm_insertionSort _ _)
  obtain ⟨ks', heq, hks⟩ := (congrFun (congrFun (List.eq_map_comp_perm t.group) t.cores) ks).mpr hperm
  refine ⟨ks', hks.nodup_iff.mpr hnodup, fun core => hks.mem_iff.trans (hmem core), heq, fun core hcore => ?_⟩
  have hgroup : t.group core ∈ (t.byCore.entries.map Prod.snd).insertionSort fun a b => a.headD 0 ≤ b.headD 0 := by
    rw [List.mem_insertionSort, hvalues]
    exact List.mem_map_of_mem ((hmem core).mpr (List.mem_map_of_mem hcore))
  obtain ⟨last, hlast, hzero⟩ := cpuZeroLast_last hgroup (mem_group.mpr hcore)
  change last ∈ t.cores.getLast? at hlast
  rw [heq, List.getLast?_map, Option.mem_def, Option.map_eq_some_iff] at hlast
  obtain ⟨k, hk, rfl⟩ := hlast
  rw [hk, core_unique h (mem_group.mp hzero) hcore]

end Groups

section Pins
variable {t : Topology} {ks : List (Nat × Nat)}

/-- The CPU of a worker, for the cores in the order `ks`. -/
def pin (t : Topology) (ks : List (Nat × Nat)) (worker : Nat) : Nat :=
  let core := t.group (ks.getD (worker % ks.length) (0, 0))
  core.getD (worker / ks.length % core.length) 0

/-- An order of the physical cores, as the plan goes round them. -/
structure Order (t : Topology) (ks : List (Nat × Nat)) : Prop where
  distinct : t.Distinct
  nodup : ks.Nodup
  mem : ∀ core, core ∈ ks ↔ core ∈ t.cpus.map Prod.snd
  ne_nil : ks ≠ []

theorem Order.length_pos (o : Order t ks) : 0 < ks.length := List.length_pos_of_ne_nil o.ne_nil

theorem Order.group_length_pos (o : Order t ks) {i : Nat} (hi : i < ks.length) : 0 < (t.group ks[i]).length := by
  obtain ⟨⟨cpu, core⟩, he, hcore⟩ := List.mem_map.mp ((o.mem ks[i]).mp (List.getElem_mem hi))
  have hmem : (cpu, ks[i]) ∈ t.cpus := by
    rw [← hcore]
    exact he
  exact List.length_pos_of_mem (mem_group.mpr hmem)

theorem pin_eq (worker : Nat) (hi : worker % ks.length < ks.length)
    (hs : worker / ks.length % (t.group ks[worker % ks.length]).length < (t.group ks[worker % ks.length]).length) :
    pin t ks worker =
      (t.group ks[worker % ks.length])[worker / ks.length % (t.group ks[worker % ks.length]).length] := by
  rw [pin, List.getD_eq_getElem _ _ hi, List.getD_eq_getElem _ _ hs]

theorem plan_eq (o : Order t ks) (hcores : t.cores = ks.map t.group) (n : Nat) :
    plan n t = some ((List.range n).map (pin t ks)) := by
  have hne : t.cores.isEmpty = false := by
    rw [hcores, List.isEmpty_map, List.isEmpty_eq_false_iff]
    exact o.ne_nil
  have hpin : ∀ worker, (do
      let core ← t.cores[worker % t.cores.length]?
      core[worker / t.cores.length % core.length]?) = some (pin t ks worker) := by
    intro worker
    have hi : worker % ks.length < ks.length := Nat.mod_lt _ o.length_pos
    have hs := Nat.mod_lt (worker / ks.length) (o.group_length_pos hi)
    rw [hcores, List.length_map, List.getElem?_map, List.getElem?_eq_getElem hi, Option.map_some,
      Option.bind_eq_bind, Option.bind_some, List.getElem?_eq_getElem hs, pin_eq worker hi hs]
  simp only [plan, hne, hpin]
  exact List.mapM_pure ..

/-- A worker is on the core its number gives modulo the number of cores. -/
theorem pin_on_core (o : Order t ks) (worker : Nat) {i : Nat} (hi : i < ks.length) :
    (pin t ks worker, ks[i]) ∈ t.cpus ↔ worker % ks.length = i := by
  have hw : worker % ks.length < ks.length := Nat.mod_lt _ o.length_pos
  have hs := Nat.mod_lt (worker / ks.length) (o.group_length_pos hw)
  have hpin : (pin t ks worker, ks[worker % ks.length]) ∈ t.cpus := by
    rw [← mem_group, pin_eq worker hw hs]
    exact List.getElem_mem hs
  constructor
  · intro h
    exact (o.nodup.getElem_inj_iff).mp (core_unique o.distinct hpin h)
  · rintro rfl
    exact hpin

/-- A worker is on the CPU its round gives modulo the CPUs of its core. -/
theorem pin_on_cpu (o : Order t ks) (worker : Nat) {i s : Nat} (hi : i < ks.length)
    (hs : s < (t.group ks[i]).length) : pin t ks worker = (t.group ks[i])[s] ↔
      worker % ks.length = i ∧ worker / ks.length % (t.group ks[i]).length = s := by
  have hw : worker % ks.length < ks.length := Nat.mod_lt _ o.length_pos
  have hw' := Nat.mod_lt (worker / ks.length) (o.group_length_pos hw)
  constructor
  · intro h
    have hcore : (pin t ks worker, ks[i]) ∈ t.cpus := by
      rw [← mem_group, h]
      exact List.getElem_mem hs
    obtain rfl := (pin_on_core o worker hi).mp hcore
    rw [pin_eq worker hw hw'] at h
    exact ⟨rfl, ((group_nodup o.distinct _).getElem_inj_iff).mp h⟩
  · rintro ⟨rfl, rfl⟩
    exact pin_eq worker hw hw'

theorem workersOn_pins (o : Order t ks) (n : Nat) {i : Nat} (hi : i < ks.length) :
    workersOn t ks[i] ((List.range n).map (pin t ks)) = turns n ks.length i := by
  rw [workersOn, List.countP_map, turns]
  congr 1
  funext worker
  rw [Function.comp_apply, Bool.eq_iff_iff, decide_eq_true_iff, beq_iff_eq, pin_on_core o worker hi]

theorem count_pins (o : Order t ks) (n : Nat) {i s : Nat} (hi : i < ks.length) (hs : s < (t.group ks[i]).length) :
    ((List.range n).map (pin t ks)).count (t.group ks[i])[s] =
      turns n (ks.length * (t.group ks[i]).length) (i + ks.length * s) := by
  rw [List.count, List.countP_map, turns]
  congr 1
  funext worker
  rw [Function.comp_apply, Bool.eq_iff_iff, beq_iff_eq, beq_iff_eq, pin_on_cpu o worker hi hs, seat_iff worker hi]

end Pins

/-- The plan names allowed CPUs only, keeps the cores within one worker of each other and the CPUs
of a core within one, and gives the core of CPU 0 a worker only once every other core is ahead. -/
theorem plan_fair {t : Topology} (h : t.Distinct) (n : Nat) :
    ∃ pins, plan n t = some pins ∧ (t.cpus = [] → pins = []) ∧
      (t.cpus ≠ [] → pins.length = n ∧ ∀ cpu ∈ pins, cpu ∈ t.cpus.map Prod.fst) ∧
      (∀ a ∈ t.cpus.map Prod.snd, ∀ b ∈ t.cpus.map Prod.snd, workersOn t a pins ≤ workersOn t b pins + 1) ∧
      (∀ zero, (0, zero) ∈ t.cpus → ∀ other ∈ t.cpus.map Prod.snd, other ≠ zero →
        ∀ m, ∀ cpu ∈ pins[m]?, (cpu, zero) ∈ t.cpus →
          workersOn t zero (pins.take m) < workersOn t other (pins.take m)) ∧
      ∀ core cpu cpu', (cpu, core) ∈ t.cpus → (cpu', core) ∈ t.cpus → pins.count cpu ≤ pins.count cpu' + 1 := by
  obtain ⟨ks, hnodup, hmem, hcores, hlast⟩ := cores_eq h
  by_cases hempty : t.cpus = []
  · have hplan : plan n t = some [] := by
      have hks : ks = [] := List.eq_nil_iff_forall_not_mem.mpr fun core hc => by
        rw [hmem, hempty] at hc
        exact List.not_mem_nil hc
      simp only [plan, hcores, hks, List.map_nil, List.isEmpty_nil, if_true]
    refine ⟨[], hplan, fun _ => rfl, fun hne => absurd hempty hne, ?_, ?_, ?_⟩ <;> simp [hempty]
  · have hne : ks ≠ [] := by
      obtain ⟨e, he⟩ := List.exists_mem_of_ne_nil _ hempty
      exact List.ne_nil_of_mem ((hmem e.2).mpr (List.mem_map_of_mem he))
    have o : Order t ks := ⟨h, hnodup, hmem, hne⟩
    have hindex : ∀ core ∈ t.cpus.map Prod.snd, ∃ i, ∃ hi : i < ks.length, ks[i] = core := fun core hc =>
      List.mem_iff_getElem.mp ((hmem core).mpr hc)
    refine ⟨_, plan_eq o hcores n, fun hnil => absurd hnil hempty, fun _ => ⟨by simp, ?_⟩, ?_, ?_, ?_⟩
    · intro cpu hcpu
      obtain ⟨worker, -, rfl⟩ := List.mem_map.mp hcpu
      have hw : worker % ks.length < ks.length := Nat.mod_lt _ o.length_pos
      exact List.mem_map.mpr ⟨_, (pin_on_core o worker hw).mpr rfl, rfl⟩
    · intro a ha b hb
      obtain ⟨i, hi, rfl⟩ := hindex a ha
      obtain ⟨j, hj, rfl⟩ := hindex b hb
      rw [workersOn_pins o n hi, workersOn_pins o n hj]
      exact turns_le_succ n hi hj
    · intro zero hzero other hother hdiff m cpu hcpu hon
      obtain ⟨i, hi, rfl⟩ := hindex other hother
      have hpos := o.length_pos
      have hz : ks[ks.length - 1] = zero := by
        have hl := hlast zero hzero
        rw [List.getLast?_eq_getElem?, List.getElem?_eq_getElem (by omega)] at hl
        exact Option.some.inj hl
      subst hz
      have hi' : i < ks.length - 1 := by
        rcases Nat.lt_or_ge i (ks.length - 1) with hlt | hge
        · exact hlt
        · obtain rfl : i = ks.length - 1 := by omega
          exact absurd rfl hdiff
      rw [List.getElem?_map, Option.mem_def, Option.map_eq_some_iff] at hcpu
      obtain ⟨w, hw, rfl⟩ := hcpu
      obtain ⟨hm, rfl⟩ := List.getElem?_eq_some_iff.mp hw
      rw [List.getElem_range] at hon
      rw [List.length_range] at hm
      have hturn := (pin_on_core o m (by omega)).mp hon
      rw [← List.map_take, List.take_range, min_eq_left hm.le, workersOn_pins o m (by omega), workersOn_pins o m hi]
      exact turns_last hturn hi'
    · intro core cpu cpu' hcpu hcpu'
      obtain ⟨i, hi, rfl⟩ := hindex core (List.mem_map_of_mem hcpu)
      obtain ⟨s, hs, rfl⟩ := List.mem_iff_getElem.mp (mem_group.mpr hcpu)
      obtain ⟨s', hs', rfl⟩ := List.mem_iff_getElem.mp (mem_group.mpr hcpu')
      rw [count_pins o n hi hs, count_pins o n hi hs']
      exact turns_le_succ n (seat_lt hi hs) (seat_lt hi hs')

/-- Siblings numbered apart, as one vendor does it, and a core with a single CPU. -/
def sampleTopology : Topology := ⟨[(0, 0, 0), (1, 0, 1), (2, 0, 2), (4, 0, 0), (5, 0, 1)]⟩

theorem plan_fair_sample : plan 8 sampleTopology = some [1, 2, 0, 5, 2, 4, 1, 2] ∧
    ∃ pins, plan 8 sampleTopology = some pins ∧ pins.length = 8 ∧
      workersOn sampleTopology (0, 2) pins ≤ workersOn sampleTopology (0, 0) pins + 1 := by
  refine ⟨by decide +kernel, ?_⟩
  obtain ⟨pins, hplan, -, hlength, hcores, -, -⟩ := plan_fair (t := sampleTopology) (by decide) 8
  exact ⟨pins, hplan, (hlength (by decide)).1, hcores _ (by decide) _ (by decide)⟩

end Kallisto.Event
