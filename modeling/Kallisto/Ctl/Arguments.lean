import Kallisto.Configuration.Overrides
import Kallisto.Ctl.Commands
import Kallisto.Lib.Split

/-!
The command line of `kallisto-ctl`. The parser is a loop over the arguments; what it accepts is a
small language of options, each in one of two spellings, and what it returns is what the options
of that language say.
-/
namespace Kallisto.Ctl
open Lib Kallisto.Configuration

inductive ArgError where
  | noCommand
  | neverAnArgument (flag : Text)
  | requiresValue (flag : Text)
  | takesNoValue (flag : Text)
  | unexpected (argument : Text)
  deriving DecidableEq, Repr

def POLICY : Text := "--policy".toList

def TAKES_VALUE : List Text :=
  ["--in".toList, "--out".toList, "--config".toList, "--version".toList, "--to".toList, POLICY]

def KEY_FLAGS : List Text := ["--seal-key".toList, "--token-key".toList]

/-- What several policies are joined with. -/
def SEPARATOR : Char := Char.ofNat 1

/-- The local variables of the loop. -/
structure Gathered where
  values : SortedMap Text Text
  flags : List Text
  repeated : SortedMap Text (List Text)

namespace Gathered

def empty : Gathered := ⟨.empty, [], .empty⟩

def push (g : Gathered) (flag value : Text) : Gathered where
  values := g.values.insert flag value
  flags := g.flags
  repeated := g.repeated.insert flag ((g.repeated.get flag).getD [] ++ [value])

def mark (g : Gathered) (flag : Text) : Gathered := { g with flags := g.flags ++ [flag] }

end Gathered

def gather (g : Gathered) : List Text → Except ArgError Gathered
  | [] => .ok g
  | arg :: args =>
      let (flag, inline) := splitArg arg
      if KEY_FLAGS.contains flag then .error (.neverAnArgument flag)
      else if TAKES_VALUE.contains flag then
        match inline with
        | some value => gather (g.push flag value) args
        | none =>
            match args with
            | [] => .error (.requiresValue flag)
            | value :: rest => gather (g.push flag value) rest
      else if "--".toList.isPrefixOf flag then
        if inline.isSome then .error (.takesNoValue flag) else gather (g.mark flag) args
      else .error (.unexpected flag)

/-- `--policy` is the only flag that may be given more than once. -/
def Gathered.args (g : Gathered) : Args where
  values := match g.repeated.get POLICY with
    | some policies => g.values.insert POLICY ([SEPARATOR].intercalate policies)
    | none => g.values
  flags := g.flags

structure Parsed where
  command : Text
  args : Args

def Args.parse : List Text → Except ArgError Parsed
  | [] => .error .noCommand
  | command :: args => do
      let g ← gather .empty args
      return ⟨command, g.args⟩

def Args.list (args : Args) (flag : Text) : List Text :=
  match args.value flag with
  | none => []
  | some joined => joined.splitOn SEPARATOR

/-- The commands of the tool. -/
inductive Verb where
  | sealFile
  | verify
  | bumpVersion
  | validate
  | mintToken
  | genKey
  | openFile
  deriving DecidableEq, Repr

namespace Verb

def all : List Verb := [sealFile, verify, bumpVersion, validate, mintToken, genKey, openFile]

def name : Verb → Text
  | sealFile => "seal".toList
  | verify => "verify".toList
  | bumpVersion => "bump-version".toList
  | validate => "validate".toList
  | mintToken => "mint-token".toList
  | genKey => "gen-key".toList
  | openFile => "open".toList

def ofText (text : Text) : Option Verb := all.find? (·.name = text)

end Verb

/-- What `main` does before a command runs, and the code it exits with where none does. -/
inductive Dispatched where
  | usage (code : Nat)
  | refused (e : ArgError)
  | unknown (command : Text)
  | run (verb : Verb) (args : Args)

def asksForHelp (argument : Text) : Bool :=
  argument = "-h".toList || argument = "--help".toList || argument = "help".toList

def dispatch (arguments : List Text) : Dispatched :=
  if arguments.isEmpty || arguments.any asksForHelp then .usage (if arguments.isEmpty then 2 else 0)
  else
    match Args.parse arguments with
    | .error e => .refused e
    | .ok parsed =>
        match Verb.ofText parsed.command with
        | some verb => .run verb parsed.args
        | none => .unknown parsed.command

/-- An option as its author meant it, and the spelling of it. -/
inductive Given where
  | value (flag value : Text) (attached : Bool)
  | bare (flag : Text)
  deriving DecidableEq, Repr

namespace Given

def flag : Given → Text
  | .value flag .. => flag
  | .bare flag => flag

def spelling : Given → List Text
  | .value flag text true => [flag ++ '=' :: text]
  | .value flag text false => [flag, text]
  | .bare flag => [flag]

/-- A flag that takes a value has one, and any other has none; neither is a key's. -/
def WellFormed : Given → Prop
  | .value flag .. => flag ∈ TAKES_VALUE
  | .bare flag => "--".toList <+: flag ∧ '=' ∉ flag ∧ flag ∉ TAKES_VALUE ∧ flag ∉ KEY_FLAGS

def valueFor (asked : Text) : Given → Option Text
  | .value flag text _ => if flag = asked then some text else none
  | .bare _ => none

def add (g : Gathered) : Given → Gathered
  | .value flag text _ => g.push flag text
  | .bare flag => g.mark flag

end Given

/-- The values a flag was given, in order. -/
def valuesFor (flag : Text) (given : List Given) : List Text := given.filterMap (Given.valueFor flag)

def Spells (argv : List Text) (command : Text) (given : List Given) : Prop :=
  (∀ g ∈ given, g.WellFormed) ∧ argv = command :: given.flatMap Given.spelling

/-- What the options say: of several values the last, of the policies all of them, unless one
holds the character they are joined with; and whether a command knows every flag. -/
structure Means (given : List Given) (args : Args) : Prop where
  value : ∀ flag, flag ≠ POLICY → args.value flag = (valuesFor flag given).getLast?
  list : args.list POLICY = (valuesFor POLICY given).flatMap (List.splitOn SEPARATOR)
  policies : args.list POLICY = valuesFor POLICY given ↔ ∀ policy ∈ valuesFor POLICY given, SEPARATOR ∉ policy
  has : ∀ flag, args.has flag = true ↔ Given.bare flag ∈ given
  known : ∀ known, args.rejectUnknown known = .ok () ↔ ∀ g ∈ given, g.flag ∈ known

section Splitting

theorem splitArg_attached {flag : Text} (h : '=' ∉ flag) (value : Text) :
    splitArg (flag ++ '=' :: value) = (flag, some value) := by
  rw [splitArg, splitOnce_append h]

theorem splitArg_plain {arg : Text} (h : '=' ∉ arg) : splitArg arg = (arg, none) := by
  rw [splitArg, splitOnce_of_not_mem h]

/-- Whatever the argument, it is one of the two. -/
theorem splitArg_cases (arg : Text) :
    (∃ flag value, '=' ∉ flag ∧ arg = flag ++ '=' :: value ∧ splitArg arg = (flag, some value)) ∨
      ('=' ∉ arg ∧ splitArg arg = (arg, none)) := by
  rcases first_sep '=' arg with ⟨hnone, -⟩ | ⟨rest, -, harg⟩
  · exact .inr ⟨hnone, splitArg_plain hnone⟩
  · have hflag : '=' ∉ arg.takeWhile (· != '=') := by
      intro hmem
      have := List.mem_takeWhile_imp hmem
      simp at this
    refine .inl ⟨_, rest, hflag, harg, ?_⟩
    have hsplit := splitArg_attached hflag rest
    rwa [← harg] at hsplit

theorem splitArg_some {arg flag value : Text} (h : splitArg arg = (flag, some value)) : arg = flag ++ '=' :: value := by
  rcases splitArg_cases arg with ⟨flag', value', -, harg, hsplit⟩ | ⟨-, hsplit⟩
  · rw [hsplit] at h
    cases h
    exact harg
  · rw [hsplit] at h
    cases h

theorem splitArg_none {arg flag : Text} (h : splitArg arg = (flag, none)) : arg = flag ∧ '=' ∉ flag := by
  rcases splitArg_cases arg with ⟨flag', value', -, -, hsplit⟩ | ⟨hplain, hsplit⟩
  · rw [hsplit] at h
    cases h
  · rw [hsplit] at h
    cases h
    exact ⟨rfl, hplain⟩

theorem takesValue_plain : ∀ flag ∈ TAKES_VALUE, '=' ∉ flag ∧ flag ∉ KEY_FLAGS := by decide

end Splitting

section Gathering
variable {g g' : Gathered} {args : List Text}

theorem gather_value {flag : Text} (h : flag ∈ TAKES_VALUE) (text : Text) (attached : Bool) (args : List Text) :
    gather g ((Given.value flag text attached).spelling ++ args) = gather (g.push flag text) args := by
  obtain ⟨hplain, hkey⟩ := takesValue_plain flag h
  rw [← List.contains_iff_mem] at h hkey
  cases attached with
  | true =>
      rw [Given.spelling, List.singleton_append, gather, splitArg_attached hplain]
      simp only [if_neg hkey, if_pos h]
  | false =>
      rw [Given.spelling, List.cons_append, gather, splitArg_plain hplain]
      simp only [if_neg hkey, if_pos h, List.singleton_append]

theorem gather_bare {flag : Text} (h : (Given.bare flag).WellFormed) (args : List Text) :
    gather g ((Given.bare flag).spelling ++ args) = gather (g.mark flag) args := by
  obtain ⟨hdashes, hplain, hvalue, hkey⟩ := h
  rw [← List.contains_iff_mem] at hvalue hkey
  rw [Given.spelling, List.singleton_append, gather, splitArg_plain hplain]
  simp only [if_neg hkey, if_neg hvalue, if_pos (List.isPrefixOf_iff_prefix.mpr hdashes), Option.isSome_none,
    Bool.false_eq_true, if_false]

theorem gather_spelling {given : List Given} (h : ∀ x ∈ given, x.WellFormed) (rest : List Text) :
    gather g (given.flatMap Given.spelling ++ rest) = gather (given.foldl Given.add g) rest := by
  induction given generalizing g with
  | nil => rfl
  | cons x given ih =>
      obtain ⟨hx, hrest⟩ := List.forall_mem_cons.mp h
      rw [List.flatMap_cons, List.append_assoc, List.foldl_cons, ← ih hrest]
      cases x with
      | value flag text attached => exact gather_value hx text attached _
      | bare flag => exact gather_bare hx _

/-- The error holds the flag and nothing of what stands behind it. -/
theorem gather_key {flag : Text} (h : flag ∈ KEY_FLAGS) (key : Text) (attached : Bool) (rest : List Text) :
    gather g ((Given.value flag key attached).spelling ++ rest) = .error (.neverAnArgument flag) := by
  have hplain : ∀ flag ∈ KEY_FLAGS, '=' ∉ flag := by decide
  cases attached with
  | true =>
      rw [Given.spelling, List.singleton_append, gather, splitArg_attached (hplain flag h)]
      exact if_pos (List.contains_iff_mem.mpr h)
  | false =>
      rw [Given.spelling, List.cons_append, gather, splitArg_plain (hplain flag h)]
      exact if_pos (List.contains_iff_mem.mpr h)

/-- Every argument that was taken is part of an option. -/
theorem gather_ok (h : gather g args = .ok g') : ∃ given : List Given, (∀ x ∈ given, x.WellFormed) ∧
    args = given.flatMap Given.spelling ∧ g' = given.foldl Given.add g := by
  have hcons : ∀ (x : Given) (g : Gathered) (args : List Text), x.WellFormed →
      (∃ given : List Given, (∀ x ∈ given, x.WellFormed) ∧ args = given.flatMap Given.spelling ∧
        g' = given.foldl Given.add (x.add g)) →
      ∃ given : List Given, (∀ x ∈ given, x.WellFormed) ∧ x.spelling ++ args = given.flatMap Given.spelling ∧
        g' = given.foldl Given.add g := by
    rintro x g _ hx ⟨given, hgiven, rfl, hfold⟩
    exact ⟨x :: given, List.forall_mem_cons.mpr ⟨hx, hgiven⟩, rfl, hfold⟩
  fun_induction gather g args with
  | case1 g =>
      cases h
      exact ⟨[], nofun, rfl, rfl⟩
  | case2 => cases h
  | case3 g arg args flag _ hvalue text hsplit ih =>
      rw [splitArg_some hsplit]
      exact hcons (.value flag text true) g args (List.contains_iff_mem.mp hvalue) (ih h)
  | case4 => cases h
  | case5 g arg flag _ hvalue text args hsplit ih =>
      rw [(splitArg_none hsplit).1]
      exact hcons (.value flag text false) g args (List.contains_iff_mem.mp hvalue) (ih h)
  | case6 => cases h
  | case7 g arg args flag inline hsplit hkey hvalue hdashes hinline ih =>
      obtain rfl : inline = none := Option.not_isSome_iff_eq_none.mp hinline
      obtain ⟨rfl, hplain⟩ := splitArg_none hsplit
      rw [List.contains_iff_mem] at hvalue hkey
      exact hcons (.bare arg) g args ⟨List.isPrefixOf_iff_prefix.mp hdashes, hplain, hvalue, hkey⟩ (ih h)
  | case8 => cases h

end Gathering

section Meaning

theorem foldl_flags (given : List Given) (g : Gathered) (flag : Text) :
    flag ∈ (given.foldl Given.add g).flags ↔ flag ∈ g.flags ∨ Given.bare flag ∈ given := by
  induction given generalizing g with
  | nil => simp
  | cons x given ih =>
      rw [List.foldl_cons, ih]
      cases x with
      | value flag' text attached => simp [Given.add, Gathered.push]
      | bare flag' => simp [Given.add, Gathered.mark, or_assoc]

theorem valuesFor_self (flag text : Text) (attached : Bool) (given : List Given) :
    valuesFor flag (.value flag text attached :: given) = text :: valuesFor flag given :=
  List.filterMap_cons_some (if_pos rfl)

theorem valuesFor_other {flag flag' : Text} (h : flag' ≠ flag) (text : Text) (attached : Bool) (given : List Given) :
    valuesFor flag (.value flag' text attached :: given) = valuesFor flag given :=
  List.filterMap_cons_none (if_neg h)

theorem foldl_values (given : List Given) (g : Gathered) (flag : Text) :
    (given.foldl Given.add g).values.get flag = (valuesFor flag given).getLast?.or (g.values.get flag) := by
  induction given generalizing g with
  | nil => rfl
  | cons x given ih =>
      rw [List.foldl_cons, ih]
      cases x with
      | bare flag' => rfl
      | value flag' text attached =>
          by_cases hflag : flag' = flag
          · subst hflag
            rw [valuesFor_self, Given.add, Gathered.push, SortedMap.get_insert_self, List.getLast?_cons]
            cases (valuesFor flag' given).getLast? <;> rfl
          · rw [valuesFor_other hflag, Given.add, Gathered.push, SortedMap.get_insert_of_ne _ (Ne.symm hflag)]

theorem foldl_repeated (given : List Given) (g : Gathered) (flag : Text) :
    (given.foldl Given.add g).repeated.get flag =
      if valuesFor flag given = [] then g.repeated.get flag
      else some ((g.repeated.get flag).getD [] ++ valuesFor flag given) := by
  induction given generalizing g with
  | nil => rfl
  | cons x given ih =>
      rw [List.foldl_cons, ih]
      cases x with
      | bare flag' => rfl
      | value flag' text attached =>
          by_cases hflag : flag' = flag
          · subst hflag
            rw [valuesFor_self, Given.add, Gathered.push, SortedMap.get_insert_self, if_neg (List.cons_ne_nil _ _),
              Option.getD_some, List.append_assoc, List.singleton_append]
            by_cases hnil : valuesFor flag' given = []
            · rw [if_pos hnil, hnil]
            · rw [if_neg hnil]
          · rw [valuesFor_other hflag, Given.add, Gathered.push, SortedMap.get_insert_of_ne _ (Ne.symm hflag)]

theorem mem_valuesFor {flag text : Text} {given : List Given} :
    text ∈ valuesFor flag given ↔ ∃ attached, Given.value flag text attached ∈ given := by
  rw [valuesFor, List.mem_filterMap]
  constructor
  · rintro ⟨x, hx, hvalue⟩
    cases x with
    | bare flag' => cases hvalue
    | value flag' text' attached =>
        simp only [Given.valueFor] at hvalue
        split_ifs at hvalue with hflag
        cases hvalue
        exact ⟨attached, hflag ▸ hx⟩
  · rintro ⟨attached, hx⟩
    exact ⟨_, hx, if_pos rfl⟩

theorem splitOn_intercalate {texts : List Text} (h : texts ≠ []) :
    ([SEPARATOR].intercalate texts).splitOn SEPARATOR = texts.flatMap (List.splitOn SEPARATOR) := by
  induction texts with
  | nil => exact absurd rfl h
  | cons text texts ih =>
      by_cases hrest : texts = []
      · simp [hrest]
      · rw [intercalate_cons hrest, List.splitOn_append_cons_self, ih hrest, List.flatMap_cons]

/-- Splitting leaves the texts as they are only where there is nothing to split. -/
theorem flatMap_splitOn {texts : List Text} :
    texts.flatMap (List.splitOn SEPARATOR) = texts ↔ ∀ text ∈ texts, SEPARATOR ∉ text := by
  constructor
  · intro h text htext
    rw [← h] at htext
    obtain ⟨whole, -, hpiece⟩ := List.mem_flatMap.mp htext
    exact not_mem_of_mem_splitOn hpiece
  · intro h
    induction texts with
    | nil => rfl
    | cons text texts ih =>
        obtain ⟨htext, hrest⟩ := List.forall_mem_cons.mp h
        rw [List.flatMap_cons, List.splitOn_eq_singleton htext, ih hrest, List.singleton_append]

variable {given : List Given}

theorem value_gathered {flag : Text} (h : flag ≠ POLICY) :
    (given.foldl Given.add .empty).args.value flag = (valuesFor flag given).getLast? := by
  have hvalues := foldl_values given .empty flag
  rw [show Gathered.empty.values.get flag = none from rfl, Option.or_none] at hvalues
  unfold Args.value Gathered.args
  cases (given.foldl Given.add .empty).repeated.get POLICY with
  | none => exact hvalues
  | some policies =>
      dsimp only
      rw [SortedMap.get_insert_of_ne _ h, hvalues]

theorem policy_gathered : (given.foldl Given.add .empty).args.value POLICY =
    if valuesFor POLICY given = [] then none else some ([SEPARATOR].intercalate (valuesFor POLICY given)) := by
  have hrepeated := foldl_repeated given .empty POLICY
  have hvalues := foldl_values given .empty POLICY
  unfold Args.value Gathered.args
  by_cases hnil : valuesFor POLICY given = []
  · rw [if_pos hnil] at hrepeated ⊢
    rw [hrepeated]
    rw [hnil] at hvalues
    exact hvalues
  · rw [if_neg hnil] at hrepeated ⊢
    rw [hrepeated]
    exact SortedMap.get_insert_self ..

theorem mem_keys_gathered {flag : Text} :
    flag ∈ (given.foldl Given.add .empty).args.values.keys ↔ valuesFor flag given ≠ [] := by
  rw [SortedMap.mem_keys]
  change ((given.foldl Given.add .empty).args.value flag).isSome ↔ _
  by_cases hpolicy : flag = POLICY
  · subst hpolicy
    rw [policy_gathered]
    split_ifs with hnil <;> simp [hnil]
  · rw [value_gathered hpolicy, List.getLast?_isSome]

theorem mem_flags_gathered {flag : Text} :
    flag ∈ (given.foldl Given.add .empty).args.flags ↔ Given.bare flag ∈ given := by
  have hflags := foldl_flags given .empty flag
  rwa [show Gathered.empty.flags = [] from rfl, List.mem_nil_iff, false_or] at hflags

theorem rejectUnknown_ok {args : Args} {known : List Text} :
    args.rejectUnknown known = .ok () ↔ ∀ flag ∈ args.flags ++ args.values.keys, flag ∈ known := by
  have hfind : (args.flags ++ args.values.keys).find? (fun flag => flag ∉ known) = none ↔
      ∀ flag ∈ args.flags ++ args.values.keys, flag ∈ known := by
    simp only [List.find?_eq_none, decide_eq_true_eq, not_not]
  rw [← hfind, Args.rejectUnknown]
  cases (args.flags ++ args.values.keys).find? fun flag => flag ∉ known with
  | none => exact iff_of_true rfl rfl
  | some flag => exact iff_of_false nofun nofun

theorem list_gathered : (given.foldl Given.add .empty).args.list POLICY =
    (valuesFor POLICY given).flatMap (List.splitOn SEPARATOR) := by
  rw [Args.list, policy_gathered]
  by_cases hnil : valuesFor POLICY given = []
  · rw [if_pos hnil, hnil]
    rfl
  · rw [if_neg hnil]
    exact splitOn_intercalate hnil

theorem means_gathered : Means given (given.foldl Given.add .empty).args where
  value _ h := value_gathered h
  list := list_gathered
  policies := by rw [list_gathered, flatMap_splitOn]
  has flag := by
    rw [← mem_flags_gathered, Args.has, List.any_eq_true]
    simp only [decide_eq_true_eq, exists_eq_right]
  known known := by
    rw [rejectUnknown_ok]
    constructor
    · intro h x hx
      cases x with
      | bare flag => exact h flag (List.mem_append_left _ (mem_flags_gathered.mpr hx))
      | value flag text attached =>
          refine h flag (List.mem_append_right _ (mem_keys_gathered.mpr ?_))
          exact List.ne_nil_of_mem (mem_valuesFor.mpr ⟨attached, hx⟩)
    · intro h flag hflag
      rcases List.mem_append.mp hflag with hbare | hvalue
      · exact h _ (mem_flags_gathered.mp hbare)
      · obtain ⟨text, htext⟩ := List.exists_mem_of_ne_nil _ (mem_keys_gathered.mp hvalue)
        obtain ⟨attached, hx⟩ := mem_valuesFor.mp htext
        exact h _ hx

end Meaning

theorem Verb.ofText_eq_some {text : Text} {verb : Verb} : Verb.ofText text = some verb ↔ text = verb.name := by
  constructor
  · intro h
    have hfound := List.find?_some h
    exact (of_decide_eq_true hfound).symm
  · rintro rfl
    cases verb <;> decide

theorem parse_ok {argv : List Text} {parsed : Parsed} (h : Args.parse argv = .ok parsed) :
    ∃ given, Spells argv parsed.command given ∧ Means given parsed.args := by
  cases argv with
  | nil => cases h
  | cons command args =>
      obtain ⟨g, hgather, h⟩ := bind_ok h
      cases h
      obtain ⟨given, hgiven, hargs, rfl⟩ := gather_ok hgather
      exact ⟨given, ⟨hgiven, by rw [hargs]⟩, means_gathered⟩

theorem parse_spells {argv : List Text} {command : Text} {given : List Given} (h : Spells argv command given) :
    Args.parse argv = .ok ⟨command, (given.foldl Given.add .empty).args⟩ := by
  obtain ⟨hgiven, rfl⟩ := h
  have hgather := gather_spelling (g := .empty) hgiven []
  rw [List.append_nil] at hgather
  rw [Args.parse, hgather]
  rfl

theorem helpless_iff {argv : List Text} : argv.any asksForHelp = false ↔ ∀ argument ∈ argv, asksForHelp argument = false := by
  simp only [List.any_eq_false, Bool.not_eq_true]

/-- A command runs exactly when no argument asks for help and the others spell options, and it
gets what those options say. A key where an option could stand is refused by the flag's name. -/
theorem command_line_exact (argv : List Text) (verb : Verb) :
    (∀ args, dispatch argv = .run verb args →
      ∃ given, Spells argv verb.name given ∧ (∀ argument ∈ argv, asksForHelp argument = false) ∧ Means given args) ∧
    (∀ given, Spells argv verb.name given → (∀ argument ∈ argv, asksForHelp argument = false) →
      ∃ args, dispatch argv = .run verb args ∧ Means given args) ∧
    ∀ before given flag key attached after, flag ∈ KEY_FLAGS → Spells before verb.name given →
      argv = before ++ ((Given.value flag key attached).spelling ++ after) →
      Args.parse argv = .error (.neverAnArgument flag) := by
  refine ⟨?_, ?_, ?_⟩
  · intro args h
    unfold dispatch at h
    split_ifs at h with husage
    rw [Bool.or_eq_true, not_or, Bool.not_eq_true, Bool.not_eq_true] at husage
    cases hparse : Args.parse argv with
    | error e =>
        rw [hparse] at h
        cases h
    | ok parsed =>
        rw [hparse] at h
        dsimp only at h
        cases hverb : Verb.ofText parsed.command with
        | none =>
            rw [hverb] at h
            cases h
        | some found =>
            rw [hverb] at h
            cases h
            obtain ⟨given, hspells, hmeans⟩ := parse_ok hparse
            rw [Verb.ofText_eq_some.mp hverb] at hspells
            exact ⟨given, hspells, helpless_iff.mp husage.2, hmeans⟩
  · intro given hspells hhelp
    refine ⟨_, ?_, means_gathered⟩
    have hempty : argv.isEmpty = false := by rw [hspells.2]; rfl
    simp only [dispatch, hempty, helpless_iff.mpr hhelp, parse_spells hspells, Verb.ofText_eq_some.mpr rfl,
      Bool.or_self, Bool.false_eq_true, if_false]
  · rintro before given flag key attached after hkey ⟨hgiven, rfl⟩ rfl
    rw [List.cons_append, Args.parse, gather_spelling hgiven, gather_key hkey]
    rfl

end Kallisto.Ctl
