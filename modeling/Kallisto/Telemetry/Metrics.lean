import Kallisto.Lib.Lines
import Kallisto.Telemetry.LineFormat

/-!
The counters and the text they render to, read back the way a scraper reads it. The text is a
row of families, each with its two comment lines and its samples; a sample is a name, a blank
and a number.
-/
namespace Kallisto.Telemetry
open Lib Kallisto.Server

inductive Outcome where
  | ok
  | denied
  | notFound
  | rateLimited
  | sealed
  | error
  deriving DecidableEq, Repr

namespace Outcome

def of (status : Nat) : Outcome :=
  if 200 ≤ status ∧ status ≤ 299 then .ok
  else if status = 403 then .denied
  else if status = 404 then .notFound
  else if status = 429 then .rateLimited
  else if status = 503 then .sealed
  else .error

def label : Outcome → Text
  | .ok => "ok".toList
  | .denied => "denied".toList
  | .notFound => "not_found".toList
  | .rateLimited => "rate_limited".toList
  | .sealed => "sealed".toList
  | .error => "error".toList

def ALL : List Outcome := [.ok, .denied, .notFound, .rateLimited, .sealed, .error]

end Outcome

/-- One worker's counters. -/
structure WorkerMetrics where
  ok : UInt64
  denied : UInt64
  notFound : UInt64
  rateLimited : UInt64
  sealed : UInt64
  error : UInt64
  deriving DecidableEq, Repr

namespace WorkerMetrics

def new : WorkerMetrics := ⟨0, 0, 0, 0, 0, 0⟩

def get (m : WorkerMetrics) : Outcome → UInt64
  | .ok => m.ok
  | .denied => m.denied
  | .notFound => m.notFound
  | .rateLimited => m.rateLimited
  | .sealed => m.sealed
  | .error => m.error

/-- `fetch_add(1)` on the counter of the outcome. -/
def observe (m : WorkerMetrics) : Outcome → WorkerMetrics
  | .ok => { m with ok := m.ok + 1 }
  | .denied => { m with denied := m.denied + 1 }
  | .notFound => { m with notFound := m.notFound + 1 }
  | .rateLimited => { m with rateLimited := m.rateLimited + 1 }
  | .sealed => { m with sealed := m.sealed + 1 }
  | .error => { m with error := m.error + 1 }

theorem get_new (o : Outcome) : new.get o = 0 := by cases o <;> rfl

theorem get_observe (m : WorkerMetrics) (o p : Outcome) :
    (m.observe o).get p = m.get p + if o = p then 1 else 0 := by
  cases o <;> cases p <;> simp [observe, get]

end WorkerMetrics

/-- What the scrape handler needs that the counters do not carry. -/
structure Status where
  sealed : Bool
  fileVersion : Option UInt64
  secrets : UInt64
  tokens : UInt64
  enforces : Bool
  logDropped : UInt64
  refreshFailures : UInt64
  deriving DecidableEq, Repr

/-- The loop of `push_u64`, with `free` octets of its buffer left; `none` is an index below zero. -/
def digitsFrom : Nat → UInt64 → Text → Option Text
  | 0, _, _ => none
  | free + 1, value, written =>
      let written := Char.ofNat ('0'.toNat + (value % 10).toNat) :: written
      if value / 10 = 0 then some written else digitsFrom free (value / 10) written

def pushU64 (value : UInt64) : Text := (digitsFrom 20 value []).getD "0".toList

/-- The two comment lines of a metric. -/
structure Family where
  name : Text
  help : Text
  kind : Text

namespace Family

def HELP : Text := "# HELP ".toList
def TYPE : Text := "# TYPE ".toList

def header (f : Family) : Text :=
  HELP ++ f.name ++ ' ' :: f.help ++ '\n' :: (TYPE ++ f.name ++ ' ' :: f.kind ++ ['\n'])

def accessLogDropped : Family :=
  ⟨"kallisto_access_log_dropped_total".toList, "Access log lines discarded because the queue was full.".toList,
    "counter".toList⟩

def requests : Family :=
  ⟨"kallisto_requests_total".toList, "Requests answered, by outcome class.".toList, "counter".toList⟩

def sealed : Family :=
  ⟨"kallisto_sealed".toList, "Whether no file has loaded, so every read answers 503.".toList, "gauge".toList⟩

def fileVersion : Family :=
  ⟨"kallisto_file_version".toList, "Content version of the sealed file being served.".toList, "gauge".toList⟩

def secrets : Family := ⟨"kallisto_secrets".toList, "Secrets in the file being served.".toList, "gauge".toList⟩

def tokens : Family := ⟨"kallisto_tokens".toList, "Tokens in the file being served.".toList, "gauge".toList⟩

def authorizationEnforced : Family :=
  ⟨"kallisto_authorization_enforced".toList, "Whether the file carries a token table at all.".toList,
    "gauge".toList⟩

def refreshFailures : Family :=
  ⟨"kallisto_refresh_failures_total".toList, "Polls that did not yield a servable file.".toList, "counter".toList⟩

def all : List Family :=
  [accessLogDropped, requests, sealed, fileVersion, secrets, tokens, authorizationEnforced, refreshFailures]

/-- One sample of the metric, with its label if it has one. -/
def sample (f : Family) (label : Text) (value : UInt64) : Text :=
  f.name ++ label ++ ' ' :: pushU64 value ++ ['\n']

end Family

def Outcome.braced (o : Outcome) : Text := "\x7boutcome=\"".toList ++ o.label ++ "\"\x7d".toList

/-- A metric and the samples under it, each a label and a value. -/
structure Section where
  family : Family
  samples : List (Text × UInt64)

def Section.text (s : Section) : Text :=
  s.family.header ++ s.samples.flatMap fun sample => s.family.sample sample.1 sample.2

def sections (totals : Outcome → UInt64) (status : Status) : List Section :=
  [⟨.accessLogDropped, [([], status.logDropped)]⟩,
    ⟨.requests, Outcome.ALL.map fun o => (o.braced, totals o)⟩,
    ⟨.sealed, [([], if status.sealed then 1 else 0)]⟩,
    ⟨.fileVersion, [([], status.fileVersion.getD 0)]⟩,
    ⟨.secrets, [([], status.secrets)]⟩,
    ⟨.tokens, [([], status.tokens)]⟩,
    ⟨.authorizationEnforced, [([], if status.enforces then 1 else 0)]⟩,
    ⟨.refreshFailures, [([], status.refreshFailures)]⟩]

/-- The text once every counter has been summed over the workers. -/
def render (totals : Outcome → UInt64) (status : Status) : Text := (sections totals status).flatMap Section.text

/-- What a scraper makes of a line. -/
def readSample (line : Text) : Option (Text × UInt64) :=
  if line.head? = some '#' then none
  else do
    let (name, value) ← rsplitOnce ' ' line
    return (name, ← parseU64 value)

def scrape (text : Text) : List (Text × UInt64) := (lines text).filterMap readSample

theorem digitsFrom_eq {free : Nat} {value : UInt64} (h : value.toNat < 10 ^ free) (hfree : 0 < free)
    (written : Text) : digitsFrom free value written = some (decimal value.toNat ++ written) := by
  induction free generalizing value written with
  | zero => exact absurd hfree (Nat.lt_irrefl 0)
  | succ free ih =>
      have hmod : (value % 10).toNat = value.toNat % 10 := UInt64.toNat_mod ..
      have hdiv : (value / 10).toNat = value.toNat / 10 := UInt64.toNat_div ..
      have hdigit : Char.ofNat ('0'.toNat + (value % 10).toNat) = (value.toNat % 10).digitChar := by
        rw [hmod]
        have := Nat.mod_lt value.toNat (by decide : 0 < 10)
        interval_cases value.toNat % 10 <;> rfl
      have hzero : value / 10 = 0 ↔ value.toNat < 10 := by
        rw [← UInt64.toNat_inj, hdiv, UInt64.toNat_zero]
        omega
      unfold digitsFrom
      extract_lets next
      by_cases hlt : value.toNat < 10
      · rw [if_pos (hzero.mpr hlt)]
        simp only [next, hdigit, decimal, Nat.toDigits_of_lt_base hlt, Nat.mod_eq_of_lt hlt, List.singleton_append]
      · have hle : 10 ≤ value.toNat := Nat.le_of_not_lt hlt
        have hsmall : (value / 10).toNat < 10 ^ free := by
          rw [hdiv]
          exact Nat.div_lt_of_lt_mul (by rwa [Nat.pow_succ, Nat.mul_comm] at h)
        have hpos : 0 < free := by
          apply Nat.pos_of_ne_zero
          rintro rfl
          rw [Nat.pow_one] at h
          omega
        rw [if_neg (mt hzero.mp hlt), ih hsmall hpos, hdiv]
        simp only [next, hdigit, decimal, Nat.toDigits_of_base_le (by decide : 1 < 10) hle, List.append_assoc,
          List.singleton_append]

/-- Twenty octets hold every `u64`. -/
theorem pushU64_eq (value : UInt64) : pushU64 value = decimal value.toNat := by
  have hlt : value.toNat < 10 ^ 20 := lt_trans value.toNat_lt (by decide)
  rw [pushU64, digitsFrom_eq hlt (by decide), List.append_nil, Option.getD_some]

/-- Text that ends no line. -/
def OneLine (t : Text) : Prop := ∀ c ∈ t, c ≠ '\n' ∧ c ≠ '\r'

instance (t : Text) : Decidable (OneLine t) := List.decidableBAll (fun c : Char => c ≠ '\n' ∧ c ≠ '\r') t

theorem OneLine.append {s t : Text} (hs : OneLine s) (ht : OneLine t) : OneLine (s ++ t) := by
  intro c hc
  rcases List.mem_append.mp hc with h | h
  · exact hs c h
  · exact ht c h

theorem OneLine.cons {c : Char} {t : Text} (hc : c ≠ '\n' ∧ c ≠ '\r') (ht : OneLine t) : OneLine (c :: t) :=
  List.forall_mem_cons.mpr ⟨hc, ht⟩

theorem OneLine.lines {line : Text} (h : OneLine line) (rest : Text) :
    lines (line ++ '\n' :: rest) = line :: lines rest :=
  lines_cons (fun hn => (h _ hn).1 rfl) (fun hr => (h _ hr).2 rfl) rest

/-- A metric whose comments and samples are lines of their own. -/
structure Section.Plain (s : Section) : Prop where
  name : OneLine s.family.name
  bare : '\x7b' ∉ s.family.name
  sample : ∃ c rest, s.family.name = c :: rest ∧ c ≠ '#'
  help : OneLine s.family.help
  kind : OneLine s.family.kind
  labels : ∀ sample ∈ s.samples, OneLine sample.1 ∧ ∀ c ∈ sample.1.head?, c = '\x7b'

theorem scrape_line {line : Text} (h : OneLine line) (rest : Text) :
    scrape (line ++ '\n' :: rest) = (readSample line).toList ++ scrape rest := by
  rw [scrape, h.lines, List.filterMap_cons]
  cases readSample line <;> rfl

theorem readSample_comment {line : Text} (h : line.head? = some '#') : readSample line = none := if_pos h

theorem decimal_oneLine (n : Nat) : OneLine (decimal n) := by
  intro c hc
  have hdigit := Json.decimal_all_digits n c hc
  refine ⟨?_, ?_⟩ <;> rintro rfl <;> exact absurd hdigit (by decide)

theorem readSample_written {name : Text} {c : Char} {rest : Text} (hname : name = c :: rest) (hc : c ≠ '#')
    (value : UInt64) : readSample (name ++ ' ' :: decimal value.toNat) = some (name, value) := by
  have hhead : (name ++ ' ' :: decimal value.toNat).head? ≠ some '#' := by
    rw [hname]
    simpa using hc
  rw [readSample, if_neg hhead, rsplitOnce_append (Word.decimal _).unbroken]
  simp only [Option.bind_eq_bind, Option.bind_some, parseU64_decimal value.toNat_lt, UInt64.ofNat_toNat]
  rfl

namespace Section
variable {s : Section}

theorem Plain.scrape_header (h : s.Plain) (rest : Text) : scrape (s.family.header ++ rest) = scrape rest := by
  have hblank : ' ' ≠ '\n' ∧ ' ' ≠ '\r' := by decide
  have hhelp : OneLine (Family.HELP ++ s.family.name ++ ' ' :: s.family.help) :=
    (OneLine.append (by decide) h.name).append (h.help.cons hblank)
  have hkind : OneLine (Family.TYPE ++ s.family.name ++ ' ' :: s.family.kind) :=
    (OneLine.append (by decide) h.name).append (h.kind.cons hblank)
  have hcomment : ∀ t, (Family.HELP ++ t).head? = some '#' ∧ (Family.TYPE ++ t).head? = some '#' :=
    fun t => ⟨rfl, rfl⟩
  have hheader : s.family.header ++ rest = (Family.HELP ++ s.family.name ++ ' ' :: s.family.help) ++ '\n' ::
      ((Family.TYPE ++ s.family.name ++ ' ' :: s.family.kind) ++ '\n' :: rest) := by
    simp only [Family.header, List.append_assoc, List.cons_append, List.nil_append]
  rw [hheader, scrape_line hhelp, scrape_line hkind, List.append_assoc, List.append_assoc,
    readSample_comment (hcomment _).1, readSample_comment (hcomment _).2, Option.toList_none, List.nil_append,
    List.nil_append]

theorem Plain.scrape_sample (h : s.Plain) {label : Text} (hlabel : OneLine label) (value : UInt64) (rest : Text) :
    scrape (s.family.sample label value ++ rest) = (s.family.name ++ label, value) :: scrape rest := by
  obtain ⟨c, tail, hname, hc⟩ := h.sample
  have hline : OneLine (s.family.name ++ label ++ ' ' :: decimal value.toNat) :=
    (h.name.append hlabel).append ((decimal_oneLine _).cons (by decide))
  have hsample : s.family.sample label value ++ rest =
      (s.family.name ++ label ++ ' ' :: decimal value.toNat) ++ '\n' :: rest := by
    simp only [Family.sample, pushU64_eq, List.append_assoc, List.cons_append, List.nil_append]
  rw [hsample, scrape_line hline, readSample_written (by rw [hname, List.cons_append]) hc, Option.toList_some,
    List.singleton_append]

/-- The names and values under a metric. -/
def values (s : Section) : List (Text × UInt64) := s.samples.map fun sample => (s.family.name ++ sample.1, sample.2)

theorem Plain.scrape_text (h : s.Plain) (rest : Text) : scrape (s.text ++ rest) = s.values ++ scrape rest := by
  have hsamples : ∀ samples : List (Text × UInt64), (∀ sample ∈ samples, OneLine sample.1) →
      scrape ((samples.flatMap fun sample => s.family.sample sample.1 sample.2) ++ rest) =
        (samples.map fun sample => (s.family.name ++ sample.1, sample.2)) ++ scrape rest := by
    intro samples hlabels
    induction samples with
    | nil => rfl
    | cons sample samples ih =>
        rw [List.flatMap_cons, List.append_assoc, h.scrape_sample (hlabels _ List.mem_cons_self),
          ih fun x hx => hlabels x (List.mem_cons_of_mem _ hx), List.map_cons, List.cons_append]
  rw [text, List.append_assoc, h.scrape_header, hsamples _ fun x hx => (h.labels x hx).1, values]

end Section

theorem scrape_sections {all : List Section} (h : ∀ s ∈ all, s.Plain) :
    scrape (all.flatMap Section.text) = all.flatMap Section.values := by
  induction all with
  | nil => rfl
  | cons s all ih =>
      rw [List.flatMap_cons, (h s List.mem_cons_self).scrape_text, ih fun x hx => h x (List.mem_cons_of_mem _ hx),
        List.flatMap_cons]

section Render
variable (totals : Outcome → UInt64) (status : Status)

theorem names_plain : ∀ f ∈ Family.all, OneLine f.name ∧ '\x7b' ∉ f.name ∧ f.name.head? = some 'k' := by
  unfold Family.all Family.accessLogDropped Family.requests Family.sealed Family.fileVersion Family.secrets Family.tokens
    Family.authorizationEnforced Family.refreshFailures
  repeat rw [String.toList_ofList]
  decide

theorem comments_plain : ∀ f ∈ Family.all, OneLine f.help ∧ OneLine f.kind := by
  unfold Family.all Family.accessLogDropped Family.requests Family.sealed Family.fileVersion Family.secrets Family.tokens
    Family.authorizationEnforced Family.refreshFailures
  repeat rw [String.toList_ofList]
  decide

theorem braced_plain (o : Outcome) : OneLine o.braced ∧ ∀ c ∈ o.braced.head?, c = '\x7b' := by
  have hopen : o.braced.head? = some '\x7b' := by cases o <;> rfl
  refine ⟨by cases o <;> decide, ?_⟩
  intro c hc
  rw [hopen] at hc
  exact (Option.mem_some_iff.mp hc).symm

theorem section_plain {s : Section} (h : s ∈ sections totals status) : s.Plain := by
  have hfamily : s.family ∈ Family.all := List.mem_map_of_mem (f := Section.family) h
  have hlabels : ∀ sample ∈ s.samples, sample.1 = [] ∨ ∃ o : Outcome, sample.1 = o.braced := by
    simp only [sections, List.mem_cons, List.not_mem_nil, or_false] at h
    rcases h with rfl | rfl | rfl | rfl | rfl | rfl | rfl | rfl <;> intro sample hsample
    case inr.inl =>
      obtain ⟨o, -, rfl⟩ := List.mem_map.mp hsample
      exact .inr ⟨o, rfl⟩
    all_goals exact .inl (by rw [List.mem_singleton.mp hsample])
  obtain ⟨hname, hbare, hhead⟩ := names_plain _ hfamily
  obtain ⟨hhelp, hkind⟩ := comments_plain _ hfamily
  refine ⟨hname, hbare, ?_, hhelp, hkind, ?_⟩
  · obtain ⟨rest, hrest⟩ := List.head?_eq_some_iff.mp hhead
    exact ⟨'k', rest, hrest, by decide⟩
  · intro sample hsample
    rcases hlabels sample hsample with hnil | ⟨o, ho⟩
    · rw [hnil]
      exact ⟨fun c hc => absurd hc List.not_mem_nil, fun c hc => absurd hc (by simp)⟩
    · rw [ho]
      exact braced_plain o

theorem scrape_render : scrape (render totals status) = (sections totals status).flatMap Section.values :=
  scrape_sections fun _ h => section_plain totals status h

/-- A label starts with a brace, so the name of a sample is its metric's name up to there. -/
theorem Section.Plain.bare_name {s : Section} (h : s.Plain) {name : Text} {value : UInt64}
    (hv : (name, value) ∈ s.values) : name.takeWhile (· != '\x7b') = s.family.name := by
  obtain ⟨sample, hsample, heq⟩ := List.mem_map.mp hv
  obtain ⟨rfl, -⟩ := Prod.mk.inj heq
  have hkeep : ∀ c ∈ s.family.name, (c != '\x7b') = true := by
    intro c hc
    rw [bne_iff_ne]
    rintro rfl
    exact h.bare hc
  rw [List.takeWhile_append_of_pos hkeep]
  cases hl : sample.1 with
  | nil => simp
  | cons c rest =>
      have hc : c = '\x7b' := (h.labels sample hsample).2 c (by rw [hl]; rfl)
      simp [hc]

/-- A scrape reads back every counter and gauge under its own name, and nothing else; and every
name it finds has its HELP and TYPE lines. -/
theorem metrics_read_back :
    scrape (render totals status) =
      (Family.accessLogDropped.name, status.logDropped) ::
        (Outcome.ALL.map fun o => (Family.requests.name ++ o.braced, totals o)) ++
        [(Family.sealed.name, if status.sealed then 1 else 0),
          (Family.fileVersion.name, status.fileVersion.getD 0), (Family.secrets.name, status.secrets),
          (Family.tokens.name, status.tokens), (Family.authorizationEnforced.name, if status.enforces then 1 else 0),
          (Family.refreshFailures.name, status.refreshFailures)] ∧
      ∀ name value, (name, value) ∈ scrape (render totals status) → ∃ help kind,
        Family.header ⟨name.takeWhile (· != '\x7b'), help, kind⟩ <:+: render totals status := by
  refine ⟨?_, ?_⟩
  · rw [scrape_render]
    simp only [sections, Section.values, List.flatMap_cons, List.flatMap_nil, List.map_cons, List.map_nil,
      List.append_nil, List.cons_append, List.nil_append, Outcome.ALL]
  · intro name value hmem
    rw [scrape_render] at hmem
    obtain ⟨s, hs, hv⟩ := List.mem_flatMap.mp hmem
    refine ⟨s.family.help, s.family.kind, ?_⟩
    rw [(section_plain totals status hs).bare_name hv]
    obtain ⟨before, after, hsplit⟩ := List.append_of_mem hs
    rw [render, hsplit, List.flatMap_append, List.flatMap_cons, Section.text, List.append_assoc]
    exact ⟨_, _, List.append_assoc ..⟩

end Render

end Kallisto.Telemetry
