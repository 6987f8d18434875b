import Kallisto.Lib.TwoRuns
import Kallisto.Resolver.Identity
import Kallisto.Resolver.Sigv4
import Mathlib.Data.Bool.AllAny

/-!
The bucket as a source: a presigned request, sent with the tag of the object that was adopted last,
and an answer that may be that nothing has changed. Where a tag stands for one content, asking
conditionally and asking for the whole object every time come to the same.
-/
namespace Kallisto.Resolver
open Lib Kallisto.Crypto Sigv4

/-- `SIGNATURE_TTL_SECS`. -/
def SIGNATURE_TTL : UInt32 := 60

/-- A URL of the configuration, as it was parsed; a port that is the scheme's own is left out. -/
structure Endpoint where
  text : Text
  scheme : Text
  host : Option Text
  port : Option UInt16
  scheme_plain : ':' ∉ scheme
  host_plain : ∀ h ∈ host, ∀ c ∈ h, c ≠ '/' ∧ c ≠ '?' ∧ c ≠ '#'

structure Bucket extends BucketConfig where
  endpoint : Endpoint
  region : Text
  accessKeyId : Text
  secretAccessKey : Text

inductive BucketError where
  | noHost (endpoint : Text)
  | client (message : Text)
  deriving DecidableEq, Repr

structure BucketSource where
  config : Bucket
  origin : Text
  host : Text
  canonicalUri : Text
  description : Text

def Bucket.signedHost (config : Bucket) : Except BucketError Text :=
  match config.endpoint.host with
  | none => .error (.noHost config.endpoint.text)
  | some host =>
      let authority := match config.endpoint.port with
        | some port => host ++ ':' :: decimal port.toNat
        | none => host
      if config.pathStyle then .ok authority else .ok (config.bucket ++ '.' :: authority)

/-- `built` is what became of the HTTP client. -/
def BucketSource.new (built : Except Text Unit) (config : Bucket) : Except BucketError BucketSource := do
  let host ← config.signedHost
  let origin := config.endpoint.scheme ++ "://".toList ++ host
  let description := "s3://".toList ++ config.bucket ++ '/' :: config.objectKey
  match built with
  | .error message => .error (.client message)
  | .ok () => return ⟨config, origin, host, Sigv4.canonicalUri config.toBucketConfig, description⟩

def BucketSource.inputs (source : BucketSource) (now : UInt64) : SigningInputs where
  accessKeyId := source.config.accessKeyId
  secretAccessKey := source.config.secretAccessKey
  region := source.config.region
  host := source.host
  canonicalUri := source.canonicalUri
  expiresSecs := SIGNATURE_TTL
  nowSecs := now

def BucketSource.signedUrl (D : Digests) (source : BucketSource) (now : UInt64) : Text :=
  source.origin ++ source.canonicalUri ++ '?' :: presignQuery D (source.inputs now)

structure Request where
  url : Text
  ifNoneMatch : Option Text
  deriving DecidableEq

/-- What is asked of an error of the HTTP client, in this order. -/
inductive TransportError where
  | timeout
  | connect
  | other
  deriving DecidableEq, Repr

/-- The body may be cut off after the head has arrived. -/
structure Response where
  status : UInt16
  etag : Option Bytes
  body : Except TransportError Bytes

def transportError : TransportError → SourceError
  | .timeout => .unreachable "timed out".toList
  | .connect => .unreachable "connection refused".toList
  | .other => .unreachable "transport failure".toList

/-- `HeaderValue::to_str`. -/
def headerText (raw : Bytes) : Option Text :=
  if raw.all fun b => (32 ≤ b && b < 127) || b = 9 then some (ascii raw) else none

/-- A text that may stand in a header; with any other no request is made of it. -/
def headerValid (text : Text) : Bool := (utf8 text).all fun b => (32 ≤ b && b ≠ 127) || b = 9

def bodyOf (response : Response) : Fetched :=
  match response.body with
  | .ok bytes => .body bytes (response.etag.bind headerText)
  | .error e => .unavailable (transportError e)

def fetchedOf (response : Response) : Fetched :=
  if response.status = 304 then .notModified
  else if response.status = 200 then bodyOf response
  else if response.status = 404 then .unavailable .absent
  else if response.status = 429 ∨ response.status = 503 then .unavailable .slowDown
  else .unavailable (.status response.status)

/-- `BucketSource::fetch`. -/
def BucketSource.get (D : Digests) (source : BucketSource) (client : Request → Except TransportError Response)
    (now : UInt64) (etag : Option Text) : Fetched :=
  if etag.all headerValid then
    match client ⟨source.signedUrl D now, etag⟩ with
    | .error e => .unavailable (transportError e)
    | .ok response => fetchedOf response
  else .unavailable (transportError .other)

/-- The object of the bucket, with the tag of its answers. -/
structure Object where
  bytes : Bytes
  tag : Option Bytes
  deriving DecidableEq

def Object.tagText (object : Object) : Option Text := object.tag.bind headerText

/-- What a poll meets: no answer, an answer that is neither the object nor that it is unchanged, or
the object, of which the rest may be lost on the way. -/
inductive Weather where
  | down (e : TransportError)
  | answers (status : UInt16) (other : status ≠ 200 ∧ status ≠ 304)
  | holds (object : Object) (lost : Option TransportError)

/-- A service that knows conditional requests. -/
def Weather.client : Weather → Request → Except TransportError Response
  | .down e, _ => .error e
  | .answers status _, _ => .ok ⟨status, none, .ok []⟩
  | .holds object lost, request =>
      if request.ifNoneMatch.isSome ∧ request.ifNoneMatch = object.tagText then .ok ⟨304, object.tag, .ok []⟩
      else .ok ⟨200, object.tag, lost.elim (.ok object.bytes) .error⟩

/-- One poll of the bucket: what it meets, the clock, and what the machine contributes. -/
structure Visit where
  weather : Weather
  now : UInt64
  draw : Draw
  io : Io

section Polls
variable (D : Digests) (P : Platform) (source : BucketSource)

/-- `poll_once` with a bucket as its source. -/
def pollBucket (r : Refresher) (v : Visit) : Refresher × Tick :=
  r.pollOnce P ⟨source.get D v.weather.client v.now r.etag, v.draw, v.io⟩

/-- The same poll, asking for the whole object. -/
def pollWhole (r : Refresher) (v : Visit) : Refresher × Tick :=
  r.pollOnce P ⟨source.get D v.weather.client v.now none, v.draw, v.io⟩

end Polls

/-- A tag stands for one content. -/
def Honest (history : List Visit) : Prop :=
  ∀ v ∈ history, ∀ v' ∈ history, ∀ object lost object' lost', v.weather = .holds object lost →
    v'.weather = .holds object' lost' → object.tagText.isSome → object.tagText = object'.tagText →
      object.bytes = object'.bytes

/-- The tag that is remembered is of an object that was looked at, and whose version is served. -/
def TagSeen (past : List Visit) (r : Refresher) : Prop :=
  ∀ t ∈ r.etag, ∃ v ∈ past, ∃ object lost, v.weather = .holds object lost ∧ object.tagText = some t ∧
    ∃ version, peek object.bytes = .ok version ∧ r.version = some version

/-- The same, but that the whole object may be lost on the way where nothing had to be sent. -/
def Agrees (conditional whole : Tick) : Prop :=
  conditional = whole ∨ conditional = .unchanged ∧ ∃ e, whole = .sourceDown e

section Headers

theorem utf8_ascii {raw : Bytes} (h : ∀ b ∈ raw, b < 0x80) : utf8 (ascii raw) = raw := by
  have hone : ∀ b : UInt8, b < 0x80 → utf8 [Char.ofNat b.toNat] = [b] := forall_byte (by decide +kernel)
  induction raw with
  | nil => rfl
  | cons b raw ih =>
      have hb := hone b (h b List.mem_cons_self)
      rw [utf8_cons, utf8_nil, List.append_nil] at hb
      have hcons : ascii (b :: raw) = Char.ofNat b.toNat :: ascii raw := rfl
      rw [hcons, utf8_cons, hb, ih fun x hx => h x (List.mem_cons_of_mem _ hx)]
      rfl

/-- What was read from a header may be sent in one. -/
theorem headerText_valid {raw : Bytes} {text : Text} (h : headerText raw = some text) : headerValid text = true := by
  have hoctets : ∀ b : UInt8, ((32 ≤ b && b < 127) || b = 9) = true →
      b < 0x80 ∧ ((32 ≤ b && b ≠ 127) || b = 9) = true := forall_byte (by decide +kernel)
  unfold headerText at h
  split_ifs at h with hall
  obtain rfl := Option.some.inj h
  rw [List.all_eq_true] at hall
  rw [headerValid, utf8_ascii fun b hb => (hoctets b (hall b hb)).1, List.all_eq_true]
  exact fun b hb => (hoctets b (hall b hb)).2

end Headers

section Remembered
variable {P : Platform} {past : List Visit} {r : Refresher}

theorem TagSeen.mono (h : TagSeen past r) (v : Visit) : TagSeen (past ++ [v]) r := by
  intro t ht
  obtain ⟨visit, hmem, hrest⟩ := h t ht
  exact ⟨visit, List.mem_append_left [v] hmem, hrest⟩

theorem TagSeen.valid (h : TagSeen past r) : r.etag.all headerValid = true := by
  cases hetag : r.etag with
  | none => rfl
  | some t =>
      obtain ⟨-, -, object, -, -, htag, -⟩ := h t hetag
      obtain ⟨raw, -, hraw⟩ := Option.bind_eq_some_iff.mp htag
      exact headerText_valid hraw

/-- Whatever becomes of a body, what is remembered afterwards is right. -/
theorem TagSeen.body {v : Visit} {object : Object} {lost : Option TransportError} (h : TagSeen past r)
    (hv : v.weather = .holds object lost) :
    TagSeen (past ++ [v]) (r.pollOnce P ⟨.body object.bytes object.tagText, v.draw, v.io⟩).1 := by
  have hmem : v ∈ past ++ [v] := List.mem_append_right past List.mem_cons_self
  rcases pollOnce_body P r (p := ⟨.body object.bytes object.tagText, v.draw, v.io⟩) rfl with
    ⟨e, -, hp⟩ | ⟨he, hp⟩ | ⟨version, snapshot, he, hp⟩
  · rw [hp]
    exact h.mono v
  · rw [hp]
    intro t ht
    exact ⟨v, hmem, object, lost, hv, ht, examine_same.mp he⟩
  · rw [hp]
    intro t ht
    obtain ⟨opened, -, hopen, hversion, -, -, hsnapshot, -⟩ := examine_servable he
    refine ⟨v, hmem, object, lost, hv, ht, version, hversion ▸ openSealed_peek hopen, ?_⟩
    rw [← hsnapshot]
    rfl

/-- The body whose tag is remembered would be skipped. -/
theorem TagSeen.skips {object : Object} {t : Text} (h : TagSeen past r) (ht : r.etag = some t)
    (hbytes : ∀ v ∈ past, ∀ other lost, v.weather = .holds other lost → other.tagText = some t →
      other.bytes = object.bytes) (draw : Draw) (io : Io) :
    r.pollOnce P ⟨.body object.bytes (some t), draw, io⟩ = (r, .unchanged) := by
  obtain ⟨v, hv, other, lost, hother, htag, hversion⟩ := h t ht
  rw [hbytes v hv other lost hother htag] at hversion
  have hexamine : examine P r.key draw object.bytes (some t) r.version = .same := examine_same.mpr hversion
  have hr : ({ r with etag := some t } : Refresher) = r := by rw [← ht]
  unfold Refresher.pollOnce Refresher.adopt
  simp only [hexamine, hr]

end Remembered

section Visits
variable {D : Digests} {P : Platform} {source : BucketSource} {r : Refresher} {v : Visit} {past history : List Visit}

theorem get_down {e : TransportError} (hv : v.weather = .down e) {etag : Option Text}
    (hvalid : etag.all headerValid = true) :
    source.get D v.weather.client v.now etag = .unavailable (transportError e) := by
  rw [BucketSource.get, if_pos hvalid, hv]
  rfl

theorem get_answers {status : UInt16} {other : status ≠ 200 ∧ status ≠ 304} (hv : v.weather = .answers status other)
    {etag : Option Text} (hvalid : etag.all headerValid = true) :
    ∃ e, source.get D v.weather.client v.now etag = .unavailable e ∧
      source.get D v.weather.client v.now none = .unavailable e := by
  have hget : ∀ etag : Option Text, etag.all headerValid = true →
      source.get D v.weather.client v.now etag = fetchedOf ⟨status, none, .ok []⟩ := by
    intro etag hetag
    rw [BucketSource.get, if_pos hetag, hv]
    rfl
  have herror : ∃ e, fetchedOf ⟨status, none, .ok []⟩ = .unavailable e := by
    simp only [fetchedOf, if_neg other.2, if_neg other.1]
    split_ifs
    · exact ⟨_, rfl⟩
    · exact ⟨_, rfl⟩
    · exact ⟨_, rfl⟩
  obtain ⟨e, he⟩ := herror
  exact ⟨e, (hget etag hvalid).trans he, (hget none rfl).trans he⟩

/-- What arrives of the object where it has to be sent. -/
def arrived (object : Object) (lost : Option TransportError) : Fetched :=
  lost.elim (.body object.bytes object.tagText) fun e => .unavailable (transportError e)

theorem get_holds {object : Object} {lost : Option TransportError} (hv : v.weather = .holds object lost)
    {etag : Option Text} (hvalid : etag.all headerValid = true) :
    source.get D v.weather.client v.now etag =
      if etag.isSome ∧ etag = object.tagText then .notModified else arrived object lost := by
  rw [BucketSource.get, if_pos hvalid, hv]
  simp only [Weather.client]
  split_ifs
  · rfl
  · cases lost with
    | none => rfl
    | some e => rfl

/-- One poll, conditional or not, ends in the same state. -/
theorem pollBucket_agrees (honest : Honest history) (hpast : past ++ [v] <+: history) (h : TagSeen past r) :
    (pollBucket D P source r v).1 = (pollWhole D P source r v).1 ∧
      Agrees (pollBucket D P source r v).2 (pollWhole D P source r v).2 ∧
      TagSeen (past ++ [v]) (pollBucket D P source r v).1 := by
  have hvalid := h.valid
  unfold pollBucket pollWhole
  cases hv : v.weather with
  | down e =>
      rw [← hv, get_down hv hvalid, get_down hv rfl]
      exact ⟨rfl, .inl rfl, h.mono v⟩
  | answers status other =>
      obtain ⟨e, hget, hwhole⟩ := get_answers hv hvalid
      rw [← hv, hget, hwhole]
      exact ⟨rfl, .inl rfl, h.mono v⟩
  | holds object lost =>
      have hwhole : source.get D v.weather.client v.now none = arrived object lost :=
        (get_holds hv rfl).trans (if_neg (by simp))
      rw [← hv, get_holds hv hvalid, hwhole]
      split_ifs with hsame
      · obtain ⟨t, ht⟩ := Option.isSome_iff_exists.mp hsame.1
        have htag : object.tagText = some t := hsame.2.symm.trans ht
        have hmember : ∀ u ∈ past ++ [v], u ∈ history := fun u hu => hpast.subset hu
        have hbytes : ∀ u ∈ past, ∀ other lost', u.weather = .holds other lost' → other.tagText = some t →
            other.bytes = object.bytes := by
          intro u hu other lost' hother htext
          refine honest u (hmember u (List.mem_append_left _ hu)) v (hmember v (by simp)) other lost' object lost hother
            hv ?_ (htext.trans htag.symm)
          rw [htext]
          rfl
        have hskips := h.skips (P := P) ht hbytes v.draw v.io
        refine ⟨?_, ?_, h.mono v⟩
        · cases lost with
          | none =>
              rw [arrived, htag]
              exact (congrArg Prod.fst hskips).symm
          | some e => rfl
        · cases lost with
          | none =>
              left
              rw [arrived, htag]
              exact (congrArg Prod.snd hskips).symm
          | some e => exact .inr ⟨rfl, _, rfl⟩
      · refine ⟨rfl, .inl rfl, ?_⟩
        cases lost with
        | none => exact h.body hv
        | some e => exact h.mono v

/-- Over a process lifetime, a resolver that asks conditionally is at every poll in the state it
would be in if it had asked for the whole object each time. -/
theorem conditional_get_transparent (D : Digests) (P : Platform) (source : BucketSource) (key : SealKey)
    (disk : Option Disk) (draw : Draw) (fault : Option Text) {history : List Visit} (honest : Honest history) :
    let warm := ((Refresher.new key disk).warmFromCache P draw fault).1
    (run (pollBucket D P source) warm history).1 = (run (pollWhole D P source) warm history).1 ∧
      List.Forall₂ Agrees (run (pollBucket D P source) warm history).2
        (run (pollWhole D P source) warm history).2 := by
  intro warm
  have start : TagSeen [] warm := by
    intro t ht
    rw [show warm.etag = none from warmFromCache_etag P key disk draw fault] at ht
    cases ht
  apply run_agree start
  intro past v hpast r hr
  exact pollBucket_agrees honest hpast hr

end Visits

def sampleEndpoint : Endpoint :=
  ⟨"https://s3.amazonaws.com/".toList, "https".toList, some "s3.amazonaws.com".toList, none, by decide, by
    rintro _ ⟨⟩
    exact List.all_iff_forall_prop.mp (by decide)⟩

def sampleBucket : Bucket where
  bucket := "examplebucket".toList
  objectKey := "test.txt".toList
  pathStyle := false
  endpoint := sampleEndpoint
  region := exampleInputs.region
  accessKeyId := exampleInputs.accessKeyId
  secretAccessKey := exampleInputs.secretAccessKey

def sampleSource : BucketSource where
  config := sampleBucket
  origin := "https://examplebucket.s3.amazonaws.com".toList
  host := exampleInputs.host
  canonicalUri := exampleInputs.canonicalUri
  description := "s3://examplebucket/test.txt".toList

example : BucketSource.new (.ok ()) sampleBucket = .ok sampleSource := rfl

def sampleObject : Object := ⟨sampleFile, some [0x22, 0x61, 0x62, 0x63, 0x22]⟩

/-- The object twice, the second time cut off on the way. -/
def sampleVisits : List Visit :=
  [⟨.holds sampleObject none, 1440938160, sampleDraw, ⟨.ok, true⟩⟩,
    ⟨.holds sampleObject (some .timeout), 1440938190, sampleDraw, ⟨.ok, true⟩⟩]

theorem conditional_get_transparent_sample :
    let warm := ((Refresher.new sampleKey (some ⟨none, none⟩)).warmFromCache samplePlatform sampleDraw none).1
    (run (pollBucket exampleDigests samplePlatform sampleSource) warm sampleVisits).1 =
        (run (pollWhole exampleDigests samplePlatform sampleSource) warm sampleVisits).1 ∧
      (run (pollBucket exampleDigests samplePlatform sampleSource) warm sampleVisits).2 =
        [.loaded 1 true false, .unchanged] ∧
      (run (pollWhole exampleDigests samplePlatform sampleSource) warm sampleVisits).2 =
        [.loaded 1 true false, .sourceDown (.unreachable "timed out".toList)] := by
  have hobject : ∀ v ∈ sampleVisits, ∀ object lost, v.weather = .holds object lost → object = sampleObject := by
    intro v hv object lost hweather
    simp only [sampleVisits, List.mem_cons, List.not_mem_nil, or_false] at hv
    rcases hv with rfl | rfl
    · exact (Weather.holds.inj hweather).1.symm
    · exact (Weather.holds.inj hweather).1.symm
  have honest : Honest sampleVisits := by
    intro v hv v' hv' object lost object' lost' h h' _ _
    rw [hobject v hv object lost h, hobject v' hv' object' lost' h']
  exact ⟨(conditional_get_transparent exampleDigests samplePlatform sampleSource sampleKey (some ⟨none, none⟩)
    sampleDraw none honest).1, by decide +kernel, by decide +kernel⟩

end Kallisto.Resolver
