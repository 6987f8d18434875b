import Kallisto.Resolver.Faithful
import Kallisto.Server.VaultApi
import Kallisto.Telemetry.LineFormat
import Mathlib.Data.Nat.Digits.Defs

/-!
The layer in front of every route: what it takes from a request before the request is handed
on, and the line it leaves in the access log. All of a line but the method is of bounded
length; a method is a token of any length.
-/
namespace Kallisto.Server
open Lib Kallisto.Crypto Kallisto.Policy Kallisto.Resolver Kallisto.Telemetry

/-- The characters an HTTP method is made of: digits, letters and some marks. -/
def isTokenChar (c : Char) : Bool :=
  (48 ≤ c.toNat && c.toNat ≤ 57) || (65 ≤ c.toNat && c.toNat ≤ 90) || (97 ≤ c.toNat && c.toNat ≤ 122) ||
    "!#$%&'*+-.^_`|~".toList.contains c

/-- What `http::Method` can hold: a standard method, or an extension of any length. -/
def MethodToken (method : Text) : Prop := method ≠ [] ∧ method.all isTokenChar = true

instance (method : Text) : Decidable (MethodToken method) :=
  inferInstanceAs (Decidable (method ≠ [] ∧ method.all isTokenChar = true))

def ACTION_LIST : Text := "list".toList
def ACTION_WRITE : Text := "write".toList
def ACTION_SYS : Text := "sys".toList
def ACTION_NONE : Text := "-".toList

def classifyRead (uri : Uri) (listing : Bool) : Option (Text × Text) :=
  [DATA, METADATA].findSome? fun action =>
    (extractMountAndPath uri.path action).map fun named =>
      (if action = METADATA ∧ listing then ACTION_LIST else action, named.2)

def classifyWrite (uri : Uri) : Option Text :=
  (["subkeys".toList, "delete".toList, "undelete".toList, "destroy".toList].findSome?
    (extractMountAndPath uri.path)).map Prod.snd

/-- What kind of request this was, and which secret path it named. -/
def classify (method : Text) (uri : Uri) : Text × Option Text :=
  let listing := isListMethod method || wantsList uri
  match classifyRead uri listing with
  | some (action, path) => (action, some path)
  | none =>
      match classifyWrite uri with
      | some path => (ACTION_WRITE, some path)
      | none =>
          if "/v1/sys/".toList <+: uri.path ∨ "/v1/auth/".toList <+: uri.path then (ACTION_SYS, none)
          else (ACTION_NONE, none)

/-- The two identifiers a line carries. -/
def identify (P : Platform) (fallback : LogKey) (headers : List (Text × Bytes)) (snapshot : Option Snapshot)
    (secretPath : Option Text) : Id × Id :=
  match snapshot, secretPath with
  | some snapshot, some path => (snapshot.pathId P path fallback, snapshot.tokenId P (presentedToken headers))
  | none, some path => (fallback.id P.hmac path, .NONE)
  | _, none => (.NONE, .NONE)

structure Observed where
  method : Text
  action : Text
  path : Id
  token : Id
  enforced : Bool
  deriving DecidableEq, Repr

def Observed.of (P : Platform) (fallback : LogKey) (snapshot : Option Snapshot) (request : Request) : Observed :=
  let (action, secretPath) := classify request.method request.uri
  let (path, token) := identify P fallback request.headers snapshot secretPath
  { method := request.method
    action
    path
    token
    enforced := snapshot.any Snapshot.enforces }

/-- What `observe` hands to the producer once the response is there. -/
def Observed.record (o : Observed) (status : UInt16) : Record := ⟨o.method, o.action, o.path, o.token, status, o.enforced⟩

/-- The line of a request: `observe` up to the producer's `render`. -/
def observedLine (P : Platform) (fallback : LogKey) (snapshot : Option Snapshot) (request : Request)
    (status : UInt16) (nowMillis sequence worker : UInt64) : Line :=
  ⟨nowMillis, sequence, worker.toNat, (Observed.of P fallback snapshot request).record status⟩

theorem MethodToken.word {method : Text} (h : MethodToken method) : Word method := by
  have hmarks : Word "!#$%&'*+-.^_`|~".toList := by decide
  intro c hc
  have htoken := List.all_eq_true.mp h.2 c hc
  simp only [isTokenChar, Bool.or_eq_true, Bool.and_eq_true, decide_eq_true_eq, List.contains_iff_mem] at htoken
  rcases htoken with hrange | hmem
  · refine ⟨?_, ?_⟩
    · rw [UInt32.le_iff_toNat_le]
      change c.toNat ≤ 127
      omega
    · rintro rfl
      have hblank : ' '.toNat = 32 := rfl
      omega
  · exact hmarks c hmem

/-- The action is one of a fixed set of words, never text of the caller. -/
theorem classify_action (method : Text) (uri : Uri) :
    (classify method uri).1 ∈ [DATA, METADATA, ACTION_LIST, ACTION_WRITE, ACTION_SYS, ACTION_NONE] := by
  unfold classify
  extract_lets listing
  cases hread : classifyRead uri listing with
  | some named =>
      obtain ⟨action, hmem, haction⟩ := List.exists_of_findSome?_eq_some hread
      obtain ⟨found, -, rfl⟩ := Option.map_eq_some_iff.mp haction
      dsimp only
      split_ifs
      · simp
      · exact List.mem_append_left [ACTION_LIST, ACTION_WRITE, ACTION_SYS, ACTION_NONE] hmem
  | none =>
      cases classifyWrite uri with
      | some path => simp
      | none =>
          dsimp only
          split_ifs <;> simp

section Identifiers
variable {P : Platform}

theorem logKey_id_printed (hmac : Hmac) (key : LogKey) (value : Text) : (key.id hmac value).Printed :=
  Id.fromBytes_printed (le_of_le_of_eq (by decide) (hmac key.raw (utf8 value)).property.symm)

theorem identify_printed (fallback : LogKey) (headers : List (Text × Bytes)) (snapshot : Option (Served P))
    (secretPath : Option Text) :
    (identify P fallback headers (snapshot.map Served.snapshot) secretPath).1.Printed ∧
      (identify P fallback headers (snapshot.map Served.snapshot) secretPath).2.Printed := by
  cases secretPath with
  | none => cases snapshot <;> exact ⟨Id.none_printed, Id.none_printed⟩
  | some path =>
      cases snapshot with
      | none => exact ⟨logKey_id_printed .., Id.none_printed⟩
      | some s =>
          refine ⟨?_, ?_⟩
          · show (s.snapshot.pathId P path fallback).Printed
            rw [build_pathId s.built]
            exact logKey_id_printed ..
          · show (s.snapshot.tokenId P (presentedToken headers)).Printed
            unfold Snapshot.tokenId
            cases s.snapshot.tokens with
            | none => exact Id.none_printed
            | some table =>
                cases presentedToken headers with
                | none => exact Id.none_printed
                | some presented =>
                    exact Id.fromBytes_printed
                      (le_of_le_of_eq (by decide) (table.tokenId P.hmac presented).property.symm)

theorem observedLine_plain (fallback : LogKey) (snapshot : Option (Served P)) {request : Request}
    (h : MethodToken request.method) (status : UInt16) (nowMillis sequence worker : UInt64) :
    (observedLine P fallback (snapshot.map Served.snapshot) request status nowMillis sequence worker).Plain := by
  have hwords : ∀ action ∈ [DATA, METADATA, ACTION_LIST, ACTION_WRITE, ACTION_SYS, ACTION_NONE], Word action := by
    decide
  have hids := identify_printed fallback request.headers snapshot (classify request.method request.uri).2
  exact
    { worker := worker.toNat_lt
      method := h.word
      action := hwords _ (classify_action request.method request.uri)
      path := hids.1
      token := hids.2 }

end Identifiers

/-- The clock, the counters, the method, the action, the status and the word for enforcement
share a hundred characters; a line is whole exactly where they suffice. -/
theorem observed_intact_iff (P : Platform) (fallback : LogKey) (snapshot : Option (Served P)) (request : Request)
    (token : MethodToken request.method) (status : UInt16) (nowMillis sequence worker : UInt64) :
    (observedLine P fallback (snapshot.map Served.snapshot) request status nowMillis sequence worker).Intact ↔
      (decimal nowMillis.toNat).length + (decimal sequence.toNat).length + (decimal worker.toNat).length +
        request.method.length + (classify request.method request.uri).1.length + (decimal status.toNat).length +
        (if (snapshot.map Served.snapshot).any Snapshot.enforces then 2 else 3) ≤ 100 :=
  Line.intact_iff_fits (observedLine_plain fallback snapshot token status nowMillis sequence worker)

/-- Every method of up to 24 characters, among them all the standard ones, leaves a whole line. -/
theorem short_method_whole (P : Platform) (fallback : LogKey) (snapshot : Option (Served P)) {request : Request}
    (token : MethodToken request.method) (short : request.method.length ≤ 24) (status : UInt16)
    (nowMillis sequence worker : UInt64) :
    (observedLine P fallback (snapshot.map Served.snapshot) request status nowMillis sequence worker).Intact := by
  have hword : ∀ n : UInt64, (decimal n.toNat).length ≤ 20 := fun n =>
    Nat.toDigits_length 10 n.toNat 20 (by decide) (n.toNat_lt.trans (by decide))
  have hstatus : (decimal status.toNat).length ≤ 5 :=
    Nat.toDigits_length 10 status.toNat 5 (by decide) (status.toNat_lt.trans (by decide))
  have hactions : ∀ action ∈ [DATA, METADATA, ACTION_LIST, ACTION_WRITE, ACTION_SYS, ACTION_NONE],
      action.length ≤ 8 := by decide
  have haction := hactions _ (classify_action request.method request.uri)
  apply (Line.intact_iff_fits (observedLine_plain fallback snapshot token status nowMillis sequence worker)).mpr
  have hauthz : (if (snapshot.map Served.snapshot).any Snapshot.enforces then 2 else 3) ≤ 3 := by
    split_ifs <;> decide
  exact Nat.add_le_add (Nat.add_le_add (Nat.add_le_add (Nat.add_le_add (Nat.add_le_add (Nat.add_le_add
    (hword nowMillis) (hword sequence)) (hword worker)) short) haction) hstatus) hauthz

def healthRequest (method : Text) : Request := ⟨method, ⟨"/v1/sys/health".toList, none⟩, []⟩

/-- The line of a request to `sys/health` in a process that has loaded nothing. -/
def healthLine (method : Text) (status : UInt16) : Line :=
  observedLine samplePlatform ⟨sampleTokenKey.raw⟩ none (healthRequest method) status 1672531200123 0 0

theorem standard_method_intact : MethodToken "GET".toList ∧ (healthLine "GET".toList 503).Intact := by
  have htoken : MethodToken "GET".toList := by decide
  refine ⟨htoken, ?_⟩
  exact (observed_intact_iff samplePlatform ⟨sampleTokenKey.raw⟩ none (healthRequest "GET".toList) htoken 503
    1672531200123 0 0).mpr (by decide +kernel)

/-- What is left of the line of a method of a hundred letters. -/
def cutLine : Text :=
  "ts=1672531200123 seq=0 worker=0 method=".toList ++ List.replicate 100 'X' ++
    " action=sys path=---------------- token=-------------".toList

/-- The token's identifier loses its end, and nothing follows it. -/
theorem long_method_cut : MethodToken (List.replicate 100 'X') ∧ ¬ (healthLine (List.replicate 100 'X') 405).Intact ∧
    (healthLine (List.replicate 100 'X') 405).asStr = utf8 cutLine ∧
    Line.parse (healthLine (List.replicate 100 'X') 405).asStr = none := by
  have hrender : (healthLine (List.replicate 100 'X') 405).render = utf8 cutLine := by decide +kernel
  have hstr : (healthLine (List.replicate 100 'X') 405).asStr = utf8 cutLine := by
    rw [Line.asStr, hrender, fromUtf8_utf8, if_pos Option.isSome_some]
  have hparse : Line.parse (healthLine (List.replicate 100 'X') 405).asStr = none := by
    rw [hstr, Line.parse, fromUtf8_utf8]
    decide +kernel
  refine ⟨by decide, ?_, hstr, hparse⟩
  intro h
  have hread := h.readBack
  rw [hparse] at hread
  cases hread

end Kallisto.Server
