import Kallisto.Lib.Split

/-!
The parsers of caller-supplied text: method, URI, query string, headers. A path is the raw
text the URI carries, never decoded.
-/
namespace Kallisto.Server
open Lib

structure Uri where
  path : Text
  query : Option Text
  deriving DecidableEq, Repr

/-- Header names are in lower case; a name may occur more than once. -/
structure Request where
  method : Text
  uri : Uri
  headers : List (Text × Bytes)
  deriving DecidableEq, Repr

/-- `HeaderMap::get`: the first value of the name. -/
def headerGet (headers : List (Text × Bytes)) (name : Text) : Option Bytes :=
  (headers.find? fun h => h.1 = name).map Prod.snd

/-- `HeaderValue::to_str`: visible ASCII, space and tab only. -/
def headerStr (value : Bytes) : Option Text :=
  if value.all fun b => (32 ≤ b && b < 127) || b == 9 then some (ascii value) else none

def TOKEN_HEADER : Text := "x-vault-token".toList
def AUTHORIZATION : Text := "authorization".toList

def presentedToken (headers : List (Text × Bytes)) : Option Text :=
  match (headerGet headers TOKEN_HEADER).bind headerStr with
  | some (c :: token) => some (c :: token)
  | _ =>
      ((headerGet headers AUTHORIZATION).bind headerStr).bind (stripPrefix "Bearer ".toList)
        |>.filter (· ≠ [])

def V1 : Text := "/v1/".toList

def policyPath (uri : Uri) : Text := (stripPrefix V1 uri.path).getD uri.path

def extractMountAndPath (uriPath expectedAction : Text) : Option (Text × Text) :=
  match stripPrefix V1 uriPath with
  | none => none
  | some rest =>
      match splitn '/' 3 rest with
      | [mount, action, secretPath] => if action ≠ expectedAction then none else some (mount, secretPath)
      | _ => none

/-- `str::parse::<u64>`: an optional plus sign, then digits, and no overflow. -/
def parseU64 (text : Text) : Option UInt64 :=
  let digits := match text with
    | '+' :: rest => rest
    | _ => text
  if digits ≠ [] ∧ digits.all Char.isDigit then
    let n := digits.foldl (fun n c => n * 10 + (c.toNat - '0'.toNat)) 0
    if n < 2 ^ 64 then some (UInt64.ofNat n) else none
  else none

def versionParam (uri : Uri) : Option UInt64 := do
  let query ← uri.query
  let rest ← afterFirst "version=".toList query
  parseU64 (rest.takeWhile (· != '&'))

def wantsList (uri : Uri) : Bool := uri.query.any fun q => (afterFirst "list=true".toList q).isSome

def isListMethod (method : Text) : Bool := toAsciiLower method = "list".toList

def isReadMethod (method : Text) : Bool := method = "GET".toList ∨ method = "HEAD".toList

/-- The second cut is at the first slash of what the first left. -/
theorem splitn_cons {n : Nat} {head tail : Text} (h : '/' ∉ head) :
    splitn '/' (n + 2) (head ++ '/' :: tail) = head :: splitn '/' (n + 1) tail := by
  have hdrop : (head ++ '/' :: tail).dropWhile (· != '/') = '/' :: tail := by
    rw [List.dropWhile_append_of_pos (by
      intro c hc
      simpa using fun heq : c = '/' => h (heq ▸ hc))]
    rfl
  have htake : (head ++ '/' :: tail).takeWhile (· != '/') = head := by
    rw [List.takeWhile_append_of_pos (by
      intro c hc
      simpa using fun heq : c = '/' => h (heq ▸ hc))]
    simp
  rw [splitn, hdrop, htake]

theorem splitn_uncons {n : Nat} {s head next : Text} {pieces : List Text}
    (h : splitn '/' (n + 2) s = head :: next :: pieces) :
    '/' ∉ head ∧ ∃ tail, s = head ++ '/' :: tail ∧ splitn '/' (n + 1) tail = next :: pieces := by
  rw [splitn] at h
  rcases first_sep '/' s with ⟨-, hd⟩ | ⟨tail, hd, hs⟩
  · simp [hd] at h
  · rw [hd] at h
    simp only [List.cons.injEq] at h
    obtain ⟨rfl, hrest⟩ := h
    refine ⟨?_, tail, hs, hrest⟩
    intro hmem
    simpa using List.mem_takeWhile_imp hmem

/-- The two slicers agree: what is looked up is what is authorised. -/
theorem extract_eq_some {uriPath action mount path : Text} (ha : '/' ∉ action) :
    extractMountAndPath uriPath action = some (mount, path) ↔
      '/' ∉ mount ∧ uriPath = V1 ++ (mount ++ '/' :: (action ++ '/' :: path)) := by
  unfold extractMountAndPath
  constructor
  · intro h
    cases hs : stripPrefix V1 uriPath with
    | none => simp [hs] at h
    | some rest =>
        simp only [hs] at h
        split at h
        · rename_i m a p hsplit
          split_ifs at h with hne
          cases h
          obtain ⟨hm, tail, hrest, htail⟩ := splitn_uncons hsplit
          obtain ⟨-, tail', htail', hp⟩ := splitn_uncons htail
          have hp : tail' = path := by simpa [splitn] using hp
          rw [stripPrefix_eq_some.mp hs, hrest, htail', hp, not_not.mp hne]
          exact ⟨hm, rfl⟩
        · cases h
  · rintro ⟨hm, rfl⟩
    have hcut : splitn '/' 3 (mount ++ '/' :: (action ++ '/' :: path)) = [mount, action, path] :=
      (splitn_cons hm).trans (congrArg (mount :: ·) (splitn_cons ha))
    simp only [stripPrefix_append, hcut, ne_eq, not_true_eq_false, if_false]

end Kallisto.Server
