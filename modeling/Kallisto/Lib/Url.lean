import Kallisto.Lib.Split

/-!
An absolute URL cut into its components: the scheme, the host with its port, the path and the query.
-/
namespace Lib

structure UrlParts where
  scheme : Text
  host : Text
  path : Text
  query : Text
  deriving DecidableEq

/-- The fragment is dropped. -/
def splitUrl (text : Text) : Option UrlParts := do
  let rest ← stripPrefix "://".toList (text.dropWhile (· != ':'))
  let rest := rest.takeWhile (· != '#')
  let afterHost := rest.dropWhile fun c => c != '/' && c != '?'
  return {
    scheme := text.takeWhile (· != ':')
    host := rest.takeWhile fun c => c != '/' && c != '?'
    path := afterHost.takeWhile (· != '?')
    query := (afterHost.dropWhile (· != '?')).drop 1 }

/-- A text that stops a scan only where the next begins. -/
theorem scan_append {p : Char → Bool} {before : Text} (h : ∀ c ∈ before, p c = true) {c : Char} (hc : p c = false)
    (after : Text) : (before ++ c :: after).takeWhile p = before ∧ (before ++ c :: after).dropWhile p = c :: after := by
  constructor
  · rw [List.takeWhile_append_of_pos h, List.takeWhile_cons_of_neg (by simp [hc]), List.append_nil]
  · rw [List.dropWhile_append_of_pos h, List.dropWhile_cons_of_neg (by simp [hc])]

theorem splitUrl_format {scheme host path query : Text} (hscheme : ':' ∉ scheme)
    (hhost : ∀ c ∈ host, c ≠ '/' ∧ c ≠ '?' ∧ c ≠ '#') (hpath : ∀ c ∈ path, c ≠ '?' ∧ c ≠ '#') (hquery : '#' ∉ query) :
    splitUrl (scheme ++ ("://".toList ++ (host ++ ('/' :: path ++ '?' :: query)))) =
      some ⟨scheme, host, '/' :: path, query⟩ := by
  have hbefore : ∀ c ∈ scheme, (c != ':') = true := fun c hc => bne_iff_ne.mpr (ne_of_mem_of_not_mem hc hscheme)
  have hauthority : ∀ c ∈ host, (c != '/' && c != '?') = true := by
    intro c hc
    obtain ⟨hslash, hmark, -⟩ := hhost c hc
    simp [hslash, hmark]
  have hafter : ∀ c ∈ '/' :: path, (c != '?') = true := by
    intro c hc
    rcases List.mem_cons.mp hc with rfl | hc
    · rfl
    · exact bne_iff_ne.mpr (hpath c hc).1
  have hwhole : ∀ c ∈ host ++ ('/' :: path ++ '?' :: query), (c != '#') = true := by
    intro c hc
    simp only [List.mem_append, List.mem_cons] at hc
    rcases hc with hc | (rfl | hc) | rfl | hc
    · exact bne_iff_ne.mpr (hhost c hc).2.2
    · rfl
    · exact bne_iff_ne.mpr (hpath c hc).2
    · rfl
    · exact bne_iff_ne.mpr (ne_of_mem_of_not_mem hc hquery)
  obtain ⟨htake, hdrop⟩ := scan_append hbefore (c := ':') rfl ("//".toList ++ (host ++ ('/' :: path ++ '?' :: query)))
  obtain ⟨hhost', hrest⟩ := scan_append hauthority (c := '/') rfl (path ++ '?' :: query)
  obtain ⟨hpath', hmark⟩ := scan_append hafter (c := '?') rfl query
  have hstrip : stripPrefix "://".toList (':' :: ("//".toList ++ (host ++ ('/' :: path ++ '?' :: query)))) =
      some (host ++ ('/' :: path ++ '?' :: query)) := rfl
  unfold splitUrl
  have hcolon : scheme ++ ("://".toList ++ (host ++ ('/' :: path ++ '?' :: query))) =
      scheme ++ ':' :: ("//".toList ++ (host ++ ('/' :: path ++ '?' :: query))) := rfl
  rw [hcolon, hdrop, htake, hstrip]
  simp only [Option.bind_eq_bind, Option.bind_some, List.takeWhile_eq_self_iff.mpr hwhole]
  rw [List.cons_append] at hpath' hmark
  rw [List.cons_append, hhost', hrest, hpath', hmark]
  rfl

end Lib
