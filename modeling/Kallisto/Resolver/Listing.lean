import Kallisto.Lib.Order
import Kallisto.Resolver.Snapshot
import Mathlib.Data.List.TakeWhile

/-!
What a listing reads of the table. The paths under a prefix are one interval of the sorted
paths, so the scan that starts at the first and stops at the first miss sees all of them
and nothing else; and the paths under one directory are one interval of those, so comparing
neighbours is enough to name the directory once.
-/
namespace Kallisto.Resolver
open Lib Kallisto.Crypto

/-- Between a prefix and a path under it lie only paths under it. -/
theorem prefix_convex {pre a b : Text} (hpa : pre ≤ a) (hab : a ≤ b) (h : pre <+: b) : pre <+: a := by
  induction pre generalizing a b with
  | nil => exact List.nil_prefix
  | cons c pre ih =>
      obtain ⟨t, rfl⟩ := h
      cases a with
      | nil => exact absurd (List.nil_lt_cons c pre) (not_lt.mpr hpa)
      | cons d a =>
          rw [← not_lt, List.cons_lt_cons_iff, not_or, not_and] at hpa
          rw [List.cons_append, ← not_lt, List.cons_lt_cons_iff, not_or, not_and] at hab
          obtain rfl : c = d := le_antisymm (not_lt.mp hpa.1) (not_lt.mp hab.1)
          have hpa : pre ≤ a := not_lt.mp (hpa.2 rfl)
          have hab : a ≤ pre ++ t := not_lt.mp (hab.2 rfl)
          exact List.cons_prefix_cons.mpr ⟨rfl, ih hpa hab (List.prefix_append pre t)⟩

theorem not_lt_of_starts {pre path : Text} (h : pre <+: path) : ¬ path < pre := by
  induction pre generalizing path with
  | nil => exact List.not_lt_nil path
  | cons c pre ih =>
      obtain ⟨t, rfl⟩ := h
      rw [List.cons_append, List.cons_lt_cons_iff]
      rintro (hlt | ⟨-, hlt⟩)
      · exact lt_irrefl c hlt
      · exact ih (List.prefix_append pre t) hlt

def under (pre : Text) (paths : List Text) : List Text := paths.filter fun path => (stripPrefix pre path).isSome

theorem mem_under {pre path : Text} {paths : List Text} : path ∈ under pre paths ↔ path ∈ paths ∧ pre <+: path := by
  rw [under, List.mem_filter, stripPrefix_isSome]

/-- The scan may stop at the first path that does not match. -/
theorem childrenLoop_under {pre : Text} {paths : List Text} (sorted : paths.Pairwise (· < ·))
    (above : ∀ path ∈ paths, pre ≤ path) (seen : List Text) :
    Snapshot.childrenLoop pre seen paths = Snapshot.childrenLoop pre seen (under pre paths) := by
  induction paths generalizing seen with
  | nil => rfl
  | cons path paths ih =>
      obtain ⟨hhead, htail⟩ := List.pairwise_cons.mp sorted
      cases hs : stripPrefix pre path with
      | some rest =>
          have hcons : under pre (path :: paths) = path :: under pre paths :=
            List.filter_cons_of_pos (by rw [hs]; rfl)
          rw [hcons, Snapshot.childrenLoop, Snapshot.childrenLoop, hs]
          exact ih htail (fun q hq => above q (List.mem_cons_of_mem _ hq)) _
      | none =>
          have hempty : under pre (path :: paths) = [] := by
            rw [List.eq_nil_iff_forall_not_mem]
            intro q hq
            obtain ⟨hmem, hpre⟩ := mem_under.mp hq
            have hle : path ≤ q := by
              rcases List.mem_cons.mp hmem with rfl | hrest
              · exact le_refl _
              · exact le_of_lt (hhead q hrest)
            have hpath := prefix_convex (above path List.mem_cons_self) hle hpre
            rw [← stripPrefix_isSome, hs] at hpath
            cases hpath
          rw [hempty]
          simp only [Snapshot.childrenLoop, hs]

/-- `partition_point` skips no path under the prefix. -/
theorem under_dropWhile (pre : Text) (paths : List Text) :
    under pre (paths.dropWhile (· < pre)) = under pre paths := by
  have hskipped : under pre (paths.takeWhile (· < pre)) = [] := by
    rw [List.eq_nil_iff_forall_not_mem]
    intro q hq
    obtain ⟨hmem, hpre⟩ := mem_under.mp hq
    have hlt : q < pre := by simpa using List.mem_takeWhile_imp hmem
    exact not_lt_of_starts hpre hlt
  calc under pre (paths.dropWhile (· < pre))
      = under pre (paths.takeWhile (· < pre)) ++ under pre (paths.dropWhile (· < pre)) := by
        rw [hskipped, List.nil_append]
    _ = under pre (paths.takeWhile (· < pre) ++ paths.dropWhile (· < pre)) := (List.filter_append ..).symm
    _ = under pre paths := by rw [List.takeWhile_append_dropWhile]

theorem above_dropWhile {pre : Text} {paths : List Text} (sorted : paths.Pairwise (· < ·)) :
    ∀ path ∈ paths.dropWhile (· < pre), pre ≤ path := by
  induction paths with
  | nil => simp
  | cons first paths ih =>
      obtain ⟨hhead, htail⟩ := List.pairwise_cons.mp sorted
      by_cases hlt : first < pre
      · rw [List.dropWhile_cons_of_pos (by simpa using hlt)]
        exact ih htail
      · rw [List.dropWhile_cons_of_neg (by simpa using hlt)]
        intro path hmem
        rcases List.mem_cons.mp hmem with rfl | hrest
        · exact not_lt.mp hlt
        · exact (not_lt.mp hlt).trans (le_of_lt (hhead path hrest))

theorem children_under {s : Snapshot} (sorted : s.sortedPaths.Pairwise (· < ·)) (pre : Text) :
    s.children pre = Snapshot.childrenLoop pre [] (under pre s.sortedPaths) := by
  have hdrop : (s.sortedPaths.dropWhile (· < pre)).Pairwise (· < ·) :=
    sorted.sublist (List.dropWhile_sublist _)
  rw [Snapshot.children, childrenLoop_under hdrop (above_dropWhile sorted), under_dropWhile]

/-- Two tables with the same paths under a prefix list the same children. -/
theorem children_congr {P : Platform} {view view' : View} {s s' : Snapshot} (image : Image P view s)
    (image' : Image P view' s') {pre : Text}
    (same : ∀ path, pre <+: path → ((view.secrets.get path).isSome ↔ (view'.secrets.get path).isSome)) :
    s.children pre = s'.children pre := by
  have sorted : s.sortedPaths.Pairwise (· < ·) := image.paths ▸ view.secrets.keys_sorted
  have sorted' : s'.sortedPaths.Pairwise (· < ·) := image'.paths ▸ view'.secrets.keys_sorted
  have hmem : ∀ path, path ∈ under pre s.sortedPaths ↔ path ∈ under pre s'.sortedPaths := by
    intro path
    rw [mem_under, mem_under, image.paths, image'.paths, SortedMap.mem_keys, SortedMap.mem_keys]
    exact and_congr_left (same path)
  have hunder : under pre s.sortedPaths = under pre s'.sortedPaths :=
    List.Pairwise.eq_of_mem_iff (sorted.filter _) (sorted'.filter _) hmem
  rw [children_under sorted, children_under sorted', hunder]

/-- What follows the prefix in the paths under it, in order. -/
def rests (pre : Text) (paths : List Text) : List Text := paths.filterMap (stripPrefix pre)

theorem under_eq (pre : Text) (paths : List Text) : under pre paths = (rests pre paths).map (pre ++ ·) := by
  induction paths with
  | nil => rfl
  | cons path paths ih =>
      cases hs : stripPrefix pre path with
      | none =>
          rw [rests, List.filterMap_cons_none hs, under, List.filter_cons_of_neg (by simp [hs])]
          exact ih
      | some rest =>
          rw [rests, List.filterMap_cons_some hs, under, List.filter_cons_of_pos (by simp [hs]), List.map_cons,
            ← stripPrefix_eq_some.mp hs]
          exact congrArg (path :: ·) ih

theorem mem_rests {pre rest : Text} {paths : List Text} : rest ∈ rests pre paths ↔ pre ++ rest ∈ paths := by
  simp only [rests, List.mem_filterMap, stripPrefix_eq_some, exists_eq_right]

theorem lt_of_append_lt {pre a b : Text} (h : pre ++ a < pre ++ b) : a < b := by
  induction pre with
  | nil => exact h
  | cons c pre ih =>
      rw [List.cons_append, List.cons_append, List.cons_lt_cons_iff] at h
      exact ih (h.resolve_left (lt_irrefl c)).2

theorem rests_increasing {pre : Text} {paths : List Text} (sorted : paths.Pairwise (· < ·)) :
    (rests pre paths).Pairwise (· < ·) := by
  apply List.Pairwise.filterMap (stripPrefix pre) _ sorted
  intro a a' hlt b hb b' hb'
  rw [stripPrefix_eq_some.mp hb, stripPrefix_eq_some.mp hb'] at hlt
  exact lt_of_append_lt hlt

theorem childrenLoop_eq_foldl (pre : Text) (rests seen : List Text) :
    Snapshot.childrenLoop pre seen (rests.map (pre ++ ·)) = (rests.map Snapshot.childOf).foldl pushNew seen := by
  induction rests generalizing seen with
  | nil => rfl
  | cons rest rests ih =>
      simp only [List.map_cons, List.foldl_cons, Snapshot.childrenLoop, stripPrefix_append]
      exact ih _

theorem children_eq {s : Snapshot} (sorted : s.sortedPaths.Pairwise (· < ·)) (pre : Text) :
    s.children pre = ((rests pre s.sortedPaths).map Snapshot.childOf).foldl pushNew [] := by
  rw [children_under sorted, under_eq, childrenLoop_eq_foldl]

theorem mem_children {s : Snapshot} (sorted : s.sortedPaths.Pairwise (· < ·)) {pre key : Text} :
    key ∈ s.children pre ↔ ∃ rest, pre ++ rest ∈ s.sortedPaths ∧ Snapshot.childOf rest = key := by
  simp only [children_eq sorted, mem_foldl_pushNew, List.not_mem_nil, false_or, List.mem_map, mem_rests]

theorem childOf_mem_children {s : Snapshot} (sorted : s.sortedPaths.Pairwise (· < ·)) {pre rest : Text}
    (h : pre ++ rest ∈ s.sortedPaths) : Snapshot.childOf rest ∈ s.children pre :=
  (mem_children sorted).mpr ⟨rest, h, rfl⟩

theorem childOf_leaf {rest : Text} (h : '/' ∉ rest) : Snapshot.childOf rest = rest := by
  have hdrop : rest.dropWhile (· != '/') = [] := by
    rw [List.dropWhile_eq_nil_iff]
    intro c hc
    simpa using ne_of_mem_of_not_mem hc h
  rw [Snapshot.childOf, hdrop]

theorem childOf_directory {dir : Text} (h : '/' ∉ dir) (rest : Text) :
    Snapshot.childOf (dir ++ '/' :: rest) = dir ++ ['/'] := by
  have hdir : ∀ c ∈ dir, (c != '/') = true := fun c hc => by simpa using ne_of_mem_of_not_mem hc h
  rw [Snapshot.childOf, List.dropWhile_append_of_pos hdir, List.takeWhile_append_of_pos hdir]
  simp

/-- A rest is a leaf, or a directory and something below it. -/
theorem leaf_or_directory (rest : Text) :
    '/' ∉ rest ∨ ∃ dir below, '/' ∉ dir ∧ rest = dir ++ '/' :: below := by
  by_cases h : '/' ∈ rest
  · obtain ⟨dir, below, heq, hnot⟩ := List.eq_append_cons_of_mem h
    exact .inr ⟨dir, below, hnot, heq⟩
  · exact .inl h

theorem childOf_eq {rest key : Text} : Snapshot.childOf rest = key ↔
    ('/' ∉ key ∧ rest = key) ∨ ∃ dir, key = dir ++ ['/'] ∧ '/' ∉ dir ∧ dir ++ ['/'] <+: rest := by
  constructor
  · rintro rfl
    rcases leaf_or_directory rest with hleaf | ⟨dir, below, hdir, rfl⟩
    · rw [childOf_leaf hleaf]
      exact .inl ⟨hleaf, rfl⟩
    · rw [childOf_directory hdir below]
      exact .inr ⟨dir, rfl, hdir, below, by simp⟩
  · rintro (⟨hleaf, rfl⟩ | ⟨dir, rfl, hdir, below, rfl⟩)
    · exact childOf_leaf hleaf
    · simpa using childOf_directory hdir below

theorem le_of_starts {a b : Text} (h : a <+: b) : a ≤ b := not_lt.mp (not_lt_of_starts h)

theorem childOf_le (rest : Text) : Snapshot.childOf rest ≤ rest := by
  apply le_of_starts
  rcases childOf_eq.mp (rfl : Snapshot.childOf rest = _) with ⟨-, h⟩ | ⟨dir, h, -, hpre⟩
  · exact h ▸ List.prefix_refl rest
  · rwa [h]

/-- A rest between a directory and something in it is in it too. -/
theorem childOf_mono {a b : Text} (h : a ≤ b) : Snapshot.childOf a ≤ Snapshot.childOf b := by
  rcases childOf_eq.mp (rfl : Snapshot.childOf b = _) with ⟨-, hleaf⟩ | ⟨dir, hchild, hdir, hpre⟩
  · rw [← hleaf]
    exact (childOf_le a).trans h
  · rw [hchild]
    rcases le_total a (dir ++ ['/']) with hbelow | habove
    · exact (childOf_le a).trans hbelow
    · have hin := prefix_convex habove h hpre
      exact le_of_eq (childOf_eq.mpr (.inr ⟨dir, rfl, hdir, hin⟩))

theorem children_increasing {s : Snapshot} (sorted : s.sortedPaths.Pairwise (· < ·)) (pre : Text) :
    (s.children pre).Pairwise (· < ·) := by
  rw [children_eq sorted]
  apply foldl_pushNew_increasing _ List.Pairwise.nil (by simp)
  rw [List.pairwise_map]
  exact (rests_increasing sorted).imp fun hlt => childOf_mono (le_of_lt hlt)

/-- A listing is the immediate children of the prefix, once each, in the order of their octets. -/
theorem children_exact {P : Platform} {draw : Draw} {view : View} {etag : Option Text} {s : Snapshot}
    (h : Snapshot.build P draw view etag = .ok s) (pre : Text) :
    (s.children pre).Pairwise (fun a b => utf8 a < utf8 b) ∧
    ∀ key, key ∈ s.children pre ↔
      ('/' ∉ key ∧ (view.secrets.get (pre ++ key)).isSome) ∨
      ∃ dir, key = dir ++ ['/'] ∧ '/' ∉ dir ∧
        ∃ path, (view.secrets.get path).isSome ∧ pre ++ dir ++ ['/'] <+: path := by
  obtain ⟨image, -⟩ := build_image h
  have sorted : s.sortedPaths.Pairwise (· < ·) := image.paths ▸ view.secrets.keys_sorted
  refine ⟨(children_increasing sorted pre).imp utf8_lt_of_lt, ?_⟩
  intro key
  simp only [mem_children sorted, image.paths, SortedMap.mem_keys, childOf_eq]
  constructor
  · rintro ⟨rest, hpath, ⟨hleaf, rfl⟩ | ⟨dir, hkey, hdir, hpre⟩⟩
    · exact .inl ⟨hleaf, hpath⟩
    · refine .inr ⟨dir, hkey, hdir, pre ++ rest, hpath, ?_⟩
      rw [List.append_assoc]
      exact (List.prefix_append_right_inj pre).mpr hpre
  · rintro (⟨hleaf, hpath⟩ | ⟨dir, hkey, hdir, path, hpath, below, rfl⟩)
    · exact ⟨key, hpath, .inl ⟨hleaf, rfl⟩⟩
    · refine ⟨dir ++ ['/'] ++ below, ?_, .inr ⟨dir, hkey, hdir, List.prefix_append ..⟩⟩
      simpa only [List.append_assoc] using hpath

theorem children_exact_tree : ∃ s, Snapshot.build treePlatform sampleDraw treeView none = .ok s ∧
    (s.children []).Pairwise (fun a b => utf8 a < utf8 b) ∧ "app/".toList ∈ s.children [] := by
  obtain ⟨s, hs⟩ := treeView_builds
  obtain ⟨hsorted, hmem⟩ := children_exact hs []
  exact ⟨s, hs, hsorted, (hmem _).mpr (.inr ⟨"app".toList, by decide, by decide, "app/db".toList, by decide,
    by decide⟩)⟩

end Kallisto.Resolver
