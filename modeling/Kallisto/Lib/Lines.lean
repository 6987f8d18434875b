import Kallisto.Lib.Split

/-!
A text read line by line, as `str::lines` does, and a line cut at its last blank.
-/
namespace Lib

def stripCr (line : Text) : Text := if line.getLast? = some '\r' then line.dropLast else line

/-- Each piece that a newline ends is a line; so is what follows the last newline, if anything. -/
def lines (t : Text) : List Text :=
  let pieces := t.splitOn '\n'
  pieces.dropLast.map stripCr ++ pieces.getLast?.toList.filter (· ≠ [])

theorem stripCr_of_not_mem {line : Text} (h : '\r' ∉ line) : stripCr line = line :=
  if_neg fun hlast => h (List.mem_of_getLast? hlast)

theorem lines_cons_strip {line : Text} (hn : '\n' ∉ line) (rest : Text) :
    lines (line ++ '\n' :: rest) = stripCr line :: lines rest := by
  unfold lines
  extract_lets pieces pieces'
  have hpieces : pieces = line :: pieces' := List.splitOn_append_cons_self_of_not_mem hn rest
  have hne : pieces' ≠ [] := List.splitOn_ne_nil '\n' rest
  rw [hpieces, List.dropLast_cons_of_ne_nil hne, List.map_cons, List.cons_append, List.getLast?_cons_of_ne_nil hne]

theorem lines_cons {line : Text} (hn : '\n' ∉ line) (hr : '\r' ∉ line) (rest : Text) :
    lines (line ++ '\n' :: rest) = line :: lines rest := by
  rw [lines_cons_strip hn, stripCr_of_not_mem hr]

theorem stripCr_shorter (line : Text) : stripCr line <+: line := by
  unfold stripCr
  split_ifs
  · exact List.dropLast_prefix line
  · exact List.prefix_refl line

/-- `rsplit_once`: the text before the last `c` and the text after it. -/
def rsplitOnce (c : Char) (t : Text) : Option (Text × Text) :=
  match t.reverse.dropWhile (· != c) with
  | [] => none
  | _ :: before => some (before.reverse, (t.reverse.takeWhile (· != c)).reverse)

theorem rsplitOnce_append {c : Char} {after : Text} (h : c ∉ after) (before : Text) :
    rsplitOnce c (before ++ c :: after) = some (before, after) := by
  have hne : ∀ x ∈ after.reverse, (x != c) = true := by
    intro x hx
    rw [bne_iff_ne]
    rintro rfl
    exact h (List.mem_reverse.mp hx)
  have hrev : (before ++ c :: after).reverse = after.reverse ++ c :: before.reverse := by simp
  unfold rsplitOnce
  rw [hrev, List.dropWhile_append_of_pos hne, List.takeWhile_append_of_pos hne]
  simp

end Lib
