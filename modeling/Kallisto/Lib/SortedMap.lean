import Mathlib.Data.List.Forall2
import Mathlib.Data.List.Lex
import Mathlib.Data.List.Nodup
import Mathlib.Data.List.Pairwise
import Mathlib.Order.Lattice

/-!
Finite maps as strictly increasing association lists: iteration order is key order, a key
occurs once, and two maps with the same bindings are the same list.
-/
namespace Lib

theorem mapM_eq_some {α β : Type} {f : α → Option β} {l : List α} {l' : List β} :
    l.mapM f = some l' ↔ List.Forall₂ (fun a b => f a = some b) l l' := by
  induction l generalizing l' with
  | nil => simp [eq_comm]
  | cons a l ih =>
      simp only [List.mapM_cons, Option.bind_eq_bind, Option.bind_eq_some_iff, ih, List.forall₂_cons_left_iff]
      simp [eq_comm]

structure SortedMap (κ υ : Type) [LT κ] where
  entries : List (κ × υ)
  sorted : entries.Pairwise fun a b => a.1 < b.1

namespace SortedMap
variable {κ υ : Type} [LinearOrder κ]

def empty : SortedMap κ υ := ⟨[], List.Pairwise.nil⟩

def keys (m : SortedMap κ υ) : List κ := m.entries.map Prod.fst

def get (m : SortedMap κ υ) (k : κ) : Option υ :=
  (m.entries.find? fun e => e.1 = k).map Prod.snd

def erase (m : SortedMap κ υ) (k : κ) : SortedMap κ υ :=
  ⟨m.entries.filter fun e => e.1 ≠ k, m.sorted.filter _⟩

def insertEntry (k : κ) (v : υ) : List (κ × υ) → List (κ × υ)
  | [] => [(k, v)]
  | (a, w) :: l =>
      if k < a then (k, v) :: (a, w) :: l
      else if a < k then (a, w) :: insertEntry k v l
      else (k, v) :: l

theorem mem_insertEntry {k : κ} {v : υ} {l : List (κ × υ)} {e : κ × υ}
    (h : e ∈ insertEntry k v l) : e = (k, v) ∨ e ∈ l := by
  induction l with
  | nil => simpa [insertEntry] using h
  | cons f l ih =>
      obtain ⟨a, w⟩ := f
      simp only [insertEntry] at h
      split_ifs at h
      · simpa using h
      · rcases List.mem_cons.mp h with rfl | hl
        · exact .inr List.mem_cons_self
        · exact (ih hl).imp_right (List.mem_cons_of_mem _)
      · exact (List.mem_cons.mp h).imp_right (List.mem_cons_of_mem _)

theorem insertEntry_sorted (k : κ) (v : υ) {l : List (κ × υ)}
    (h : l.Pairwise fun a b => a.1 < b.1) :
    (insertEntry k v l).Pairwise fun a b => a.1 < b.1 := by
  induction l with
  | nil => exact List.pairwise_singleton _ _
  | cons f l ih =>
      obtain ⟨a, w⟩ := f
      obtain ⟨hhead, htail⟩ := List.pairwise_cons.mp h
      simp only [insertEntry]
      split_ifs with hlt hgt
      · refine List.pairwise_cons.mpr ⟨?_, h⟩
        intro e he
        rcases List.mem_cons.mp he with rfl | hl
        · exact hlt
        · exact lt_trans hlt (hhead e hl)
      · refine List.pairwise_cons.mpr ⟨?_, ih htail⟩
        intro e he
        rcases mem_insertEntry he with rfl | hl
        · exact hgt
        · exact hhead e hl
      · obtain rfl : k = a := le_antisymm (not_lt.mp hgt) (not_lt.mp hlt)
        exact List.pairwise_cons.mpr ⟨hhead, htail⟩

def insert (m : SortedMap κ υ) (k : κ) (v : υ) : SortedMap κ υ :=
  ⟨insertEntry k v m.entries, insertEntry_sorted k v m.sorted⟩

/-- Insertion from left to right: of two bindings of one key the later stays. -/
def ofList (l : List (κ × υ)) : SortedMap κ υ :=
  l.foldl (fun m e => m.insert e.1 e.2) empty

theorem keys_sorted (m : SortedMap κ υ) : m.keys.Pairwise (· < ·) :=
  List.pairwise_map.mpr m.sorted

theorem key_unique (m : SortedMap κ υ) {k : κ} {v w : υ} (hv : (k, v) ∈ m.entries)
    (hw : (k, w) ∈ m.entries) : v = w := by
  have hn : m.keys.Nodup := m.keys_sorted.imp fun h => h.ne
  exact (Prod.mk.inj (List.inj_on_of_nodup_map hn hv hw rfl)).2

theorem get_eq_some {m : SortedMap κ υ} {k : κ} {v : υ} :
    m.get k = some v ↔ (k, v) ∈ m.entries := by
  simp only [get, Option.map_eq_some_iff]
  constructor
  · rintro ⟨e, he, rfl⟩
    have hk : e.1 = k := by simpa using List.find?_some he
    simpa only [← hk] using List.mem_of_find?_eq_some he
  · intro h
    have hs : (m.entries.find? fun e => e.1 = k).isSome := by
      rw [List.find?_isSome]
      exact ⟨_, h, by simp⟩
    obtain ⟨e, he⟩ := Option.isSome_iff_exists.mp hs
    have hk : e.1 = k := by simpa using List.find?_some he
    refine ⟨e, he, m.key_unique (k := k) ?_ h⟩
    simpa only [← hk] using List.mem_of_find?_eq_some he

theorem get_eq_none {m : SortedMap κ υ} {k : κ} : m.get k = none ↔ k ∉ m.keys := by
  rw [Option.eq_none_iff_forall_ne_some]
  simp only [ne_eq, get_eq_some, keys, List.mem_map, Prod.exists, exists_and_right, exists_eq_right,
    not_exists]

theorem mem_keys {m : SortedMap κ υ} {k : κ} : k ∈ m.keys ↔ (m.get k).isSome := by
  rw [← Option.ne_none_iff_isSome, ne_eq, get_eq_none, not_not]

theorem insertEntry_mem {k : κ} {v : υ} (l : List (κ × υ)) : (k, v) ∈ insertEntry k v l := by
  induction l with
  | nil => exact List.mem_cons_self
  | cons f l ih =>
      obtain ⟨a, w⟩ := f
      simp only [insertEntry]
      split_ifs
      · exact List.mem_cons_self
      · exact List.mem_cons_of_mem _ ih
      · exact List.mem_cons_self

theorem mem_insertEntry_of_ne {k : κ} {v : υ} {l : List (κ × υ)} {e : κ × υ} (h : e ∈ l) (hk : e.1 ≠ k) :
    e ∈ insertEntry k v l := by
  induction l with
  | nil => cases h
  | cons f l ih =>
      obtain ⟨a, w⟩ := f
      simp only [insertEntry]
      split_ifs with hlt hgt
      · exact List.mem_cons_of_mem _ h
      · rcases List.mem_cons.mp h with rfl | hl
        · exact List.mem_cons_self
        · exact List.mem_cons_of_mem _ (ih hl)
      · rcases List.mem_cons.mp h with rfl | hl
        · exact absurd (le_antisymm (not_lt.mp hlt) (not_lt.mp hgt)) hk
        · exact List.mem_cons_of_mem _ hl

@[simp] theorem get_empty (k : κ) : (empty : SortedMap κ υ).get k = none := rfl

theorem get_insert_self (m : SortedMap κ υ) (k : κ) (v : υ) : (m.insert k v).get k = some v :=
  get_eq_some.mpr (insertEntry_mem m.entries)

theorem get_insert_of_ne (m : SortedMap κ υ) {k k' : κ} (h : k' ≠ k) (v : υ) :
    (m.insert k v).get k' = m.get k' := by
  apply Option.ext
  intro w
  rw [get_eq_some, get_eq_some]
  constructor
  · intro hm
    rcases mem_insertEntry hm with heq | hold
    · exact absurd (congrArg Prod.fst heq) h
    · exact hold
  · exact fun hm => mem_insertEntry_of_ne hm h

theorem get_erase_self (m : SortedMap κ υ) (k : κ) : (m.erase k).get k = none := by
  rw [get_eq_none]
  intro hk
  obtain ⟨e, he, heq⟩ := List.mem_map.mp hk
  exact of_decide_eq_true (List.mem_filter.mp he).2 heq

theorem get_erase_of_ne (m : SortedMap κ υ) {k k' : κ} (h : k' ≠ k) : (m.erase k).get k' = m.get k' := by
  apply Option.ext
  intro w
  rw [get_eq_some, get_eq_some]
  exact ⟨fun he => (List.mem_filter.mp he).1, fun he => List.mem_filter.mpr ⟨he, decide_eq_true h⟩⟩

@[ext] theorem ext {m n : SortedMap κ υ} (h : m.entries = n.entries) : m = n := by
  cases m; cases n; cases h; rfl

def mapValues {ω : Type} (f : υ → ω) (m : SortedMap κ υ) : SortedMap κ ω :=
  ⟨m.entries.map fun e => (e.1, f e.2), List.pairwise_map.mpr m.sorted⟩

theorem mapValues_id (m : SortedMap κ υ) : m.mapValues id = m := ext (List.map_id _)

theorem keys_mapValues {ω : Type} (f : υ → ω) (m : SortedMap κ υ) : (m.mapValues f).keys = m.keys := by
  simp [keys, mapValues]

theorem get_mapValues {ω : Type} (f : υ → ω) {m : SortedMap κ υ} {k : κ} {v : υ} (h : m.get k = some v) :
    (m.mapValues f).get k = some (f v) :=
  get_eq_some.mpr (List.mem_map.mpr ⟨(k, v), get_eq_some.mp h, rfl⟩)

theorem insertEntry_last {k : κ} {v : υ} {l : List (κ × υ)} (h : ∀ e ∈ l, e.1 < k) :
    insertEntry k v l = l ++ [(k, v)] := by
  induction l with
  | nil => rfl
  | cons f l ih =>
      obtain ⟨a, w⟩ := f
      have ha : a < k := h (a, w) List.mem_cons_self
      rw [insertEntry, if_neg (lt_asymm ha), if_pos ha, ih fun e he => h e (List.mem_cons_of_mem _ he)]
      rfl

/-- Entries that come in order stay as they are. -/
theorem foldl_insert {l : List (κ × υ)} {m : SortedMap κ υ}
    (h : (m.entries ++ l).Pairwise fun a b => a.1 < b.1) :
    (l.foldl (fun m e => m.insert e.1 e.2) m).entries = m.entries ++ l := by
  induction l generalizing m with
  | nil => rw [List.foldl_nil, List.append_nil]
  | cons e l ih =>
      have hentries : (m.insert e.1 e.2).entries = m.entries ++ [e] :=
        insertEntry_last fun a ha => (List.pairwise_append.mp h).2.2 a ha e List.mem_cons_self
      have hcat : m.entries ++ e :: l = (m.insert e.1 e.2).entries ++ l := by
        rw [hentries, List.append_assoc]
        rfl
      rw [List.foldl_cons, hcat]
      exact ih (hcat ▸ h)

theorem ofList_sorted {l : List (κ × υ)} (h : l.Pairwise fun a b => a.1 < b.1) : ofList l = ⟨l, h⟩ :=
  ext (foldl_insert h)

theorem mem_ofList {l : List (κ × υ)} {e : κ × υ} (h : e ∈ (ofList l).entries) : e ∈ l := by
  have hfold : ∀ (l : List (κ × υ)) (m : SortedMap κ υ),
      e ∈ (l.foldl (fun m e => m.insert e.1 e.2) m).entries → e ∈ m.entries ∨ e ∈ l := by
    intro l
    induction l with
    | nil => exact fun m hm => .inl hm
    | cons f l ih =>
        intro m hm
        rcases ih (m.insert f.1 f.2) hm with hins | hl
        · rcases mem_insertEntry hins with rfl | hold
          · exact .inr List.mem_cons_self
          · exact .inl hold
        · exact .inr (List.mem_cons_of_mem _ hl)
  rcases hfold l empty h with hempty | hl
  · cases hempty
  · exact hl

section Related
variable {ω : Type}

/-- Two bindings of one key, with related values. -/
def Bound (R : υ → ω → Prop) (a : κ × υ) (b : κ × ω) : Prop := a.1 = b.1 ∧ R a.2 b.2

theorem insertEntry_related {R : υ → ω → Prop} {l : List (κ × υ)} {l' : List (κ × ω)}
    (h : List.Forall₂ (Bound R) l l') (k : κ) {v : υ} {w : ω} (hv : R v w) :
    List.Forall₂ (Bound R) (insertEntry k v l) (insertEntry k w l') := by
  induction h with
  | nil => exact .cons ⟨rfl, hv⟩ .nil
  | @cons a b l l' hab hl ih =>
      obtain ⟨ka, va⟩ := a
      obtain ⟨kb, vb⟩ := b
      obtain ⟨rfl, hvals⟩ : ka = kb ∧ R va vb := hab
      simp only [insertEntry]
      split_ifs
      · exact .cons ⟨rfl, hv⟩ (.cons ⟨rfl, hvals⟩ hl)
      · exact .cons ⟨rfl, hvals⟩ ih
      · exact .cons ⟨rfl, hv⟩ hl

theorem ofList_related {R : υ → ω → Prop} {l : List (κ × υ)} {l' : List (κ × ω)}
    (h : List.Forall₂ (Bound R) l l') : List.Forall₂ (Bound R) (ofList l).entries (ofList l').entries := by
  have hfold : ∀ (m : SortedMap κ υ) (m' : SortedMap κ ω), List.Forall₂ (Bound R) m.entries m'.entries →
      List.Forall₂ (Bound R) (l.foldl (fun m e => m.insert e.1 e.2) m).entries
        (l'.foldl (fun m e => m.insert e.1 e.2) m').entries := by
    induction h with
    | nil => exact fun _ _ hm => hm
    | @cons a b l l' hab hl ih =>
        intro m m' hm
        obtain ⟨hkey, hval⟩ := hab
        refine ih (m.insert a.1 a.2) (m'.insert b.1 b.2) ?_
        rw [← hkey]
        exact insertEntry_related hm a.1 hval
  exact hfold empty empty .nil

theorem get_related {R : υ → ω → Prop} {m : SortedMap κ υ} {m' : SortedMap κ ω}
    (h : List.Forall₂ (Bound R) m.entries m'.entries) {k : κ} {v : υ} (hv : m.get k = some v) :
    ∃ w, m'.get k = some w ∧ R v w := by
  obtain ⟨i, hi, hentry⟩ := List.getElem_of_mem (get_eq_some.mp hv)
  have hi' : i < m'.entries.length := h.length_eq ▸ hi
  obtain ⟨hkey, hval⟩ : Bound R m.entries[i] m'.entries[i] := h.get hi hi'
  rw [hentry] at hkey hval
  refine ⟨m'.entries[i].2, get_eq_some.mpr ?_, hval⟩
  rw [show k = m'.entries[i].1 from hkey]
  exact List.getElem_mem hi'

/-- Every value by its replacement, or nothing. -/
def traverse (f : υ → Option ω) (m : SortedMap κ υ) : Option (SortedMap κ ω) :=
  (m.entries.mapM fun e => (f e.2).map (e.1, ·)).map ofList

theorem traverse_eq_some {f : υ → Option ω} {m : SortedMap κ υ} {m' : SortedMap κ ω} : m.traverse f = some m' ↔
    List.Forall₂ (Bound fun a b => f a = some b) m.entries m'.entries := by
  have hbound : ∀ e e', (f e.2).map (e.1, ·) = some e' ↔ Bound (κ := κ) (fun a b => f a = some b) e e' := by
    rintro ⟨k, v⟩ ⟨k', w⟩
    simp [Bound, and_comm]
  simp only [traverse, Option.map_eq_some_iff, mapM_eq_some, hbound]
  constructor
  · rintro ⟨l, hl, rfl⟩
    have hrelated := ofList_related hl
    rwa [ofList_sorted m.sorted] at hrelated
  · intro h
    exact ⟨m'.entries, h, ofList_sorted m'.sorted⟩

theorem traverse_isSome {f : υ → Option ω} {m : SortedMap κ υ} :
    (m.traverse f).isSome ↔ ∀ e ∈ m.entries, (f e.2).isSome := by
  rw [traverse, Option.isSome_map]
  induction m.entries with
  | nil => simp
  | cons e l ih =>
      rw [List.forall_mem_cons, ← ih, List.mapM_cons]
      cases f e.2 <;> cases l.mapM fun e => (f e.2).map (e.1, ·) <;> simp

theorem traverse_eq_self {f : υ → Option υ} {m : SortedMap κ υ} :
    m.traverse f = some m ↔ ∀ e ∈ m.entries, f e.2 = some e.2 := by
  simp [traverse_eq_some, List.forall₂_same, Bound]

end Related

end SortedMap
end Lib
