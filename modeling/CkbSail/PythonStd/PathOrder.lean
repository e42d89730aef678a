import CkbSail.PythonStd.PurePath
import Mathlib.Data.List.Sort
import Mathlib.Data.List.Lex
import Mathlib.Data.String.Basic
import Mathlib.Data.Char

/-!
# Names ordered as strings and as paths

Python compares strings character by character and pure paths component by
component.  The two orders part where a component ends on one side and goes on
with a character before the slash on the other.
-/

namespace CkbSail.PythonStd

/-- The name that a path is written as. -/
def slashed (path : Path) : String := "/".intercalate path

/-- A component of a path: it has no slash. -/
def Component (part : String) : Prop := '/' ∉ part.toList

/-- `left` comes before `right` as a path, but after it as a string. -/
def Misordered : Path → Path → Prop
  | a :: left, b :: right =>
      (a = b ∧ Misordered left right) ∨
        (left ≠ [] ∧ ∃ c more, b.toList = a.toList ++ c :: more ∧ c < '/')
  | _, _ => False

/-- What follows a first component. -/
def tail (path : Path) : List Char :=
  if path = [] then [] else '/' :: (slashed path).toList

theorem toList_slashed (path : Path) :
    (slashed path).toList = ['/'].intercalate (path.map String.toList) := by
  rw [slashed, String.toList_intercalate]
  rfl

theorem toList_slashed_cons (part : String) (path : Path) :
    (slashed (part :: path)).toList = part.toList ++ tail path := by
  rw [toList_slashed, tail]
  cases path with
  | nil => simp [List.intercalate_singleton]
  | cons head path =>
      rw [if_neg (List.cons_ne_nil _ _), toList_slashed, List.map_cons, List.map_cons,
        List.intercalate_cons_cons]
      simp

theorem slashed_injective {left right : Path} (hleft : ∀ part ∈ left, Component part)
    (hright : ∀ part ∈ right, Component part) (hne : left ≠ []) (hne' : right ≠ [])
    (h : slashed left = slashed right) : left = right := by
  have hsplit : ∀ {path : Path}, (∀ part ∈ path, Component part) → path ≠ [] →
      (slashed path).toList.splitOn '/' = path.map String.toList := by
    intro path hpath hpathne
    rw [toList_slashed, List.splitOn_intercalate]
    · intro piece hpiece
      obtain ⟨part, hpart, rfl⟩ := List.mem_map.1 hpiece
      exact hpath part hpart
    · simpa using hpathne
  have hmap : left.map String.toList = right.map String.toList := by
    rw [← hsplit hleft hne, ← hsplit hright hne', h]
  exact List.map_injective_iff.2 (fun _ _ => String.toList_injective) hmap

/-- Of two texts in order, either the first is the start of the second, or they
stay in order whatever follows. -/
theorem append_lt_or_prefix {a b : List Char} (h : a < b) :
    (∀ u v, a ++ u < b ++ v) ∨ ∃ c more, b = a ++ c :: more := by
  induction a generalizing b with
  | nil =>
      cases b with
      | nil => exact absurd h (lt_irrefl _)
      | cons c more => exact Or.inr ⟨c, more, rfl⟩
  | cons x a ih =>
      cases b with
      | nil => exact absurd h (List.not_lt_nil _)
      | cons y b =>
          rcases List.cons_lt_cons_iff.1 h with hxy | ⟨rfl, htail⟩
          · exact Or.inl fun u v => List.cons_lt_cons_iff.2 (Or.inl hxy)
          · rcases ih htail with hlt | ⟨c, more, rfl⟩
            · exact Or.inl fun u v => List.cons_lt_cons_iff.2 (Or.inr ⟨rfl, hlt u v⟩)
            · exact Or.inr ⟨c, more, rfl⟩

theorem append_lt_append_iff (a u v : List Char) : a ++ u < a ++ v ↔ u < v := by
  induction a with
  | nil => rfl
  | cons x a ih =>
      rw [List.cons_append, List.cons_append, List.cons_lt_cons_iff, ih]
      simp

theorem tail_of_ne_nil {path : Path} (h : path ≠ []) : tail path = '/' :: (slashed path).toList :=
  if_neg h

theorem not_lt_tail_nil (chars : List Char) : ¬chars < tail [] := List.not_lt_nil _

/-- Two paths in order are written in the other order exactly when they are misordered. -/
theorem slashed_lt_iff_misordered {left right : Path} (hright : ∀ part ∈ right, Component part)
    (hlt : left < right) : slashed right < slashed left ↔ Misordered left right := by
  induction left generalizing right with
  | nil =>
      rw [String.lt_iff, Misordered]
      · exact iff_of_false (List.not_lt_nil _) id
      · simp
  | cons a left ih =>
      cases right with
      | nil => exact absurd hlt (List.not_lt_nil _)
      | cons b right =>
          rw [String.lt_iff, toList_slashed_cons, toList_slashed_cons, Misordered]
          rcases List.cons_lt_cons_iff.1 hlt with hab | ⟨rfl, hrest⟩
          · have hne : a ≠ b := hab.ne
            rcases append_lt_or_prefix (String.lt_iff.1 hab) with hstay | ⟨c, more, hfront⟩
            · refine iff_of_false (hstay _ _).asymm ?_
              rintro (⟨heq, -⟩ | ⟨-, c, more, hfront, hc⟩)
              · exact hne heq
              · have hcontra := hstay ['/'] []
                rw [hfront, List.append_assoc, append_lt_append_iff] at hcontra
                rcases List.cons_lt_cons_iff.1 hcontra with hlarge | ⟨rfl, -⟩
                · exact hc.asymm hlarge
                · exact lt_irrefl _ hc
            · have hslash : c ≠ '/' := by
                rintro rfl
                exact hright b List.mem_cons_self (by rw [hfront]; simp)
              rw [hfront, List.append_assoc, append_lt_append_iff, List.cons_append]
              constructor
              · intro h
                have hleft : left ≠ [] := by
                  rintro rfl
                  exact not_lt_tail_nil _ h
                rw [tail_of_ne_nil hleft] at h
                rcases List.cons_lt_cons_iff.1 h with hc | ⟨heq, -⟩
                · exact Or.inr ⟨hleft, c, more, rfl, hc⟩
                · exact absurd heq hslash
              · rintro (⟨heq, -⟩ | ⟨hleft, c', more', hsame, hc⟩)
                · exact absurd heq hne
                · obtain ⟨rfl, -⟩ := List.cons.inj (List.append_cancel_left hsame)
                  rw [tail_of_ne_nil hleft]
                  exact List.cons_lt_cons_iff.2 (Or.inl hc)
          · have hrightne : right ≠ [] := by
              rintro rfl
              exact List.not_lt_nil _ hrest
            have hself : ∀ c more, a.toList ≠ a.toList ++ c :: more := by
              intro c more h
              have hlength := congrArg List.length h
              simp at hlength
            have hrestright := ih (fun part hpart => hright part (List.mem_cons_of_mem _ hpart))
              hrest
            rw [append_lt_append_iff, tail_of_ne_nil hrightne]
            cases left with
            | nil =>
                refine iff_of_false (not_lt_tail_nil _) ?_
                rintro (⟨-, h⟩ | ⟨h, -⟩)
                · exact h
                · exact h rfl
            | cons head left =>
                rw [tail_of_ne_nil (List.cons_ne_nil _ _), List.cons_lt_cons_iff, ← hrestright,
                  String.lt_iff]
                simp [hself]

theorem Misordered.lt {left right : Path} (h : Misordered left right) : left < right := by
  induction left generalizing right with
  | nil => exact h.elim
  | cons a left ih =>
      cases right with
      | nil => exact h.elim
      | cons b right =>
          rw [List.cons_lt_cons_iff]
          rcases h with ⟨hab, hrest⟩ | ⟨-, c, more, hb, -⟩
          · exact Or.inr ⟨hab, ih hrest⟩
          · refine Or.inl (String.lt_iff.2 ?_)
            have hlonger : a.toList ++ [] < a.toList ++ c :: more :=
              (append_lt_append_iff _ _ _).2 (List.nil_lt_cons _ _)
            rwa [hb, ← List.append_nil a.toList, List.append_assoc, List.nil_append]

/-! ## Sorted lists of names -/

/-- In a sorted list of paths, the names are sorted exactly when no two paths
are misordered. -/
theorem pairwise_slashed_iff {paths : List Path} (hsorted : paths.Pairwise (· < ·))
    (hparts : ∀ path ∈ paths, ∀ part ∈ path, Component part) :
    (paths.map slashed).Pairwise (· ≤ ·) ↔
      ∀ left ∈ paths, ∀ right ∈ paths, ¬Misordered left right := by
  rw [List.pairwise_map]
  constructor
  · intro h left hleft right hright hbad
    have hlt : left < right := hbad.lt
    rw [← slashed_lt_iff_misordered (hparts right hright) hlt] at hbad
    induction paths with
    | nil => cases hleft
    | cons head paths ih =>
        obtain ⟨hhead, hpaths⟩ := List.pairwise_cons.1 hsorted
        obtain ⟨hheadle, hpathsle⟩ := List.pairwise_cons.1 h
        rcases List.mem_cons.1 hleft with rfl | hleft'
        · rcases List.mem_cons.1 hright with rfl | hright'
          · exact lt_irrefl _ hlt
          · exact (hheadle right hright').not_gt hbad
        · rcases List.mem_cons.1 hright with rfl | hright'
          · exact hlt.asymm (hhead left hleft')
          · exact ih hpaths (fun path hpath => hparts path (List.mem_cons_of_mem _ hpath))
              hpathsle hleft' hright'
  · intro h
    refine hsorted.imp_of_mem fun {left right} hleft hright hlt => ?_
    have hfine := h left hleft right hright
    rw [← slashed_lt_iff_misordered (hparts right hright) hlt] at hfine
    exact not_lt.1 hfine

/-- The names of sorted paths are the sorted names exactly when no two paths are
misordered. -/
theorem map_slashed_eq_mergeSort_iff {sorted paths : List Path} (hperm : sorted.Perm paths)
    (hsorted : sorted.Pairwise (· < ·)) (hparts : ∀ path ∈ paths, ∀ part ∈ path, Component part) :
    sorted.map slashed = (paths.map slashed).mergeSort (· ≤ ·) ↔
      ∀ left ∈ paths, ∀ right ∈ paths, ¬Misordered left right := by
  have hmem : ∀ path, path ∈ sorted ↔ path ∈ paths := fun path => hperm.mem_iff
  have hnames : (sorted.map slashed).Pairwise (· ≤ ·) ↔
      ∀ left ∈ paths, ∀ right ∈ paths, ¬Misordered left right := by
    rw [pairwise_slashed_iff hsorted fun path hpath => hparts path ((hmem path).1 hpath)]
    simp only [hmem]
  have hmergeSort : ((paths.map slashed).mergeSort (· ≤ ·)).Pairwise (· ≤ ·) := by
    have h : ((paths.map slashed).mergeSort (· ≤ ·)).Pairwise
        fun left right => decide (left ≤ right) = true :=
      List.pairwise_mergeSort
        (fun a b c hab hbc => by
          simp only [decide_eq_true_eq] at hab hbc ⊢
          exact hab.trans hbc)
        (fun a b => by simpa using le_total a b) (paths.map slashed)
    simpa using h
  rw [← hnames]
  constructor
  · intro h
    rw [h]
    exact hmergeSort
  · intro h
    exact ((hperm.map slashed).trans (List.mergeSort_perm _ _).symm).eq_of_pairwise'
      h hmergeSort

end CkbSail.PythonStd
