import Mathlib.Data.List.Sort
import Mathlib.Data.List.Range
import Mathlib.Data.List.Lex

/-!
# Combinations

`itertools.combinations` lists the selections of a given size in the order of
their positions.  From an increasing list it lists exactly the increasing
selections, in lexicographic order.
-/

namespace CkbSail.PythonStd

variable {α : Type}

/-- `itertools.combinations(items, size)`. -/
def combinations : Nat → List α → List (List α)
  | 0, _ => [[]]
  | _ + 1, [] => []
  | size + 1, item :: items =>
      (combinations size items).map (item :: ·) ++ combinations (size + 1) items

theorem mem_combinations {size : Nat} {items selection : List α} :
    selection ∈ combinations size items ↔ selection.Sublist items ∧ selection.length = size := by
  induction items generalizing size selection with
  | nil =>
      cases size with
      | zero => simp [combinations]
      | succ size =>
          simp only [combinations, List.not_mem_nil, List.sublist_nil, false_iff, not_and]
          rintro rfl
          simp
  | cons item items ih =>
      cases size with
      | zero =>
          simp only [combinations, List.mem_singleton, List.length_eq_zero_iff]
          exact ⟨fun h => ⟨h ▸ List.nil_sublist _, h⟩, fun h => h.2⟩
      | succ size =>
          rw [combinations, List.mem_append, List.mem_map, ih, List.sublist_cons_iff]
          constructor
          · rintro (⟨tail, htail, rfl⟩ | ⟨hsublist, hlength⟩)
            · obtain ⟨hsublist, hlength⟩ := ih.1 htail
              exact ⟨Or.inr ⟨tail, rfl, hsublist⟩, by rw [List.length_cons, hlength]⟩
            · exact ⟨Or.inl hsublist, hlength⟩
          · rintro ⟨hsublist | ⟨tail, rfl, hsublist⟩, hlength⟩
            · exact Or.inr ⟨hsublist, hlength⟩
            · rw [List.length_cons, Nat.succ_inj] at hlength
              exact Or.inl ⟨tail, ih.2 ⟨hsublist, hlength⟩, rfl⟩

/-- The selections of an increasing list come in lexicographic order. -/
theorem pairwise_combinations [LT α] {items : List α} (h : items.Pairwise (· < ·)) (size : Nat) :
    (combinations size items).Pairwise (· < ·) := by
  induction items generalizing size with
  | nil =>
      cases size with
      | zero => exact List.pairwise_singleton _ _
      | succ size => exact List.Pairwise.nil
  | cons item items ih =>
      cases size with
      | zero => exact List.pairwise_singleton _ _
      | succ size =>
          obtain ⟨hitem, hitems⟩ := List.pairwise_cons.1 h
          rw [combinations, List.pairwise_append]
          refine ⟨?_, ih hitems _, ?_⟩
          · rw [List.pairwise_map]
            exact (ih hitems size).imp fun hlt => List.Lex.cons hlt
          · intro left hleft right hright
            obtain ⟨tail, -, rfl⟩ := List.mem_map.1 hleft
            obtain ⟨hsublist, hlength⟩ := mem_combinations.1 hright
            cases right with
            | nil => cases hlength
            | cons head right =>
                exact List.Lex.rel (hitem head (hsublist.subset List.mem_cons_self))

/-- The increasing selections of positions. -/
theorem sublist_range_iff {n : Nat} {indices : List Nat} :
    indices.Sublist (List.range n) ↔ indices.Pairwise (· < ·) ∧ ∀ i ∈ indices, i < n := by
  constructor
  · intro h
    exact ⟨List.pairwise_lt_range.sublist h, fun i hi => List.mem_range.1 (h.subset hi)⟩
  · rintro ⟨hsorted, hbound⟩
    have hsubset : indices ⊆ List.range n := fun i hi => List.mem_range.2 (hbound i hi)
    exact List.sublist_of_subperm_of_pairwise
      (List.subperm_of_subset (hsorted.imp fun h => h.ne) hsubset)
      (hsorted.imp fun h => h.le) (List.pairwise_lt_range.imp fun h => h.le)

end CkbSail.PythonStd
