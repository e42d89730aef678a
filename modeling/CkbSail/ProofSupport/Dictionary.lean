import Mathlib.Data.List.Basic

/-!
# Dictionaries as lists of bindings
-/

namespace CkbSail.ProofSupport

variable {κ α : Type} [BEq κ] [LawfulBEq κ] [DecidableEq κ] {rows : List (κ × α)}

theorem lookup_row (key name : κ) (a : α) (rows : List (κ × α)) :
    ((name, a) :: rows).lookup key = if key = name then some a else rows.lookup key := by
  rw [List.lookup_cons]
  by_cases h : key = name
  · simp [h]
  · rw [if_neg h, beq_eq_false_iff_ne.2 h]

omit [DecidableEq κ] in
/-- With every key once the lookup finds exactly the bindings. -/
theorem lookup_eq_some_iff_mem {key : κ} {a : α} (hnodup : (rows.map Prod.fst).Nodup) :
    rows.lookup key = some a ↔ (key, a) ∈ rows := by
  induction rows with
  | nil => simp
  | cons row rows ih =>
      obtain ⟨name, other⟩ := row
      rw [List.map_cons, List.nodup_cons] at hnodup
      have hname : name ∉ rows.map Prod.fst := hnodup.1
      classical
      rw [lookup_row, List.mem_cons, Prod.mk.injEq]
      by_cases h : key = name
      · subst h
        have hfresh : (key, a) ∉ rows := by
          intro hmem
          exact hname (List.mem_map_of_mem hmem)
        simp [hfresh, eq_comm]
      · simp [h, ih hnodup.2]

end CkbSail.ProofSupport
