import Mathlib.Data.List.Infix

/-!
# The pieces of a list

What `splitOn` leaves between the separators.
-/

namespace CkbSail.ProofSupport

variable {α : Type} [DecidableEq α] {separator : α} {items piece : List α}

theorem notMem_of_mem_splitOn (h : piece ∈ items.splitOn separator) : separator ∉ piece := by
  induction items generalizing piece with
  | nil => simp_all
  | cons item rest ih =>
      rw [List.splitOn_cons_eq_if_modifyHead] at h
      split at h
      · rcases List.mem_cons.1 h with rfl | hrest
        · exact List.not_mem_nil
        · exact ih hrest
      · obtain ⟨first, pieces, hsplit⟩ :=
          List.exists_cons_of_ne_nil (List.splitOn_ne_nil separator rest)
        rw [hsplit] at h ih
        rcases List.mem_cons.1 h with rfl | hpiece
        · have hfirst : separator ∉ first := ih List.mem_cons_self
          intro hmem
          rcases List.mem_cons.1 hmem with hitem | hmem
          · exact absurd (beq_iff_eq.2 hitem.symm) ‹_›
          · exact hfirst hmem
        · exact ih (List.mem_cons_of_mem _ hpiece)

theorem mem_of_mem_splitOn (h : piece ∈ items.splitOn separator) {item : α}
    (hitem : item ∈ piece) : item ∈ items := by
  induction items generalizing piece with
  | nil => simp_all
  | cons head rest ih =>
      rw [List.splitOn_cons_eq_if_modifyHead] at h
      split at h
      · rcases List.mem_cons.1 h with rfl | hrest
        · cases hitem
        · exact List.mem_cons_of_mem _ (ih hrest hitem)
      · obtain ⟨first, pieces, hsplit⟩ :=
          List.exists_cons_of_ne_nil (List.splitOn_ne_nil separator rest)
        rw [hsplit] at h ih
        rcases List.mem_cons.1 h with rfl | hpiece
        · rcases List.mem_cons.1 hitem with rfl | hitem
          · exact List.mem_cons_self
          · exact List.mem_cons_of_mem _ (ih List.mem_cons_self hitem)
        · exact List.mem_cons_of_mem _ (ih (List.mem_cons_of_mem _ hpiece) hitem)

omit [DecidableEq α] in
theorem intercalate_cons (piece : List α) (pieces : List (List α)) :
    [separator].intercalate (piece :: pieces) = piece ++ pieces.flatMap (separator :: ·) := by
  induction pieces generalizing piece with
  | nil => simp
  | cons next pieces ih =>
      rw [List.intercalate_cons_cons, ih, List.flatMap_cons, List.append_assoc,
        List.singleton_append, List.cons_append]

omit [DecidableEq α] in
theorem intercalate_append (front : List (List α)) {pieces : List (List α)} (h : pieces ≠ []) :
    [separator].intercalate (front ++ pieces) =
      front.flatMap (· ++ [separator]) ++ [separator].intercalate pieces := by
  induction front with
  | nil => rfl
  | cons piece front ih =>
      rw [List.cons_append, List.intercalate_cons_of_ne_nil (by simp [h]), ih, List.flatMap_cons,
        ← List.append_assoc]

/-- A piece stands between separators or ends of the list. -/
theorem exists_of_mem_splitOn (h : piece ∈ items.splitOn separator) :
    ∃ left right, items = left ++ (piece ++ right) ∧
      (∀ item ∈ left.getLast?, item = separator) ∧ ∀ item ∈ right.head?, item = separator := by
  obtain ⟨front, pieces, hsplit⟩ := List.append_of_mem h
  refine ⟨front.flatMap (· ++ [separator]), pieces.flatMap (separator :: ·), ?_, ?_, ?_⟩
  · rw [← intercalate_cons, ← intercalate_append front (List.cons_ne_nil _ _), ← hsplit,
      List.intercalate_splitOn]
  · intro item hitem
    induction front using List.reverseRecOn with
    | nil => cases hitem
    | append_singleton front last ih => simpa [eq_comm] using hitem
  · intro item hitem
    cases pieces with
    | nil => cases hitem
    | cons next pieces => simpa [eq_comm] using hitem

omit [DecidableEq α] in
/-- The first piece before a separator is determined. -/
theorem append_separator_inj {next rest rest' : List α} (hpiece : separator ∉ piece)
    (hnext : separator ∉ next) (h : piece ++ separator :: rest = next ++ separator :: rest') :
    piece = next ∧ rest = rest' := by
  induction piece generalizing next with
  | nil =>
      cases next with
      | nil => exact ⟨rfl, (List.cons.inj h).2⟩
      | cons item next =>
          rw [List.nil_append, List.cons_append] at h
          exact absurd ((List.cons.inj h).1 ▸ List.mem_cons_self) hnext
  | cons item piece ih =>
      rw [List.mem_cons, not_or] at hpiece
      cases next with
      | nil =>
          rw [List.nil_append, List.cons_append] at h
          exact absurd (List.cons.inj h).1.symm hpiece.1
      | cons item' next =>
          rw [List.cons_append, List.cons_append] at h
          obtain ⟨hitem, htail⟩ := List.cons.inj h
          obtain ⟨hsame, hrest⟩ :=
            ih hpiece.2 (fun hmem => hnext (List.mem_cons_of_mem _ hmem)) htail
          exact ⟨by rw [hitem, hsame], hrest⟩

omit [DecidableEq α] in
/-- As many pieces with a separator behind each are determined. -/
theorem flatMap_separated_inj {pieces pieces' : List (List α)} {rest rest' : List α}
    (hlength : pieces.length = pieces'.length) (hpieces : ∀ piece ∈ pieces, separator ∉ piece)
    (hpieces' : ∀ piece ∈ pieces', separator ∉ piece)
    (h : pieces.flatMap (· ++ [separator]) ++ rest =
      pieces'.flatMap (· ++ [separator]) ++ rest') : pieces = pieces' ∧ rest = rest' := by
  induction pieces generalizing pieces' with
  | nil =>
      cases pieces' with
      | nil => exact ⟨rfl, h⟩
      | cons piece' pieces' => cases hlength
  | cons piece pieces ih =>
      cases pieces' with
      | nil => cases hlength
      | cons piece' pieces' =>
          rw [List.forall_mem_cons] at hpieces hpieces'
          simp only [List.flatMap_cons, List.append_assoc, List.cons_append] at h
          obtain ⟨hpiece, htail⟩ := append_separator_inj hpieces.1 hpieces'.1 h
          obtain ⟨hsame, hrest⟩ := ih (Nat.succ.inj hlength) hpieces.2 hpieces'.2 htail
          exact ⟨by rw [hpiece, hsame], hrest⟩

end CkbSail.ProofSupport
