import Mathlib.Data.Prod.Lex
import Mathlib.Order.Bounds.Basic
import Mathlib.Order.Lattice.Nat

/-!
# The least difference of two sequences

Two sequences are compared element by element, and each pair of elements
observation by observation.  `firstDifference` is the nested scan that stops at
the first observation that differs; its result is the least element, in the
lexicographic order, of the set of all differing (position, observation) pairs.
-/

namespace CkbSail.ProofSupport

variable {ι α β : Type}

/-- Every pair of a position and an observation at which the sequences differ. -/
def differences (differs : ι → α → β → Bool) (xs : List α) (ys : List β) :
    Set (ℕ ×ₗ ι) :=
  {p | ∃ x y, xs[(ofLex p).1]? = some x ∧ ys[(ofLex p).1]? = some y ∧
    differs (ofLex p).2 x y = true}

/-- The nested scan, with the position of the heads as first argument. -/
def firstDifference (differs : ι → α → β → Bool) (fields : List ι) :
    Nat → List α → List β → Option (Nat × ι)
  | k, x :: xs, y :: ys =>
      match fields.find? (differs · x y) with
      | some field => some (k, field)
      | none => firstDifference differs fields (k + 1) xs ys
  | _, _, _ => none

/-- The number of leading positions at which no observation differs. -/
def leadingEqual (differs : ι → α → β → Bool) (fields : List ι)
    (xs : List α) (ys : List β) : Nat :=
  ((xs.zip ys).takeWhile fun p => !fields.any (differs · p.1 p.2)).length

variable {differs : ι → α → β → Bool} {fields : List ι}

theorem mem_differences {xs : List α} {ys : List β} {k : Nat} {field : ι} :
    toLex (k, field) ∈ differences differs xs ys ↔
      ∃ x y, xs[k]? = some x ∧ ys[k]? = some y ∧ differs field x y = true := Iff.rfl

@[simp] theorem mem_differences_zero {x : α} {y : β} {xs : List α} {ys : List β} {field : ι} :
    toLex (0, field) ∈ differences differs (x :: xs) (y :: ys) ↔ differs field x y = true := by
  simp [mem_differences]

@[simp] theorem mem_differences_succ {x : α} {y : β} {xs : List α} {ys : List β} {k : Nat}
    {field : ι} :
    toLex (k + 1, field) ∈ differences differs (x :: xs) (y :: ys) ↔
      toLex (k, field) ∈ differences differs xs ys := by
  simp [mem_differences]

theorem forall_mem_differences {xs : List α} {ys : List β} {P : ℕ ×ₗ ι → Prop} :
    (∀ p ∈ differences differs xs ys, P p) ↔
      ∀ k field, toLex (k, field) ∈ differences differs xs ys → P (toLex (k, field)) := by
  constructor
  · exact fun h k field => h (toLex (k, field))
  · intro h p hp
    obtain ⟨⟨k, field⟩, rfl⟩ := toLex.surjective p
    exact h k field hp

theorem differences_eq_empty {xs : List α} {ys : List β} :
    differences differs xs ys = ∅ ↔
      ∀ k field, toLex (k, field) ∉ differences differs xs ys := by
  rw [Set.eq_empty_iff_forall_notMem]
  exact forall_mem_differences (P := fun _ => False)

theorem firstDifference_shift (k : Nat) (xs : List α) (ys : List β) :
    firstDifference differs fields k xs ys =
      (firstDifference differs fields 0 xs ys).map fun p => (k + p.1, p.2) := by
  induction xs generalizing k ys with
  | nil => simp [firstDifference]
  | cons x xs ih =>
      cases ys with
      | nil => simp [firstDifference]
      | cons y ys =>
          simp only [firstDifference]
          cases fields.find? (differs · x y) with
          | some field => simp
          | none =>
              simp only [ih (k + 1), ih (0 + 1), Option.map_map]
              congr 1
              funext p
              simp only [Function.comp_apply, Prod.mk.injEq, and_true]
              omega

theorem firstDifference_cons (x : α) (y : β) (xs : List α) (ys : List β) :
    firstDifference differs fields 0 (x :: xs) (y :: ys) =
      match fields.find? (differs · x y) with
      | some field => some (0, field)
      | none => (firstDifference differs fields 0 xs ys).map fun p => (p.1 + 1, p.2) := by
  simp only [firstDifference]
  rw [firstDifference_shift (0 + 1)]
  simp only [Nat.zero_add, Nat.add_comm 1]

theorem firstDifference_none_iff (hall : ∀ field, field ∈ fields) (xs : List α)
    (ys : List β) :
    firstDifference differs fields 0 xs ys = none ↔ differences differs xs ys = ∅ := by
  rw [differences_eq_empty]
  induction xs generalizing ys with
  | nil => simp [firstDifference, mem_differences]
  | cons x xs ih =>
      cases ys with
      | nil => simp [firstDifference, mem_differences]
      | cons y ys =>
          rw [firstDifference_cons]
          cases hfind : fields.find? (differs · x y) with
          | some field =>
              have hd : differs field x y = true := by
                simpa using List.find?_some hfind
              simp only [reduceCtorEq, false_iff]
              exact fun h => h 0 field (mem_differences_zero.2 hd)
          | none =>
              have hhead : ∀ field, ¬ differs field x y = true := fun field =>
                List.find?_eq_none.1 hfind field (hall field)
              rw [Option.map_eq_none_iff, ih]
              constructor
              · intro h k field hmem
                cases k with
                | zero => exact hhead field (mem_differences_zero.1 hmem)
                | succ k => exact h k field (mem_differences_succ.1 hmem)
              · exact fun h k field hmem => h (k + 1) field (mem_differences_succ.2 hmem)

section Order

variable [LinearOrder ι]

/-- In a sorted complete list of observations, the one `find?` returns is the
least that satisfies the test. -/
theorem find?_least (hall : ∀ field, field ∈ fields) (hsorted : fields.Pairwise (· < ·))
    {test : ι → Bool} {field : ι} (h : fields.find? test = some field) :
    ∀ g, test g = true → field ≤ g := by
  intro g hg
  obtain ⟨_, before, after, rfl, hbefore⟩ := List.find?_eq_some_iff_append.1 h
  rcases List.mem_append.1 (hall g) with hmem | hmem
  · have hnot := hbefore g hmem
    rw [hg] at hnot
    simp at hnot
  · rcases List.mem_cons.1 hmem with rfl | hmem
    · exact le_rfl
    · exact (List.rel_of_pairwise_cons (List.pairwise_append.1 hsorted).2.1 hmem).le

/-- The scan returns the lexicographically least difference. -/
theorem firstDifference_isLeast (hall : ∀ field, field ∈ fields)
    (hsorted : fields.Pairwise (· < ·)) {xs : List α} {ys : List β} {k : Nat} {field : ι}
    (h : firstDifference differs fields 0 xs ys = some (k, field)) :
    IsLeast (differences differs xs ys) (toLex (k, field)) := by
  induction xs generalizing ys k with
  | nil => simp [firstDifference] at h
  | cons x xs ih =>
      cases ys with
      | nil => simp [firstDifference] at h
      | cons y ys =>
          rw [firstDifference_cons] at h
          cases hfind : fields.find? (differs · x y) with
          | some g =>
              obtain ⟨rfl, rfl⟩ : 0 = k ∧ g = field := by simpa [hfind] using h
              have hd : differs g x y = true := by simpa using List.find?_some hfind
              refine ⟨mem_differences_zero.2 hd, forall_mem_differences.2 ?_⟩
              intro j f hf
              rw [Prod.Lex.toLex_le_toLex]
              cases j with
              | zero => exact Or.inr ⟨rfl, find?_least hall hsorted hfind f (mem_differences_zero.1 hf)⟩
              | succ j => exact Or.inl (Nat.succ_pos j)
          | none =>
              have hhead : ∀ f, ¬ differs f x y = true := fun f =>
                List.find?_eq_none.1 hfind f (hall f)
              obtain ⟨i, hrest, rfl⟩ : ∃ i, firstDifference differs fields 0 xs ys =
                  some (i, field) ∧ i + 1 = k := by
                simpa [hfind] using h
              obtain ⟨hmem, hleast⟩ := ih hrest
              refine ⟨mem_differences_succ.2 hmem, forall_mem_differences.2 ?_⟩
              intro j f hf
              rw [Prod.Lex.toLex_le_toLex]
              cases j with
              | zero => exact absurd (mem_differences_zero.1 hf) (hhead f)
              | succ j =>
                  have hle := hleast (mem_differences_succ.1 hf)
                  rw [Prod.Lex.toLex_le_toLex] at hle
                  rcases hle with hlt | ⟨heq, hle⟩
                  · exact Or.inl (Nat.succ_lt_succ hlt)
                  · exact Or.inr ⟨congrArg Nat.succ heq, hle⟩

end Order

/-- The count of leading equal positions is the position of the first
difference, or the common length when there is none. -/
theorem leadingEqual_eq (xs : List α) (ys : List β) :
    leadingEqual differs fields xs ys =
      match firstDifference differs fields 0 xs ys with
      | some (k, _) => k
      | none => min xs.length ys.length := by
  induction xs generalizing ys with
  | nil => simp [leadingEqual, firstDifference]
  | cons x xs ih =>
      cases ys with
      | nil => simp [leadingEqual, firstDifference]
      | cons y ys =>
          have htail := ih ys
          rw [firstDifference_cons]
          cases hfind : fields.find? (differs · x y) with
          | some field =>
              have hany : fields.any (differs · x y) = true := by
                rw [List.any_eq_true]
                exact ⟨field, List.mem_of_find?_eq_some hfind, by simpa using List.find?_some hfind⟩
              simp [leadingEqual, hany]
          | none =>
              have hany : fields.any (differs · x y) = false := by
                rw [List.any_eq_false]
                exact List.find?_eq_none.1 hfind
              simp only [leadingEqual, List.zip_cons_cons, List.takeWhile_cons, hany,
                Bool.not_false, if_true, List.length_cons] at htail ⊢
              rw [htail]
              cases firstDifference differs fields 0 xs ys with
              | some p => rfl
              | none => simp [Nat.succ_min_succ]

/-! ## Sequences that differ in one known way -/

theorem firstDifference_self {differs : ι → α → α → Bool}
    (hirrefl : ∀ field x, differs field x x = false) (fields : List ι) (xs ys : List α) :
    firstDifference differs fields 0 xs (xs ++ ys) = none := by
  induction xs with
  | nil => simp [firstDifference]
  | cons x xs ih =>
      rw [List.cons_append, firstDifference_cons, ih]
      have hfind : fields.find? (differs · x x) = none := by
        simp [List.find?_eq_none, hirrefl]
      simp [hfind]

/-- Replacing one element moves the first difference to it. -/
theorem firstDifference_set {differs : ι → α → α → Bool}
    (hirrefl : ∀ field x, differs field x x = false) (xs : List α) (x : α) {i : Nat}
    (hi : i < xs.length) :
    firstDifference differs fields 0 (xs.set i x) xs =
      (fields.find? (differs · x xs[i])).map (i, ·) := by
  induction xs generalizing i with
  | nil => simp at hi
  | cons y ys ih =>
      cases i with
      | zero =>
          rw [List.set_cons_zero, firstDifference_cons, List.getElem_cons_zero]
          have hself := firstDifference_self hirrefl fields ys []
          rw [List.append_nil] at hself
          rw [hself]
          cases fields.find? (differs · x y) <;> rfl
      | succ i =>
          have hi' : i < ys.length := by simpa using hi
          have hfind : fields.find? (differs · y y) = none := by
            simp [List.find?_eq_none, hirrefl]
          rw [List.set_cons_succ, firstDifference_cons, hfind, ih hi', List.getElem_cons_succ]
          cases fields.find? (differs · x ys[i]) <;> rfl

end CkbSail.ProofSupport
