import Mathlib

/-!
# Enclosures in a list

Items that open, close with a weight, or do neither.  A list divides into enclosures, each
from an opening item to the first closing one behind it and on to the next opening item,
exactly if a scan with one bit of state says so.
-/

namespace CkbSail.ProofSupport

inductive Mark where
  | opening
  | closing (weight : Nat)
  | plain
deriving DecidableEq, Repr

/-- What a closing item counts. -/
def Mark.weight : Mark → Nat
  | .closing weight => weight
  | _ => 0

variable {α : Type} (mark : α → Mark)

structure Enclosure (α : Type) where
  opening : α
  body : List α
  closing : α
  rest : List α

def Enclosure.items (enclosure : Enclosure α) : List α :=
  enclosure.opening :: (enclosure.body ++ enclosure.closing :: enclosure.rest)

structure Enclosure.Closed (enclosure : Enclosure α) : Prop where
  opening : mark enclosure.opening = .opening
  body : ∀ item ∈ enclosure.body, mark item = .plain
  closing : ∃ weight, mark enclosure.closing = .closing weight
  rest : ∀ item ∈ enclosure.rest, mark item ≠ .opening

/-- A list that consists of closed enclosures, after items that open none. -/
structure Enclosed (items before : List α) (enclosures : List (Enclosure α)) : Prop where
  items : items = before ++ enclosures.flatMap Enclosure.items
  before : ∀ item ∈ before, mark item ≠ .opening
  closed : ∀ enclosure ∈ enclosures, enclosure.Closed mark

/-- The weights of the closing items. -/
def totalWeight (items : List α) : Nat := (items.map fun item => (mark item).weight).sum

/-- Every opening item is closed before the next, and what closes nothing weighs
nothing. -/
def orderly : Bool → List α → Bool
  | isOpen, [] => !isOpen
  | isOpen, item :: items =>
      match mark item with
      | .opening => !isOpen && orderly true items
      | .closing weight => (isOpen || weight = 0) && orderly false items
      | .plain => orderly isOpen items

/-- A plain item with a property stands after an opening item that is not closed yet. -/
def standsInside (test : α → Bool) : Bool → List α → Bool
  | _, [] => false
  | isOpen, item :: items =>
      match mark item with
      | .opening => standsInside test true items
      | .closing _ => standsInside test false items
      | .plain => (isOpen && test item) || standsInside test isOpen items

section Scan

variable {mark} {isOpen : Bool} {items tail before : List α} {enclosures : List (Enclosure α)}
  {enclosure : Enclosure α} {test : α → Bool}

theorem totalWeight_append (items tail : List α) :
    totalWeight mark (items ++ tail) = totalWeight mark items + totalWeight mark tail := by
  rw [totalWeight, List.map_append, List.sum_append, totalWeight, totalWeight]

theorem totalWeight_cons (item : α) (items : List α) :
    totalWeight mark (item :: items) = (mark item).weight + totalWeight mark items := rfl

theorem totalWeight_of_plain (h : ∀ item ∈ items, mark item = .plain) :
    totalWeight mark items = 0 := by
  induction items with
  | nil => rfl
  | cons item items ih =>
      rw [List.forall_mem_cons] at h
      rw [totalWeight_cons, h.1, ih h.2]
      rfl

/-! ## Scanning the parts -/

theorem orderly_plain (h : ∀ item ∈ items, mark item = .plain) (isOpen : Bool) :
    orderly mark isOpen (items ++ tail) = orderly mark isOpen tail := by
  induction items with
  | nil => rfl
  | cons item items ih =>
      rw [List.forall_mem_cons] at h
      simp only [List.cons_append, orderly, h.1, ih h.2]

theorem orderly_unopened (h : ∀ item ∈ items, mark item ≠ .opening) :
    orderly mark false (items ++ tail) = true ↔
      totalWeight mark items = 0 ∧ orderly mark false tail = true := by
  induction items with
  | nil => simp [totalWeight]
  | cons item items ih =>
      rw [List.forall_mem_cons] at h
      rw [List.cons_append, orderly, totalWeight_cons, Nat.add_eq_zero_iff, and_assoc, ← ih h.2]
      cases hmark : mark item with
      | opening => exact absurd hmark h.1
      | closing weight => simp [Mark.weight]
      | plain => simp [Mark.weight]

theorem orderly_enclosure (h : enclosure.Closed mark) :
    orderly mark false (enclosure.items ++ tail) = true ↔
      totalWeight mark enclosure.rest = 0 ∧ orderly mark false tail = true := by
  obtain ⟨weight, hclosing⟩ := h.closing
  rw [Enclosure.items, List.cons_append, orderly, h.opening, List.append_assoc,
    ← orderly_unopened h.rest]
  simp only [Bool.not_false, Bool.true_and, orderly_plain h.body, List.cons_append, orderly,
    hclosing, Bool.true_or]

theorem standsInside_plain (h : ∀ item ∈ items, mark item = .plain) (isOpen : Bool) :
    standsInside mark test isOpen (items ++ tail) = true ↔
      (isOpen = true ∧ ∃ item ∈ items, test item = true) ∨
        standsInside mark test isOpen tail = true := by
  induction items with
  | nil => simp
  | cons item items ih =>
      rw [List.forall_mem_cons] at h
      rw [List.cons_append, standsInside, h.1]
      simp only [Bool.or_eq_true, Bool.and_eq_true, ih h.2, List.exists_mem_cons_iff, and_or_left,
        or_assoc]

theorem standsInside_unopened (h : ∀ item ∈ items, mark item ≠ .opening) :
    standsInside mark test false (items ++ tail) = standsInside mark test false tail := by
  induction items with
  | nil => rfl
  | cons item items ih =>
      rw [List.forall_mem_cons] at h
      rw [List.cons_append, standsInside, ih h.2]
      cases hmark : mark item with
      | opening => exact absurd hmark h.1
      | closing weight => rfl
      | plain => rfl

theorem standsInside_enclosure (h : enclosure.Closed mark) :
    standsInside mark test false (enclosure.items ++ tail) = true ↔
      (∃ item ∈ enclosure.body, test item = true) ∨ standsInside mark test false tail = true := by
  obtain ⟨weight, hclosing⟩ := h.closing
  rw [Enclosure.items, List.cons_append, standsInside, h.opening, List.append_assoc]
  simp only [standsInside_plain h.body, true_and, List.cons_append, standsInside, hclosing,
    standsInside_unopened h.rest]

/-! ## Scanning the whole -/

namespace Enclosed

/-- What the closing items of the enclosures count. -/
def weights (mark : α → Mark) (enclosures : List (Enclosure α)) : Nat :=
  (enclosures.map fun enclosure => (mark enclosure.closing).weight).sum

theorem weights_cons (enclosure : Enclosure α) (enclosures : List (Enclosure α)) :
    weights mark (enclosure :: enclosures) =
      (mark enclosure.closing).weight + weights mark enclosures := rfl

theorem totalWeight_enclosure (h : enclosure.Closed mark) :
    totalWeight mark enclosure.items =
      (mark enclosure.closing).weight + totalWeight mark enclosure.rest := by
  rw [Enclosure.items, totalWeight_cons, totalWeight_append, totalWeight_cons, h.opening,
    totalWeight_of_plain h.body, Nat.zero_add]
  exact Nat.zero_add _

theorem weights_le (h : ∀ enclosure ∈ enclosures, enclosure.Closed mark) :
    weights mark enclosures ≤ totalWeight mark (enclosures.flatMap Enclosure.items) := by
  induction enclosures with
  | nil => exact Nat.zero_le _
  | cons enclosure enclosures ih =>
      rw [List.forall_mem_cons] at h
      have hrest := ih h.2
      have hitems := totalWeight_enclosure h.1
      rw [List.flatMap_cons, totalWeight_append, hitems, weights_cons]
      omega

theorem orderly_enclosures (h : ∀ enclosure ∈ enclosures, enclosure.Closed mark) :
    orderly mark false (enclosures.flatMap Enclosure.items) = true ↔
      totalWeight mark (enclosures.flatMap Enclosure.items) = weights mark enclosures := by
  induction enclosures with
  | nil => exact iff_of_true rfl rfl
  | cons enclosure enclosures ih =>
      rw [List.forall_mem_cons] at h
      have hless := weights_le h.2
      have hitems := totalWeight_enclosure h.1
      rw [List.flatMap_cons, orderly_enclosure h.1, ih h.2, totalWeight_append, hitems, weights_cons]
      omega

/-- A scan of enclosures succeeds exactly if only their closing items count. -/
theorem orderly_iff (h : Enclosed mark items before enclosures) :
    orderly mark false items = true ↔ totalWeight mark items = weights mark enclosures := by
  have hless := weights_le h.closed
  rw [h.items, orderly_unopened h.before, orderly_enclosures h.closed, totalWeight_append]
  omega

theorem standsInside_enclosures (h : ∀ enclosure ∈ enclosures, enclosure.Closed mark) :
    standsInside mark test false (enclosures.flatMap Enclosure.items) = true ↔
      ∃ enclosure ∈ enclosures, ∃ item ∈ enclosure.body, test item = true := by
  induction enclosures with
  | nil => simp [standsInside]
  | cons enclosure enclosures ih =>
      rw [List.forall_mem_cons] at h
      rw [List.flatMap_cons, standsInside_enclosure h.1, ih h.2, List.exists_mem_cons_iff]

theorem standsInside_iff (h : Enclosed mark items before enclosures) :
    standsInside mark test false items = true ↔
      ∃ enclosure ∈ enclosures, ∃ item ∈ enclosure.body, test item = true := by
  rw [h.items, standsInside_unopened h.before, standsInside_enclosures h.closed]

end Enclosed

/-- The parts behind an opening item. -/
structure Closing (mark : α → Mark) (items body : List α) (closing : α) (rest : List α)
    (enclosures : List (Enclosure α)) : Prop where
  items : items = body ++ closing :: (rest ++ enclosures.flatMap Enclosure.items)
  body : ∀ item ∈ body, mark item = .plain
  closing : ∃ weight, mark closing = .closing weight
  rest : ∀ item ∈ rest, mark item ≠ .opening
  closed : ∀ enclosure ∈ enclosures, enclosure.Closed mark

/-- An orderly list consists of enclosures. -/
theorem exists_of_orderly (h : orderly mark false items = true) :
    ∃ before enclosures, Enclosed mark items before enclosures := by
  have hboth : (orderly mark false items = true →
      ∃ before enclosures, Enclosed mark items before enclosures) ∧
      (orderly mark true items = true →
        ∃ body closing rest enclosures, Closing mark items body closing rest enclosures) := by
    clear h
    induction items with
    | nil =>
        refine ⟨fun _ => ⟨[], [], rfl, List.forall_mem_nil _, List.forall_mem_nil _⟩, fun h => ?_⟩
        cases h
    | cons item items ih =>
        obtain ⟨ihClosed, ihOpen⟩ := ih
        simp only [orderly]
        cases hmark : mark item with
        | opening =>
            refine ⟨fun h => ?_, fun h => ?_⟩
            · obtain ⟨body, closing, rest, enclosures, rfl, hbody, hclosing, hrest, hclosed⟩ :=
                ihOpen h
              refine ⟨[], ⟨item, body, closing, rest⟩ :: enclosures, ?_, List.forall_mem_nil _, ?_⟩
              · simp [Enclosure.items]
              · exact List.forall_mem_cons.2 ⟨⟨hmark, hbody, hclosing, hrest⟩, hclosed⟩
            · cases h
        | closing weight =>
            refine ⟨fun h => ?_, fun h => ?_⟩
            · obtain ⟨before, enclosures, rfl, hbefore, hclosed⟩ :=
                ihClosed (Bool.and_eq_true_iff.1 h).2
              refine ⟨item :: before, enclosures, rfl, ?_, hclosed⟩
              exact List.forall_mem_cons.2 ⟨by simp [hmark], hbefore⟩
            · obtain ⟨before, enclosures, rfl, hbefore, hclosed⟩ :=
                ihClosed (Bool.and_eq_true_iff.1 h).2
              exact ⟨[], item, before, enclosures, rfl, List.forall_mem_nil _, ⟨weight, hmark⟩, hbefore,
                hclosed⟩
        | plain =>
            refine ⟨fun h => ?_, fun h => ?_⟩
            · obtain ⟨before, enclosures, rfl, hbefore, hclosed⟩ := ihClosed h
              refine ⟨item :: before, enclosures, rfl, ?_, hclosed⟩
              exact List.forall_mem_cons.2 ⟨by simp [hmark], hbefore⟩
            · obtain ⟨body, closing, rest, enclosures, rfl, hbody, hclosing, hrest, hclosed⟩ :=
                ihOpen h
              exact ⟨item :: body, closing, rest, enclosures, rfl,
                List.forall_mem_cons.2 ⟨hmark, hbody⟩, hclosing, hrest, hclosed⟩
  exact hboth.1 h

end Scan

end CkbSail.ProofSupport
