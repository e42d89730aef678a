import Mathlib

/-!
# Operations that may panic

The error of a computation is the text of its panic.
-/

namespace CkbSail.RustStd

/-- A computation that may panic. -/
abbrev Panics (α : Type) := Except String α

/-- `assert!(condition, message)`. -/
def assertThat (condition : Bool) (message : String) : Panics Unit :=
  if condition then .ok () else .error message

/-- The elements of a list, evaluated in order. -/
def inOrder {α : Type} (items : List (Panics α)) : Panics (List α) := items.mapM fun item => item

/-- `items[index]`. -/
def indexed {α : Type} (items : List α) (index : Nat) : Panics α :=
  match items[index]? with
  | some item => .ok item
  | none => .error s!"index out of bounds: the len is {items.length} but the index is {index}"

/-- `items[start..]`. -/
def slicedFrom {α : Type} (items : List α) (start : Nat) : Panics (List α) :=
  if start ≤ items.length then .ok (items.drop start)
  else .error s!"range start index {start} out of range for slice of length {items.length}"

/-- Subtraction of `i32` values. -/
def checkedSub (a b : Int32) : Panics Int32 :=
  let difference := a.toInt - b.toInt
  if -2 ^ 31 ≤ difference ∧ difference < 2 ^ 31 then .ok (Int32.ofInt difference)
  else .error "attempt to subtract with overflow"

section

variable {α β : Type}

theorem assertThat_of_true {condition : Bool} {message : String} (h : condition = true) :
    assertThat condition message = .ok () := by
  rw [assertThat, if_pos h]

theorem indexed_of_eq_some {items : List α} {index : Nat} {item : α}
    (h : items[index]? = some item) : indexed items index = .ok item := by
  rw [indexed, h]

theorem slicedFrom_of_le {items : List α} {start : Nat} (h : start ≤ items.length) :
    slicedFrom items start = .ok (items.drop start) := if_pos h

theorem ok_bind (a : α) (f : α → Panics β) : ((.ok a : Panics α) >>= f) = f a := rfl

end

end CkbSail.RustStd
