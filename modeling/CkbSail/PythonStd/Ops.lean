import CkbSail.PythonStd.Json
import Mathlib.Data.Int.Bitwise
import Mathlib.Data.List.Forall2

/-!
# Operations on Python values

Subscripts, iteration, truth and the type tests of the scripts.  An operation
raises as Python does; `require` raises with its message.
-/

namespace CkbSail.PythonStd

inductive PyError where
  | keyError
  | indexError
  | typeError
  | valueError
  | attributeError
  | runtimeError (message : String)
  | permissionError
deriving DecidableEq, Repr

/-- A computation that may raise. -/
abbrev Py (α : Type) := Except PyError α

namespace Py

@[simp] theorem pure_eq_ok {α : Type} {a b : α} : (pure a : Py α) = .ok b ↔ a = b := by
  simp [pure, Except.pure]

theorem bind_eq_ok {α β : Type} {x : Py α} {f : α → Py β} {b : β} :
    (x >>= f) = .ok b ↔ ∃ a, x = .ok a ∧ f a = .ok b := by
  cases x <;> simp [bind, Except.bind]

/-- `left and right`, on booleans. -/
def and (left right : Py Bool) : Py Bool :=
  match left with
  | .error error => .error error
  | .ok false => .ok false
  | .ok true => right

theorem and_eq_true {left right : Py Bool} :
    left.and right = .ok true ↔ left = .ok true ∧ right = .ok true := by
  rcases left with error | _ | _ <;> simp [Py.and]

/-- `a and b and ...`, on booleans. -/
def conj : List (Py Bool) → Py Bool
  | [] => .ok true
  | condition :: conditions => condition.and (conj conditions)

theorem conj_eq_true {conditions : List (Py Bool)} :
    conj conditions = .ok true ↔ ∀ condition ∈ conditions, condition = .ok true := by
  induction conditions with
  | nil => simp [conj]
  | cons condition conditions ih => simp [conj, and_eq_true, ih]

/-- `all(test(x) for x in items)`. -/
def all {α : Type} (test : α → Py Bool) : List α → Py Bool
  | [] => .ok true
  | item :: items => (test item).and (all test items)

theorem all_eq_true {α : Type} {test : α → Py Bool} {items : List α} :
    all test items = .ok true ↔ ∀ item ∈ items, test item = .ok true := by
  induction items with
  | nil => simp [all]
  | cons item items ih => simp [all, and_eq_true, ih]

/-- `[f(x) for x in items]`. -/
def collect {α β : Type} (f : α → Py β) : List α → Py (List β)
  | [] => .ok []
  | item :: items =>
      match f item, collect f items with
      | .error error, _ => .error error
      | .ok _, .error error => .error error
      | .ok b, .ok bs => .ok (b :: bs)

theorem collect_eq_ok {α β : Type} {f : α → Py β} {items : List α} {results : List β} :
    collect f items = .ok results ↔ List.Forall₂ (fun item b => f item = .ok b) items results := by
  induction items generalizing results with
  | nil => simp [collect, eq_comm]
  | cons item items ih =>
      rw [collect, List.forall₂_cons_left_iff]
      cases hf : f item with
      | error error => simp
      | ok b =>
          cases hrest : collect f items with
          | error error => simp [← ih, hrest]
          | ok bs => simp [← ih, hrest, eq_comm]

/-- A `for` loop whose body updates a variable. -/
def loop {α σ : Type} (body : α → σ → Py σ) : List α → σ → Py σ
  | [], state => .ok state
  | item :: items, state =>
      match body item state with
      | .error error => .error error
      | .ok state => loop body items state

theorem loop_cons_eq_ok {α σ : Type} {body : α → σ → Py σ} {item : α} {items : List α}
    {state final : σ} :
    loop body (item :: items) state = .ok final ↔
      ∃ next, body item state = .ok next ∧ loop body items next = .ok final := by
  rw [loop]
  cases body item state <;> simp

theorem loop_append_eq_ok {α σ : Type} {body : α → σ → Py σ} {items more : List α}
    {state final : σ} :
    loop body (items ++ more) state = .ok final ↔
      ∃ next, loop body items state = .ok next ∧ loop body more next = .ok final := by
  induction items generalizing state with
  | nil => simp [loop]
  | cons item items ih =>
      rw [List.cons_append, loop, loop]
      cases body item state with
      | error error => simp
      | ok next => exact ih

/-- A `for` loop that only checks. -/
def forEach {α : Type} (body : α → Py Unit) : List α → Py Unit
  | [] => .ok ()
  | item :: items =>
      match body item with
      | .error error => .error error
      | .ok () => forEach body items

theorem forEach_eq_ok {α : Type} {body : α → Py Unit} {items : List α} {u : Unit} :
    forEach body items = .ok u ↔ ∀ item ∈ items, body item = .ok () := by
  induction items with
  | nil => simp [forEach]
  | cons item items ih =>
      rw [forEach]
      cases h : body item <;> simp [h, ih]

end Py

/-- `require(condition, message)`. -/
def require (condition : Bool) (message : String) : Py Unit :=
  if condition then .ok () else .error (.runtimeError message)

@[simp] theorem require_eq_ok {condition : Bool} {message : String} {u : Unit} :
    require condition message = .ok u ↔ condition = true := by
  cases condition <;> simp [require]

/-- `require` of a condition whose evaluation may raise. -/
def requirePy (condition : Py Bool) (message : String) : Py Unit :=
  condition >>= fun value => require value message

@[simp] theorem requirePy_eq_ok {condition : Py Bool} {message : String} {u : Unit} :
    requirePy condition message = .ok u ↔ condition = .ok true := by
  rw [requirePy, Py.bind_eq_ok]
  simp

namespace Json

/-- `value[key]`, for a string key. -/
def getItem (key : String) : Json → Py Json
  | .obj fields =>
      match lookup key fields with
      | some value => .ok value
      | none => .error .keyError
  | _ => .error .typeError

theorem getItem_eq_ok {key : String} {value item : Json} :
    value.getItem key = .ok item ↔
      ∃ fields, value = .obj fields ∧ lookup key fields = some item := by
  cases value <;> simp [getItem]
  cases lookup key _ <;> simp

@[simp] theorem getItem_obj_eq_ok {key : String} {fields : List (String × Json)} {item : Json} :
    (Json.obj fields).getItem key = .ok item ↔ lookup key fields = some item := by
  rw [getItem_eq_ok]
  simp

/-- `value.get(key)`. -/
def get (key : String) : Json → Py Json
  | .obj fields => .ok ((lookup key fields).getD .null)
  | _ => .error .attributeError

theorem Represents.getItem {value item : Json} {fields : List (String × Json)} {key : String}
    (h : Represents value fields) (hkey : lookup key fields = some item) :
    value.getItem key = .ok item := by
  obtain ⟨fs, rfl, hsame⟩ := h
  rw [getItem_obj_eq_ok, hsame, hkey]

/-- A value equal to a dictionary has its texts. -/
theorem getItem_of_obj_eq {fields : List (String × Json)} {value : Json} {key text : String}
    (h : (obj fields).eq value = true) (hkey : lookup key fields = some (.str text)) :
    value.getItem key = .ok (.str text) := by
  cases value with
  | obj others =>
      have hboth := eqBy_obj_iff.1 h key
      rw [hkey] at hboth
      rw [getItem_obj_eq_ok]
      cases hother : lookup key others with
      | none => simp [hother] at hboth
      | some other =>
          rw [hother] at hboth
          rw [str_eq_iff.1 hboth]
  | _ => simp [eq, eqBy] at h

/-- `value[index]`, for an index that is an integer. -/
def getAt (value : Json) (index : Int) : Py Json :=
  match value with
  | .arr items =>
      let position := if index < 0 then index + items.length else index
      if position < 0 then .error .indexError
      else
        match items[position.toNat]? with
        | some item => .ok item
        | none => .error .indexError
  | .str text =>
      let position := if index < 0 then index + text.length else index
      if position < 0 then .error .indexError
      else
        match text.toList[position.toNat]? with
        | some c => .ok (.str (String.ofList [c]))
        | none => .error .indexError
  | .obj _ => .error .keyError
  | _ => .error .typeError

theorem getAt_natCast_eq_ok {items : List Json} {index : Nat} {item : Json} :
    (Json.arr items).getAt index = .ok item ↔ items[index]? = some item := by
  have hneg : ¬(index : Int) < 0 := by omega
  simp only [getAt, if_neg hneg, Int.toNat_natCast]
  cases items[index]? <;> simp

/-- `value[index]`; an index that is a boolean is a number. -/
def subscript (value : Json) : Json → Py Json
  | .int i => value.getAt i
  | .bool b => value.getAt (if b then 1 else 0)
  | .str key => value.getItem key
  | _ => .error .typeError

/-- A dictionary after an assignment to a key. -/
def insert (key : String) (value : Json) : List (String × Json) → List (String × Json)
  | [] => [(key, value)]
  | (name, other) :: fields =>
      if key = name then (name, value) :: fields else (name, other) :: insert key value fields

@[simp] theorem lookup_insert (key name : String) (value : Json)
    (fields : List (String × Json)) :
    lookup name (insert key value fields) = if name = key then some value else lookup name fields := by
  induction fields with
  | nil => simp [insert, lookup_cons]
  | cons head rest ih =>
      obtain ⟨other, w⟩ := head
      rw [insert]
      by_cases hkey : key = other
      · subst hkey
        by_cases hname : name = key <;> simp [lookup_cons, hname]
      · rw [if_neg hkey, lookup_cons, ih, lookup_cons]
        by_cases hname : name = other
        · subst hname
          simp [Ne.symm hkey]
        · simp [hname]

/-- `value[key] = item`, for a string key. -/
def setItem (value : Json) (key : String) (item : Json) : Py Json :=
  match value with
  | .obj fields => .ok (.obj (insert key item fields))
  | _ => .error .typeError

/-- An assignment changes one binding of what a value stands for. -/
theorem Represents.setItem {value : Json} {fields : List (String × Json)}
    (h : value.Represents fields) (key : String) (item : Json) :
    ∃ value', value.setItem key item = .ok value' ∧
      value'.Represents (insert key item fields) := by
  obtain ⟨fs, rfl, hsame⟩ := h
  refine ⟨_, rfl, _, rfl, fun name => ?_⟩
  rw [lookup_insert, lookup_insert, hsame name]

theorem getItem_setItem {key name : String} {value value' item : Json}
    (h : value.setItem key item = .ok value') :
    value'.getItem name = if name = key then .ok item else value.getItem name := by
  cases value with
  | obj fields =>
      obtain rfl : obj (insert key item fields) = value' := by simpa [setItem] using h
      rw [getItem, getItem, lookup_insert]
      split_ifs <;> rfl
  | _ => simp [setItem] at h

/-- `value[index] = item`. -/
def setAt (value index item : Json) : Py Json :=
  match value, index with
  | .arr items, .int i =>
      let position := if i < 0 then i + items.length else i
      if position < 0 ∨ items.length ≤ position then .error .indexError
      else .ok (.arr (items.set position.toNat item))
  | .obj _, .str key => value.setItem key item
  | _, _ => .error .typeError

theorem setAt_natCast {items : List Json} {i : Nat} (hi : i < items.length) (item : Json) :
    (Json.arr items).setAt (.int i) item = .ok (.arr (items.set i item)) := by
  have hneg : ¬(i : Int) < 0 := by omega
  have hbound : ¬((i : Int) < 0 ∨ (items.length : Int) ≤ i) := by omega
  simp only [setAt, if_neg hneg, if_neg hbound, Int.toNat_natCast]

/-- `value.pop()`. -/
def pop : Json → Py Json
  | .arr items => if items.isEmpty then .error .indexError else .ok (.arr items.dropLast)
  | .obj _ => .error .typeError
  | _ => .error .attributeError

/-- The keys of a dictionary, each once, in the order they are iterated. -/
def keys (fields : List (String × Json)) : List String := (fields.map Prod.fst).eraseDups

/-- `len(value)`. -/
def len : Json → Py Nat
  | .str text => .ok text.length
  | .arr items => .ok items.length
  | .obj fields => .ok (keys fields).length
  | _ => .error .typeError

/-- The items a `for` loop over a value goes through. -/
def iter : Json → Py (List Json)
  | .str text => .ok (text.toList.map fun c => .str (String.ofList [c]))
  | .arr items => .ok items
  | .obj fields => .ok ((keys fields).map .str)
  | _ => .error .typeError

/-- The truth of a value. -/
def truthy : Json → Bool
  | .null => false
  | .bool value => value
  | .int value => value ≠ 0
  | .float (.finite value) => value ≠ 0
  | .float .negZero => false
  | .float (.infinite _) => true
  | .str text => text ≠ ""
  | .arr items => !items.isEmpty
  | .obj fields => !fields.isEmpty

def isDict : Json → Bool
  | .obj _ => true
  | _ => false

def isList : Json → Bool
  | .arr _ => true
  | _ => false

def isStr : Json → Bool
  | .str _ => true
  | _ => false

/-- `type(value) is int`: not a boolean. -/
def isInt : Json → Bool
  | .int _ => true
  | _ => false

/-- `value is None`. -/
def isNone : Json → Bool
  | .null => true
  | _ => false

/-- `value is True` and `value is False`. -/
def isBool (expected : Bool) : Json → Bool
  | .bool value => value == expected
  | _ => false

/-- Lists and dictionaries cannot be members of a set or keys. -/
def hashable : Json → Bool
  | .arr _ | .obj _ => false
  | _ => true

/-- `value in names`, for a dictionary or a set of strings. -/
def inNames (value : Json) (names : List String) : Py Bool :=
  if value.hashable then .ok (names.any fun name => value.eq (.str name))
  else .error .typeError

/-- `set(items) == {names}`. -/
def itemsEq (items : List Json) (names : List String) : Py Bool :=
  if items.all hashable then
    .ok ((items.all fun item => names.any fun name => item.eq (.str name)) &&
      names.all fun name => items.any fun item => item.eq (.str name))
  else .error .typeError

/-- `set(value) == {names}`. -/
def setEq (value : Json) (names : List String) : Py Bool :=
  value.iter >>= fun items => itemsEq items names

theorem mem_keys {key : String} {fields : List (String × Json)} :
    key ∈ keys fields ↔ key ∈ fields.map Prod.fst := by
  rw [keys, List.mem_eraseDups]

theorem setEq_obj {fields : List (String × Json)} {names : List String}
    (h : fields.map Prod.fst = names) : (Json.obj fields).setEq names = .ok true := by
  have hmem : ∀ key, key ∈ keys fields ↔ key ∈ names := fun key => by rw [mem_keys, h]
  have hhash : ((keys fields).map Json.str).all hashable = true := by
    simp [hashable]
  have hleft : (((keys fields).map Json.str).all fun item =>
      names.any fun name => item.eq (.str name)) = true := by
    simpa using fun key hkey => (hmem key).1 hkey
  have hright : (names.all fun name =>
      ((keys fields).map Json.str).any fun item => item.eq (.str name)) = true := by
    simpa using fun key hkey => (hmem key).2 hkey
  simp only [setEq, iter, bind, Except.bind, itemsEq, hhash, if_true, hleft, hright, Bool.and_self]

mutual

/-- Whether dumping a value with `allow_nan=False` raises. -/
def hasInfinite : Json → Bool
  | .float (.infinite _) => true
  | .arr items => itemsInfinite items
  | .obj fields => fieldsInfinite fields
  | _ => false
termination_by structural value => value

def itemsInfinite : List Json → Bool
  | [] => false
  | item :: items => hasInfinite item || itemsInfinite items
termination_by structural items => items

def fieldsInfinite : List (String × Json) → Bool
  | [] => false
  | field :: fields => fieldInfinite field || fieldsInfinite fields
termination_by structural fields => fields

def fieldInfinite : String × Json → Bool
  | (_, value) => hasInfinite value
termination_by structural field => field

end

/-- `same(left, right)`. -/
def same (left right : Json) : Py Bool :=
  if left.hasInfinite || right.hasInfinite then .error .valueError
  else .ok (left.dumpsEq right)

theorem same_eq_true {left right : Json} :
    same left right = .ok true ↔
      left.hasInfinite = false ∧ right.hasInfinite = false ∧ left.dumpsEq right = true := by
  unfold same
  cases left.hasInfinite <;> cases right.hasInfinite <;> simp

/-- `low <= value <= high`, on numbers. -/
def between (low high : Int) (value : Json) : Py Bool :=
  match value.number? with
  | some (.finite x) => .ok (low ≤ x && x ≤ high)
  | some (.infinite _) => .ok false
  | none => .error .typeError

/-- `integer(value, low, high)`. -/
def integer (value : Json) (low high : Int) : Bool :=
  match value with
  | .int i => low ≤ i && i ≤ high
  | _ => false

theorem integer_eq_true {value : Json} {low high : Int} :
    value.integer low high = true ↔ ∃ i, value = .int i ∧ low ≤ i ∧ i ≤ high := by
  cases value <;> simp [integer]

theorem same_int_iff {v : Json} {i : Int} : v.same (.int i) = .ok true ↔ v = .int i := by
  rw [same_eq_true, dumpsEq_int_iff]
  constructor
  · exact fun h => h.2.2
  · rintro rfl
    exact ⟨rfl, rfl, rfl⟩

theorem same_null_iff {v : Json} : v.same .null = .ok true ↔ v = .null := by
  rw [same_eq_true, dumpsEq_null_iff]
  constructor
  · exact fun h => h.2.2
  · rintro rfl
    exact ⟨rfl, rfl, rfl⟩

theorem isBool_iff {v : Json} {b : Bool} : v.isBool b = true ↔ v = .bool b := by
  cases v <;> simp [isBool]

theorem isNone_iff {v : Json} : v.isNone = true ↔ v = .null := by
  cases v <;> simp [isNone]

theorem isInt_and_eq_iff {v : Json} {i : Int} : (v.isInt && v.eq (.int i)) = true ↔ v = .int i := by
  cases v <;> simp [isInt]

end Json

end CkbSail.PythonStd
