import Mathlib.Data.Rat.Defs
import Mathlib.Tactic.Common

/-!
# Python values read from JSON

The values `json.loads` returns, with the two equalities the scripts use: `==`,
under which `True`, `1` and `1.0` are equal, and equality of the dumped text,
under which they are not.  Both ignore the order of keys.  A dictionary is a
list of bindings of which the first for a key counts.
-/

namespace CkbSail.PythonStd

/-- The floats a JSON text can denote. -/
inductive PyFloat where
  | finite (value : ℚ)
  | negZero
  | infinite (negative : Bool)
deriving DecidableEq

inductive Json where
  | null
  | bool (value : Bool)
  | int (value : Int)
  | float (value : PyFloat)
  | str (value : String)
  | arr (items : List Json)
  | obj (fields : List (String × Json))

namespace Json

/-- The binding of a key. -/
def lookup (key : String) (fields : List (String × Json)) : Option Json := fields.lookup key

@[simp] theorem lookup_nil (key : String) : lookup key [] = none := rfl

theorem lookup_cons (key name : String) (value : Json) (fields : List (String × Json)) :
    lookup key ((name, value) :: fields) =
      if key = name then some value else lookup key fields := by
  unfold lookup
  rw [List.lookup_cons]
  by_cases h : key = name
  · simp [h]
  · rw [if_neg h, beq_false_of_ne h]

/-- Two dictionaries with the same bindings. -/
def SameFields (left right : List (String × Json)) : Prop :=
  ∀ key, lookup key left = lookup key right

theorem SameFields.refl (fields : List (String × Json)) : SameFields fields fields :=
  fun _ => rfl

/-! ## Equality -/

mutual

/-- Equality of values, given the equality of everything but lists and
dictionaries. -/
def eqBy (atom : Json → Json → Bool) : Json → Json → Bool
  | .arr xs, right =>
      match right with
      | .arr ys => eqItems atom xs ys
      | _ => false
  | .obj fs, right =>
      match right with
      | .obj gs => eqFields atom fs [] gs && gs.all fun g => (lookup g.1 fs).isSome
      | _ => false
  | left, right => atom left right
termination_by structural left => left

def eqItems (atom : Json → Json → Bool) : List Json → List Json → Bool
  | [], [] => true
  | x :: xs, ys =>
      match ys with
      | [] => false
      | y :: ys => eqBy atom x y && eqItems atom xs ys
  | [], _ :: _ => false
termination_by structural xs => xs

/-- Every binding of the left side that counts is matched on the right. -/
def eqFields (atom : Json → Json → Bool) :
    List (String × Json) → List String → List (String × Json) → Bool
  | [], _, _ => true
  | binding :: rest, seen, gs =>
      eqBinding atom binding seen gs && eqFields atom rest (binding.1 :: seen) gs
termination_by structural fs => fs

def eqBinding (atom : Json → Json → Bool) :
    String × Json → List String → List (String × Json) → Bool
  | (key, value), seen, gs =>
      if key ∈ seen then true
      else
        match lookup key gs with
        | some other => eqBy atom value other
        | none => false
termination_by structural binding => binding

end

/-- The number a value counts as in `==`. -/
inductive Number where
  | finite (value : ℚ)
  | infinite (negative : Bool)
deriving DecidableEq

def number? : Json → Option Number
  | .bool value => some (.finite (if value then 1 else 0))
  | .int value => some (.finite value)
  | .float (.finite value) => some (.finite value)
  | .float .negZero => some (.finite 0)
  | .float (.infinite negative) => some (.infinite negative)
  | _ => none

/-- `==` outside lists and dictionaries. -/
def looseAtom (left right : Json) : Bool :=
  match left, right with
  | .null, .null => true
  | .str s, .str t => s == t
  | _, _ =>
      match left.number?, right.number? with
      | some m, some n => m = n
      | _, _ => false

/-- Equality of the dumped texts outside lists and dictionaries. -/
def strictAtom : Json → Json → Bool
  | .null, .null => true
  | .bool a, .bool b => a == b
  | .int a, .int b => a == b
  | .float a, .float b => a = b
  | .str s, .str t => s == t
  | _, _ => false

/-- `left == right`. -/
def eq (left right : Json) : Bool := eqBy looseAtom left right

/-- `json.dumps(left, sort_keys=True) == json.dumps(right, sort_keys=True)`. -/
def dumpsEq (left right : Json) : Bool := eqBy strictAtom left right

variable {atom : Json → Json → Bool}

/-- `eqFields` looks at the first binding of every key not yet seen. -/
theorem eqFields_iff (fs : List (String × Json)) (seen : List String)
    (gs : List (String × Json)) :
    eqFields atom fs seen gs = true ↔
      ∀ key value, key ∉ seen → lookup key fs = some value →
        ∃ other, lookup key gs = some other ∧ eqBy atom value other = true := by
  induction fs generalizing seen with
  | nil => simp [eqFields]
  | cons binding rest ih =>
      obtain ⟨name, value⟩ := binding
      rw [eqFields, Bool.and_eq_true, ih, eqBinding]
      constructor
      · rintro ⟨hhead, htail⟩ key v hseen hlookup
        rw [lookup_cons] at hlookup
        split_ifs at hlookup with hkey
        · obtain rfl := Option.some.inj hlookup
          subst hkey
          rw [if_neg hseen] at hhead
          cases hother : lookup key gs with
          | none => simp [hother] at hhead
          | some other => exact ⟨other, rfl, by simpa [hother] using hhead⟩
        · exact htail key v (by simp [hkey, hseen]) hlookup
      · intro h
        constructor
        · split_ifs with hmem
          · rfl
          · obtain ⟨other, hother, heq⟩ := h name value hmem (by simp [lookup_cons])
            simpa [hother] using heq
        · intro key v hseen hlookup
          rw [List.mem_cons, not_or] at hseen
          exact h key v hseen.2 (by rw [lookup_cons, if_neg hseen.1, hlookup])

theorem lookup_isSome_of_mem {binding : String × Json} {fields : List (String × Json)}
    (h : binding ∈ fields) : (lookup binding.1 fields).isSome = true := by
  induction fields with
  | nil => simp at h
  | cons head rest ih =>
      obtain ⟨name, value⟩ := head
      rw [lookup_cons]
      split_ifs with hkey
      · rfl
      · rcases List.mem_cons.1 h with rfl | hmem
        · exact absurd rfl hkey
        · exact ih hmem

theorem exists_mem_of_lookup {key : String} {value : Json} {fields : List (String × Json)}
    (h : lookup key fields = some value) : (key, value) ∈ fields := by
  induction fields with
  | nil => simp at h
  | cons head rest ih =>
      obtain ⟨name, other⟩ := head
      rw [lookup_cons] at h
      split_ifs at h with hkey
      · obtain rfl := Option.some.inj h
        simp [hkey]
      · exact List.mem_cons_of_mem _ (ih h)

/-- Dictionaries are equal when they bind the same keys to equal values. -/
theorem eqBy_obj_iff {fs gs : List (String × Json)} :
    eqBy atom (.obj fs) (.obj gs) = true ↔
      ∀ key, match lookup key fs, lookup key gs with
        | some v, some w => eqBy atom v w = true
        | none, none => True
        | _, _ => False := by
  rw [eqBy, Bool.and_eq_true, eqFields_iff, List.all_eq_true]
  constructor
  · rintro ⟨hfields, hkeys⟩ key
    cases hleft : lookup key fs with
    | some v =>
        obtain ⟨w, hw, heq⟩ := hfields key v (by simp) hleft
        simpa [hw] using heq
    | none =>
        cases hright : lookup key gs with
        | none => trivial
        | some w =>
            have := hkeys _ (exists_mem_of_lookup hright)
            simp [hleft] at this
  · intro h
    constructor
    · intro key v _ hleft
      have hkey := h key
      rw [hleft] at hkey
      cases hright : lookup key gs with
      | none => simp [hright] at hkey
      | some w => exact ⟨w, rfl, by simpa [hright] using hkey⟩
    · intro g hg
      have hkey := h g.1
      obtain ⟨w, hw⟩ := Option.isSome_iff_exists.1 (lookup_isSome_of_mem hg)
      rw [hw] at hkey
      cases hleft : lookup g.1 fs with
      | none => simp [hleft] at hkey
      | some v => rfl

/-- Only the bindings of a dictionary matter. -/
theorem eqBy_obj_congr {fs fs' gs gs' : List (String × Json)} (hf : SameFields fs fs')
    (hg : SameFields gs gs') :
    eqBy atom (.obj fs) (.obj gs) = eqBy atom (.obj fs') (.obj gs') := by
  rw [Bool.eq_iff_iff, eqBy_obj_iff, eqBy_obj_iff]
  simp only [hf _, hg _]

@[simp] theorem eqBy_arr {xs ys : List Json} :
    eqBy atom (.arr xs) (.arr ys) = eqItems atom xs ys := by rw [eqBy]

/-- Lists of values that stand for lists of data are equal when the data are, if
this holds of the items. -/
theorem eqItems_iff_of_forall₂ {α : Type} {R : Json → α → Prop}
    (hR : ∀ x a y b, R x a → R y b → (eqBy atom x y = true ↔ a = b))
    {xs ys : List Json} {as bs : List α} (hx : List.Forall₂ R xs as)
    (hy : List.Forall₂ R ys bs) : eqItems atom xs ys = true ↔ as = bs := by
  induction hx generalizing ys bs with
  | nil => cases hy <;> simp [eqItems]
  | cons hhead _ ih =>
      cases hy with
      | nil => simp [eqItems]
      | cons hhead' htail' =>
          rw [eqItems, Bool.and_eq_true, hR _ _ _ _ hhead hhead', ih htail', List.cons.injEq]

/-- Everything but lists and dictionaries. -/
def IsAtom : Json → Prop
  | .arr _ | .obj _ => False
  | _ => True

/-- A value is the dictionary with the given bindings, in some order. -/
def Represents (value : Json) (fields : List (String × Json)) : Prop :=
  ∃ fs, value = .obj fs ∧ SameFields fs fields

theorem represents_obj (fields : List (String × Json)) : Represents (.obj fields) fields :=
  ⟨fields, rfl, SameFields.refl fields⟩

theorem Represents.eqBy {left right : Json} {fs gs : List (String × Json)}
    (hl : Represents left fs) (hr : Represents right gs) :
    Json.eqBy atom left right = Json.eqBy atom (.obj fs) (.obj gs) := by
  obtain ⟨fs', rfl, hf⟩ := hl
  obtain ⟨gs', rfl, hg⟩ := hr
  exact eqBy_obj_congr hf hg

/-! ## Equality of atoms -/

@[simp] theorem int_eq_int {i j : Int} : (Json.int i).eq (.int j) = decide (i = j) := by
  rw [Bool.eq_iff_iff]
  simp [eq, eqBy, looseAtom, number?]

@[simp] theorem bool_eq_bool {a b : Bool} : (Json.bool a).eq (.bool b) = decide (a = b) := by
  cases a <;> cases b <;> simp [eq, eqBy, looseAtom, number?]

@[simp] theorem str_eq_str {s t : String} : (Json.str s).eq (.str t) = decide (s = t) := by
  rw [Bool.eq_iff_iff]
  simp [eq, eqBy, looseAtom]

mutual

/-- An equality that is reflexive on atoms is reflexive. -/
theorem eqBy_self (hatom : ∀ v, IsAtom v → atom v v = true) : ∀ v, eqBy atom v v = true
  | .null => hatom _ trivial
  | .bool _ => hatom _ trivial
  | .int _ => hatom _ trivial
  | .float _ => hatom _ trivial
  | .str _ => hatom _ trivial
  | .arr xs => by
      rw [eqBy]
      exact eqItems_self hatom xs
  | .obj fs => by
      rw [eqBy_obj_iff]
      intro key
      cases h : lookup key fs with
      | none => trivial
      | some v => exact eqBy_self_lookup hatom fs key v h

theorem eqItems_self (hatom : ∀ v, IsAtom v → atom v v = true) :
    ∀ xs, eqItems atom xs xs = true
  | [] => by rw [eqItems]
  | x :: xs => by
      rw [eqItems, eqBy_self hatom x, eqItems_self hatom xs]
      rfl

theorem eqBy_self_lookup (hatom : ∀ v, IsAtom v → atom v v = true) :
    ∀ (fs : List (String × Json)) (key : String) (v : Json), lookup key fs = some v →
      eqBy atom v v = true
  | [], key, v, h => by simp at h
  | (name, w) :: rest, key, v, h => by
      rw [lookup_cons] at h
      split_ifs at h
      · rw [← Option.some.inj h]
        exact eqBy_self hatom w
      · exact eqBy_self_lookup hatom rest key v h

end

/-- `==` is reflexive on JSON values: there is no NaN among them. -/
theorem eq_self (v : Json) : v.eq v = true := by
  refine eqBy_self (fun v hv => ?_) v
  cases v with
  | null => rfl
  | bool b => simp [looseAtom, number?]
  | int i => simp [looseAtom, number?]
  | float x => cases x <;> simp [looseAtom, number?]
  | str s => simp [looseAtom]
  | arr xs => exact hv.elim
  | obj fs => exact hv.elim

theorem dumpsEq_self (v : Json) : v.dumpsEq v = true := by
  refine eqBy_self (fun v hv => ?_) v
  cases v <;> first | exact hv.elim | simp [strictAtom]

/-! ## Equality with one kind of value -/

theorem eq_str_iff {v : Json} {s : String} : v.eq (.str s) = true ↔ v = .str s := by
  cases v <;> simp [eq, eqBy, looseAtom, number?]

theorem str_eq_iff {v : Json} {s : String} : (Json.str s).eq v = true ↔ v = .str s := by
  cases v with
  | str t => simpa using eq_comm
  | _ => simp [eq, eqBy, looseAtom, number?]

theorem eq_nil_iff {v : Json} : v.eq (.arr []) = true ↔ v = .arr [] := by
  cases v with
  | arr items => cases items <;> simp [eq, eqBy, eqItems]
  | _ => simp [eq, eqBy, looseAtom, number?]

/-- Equality with a value that counts as a number. -/
theorem eq_iff_number {v w : Json} {n : Number} (h : w.number? = some n) :
    v.eq w = true ↔ v.number? = some n := by
  rcases w with _ | _ | _ | (_ | _ | _) | _ | _ | _ <;>
    rcases v with _ | _ | _ | (_ | _ | _) | _ | _ | _ <;>
    simp_all [eq, eqBy, looseAtom, number?]

theorem eq_int_iff {v : Json} {i : Int} : v.eq (.int i) = true ↔ v.number? = some (.finite i) :=
  eq_iff_number rfl

/-- A value equal to one that counts as an integer counts as it too. -/
theorem eq_int_of_eq {v w : Json} {i : Int} (hw : w.eq (.int i) = true) (h : v.eq w = true) :
    v.eq (.int i) = true := by
  rw [eq_int_iff] at hw ⊢
  exact (eq_iff_number hw).1 h

theorem dumpsEq_int_iff {v : Json} {i : Int} : v.dumpsEq (.int i) = true ↔ v = .int i := by
  cases v <;> simp [dumpsEq, eqBy, strictAtom]

theorem dumpsEq_null_iff {v : Json} : v.dumpsEq .null = true ↔ v = .null := by
  cases v <;> simp [dumpsEq, eqBy, strictAtom]

end Json

end CkbSail.PythonStd
