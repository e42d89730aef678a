import CkbSail.PythonStd.Ops

/-!
# Dictionaries read from JSON

`items` goes through the bindings that count, each key once.  Values with the same
dumped text bind the same keys and have the same truth.
-/

namespace CkbSail.PythonStd.Json

variable {key : String} {value item : Json} {fields : List (String × Json)}

theorem lookup_isSome_iff : (lookup key fields).isSome = true ↔ key ∈ fields.map Prod.fst := by
  constructor
  · intro h
    obtain ⟨value, hvalue⟩ := Option.isSome_iff_exists.1 h
    exact List.mem_map_of_mem (exists_mem_of_lookup hvalue)
  · intro h
    obtain ⟨binding, hmem, rfl⟩ := List.mem_map.1 h
    exact lookup_isSome_of_mem hmem

theorem mem_keys_iff : key ∈ keys fields ↔ (lookup key fields).isSome = true := by
  rw [mem_keys, lookup_isSome_iff]

/-! ## Bindings -/

/-- The bindings of a dictionary in the order they are iterated. -/
def bindings (fields : List (String × Json)) : List (String × Json) :=
  (keys fields).map fun key => (key, (lookup key fields).getD .null)

/-- `value.items()`. -/
def items : Json → Py (List (String × Json))
  | .obj fields => .ok (bindings fields)
  | _ => .error .attributeError

theorem mem_bindings : (key, item) ∈ bindings fields ↔ lookup key fields = some item := by
  rw [bindings, List.mem_map]
  constructor
  · rintro ⟨name, hname, heq⟩
    obtain ⟨rfl, rfl⟩ := Prod.mk.inj heq
    obtain ⟨value, hvalue⟩ := Option.isSome_iff_exists.1 (mem_keys_iff.1 hname)
    rw [hvalue]
    rfl
  · intro h
    refine ⟨key, mem_keys_iff.2 ?_, ?_⟩
    · rw [h]
      rfl
    · rw [h]
      rfl

theorem items_eq_ok {rows : List (String × Json)} :
    value.items = .ok rows ↔ ∃ fields, value = .obj fields ∧ bindings fields = rows := by
  cases value <;> simp [items]

/-! ## Keys -/

/-- `type(value) is dict and set(value) == set(names)`. -/
def hasKeys (value : Json) (names : List String) : Bool :=
  match value with
  | .obj fields => (keys fields).all names.contains && names.all (keys fields).contains
  | _ => false

theorem hasKeys_iff {names : List String} :
    value.hasKeys names = true ↔
      ∃ fields, value = .obj fields ∧ ∀ key, (lookup key fields).isSome = true ↔ key ∈ names := by
  cases value with
  | obj fields =>
      simp only [hasKeys, Bool.and_eq_true, List.all_eq_true, List.contains_iff_mem, obj.injEq,
        exists_eq_left', ← mem_keys_iff]
      exact ⟨fun h key => ⟨h.1 key, h.2 key⟩, fun h => ⟨fun key => (h key).1, fun key => (h key).2⟩⟩
  | _ => simp [hasKeys]

theorem exists_getItem_of_hasKeys {names : List String} (h : value.hasKeys names = true)
    (hkey : key ∈ names) : ∃ item, value.getItem key = .ok item := by
  obtain ⟨fields, rfl, hkeys⟩ := hasKeys_iff.1 h
  obtain ⟨item, hitem⟩ := Option.isSome_iff_exists.1 ((hkeys key).2 hkey)
  exact ⟨item, getItem_obj_eq_ok.2 hitem⟩

theorem mem_of_getItem_of_hasKeys {names : List String} (h : value.hasKeys names = true)
    (hitem : value.getItem key = .ok item) : key ∈ names := by
  obtain ⟨fields, rfl, hkeys⟩ := hasKeys_iff.1 h
  rw [getItem_obj_eq_ok] at hitem
  refine (hkeys key).1 ?_
  rw [hitem]
  rfl

/-! ## Equal dictionaries -/

theorem obj_eq_obj_iff {others : List (String × Json)} :
    (Json.obj fields).eq (.obj others) = true ↔
      ∀ key, Option.Rel (fun v w => v.eq w = true) (lookup key fields) (lookup key others) := by
  simp only [eq, eqBy_obj_iff]
  refine forall_congr' fun key => ?_
  cases lookup key fields <;> cases lookup key others <;> simp

/-! ## The same dumped text -/

theorem str_dumpsEq_iff {text : String} : (Json.str text).dumpsEq value = true ↔
    value = .str text := by
  cases value with
  | str other => simpa [dumpsEq, eqBy, strictAtom] using eq_comm
  | _ => simp [dumpsEq, eqBy, strictAtom]

theorem int_dumpsEq_iff {i : Int} : (Json.int i).dumpsEq value = true ↔ value = .int i := by
  cases value with
  | int j => simpa [dumpsEq, eqBy, strictAtom] using eq_comm
  | _ => simp [dumpsEq, eqBy, strictAtom]

theorem bool_dumpsEq_iff {b : Bool} : (Json.bool b).dumpsEq value = true ↔ value = .bool b := by
  cases value with
  | bool c => simpa [dumpsEq, eqBy, strictAtom] using eq_comm
  | _ => simp [dumpsEq, eqBy, strictAtom]

theorem obj_dumpsEq_iff : (Json.obj fields).dumpsEq value = true ↔
    ∃ others, value = .obj others ∧ ∀ key,
      Option.Rel (fun v w => v.dumpsEq w = true) (lookup key fields) (lookup key others) := by
  cases value with
  | obj others =>
      simp only [dumpsEq, eqBy_obj_iff, obj.injEq, exists_eq_left']
      refine forall_congr' fun key => ?_
      cases lookup key fields <;> cases lookup key others <;> simp
  | _ => simp [dumpsEq, eqBy]

/-- A value with the same text as a dictionary of integers and texts equals it. -/
theorem eq_of_dumpsEq_atoms
    (hatoms : ∀ key item, lookup key fields = some item →
      (∃ i, item = .int i) ∨ ∃ text, item = .str text)
    (h : (Json.obj fields).dumpsEq value = true) : value.eq (.obj fields) = true := by
  obtain ⟨others, rfl, hrel⟩ := obj_dumpsEq_iff.1 h
  refine obj_eq_obj_iff.2 fun key => ?_
  have hkey := hrel key
  cases hitem : lookup key fields with
  | none =>
      rw [hitem] at hkey
      cases hother : lookup key others with
      | none => exact Option.Rel.none
      | some other =>
          rw [hother] at hkey
          cases hkey
  | some item =>
      rw [hitem] at hkey
      cases hother : lookup key others with
      | none =>
          rw [hother] at hkey
          cases hkey
      | some other =>
          rw [hother] at hkey
          refine Option.Rel.some ?_
          cases hkey with
          | some hsame =>
              rcases hatoms key item hitem with ⟨i, rfl⟩ | ⟨text, rfl⟩
              · rw [int_dumpsEq_iff.1 hsame]
                exact eq_self _
              · rw [str_dumpsEq_iff.1 hsame]
                exact eq_self _

/-- The texts agree at every key. -/
theorem getItem_of_dumpsEq {other : Json} (h : value.dumpsEq other = true)
    (hitem : value.getItem key = .ok item) :
    ∃ item', other.getItem key = .ok item' ∧ item.dumpsEq item' = true := by
  obtain ⟨fields, rfl, hlookup⟩ := getItem_eq_ok.1 hitem
  obtain ⟨others, rfl, hrel⟩ := obj_dumpsEq_iff.1 h
  have hkey := hrel key
  rw [hlookup] at hkey
  cases hother : lookup key others with
  | none =>
      rw [hother] at hkey
      cases hkey
  | some item' =>
      rw [hother] at hkey
      cases hkey with
      | some hsame => exact ⟨item', getItem_obj_eq_ok.2 hother, hsame⟩

theorem hasKeys_of_dumpsEq {other : Json} {names : List String} (h : value.dumpsEq other = true)
    (hkeys : value.hasKeys names = true) : other.hasKeys names = true := by
  obtain ⟨fields, rfl, hall⟩ := hasKeys_iff.1 hkeys
  obtain ⟨others, rfl, hrel⟩ := obj_dumpsEq_iff.1 h
  refine hasKeys_iff.2 ⟨others, rfl, fun key => ?_⟩
  rw [← hall key]
  have hkey := hrel key
  cases hleft : lookup key fields <;> cases hright : lookup key others <;>
    rw [hleft, hright] at hkey <;> cases hkey
  rfl

theorem eq_nil_iff_lookup : fields = [] ↔ ∀ key, lookup key fields = none := by
  constructor
  · rintro rfl key
    rfl
  · intro h
    cases fields with
    | nil => rfl
    | cons binding rest =>
        have hsome := lookup_isSome_of_mem (List.mem_cons_self (a := binding) (l := rest))
        rw [h] at hsome
        cases hsome

theorem truthy_of_dumpsEq {other : Json} (h : value.dumpsEq other = true) :
    value.truthy = other.truthy := by
  cases value with
  | obj fields =>
      obtain ⟨others, rfl, hrel⟩ := obj_dumpsEq_iff.1 h
      have hnil : fields = [] ↔ others = [] := by
        rw [eq_nil_iff_lookup, eq_nil_iff_lookup]
        refine forall_congr' fun key => ?_
        have hkey := hrel key
        cases hleft : lookup key fields <;> cases hright : lookup key others <;>
          rw [hleft, hright] at hkey <;> cases hkey
        -- neither has the key
        simp
      rw [truthy, truthy, Bool.eq_iff_iff, Bool.not_eq_true', Bool.not_eq_true',
        ← Bool.not_eq_true, ← Bool.not_eq_true, List.isEmpty_iff, List.isEmpty_iff, hnil]
  | arr xs =>
      cases other with
      | arr ys => cases xs <;> cases ys <;> simp_all [dumpsEq, eqItems, truthy]
      | _ => simp [dumpsEq, eqBy] at h
  | _ => cases other <;> simp_all [dumpsEq, eqBy, strictAtom, truthy]

end CkbSail.PythonStd.Json
