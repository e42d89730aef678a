import CkbSail.DiffTest.Proofs.MutationDetection
import CkbSail.Scripts.Proofs.FirstDifference

/-!
# The two mutators

`mutated` changes the JSON of a trace as `apply` changes the trace, or finds no
register write where `apply` finds none.
-/

namespace CkbSail.DiffTest

open CkbSail.Core RustStd PythonStd Scripts.RuntimeEvidence

/-! ## Lists read item by item -/

section Items

variable {α : Type} {R : Json → α → Prop} {as : List Json} {xs : List α} {i : Nat} {x : α}

theorem exists_getElem?_of_forall₂ (h : List.Forall₂ R as xs) (hx : xs[i]? = some x) :
    ∃ a, as[i]? = some a ∧ R a x := by
  induction h generalizing i with
  | nil => simp at hx
  | @cons a y as ys hhead _ ih =>
      cases i with
      | zero =>
          obtain rfl : y = x := by simpa using hx
          exact ⟨a, rfl, hhead⟩
      | succ i => exact ih (by simpa using hx)

theorem forall₂_set_modify (h : List.Forall₂ R as xs) {f : α → α} (hx : xs[i]? = some x) {b : Json}
    (hb : R b (f x)) : List.Forall₂ R (as.set i b) (xs.modify i f) := by
  induction h generalizing i with
  | nil => simp at hx
  | @cons a y as ys hhead htail ih =>
      cases i with
      | zero =>
          obtain rfl : y = x := by simpa using hx
          rw [List.set_cons_zero, List.modify_zero_cons]
          exact .cons hb htail
      | succ i =>
          rw [List.set_cons_succ, List.modify_succ_cons]
          exact .cons hhead (ih (by simpa using hx))

theorem forall₂_dropLast (h : List.Forall₂ R as xs) :
    List.Forall₂ R as.dropLast xs.dropLast := by
  rw [List.dropLast_eq_take, List.dropLast_eq_take, h.length_eq]
  exact List.forall₂_take _ h

end Items

/-! ## Assignments -/

/-- An assignment to an item of a list, given what it does to the item. -/
theorem setAt_modify {α : Type} {R : Json → α → Prop} {as : List Json} {xs : List α}
    (h : List.Forall₂ R as xs) {i : Nat} {x : α} (hx : xs[i]? = some x) {f : α → α} {b : Json}
    (hb : R b (f x)) :
    ∃ bs, (Json.arr as).setAt (.int i) b = .ok (.arr bs) ∧ List.Forall₂ R bs (xs.modify i f) := by
  have hlt : i < as.length := by
    rw [h.length_eq]
    exact (List.getElem?_eq_some_iff.1 hx).1
  exact ⟨_, Json.setAt_natCast hlt b, forall₂_set_modify h hx hb⟩

/-- What an assignment to a key of the event must achieve. -/
def ChangesEvent (key : String) (change : Json → Py Json) (f : CommitEvent → CommitEvent)
    (x : CommitEvent) : Prop :=
  ∀ a, ReadsEvent a x → ∃ v v' a', a.getItem key = .ok v ∧ change v = .ok v' ∧
    a.setItem key v' = .ok a' ∧ ReadsEvent a' (f x)

theorem assignEvent_eq {as : List Json} {xs : List CommitEvent}
    (h : List.Forall₂ ReadsEvent as xs) {i : Nat} {x : CommitEvent} (hx : xs[i]? = some x)
    {key : String} {change : Json → Py Json} {f : CommitEvent → CommitEvent}
    (hchange : ChangesEvent key change f x) :
    ∃ bs, assignEvent (.arr as) (.int i) key change = .ok (.arr bs) ∧
      List.Forall₂ ReadsEvent bs (xs.modify i f) := by
  obtain ⟨a, ha, hread⟩ := exists_getElem?_of_forall₂ h hx
  obtain ⟨v, v', a', hv, hv', ha', hread'⟩ := hchange a hread
  obtain ⟨bs, hbs, hmodify⟩ := setAt_modify h hx hread'
  refine ⟨bs, ?_, hmodify⟩
  have hevent : (Json.arr as).subscript (.int i) = .ok a := Json.getAt_natCast_eq_ok.2 ha
  simp only [assignEvent, bind, Except.bind, hevent, hv, hv', ha', hbs]

theorem changesEvent_pcAfter (x : CommitEvent) :
    ChangesEvent "pc_after" advanceByTwo
      (fun event => { event with pcAfter := event.pcAfter + 2 }) x := by
  rintro a ⟨writes, memory, hrep, hwrites, hmemory⟩
  obtain ⟨a', ha', hrep'⟩ := hrep.setItem "pc_after" (.int (x.pcAfter + 2).toNat)
  refine ⟨_, _, a', hrep.getItem rfl, ?_, ha', writes, memory, hrep', hwrites, hmemory⟩
  rw [advanceByTwo, UInt64.toNat_add]
  rfl

theorem changesEvent_trap (x : CommitEvent) :
    ChangesEvent "trap" (fun value => pure (.bool !value.truthy))
      (fun event => { event with trap := !event.trap }) x := by
  rintro a ⟨writes, memory, hrep, hwrites, hmemory⟩
  obtain ⟨a', ha', hrep'⟩ := hrep.setItem "trap" (.bool !x.trap)
  exact ⟨_, _, a', hrep.getItem rfl, rfl, ha', writes, memory, hrep', hwrites, hmemory⟩

/-- What an assignment to a key of a write must achieve. -/
def ChangesWrite (key : String) (change : Json → Py Json) (f : RegisterWrite → RegisterWrite) :
    Prop :=
  ∀ w x, ReadsWrite w x → ∃ v v' w', w.getItem key = .ok v ∧ change v = .ok v' ∧
    w.setItem key v' = .ok w' ∧ ReadsWrite w' (f x)

theorem changesWrite_index :
    ChangesWrite "index" nextIndex fun write =>
      { write with index := if write.index ≥ 31 then 1 else write.index + 1 } := by
  intro w x hread
  have hrep : w.Represents x.fields := hread
  obtain ⟨w', hw', hrep'⟩ := hrep.setItem "index"
    (.int (if x.index ≥ 31 then 1 else x.index + 1).toNat)
  refine ⟨_, _, w', hrep.getItem rfl, ?_, hw', hrep'⟩
  have hge : x.index ≥ 31 ↔ (x.index.toNat : Int) ≥ 31 := by
    rw [ge_iff_le, UInt8.le_iff_toNat_le]
    exact Int.ofNat_le.symm
  rw [nextIndex]
  by_cases hindex : x.index ≥ 31
  · rw [if_pos hindex, if_pos (hge.1 hindex)]
    rfl
  · have hlt : x.index.toNat < 31 := by
      rw [hge] at hindex
      omega
    rw [if_neg hindex, if_neg (mt hge.2 hindex), UInt8.toNat_add,
      Nat.mod_eq_of_lt (by simp only [UInt8.reduceToNat]; omega)]
    rfl

theorem changesWrite_value :
    ChangesWrite "value" flipLowBit fun write => { write with value := write.value ^^^ 1 } := by
  intro w x hread
  have hrep : w.Represents x.fields := hread
  obtain ⟨w', hw', hrep'⟩ := hrep.setItem "value" (.int (x.value ^^^ 1).toNat)
  refine ⟨_, _, w', hrep.getItem rfl, ?_, hw', hrep'⟩
  rw [flipLowBit, UInt64.toNat_xor]
  rfl

/-- An assignment to the first write of an event that has one. -/
theorem assignWrite_eq {as : List Json} {xs : List CommitEvent}
    (h : List.Forall₂ ReadsEvent as xs) {i : Nat} {x : CommitEvent} (hx : xs[i]? = some x)
    (hne : x.registerWrites ≠ []) {key : String} {change : Json → Py Json}
    {f : RegisterWrite → RegisterWrite} (hchange : ChangesWrite key change f) :
    ∃ bs, assignWrite (.arr as) (.int i) key change = .ok (.arr bs) ∧
      List.Forall₂ ReadsEvent bs (xs.modify i (MutationKind.modifyWrite f)) := by
  refine assignEvent_eq h hx ?_
  rintro a ⟨writes, memory, hrep, hwrites, hmemory⟩
  obtain ⟨write, rest, hcons⟩ := List.exists_cons_of_ne_nil hne
  have hfirst : x.registerWrites[0]? = some write := by rw [hcons]; rfl
  obtain ⟨w, hw, hread⟩ := exists_getElem?_of_forall₂ hwrites hfirst
  obtain ⟨v, v', w', hv, hv', hw', hread'⟩ := hchange w write hread
  obtain ⟨ws, hws, hmodify⟩ := setAt_modify hwrites hfirst hread'
  obtain ⟨a', ha', hrep'⟩ := hrep.setItem "register_writes" (.arr ws)
  refine ⟨_, .arr ws, a', hrep.getItem rfl, ?_, ha', ws, memory, hrep', hmodify, hmemory⟩
  have hsubscript : (Json.arr writes).subscript (.int 0) = .ok w :=
    Json.getAt_natCast_eq_ok.2 hw
  have hws' : (Json.arr writes).setAt (.int 0) w' = .ok (.arr ws) := hws
  simp only [bind, Except.bind, hsubscript, hv, hv', hw', hws']

/-! ## The whole mutation -/

/-- What `mutated` must return for a mutation of a trace: nothing where the
mutation does not apply, else a value read as the mutated trace. -/
def ReadsMutation (result : Py (Option Json)) : Except String ExecutionTrace → Prop
  | .error _ => result = .ok none
  | .ok trace => ∃ value, result = .ok (some value) ∧ ReadsTrace value trace

section Trace

variable {value : Json} {trace : ExecutionTrace} {focus : Nat}

theorem readsTrace_events (h : ReadsTrace value trace) :
    ∃ as, value.getItem "events" = .ok (.arr as) ∧ List.Forall₂ ReadsEvent as trace.events ∧
      ∀ bs events, List.Forall₂ ReadsEvent bs events →
        ∃ value', value.setItem "events" (.arr bs) = .ok value' ∧
          ReadsTrace value' { trace with events := events } := by
  obtain ⟨as, traceEnd, hrep, has, hend⟩ := h
  refine ⟨as, hrep.getItem rfl, has, fun bs events hbs => ?_⟩
  obtain ⟨value', hvalue', hrep'⟩ := hrep.setItem "events" (.arr bs)
  exact ⟨value', hvalue', bs, traceEnd, hrep', hbs, hend⟩

theorem readsTrace_setEnd (h : ReadsTrace value trace) (traceEnd : TraceEnd) :
    ∃ value', value.setItem "end" traceEnd.toJson = .ok value' ∧
      ReadsTrace value' { trace with traceEnd := traceEnd } := by
  obtain ⟨as, traceEnd', hrep, has, -⟩ := h
  obtain ⟨value', hvalue', hrep'⟩ := hrep.setItem "end" traceEnd.toJson
  exact ⟨value', hvalue', as, traceEnd.toJson, hrep', has, readsEnd_toJson _⟩

theorem truthy_of_forall₂ {α : Type} {R : Json → α → Prop} {as : List Json} {xs : List α}
    (h : List.Forall₂ R as xs) : (Json.arr as).truthy = !xs.isEmpty := by
  cases h <;> rfl

theorem readsEvent_writes {a : Json} {x : CommitEvent} (h : ReadsEvent a x) :
    ∃ writes, a.getItem "register_writes" = .ok writes ∧
      writes.truthy = !x.registerWrites.isEmpty := by
  obtain ⟨writes, memory, hrep, hwrites, -⟩ := h
  exact ⟨_, hrep.getItem rfl, truthy_of_forall₂ hwrites⟩

theorem nextWrite_eq {as : List Json} {xs : List CommitEvent} (h : List.Forall₂ ReadsEvent as xs)
    (k : Nat) :
    nextWrite k as =
      .ok ((xs.findIdx? fun event => !event.registerWrites.isEmpty).map fun i => k + i) := by
  induction h generalizing k with
  | nil => rfl
  | @cons a x as xs hhead _ ih =>
      obtain ⟨writes, hwrites, htruthy⟩ := readsEvent_writes hhead
      rw [nextWrite, List.findIdx?_cons]
      simp only [bind, Except.bind, hwrites, htruthy, ih]
      split_ifs with hhas
      · rfl
      · simp only [Option.map_map]
        congr 2
        funext i
        simp only [Function.comp_apply]
        omega

/-- Both mutators choose the same event to change a register write of. -/
theorem writeTarget_eq {as : List Json} (has : List.Forall₂ ReadsEvent as trace.events)
    (hfocus : focus < trace.events.length) :
    writeTarget (.arr as) (.int focus) =
      .ok ((writeIndex trace focus).toOption.map fun i => Json.int i) := by
  have hx : trace.events[focus]? = some trace.events[focus] := List.getElem?_eq_getElem hfocus
  obtain ⟨a, ha, hread⟩ := exists_getElem?_of_forall₂ has hx
  obtain ⟨writes, hwrites, htruthy⟩ := readsEvent_writes hread
  have hsubscript : (Json.arr as).subscript (.int focus) = .ok a :=
    Json.getAt_natCast_eq_ok.2 ha
  simp only [writeTarget, bind, Except.bind, hsubscript, hwrites, htruthy, Json.iter,
    nextWrite_eq has, writeIndex, hx, Option.any_some, Nat.zero_add]
  split_ifs with hhas
  · rfl
  · cases trace.events.findIdx? fun event => !event.registerWrites.isEmpty <;> rfl

theorem mutated_eq (h : ReadsTrace value trace) (hfocus : focus < trace.events.length)
    (hend : trace.traceEnd = .injectionComplete) (kind : MutationKind) :
    ReadsMutation (mutated value kind.id (.int focus)) (kind.apply trace focus) := by
  obtain ⟨as, hevents, has, hset⟩ := readsTrace_events h
  have hne : trace.events ≠ [] := List.ne_nil_of_length_pos (by omega)
  have hclamp : min focus (trace.events.length - 1) = focus := by omega
  have hx : trace.events[focus]? = some trace.events[focus] := List.getElem?_eq_getElem hfocus
  cases kind with
  | pcAfter =>
      obtain ⟨bs, hbs, hread⟩ := assignEvent_eq has hx (changesEvent_pcAfter _)
      obtain ⟨value', hvalue', hread'⟩ := hset _ _ hread
      rw [MutationKind.apply, eventIndex_eq_ok hne, hclamp]
      refine ⟨value', ?_, hread'⟩
      simp [mutated, MutationKind.id, bind, Except.bind, hevents, hbs, hvalue']
  | trap =>
      obtain ⟨bs, hbs, hread⟩ := assignEvent_eq has hx (changesEvent_trap _)
      obtain ⟨value', hvalue', hread'⟩ := hset _ _ hread
      rw [MutationKind.apply, eventIndex_eq_ok hne, hclamp]
      refine ⟨value', ?_, hread'⟩
      simp [mutated, MutationKind.id, bind, Except.bind, hevents, hbs, hvalue']
  | registerIndex =>
      have htarget := writeTarget_eq has hfocus
      rw [MutationKind.apply]
      cases hindex : writeIndex trace focus with
      | error reason =>
          rw [hindex] at htarget
          simp [Except.map, ReadsMutation, mutated, MutationKind.id, bind, Except.bind, hevents,
            htarget, Except.toOption]
      | ok i =>
          obtain ⟨event, hevent, hwrites⟩ := (writeIndex_eq_ok hindex).writes
          obtain ⟨bs, hbs, hread⟩ := assignWrite_eq has hevent hwrites changesWrite_index
          obtain ⟨value', hvalue', hread'⟩ := hset _ _ hread
          rw [hindex] at htarget
          refine ⟨value', ?_, hread'⟩
          simp [mutated, MutationKind.id, bind, Except.bind, hevents, htarget, Except.toOption,
            hbs, hvalue']
  | registerValue =>
      have htarget := writeTarget_eq has hfocus
      rw [MutationKind.apply]
      cases hindex : writeIndex trace focus with
      | error reason =>
          rw [hindex] at htarget
          simp [Except.map, ReadsMutation, mutated, MutationKind.id, bind, Except.bind, hevents,
            htarget, Except.toOption]
      | ok i =>
          obtain ⟨event, hevent, hwrites⟩ := (writeIndex_eq_ok hindex).writes
          obtain ⟨bs, hbs, hread⟩ := assignWrite_eq has hevent hwrites changesWrite_value
          obtain ⟨value', hvalue', hread'⟩ := hset _ _ hread
          rw [hindex] at htarget
          refine ⟨value', ?_, hread'⟩
          simp [mutated, MutationKind.id, bind, Except.bind, hevents, htarget, Except.toOption,
            hbs, hvalue']
  | traceLength =>
      obtain ⟨value', hvalue', hread'⟩ := hset _ _ (forall₂_dropLast has)
      have hempty : trace.events.isEmpty = false := by simpa using hne
      have hpop : (Json.arr as).pop = .ok (.arr as.dropLast) := by
        have hitems : as.isEmpty = false := by
          rw [List.isEmpty_eq_false_iff, ← List.length_pos_iff, has.length_eq]
          omega
        simp [Json.pop, hitems]
      simp only [MutationKind.apply, hempty, Bool.false_eq_true, if_false]
      refine ⟨value', ?_, hread'⟩
      simp [mutated, MutationKind.id, bind, Except.bind, hevents, hpop, hvalue']
  | termination =>
      obtain ⟨value', hvalue', hread'⟩ := readsTrace_setEnd h .stepLimit
      simp only [MutationKind.apply, hend]
      refine ⟨value', ?_, hread'⟩
      have hstep : Json.obj [("kind", .str "step_limit")] = TraceEnd.stepLimit.toJson := rfl
      simp [mutated, MutationKind.id, bind, Except.bind, hevents, hstep, hvalue']

end Trace

end CkbSail.DiffTest
