import CkbSail.Core.Serde
import CkbSail.Core.Proofs.Comparator
import CkbSail.Scripts.RuntimeEvidence

/-!
# Two comparators, one report

On values that stand for typed traces, `first_difference` of the validator
returns the field and the step the Exact comparison reports.
-/

namespace CkbSail.Scripts.RuntimeEvidence

open CkbSail.Core PythonStd RustStd

theorem fields_eq : FIELDS = Field.all.map Field.name := rfl

/-- The value of one compared field of an event. -/
theorem field_values {a b : Json} {x y : CommitEvent} (ha : ReadsEvent a x)
    (hb : ReadsEvent b y) (field : Field) :
    ∃ v w, a.getItem field.name = .ok v ∧ b.getItem field.name = .ok w ∧
      v.eq w = !CommitEvent.differs field x y := by
  obtain ⟨writes, memory, ha, hwrites, hmemory⟩ := ha
  obtain ⟨writes', memory', hb, hwrites', hmemory'⟩ := hb
  cases field with
  | order =>
      refine ⟨_, _, ha.getItem rfl, hb.getItem rfl, ?_⟩
      simp [CommitEvent.differs, UInt64.toNat_inj]
  | instruction =>
      refine ⟨_, _, ha.getItem rfl, hb.getItem rfl, ?_⟩
      simp [CommitEvent.differs, UInt32.toNat_inj]
  | pcBefore =>
      refine ⟨_, _, ha.getItem rfl, hb.getItem rfl, ?_⟩
      simp [CommitEvent.differs, UInt64.toNat_inj]
  | pcAfter =>
      refine ⟨_, _, ha.getItem rfl, hb.getItem rfl, ?_⟩
      simp [CommitEvent.differs, UInt64.toNat_inj]
  | registerWrites =>
      refine ⟨_, _, ha.getItem rfl, hb.getItem rfl, ?_⟩
      rw [Bool.eq_iff_iff, Json.eq, Json.eqBy_arr,
        Json.eqItems_iff_of_forall₂ eq_iff_of_readsWrite hwrites hwrites']
      simp [CommitEvent.differs]
  | memory =>
      refine ⟨_, _, ha.getItem rfl, hb.getItem rfl, ?_⟩
      rw [Bool.eq_iff_iff, Json.eq, Json.eqBy_arr,
        Json.eqItems_iff_of_forall₂ eq_iff_of_readsAccess hmemory hmemory']
      simp [CommitEvent.differs]
  | trap =>
      refine ⟨_, _, ha.getItem rfl, hb.getItem rfl, ?_⟩
      simp [CommitEvent.differs]
  | halt =>
      refine ⟨_, _, ha.getItem rfl, hb.getItem rfl, ?_⟩
      simp [CommitEvent.differs]

theorem differingField_eq {a b : Json} {x y : CommitEvent} (ha : ReadsEvent a x)
    (hb : ReadsEvent b y) (fields : List Field) :
    differingField a b (fields.map Field.name) =
      .ok ((fields.find? (CommitEvent.differs · x y)).map Field.name) := by
  induction fields with
  | nil => rfl
  | cons field fields ih =>
      obtain ⟨v, w, hv, hw, heq⟩ := field_values ha hb field
      rw [List.map_cons, differingField, hv, hw, List.find?_cons]
      simp only [bind, Except.bind, heq, Bool.not_not]
      cases CommitEvent.differs field x y with
      | true => rfl
      | false => simpa using ih

theorem differingEvent_eq {as bs : List Json} {xs ys : List CommitEvent}
    (ha : List.Forall₂ ReadsEvent as xs) (hb : List.Forall₂ ReadsEvent bs ys) (i : Nat) :
    differingEvent i as bs =
      .ok ((ProofSupport.firstDifference CommitEvent.differs Field.all i xs ys).map
        fun p => (p.2.name, p.1)) := by
  induction ha generalizing bs ys i with
  | nil => cases hb <;> rfl
  | cons hhead _ ih =>
      cases hb with
      | nil => rfl
      | @cons b y bs ys hhead' htail' =>
          rw [differingEvent, fields_eq, differingField_eq hhead hhead']
          simp only [bind, Except.bind, ProofSupport.firstDifference]
          cases Field.all.find? (CommitEvent.differs · _ y) with
          | some field => rfl
          | none => exact ih htail' (i + 1)

variable [StrDebug]

/-- `first_difference` reports what the Exact comparison reports. -/
theorem firstDifference_eq {left right : Json} {x y : ExecutionTrace}
    (hleft : ReadsTrace left x) (hright : ReadsTrace right y) :
    firstDifference left right =
      .ok (match (CompareResult.compare x y).located with
        | some (step, field) => (some field, step)
        | none => (none, none)) := by
  obtain ⟨as, leftEnd, hl, has, hle⟩ := hleft
  obtain ⟨bs, rightEnd, hr, hbs, hre⟩ := hright
  have hleftEvents : left.getItem "events" = .ok (.arr as) := hl.getItem rfl
  have hrightEvents : right.getItem "events" = .ok (.arr bs) := hr.getItem rfl
  have hleftEnd : left.getItem "end" = .ok leftEnd := hl.getItem rfl
  have hrightEnd : right.getItem "end" = .ok rightEnd := hr.getItem rfl
  have hends : leftEnd.eq rightEnd = terminalMatches x.traceEnd y.traceEnd .exact := by
    rw [Bool.eq_iff_iff, eq_iff_of_readsEnd hle hre]
    simp [terminalMatches]
  rw [firstDifference, hleftEvents, hrightEvents, CompareResult.compare,
    located_compareWithPolicy]
  simp only [bind, Except.bind, Json.iter, differingEvent_eq has hbs]
  cases ProofSupport.firstDifference CommitEvent.differs Field.all 0 x.events y.events with
  | some p => rfl
  | none =>
      simp only [Option.map_none, Json.len, has.length_eq, hbs.length_eq, hleftEnd, hrightEnd,
        hends, Json.truthy, pure, Except.pure]
      by_cases hlength : x.events.length = y.events.length
      · cases hmatch : terminalMatches x.traceEnd y.traceEnd .exact with
        | false => simp [hlength]
        | true =>
            have hempty : as.isEmpty = decide (min x.events.length y.events.length = 0) := by
              rw [Bool.eq_iff_iff, List.isEmpty_iff_length_eq_zero, has.length_eq, hlength]
              simp
            by_cases hzero : min x.events.length y.events.length = 0
            · have hy : y.events.length = 0 := by omega
              simp [hlength, hempty, hy]
            · have hy : y.events.length ≠ 0 := by omega
              simp [hlength, hempty, hy]
      · simp [hlength]

/-- Values read as traces whose comparison passes have no difference. -/
theorem firstDifference_of_passed {left right : Json} {x y : ExecutionTrace}
    (hleft : ReadsTrace left x) (hright : ReadsTrace right y)
    (h : (CompareResult.compare x y).passed = true) :
    firstDifference left right = .ok (none, none) := by
  rw [firstDifference_eq hleft hright, CompareResult.passed_iff_located.1 h]

/-- The comparator reports the least difference under either policy, and the
validator finds the same field and step as the Exact policy in the JSON of the
traces, and nothing exactly when it passes. -/
theorem comparators_agree (left right : ExecutionTrace) :
    (∀ policy, ReportsFirst left right policy
      (CompareResult.compareWithPolicy left right policy)) ∧
    firstDifference left.toJson right.toJson =
      .ok (match (CompareResult.compare left right).located with
        | some (step, field) => (some field, step)
        | none => (none, none)) ∧
    (firstDifference left.toJson right.toJson = .ok (none, none) ↔
      (CompareResult.compare left right).passed = true) := by
  have hpython := firstDifference_eq (readsTrace_toJson left) (readsTrace_toJson right)
  refine ⟨reportsFirst_compareWithPolicy left right, hpython, ?_⟩
  rw [hpython, CompareResult.passed_iff_located]
  cases (CompareResult.compare left right).located <;> simp

end CkbSail.Scripts.RuntimeEvidence
