import CkbSail.Core.Compare
import Mathlib.Data.List.TakeWhile

/-!
# What the comparator reports

`compareEvents` is the general first-difference scan over the eight fields.
`located_compareWithPolicy` states the whole report as one decision list, and
`passed_iff` says when there is none.
-/

namespace CkbSail.Core

open RustStd ProofSupport

/-- Where a comparison failed: the step, if it has one, and the field. -/
def CompareResult.located (result : CompareResult) : Option (Option Nat × String) :=
  result.mismatch.map fun mismatch => (mismatch.step, mismatch.field)

theorem CompareResult.passed_iff_located {result : CompareResult} :
    result.passed = true ↔ result.located = none := by
  simp [CompareResult.passed, CompareResult.located]

/-- One field at the head of the chain of comparisons is one field at the head
of the searched list. -/
theorem compareField_orElse_located {α : Type} [DecidableEq α] (debug : α → String)
    {step : Nat} {left right : CommitEvent} (field : Field) (fields : List Field)
    (value : CommitEvent → α) (rest : Option TraceMismatch)
    (hfield : CommitEvent.differs field left right = decide (value left ≠ value right))
    (hrest : rest.map (fun m => (m.step, m.field)) =
      (fields.find? (CommitEvent.differs · left right)).map fun f => (some step, f.name)) :
    (compareField debug field.name step (value left) (value right) <|> rest).map
        (fun m => (m.step, m.field)) =
      ((field :: fields).find? (CommitEvent.differs · left right)).map
        fun f => (some step, f.name) := by
  rw [List.find?_cons, hfield]
  by_cases h : value left = value right
  · simpa [compareField, h] using hrest
  · simp [compareField, h]

/-- One event comparison is the search for the first differing field. -/
theorem compareEvent_located (step : Nat) (left right : CommitEvent) :
    (compareEvent step left right).map (fun m => (m.step, m.field)) =
      (Field.all.find? (CommitEvent.differs · left right)).map
        fun field => (some step, field.name) := by
  have hlast : (compareField toString "halt" step left.halt right.halt).map
      (fun m => (m.step, m.field)) =
        ([Field.halt].find? (CommitEvent.differs · left right)).map
          fun field => (some step, field.name) := by
    have h : (compareField toString "halt" step left.halt right.halt <|> none).map
        (fun m : TraceMismatch => (m.step, m.field)) =
          ([Field.halt].find? (CommitEvent.differs · left right)).map
            fun field => (some step, field.name) :=
      compareField_orElse_located toString .halt [] CommitEvent.halt none rfl rfl
    simpa using h
  refine compareField_orElse_located toString .order _ CommitEvent.order _ rfl ?_
  refine compareField_orElse_located toString .instruction _ CommitEvent.instruction _ rfl ?_
  refine compareField_orElse_located toString .pcBefore _ CommitEvent.pcBefore _ rfl ?_
  refine compareField_orElse_located toString .pcAfter _ CommitEvent.pcAfter _ rfl ?_
  refine compareField_orElse_located _ .registerWrites _ CommitEvent.registerWrites _ rfl ?_
  refine compareField_orElse_located _ .memory _ CommitEvent.memory _ rfl ?_
  exact compareField_orElse_located toString .trap _ CommitEvent.trap _ rfl hlast

theorem compareEvents_located (k : Nat) (lefts rights : List CommitEvent) :
    (compareEvents k lefts rights).map (fun p => (p.1, p.2.step, p.2.field)) =
      (firstDifference CommitEvent.differs Field.all k lefts rights).map
        fun p => (p.1, some p.1, p.2.name) := by
  induction lefts generalizing k rights with
  | nil => simp [compareEvents, firstDifference]
  | cons left lefts ih =>
      cases rights with
      | nil => simp [compareEvents, firstDifference]
      | cons right rights =>
          have hevent := compareEvent_located k left right
          simp only [compareEvents, firstDifference]
          cases hfind : Field.all.find? (CommitEvent.differs · left right) with
          | some field =>
              obtain ⟨mismatch, hm, hloc⟩ : ∃ m, compareEvent k left right = some m ∧
                  (m.step, m.field) = (some k, field.name) := by
                simpa [hfind] using hevent
              simpa [hm] using hloc
          | none =>
              have hnone : compareEvent k left right = none := by
                simpa [hfind] using hevent
              simpa [hnone] using ih (k + 1) rights

variable [StrDebug]

/-- The report of a comparison as one decision list. -/
theorem located_compareWithPolicy (left right : ExecutionTrace) (policy : TerminalPolicy) :
    (CompareResult.compareWithPolicy left right policy).located =
      match firstDifference CommitEvent.differs Field.all 0 left.events right.events with
      | some (k, field) => some (some k, field.name)
      | none =>
          if left.events.length ≠ right.events.length then
            some (some (min left.events.length right.events.length), "trace_length")
          else if ¬terminalMatches left.traceEnd right.traceEnd policy then
            some (none, "termination")
          else if min left.events.length right.events.length = 0 then
            some (none, "empty_trace")
          else none := by
  have hevents := compareEvents_located 0 left.events right.events
  unfold CompareResult.compareWithPolicy
  cases hfirst : firstDifference CommitEvent.differs Field.all 0 left.events right.events with
  | some p =>
      obtain ⟨k, field⟩ := p
      obtain ⟨i, mismatch, hm, hloc⟩ : ∃ i m, compareEvents 0 left.events right.events =
          some (i, m) ∧ (i, m.step, m.field) = (k, some k, field.name) := by
        simpa [hfirst] using hevents
      simp only [Prod.mk.injEq] at hloc
      simp [hm, CompareResult.located, hloc.2.1, hloc.2.2]
  | none =>
      have hnone : compareEvents 0 left.events right.events = none := by
        simpa [hfirst] using hevents
      simp only [hnone]
      split_ifs <;> rfl

/-- The compared steps are the leading steps at which no field differs. -/
theorem comparedSteps_compareWithPolicy (left right : ExecutionTrace)
    (policy : TerminalPolicy) :
    (CompareResult.compareWithPolicy left right policy).comparedSteps =
      leadingEqual CommitEvent.differs Field.all left.events right.events := by
  rw [leadingEqual_eq]
  have hevents := compareEvents_located 0 left.events right.events
  unfold CompareResult.compareWithPolicy
  cases hfirst : firstDifference CommitEvent.differs Field.all 0 left.events right.events with
  | some p =>
      obtain ⟨k, field⟩ := p
      obtain ⟨i, mismatch, hm, hloc⟩ : ∃ i m, compareEvents 0 left.events right.events =
          some (i, m) ∧ (i, m.step, m.field) = (k, some k, field.name) := by
        simpa [hfirst] using hevents
      simp only [Prod.mk.injEq] at hloc
      simp [hm, hloc.1]
  | none =>
      have hnone : compareEvents 0 left.events right.events = none := by
        simpa [hfirst] using hevents
      simp only [hnone]
      split_ifs with _ _ hzero <;> simp_all

omit [StrDebug] in
/-- Whether two traces agree in every field at every step of the common prefix. -/
theorem firstDifference_eq_none_iff_agree {lefts rights : List CommitEvent}
    (hlength : lefts.length = rights.length) :
    firstDifference CommitEvent.differs Field.all 0 lefts rights = none ↔ lefts = rights := by
  constructor
  · intro h
    rw [firstDifference_none_iff Field.mem_all, differences_eq_empty] at h
    apply List.ext_getElem hlength
    intro k hl hr
    apply CommitEvent.eq_of_not_differs
    intro field
    by_contra hne
    exact h k field (mem_differences.2 ⟨_, _, List.getElem?_eq_getElem hl,
      List.getElem?_eq_getElem hr, by simpa using hne⟩)
  · rintro rfl
    have h := firstDifference_self CommitEvent.differs_self Field.all lefts []
    rwa [List.append_nil] at h

/-- A comparison passes exactly on equal non-empty event lists with matching
terminations. -/
theorem passed_iff (left right : ExecutionTrace) (policy : TerminalPolicy) :
    (CompareResult.compareWithPolicy left right policy).passed = true ↔
      left.events ≠ [] ∧ left.events = right.events ∧
        terminalMatches left.traceEnd right.traceEnd policy = true := by
  rw [CompareResult.passed_iff_located, located_compareWithPolicy]
  constructor
  · intro h
    cases hfirst : firstDifference CommitEvent.differs Field.all 0 left.events right.events with
    | some p => simp [hfirst] at h
    | none =>
        simp only [hfirst] at h
        split_ifs at h with hlength hend hzero
        have hlen : left.events.length = right.events.length := by simpa using hlength
        have heq := (firstDifference_eq_none_iff_agree hlen).1 hfirst
        refine ⟨?_, heq, by simpa using hend⟩
        rintro hnil
        simp [hnil] at hzero
  · rintro ⟨hne, heq, hend⟩
    have hfirst := (firstDifference_eq_none_iff_agree (congrArg List.length heq)).2 heq
    have hpos : right.events.length ≠ 0 := by
      rw [← heq]
      simpa using hne
    rw [hfirst]
    simp [heq, hend, hpos]

/-- What a passing comparison gives, for either policy. -/
theorem events_eq_of_passed {left right : ExecutionTrace} {policy : TerminalPolicy}
    (h : (CompareResult.compareWithPolicy left right policy).passed = true) :
    left.events = right.events := ((passed_iff left right policy).1 h).2.1

/-! ## The report as a specification -/

/-- What each policy asks of the terminations. -/
def EndsAgree (policy : TerminalPolicy) (left right : TraceEnd) : Prop :=
  match policy with
  | .exact => left = right
  | .categoryOnly => left.category = right.category

omit [StrDebug] in
theorem terminalMatches_iff {policy : TerminalPolicy} {left right : TraceEnd} :
    terminalMatches left right policy = true ↔ EndsAgree policy left right := by
  cases policy <;> simp [terminalMatches, EndsAgree]

/-- The events of a pair of traces agree up to the first difference: the count of
leading equal events. -/
def leadingEqualEvents (left right : ExecutionTrace) : Nat :=
  ((left.events.zip right.events).takeWhile fun p => decide (p.1 = p.2)).length

omit [StrDebug] in
theorem leadingEqual_eq_leadingEqualEvents (left right : ExecutionTrace) :
    leadingEqual CommitEvent.differs Field.all left.events right.events =
      leadingEqualEvents left right := by
  unfold leadingEqual leadingEqualEvents
  congr 2
  funext p
  rw [Bool.eq_iff_iff, decide_eq_true_eq, Bool.not_eq_true', List.any_eq_false]
  constructor
  · intro h
    refine CommitEvent.eq_of_not_differs fun field => ?_
    simpa using h field field.mem_all
  · intro h field _
    simp [h]

/-- The result of a passing comparison: every event compared, nothing found. -/
theorem compareWithPolicy_of_passed {left right : ExecutionTrace} {policy : TerminalPolicy}
    (h : (CompareResult.compareWithPolicy left right policy).passed = true) :
    CompareResult.compareWithPolicy left right policy = ⟨left.events.length, none⟩ := by
  have hmismatch : (CompareResult.compareWithPolicy left right policy).mismatch = none := by
    simpa [CompareResult.passed] using h
  have hsteps := comparedSteps_compareWithPolicy left right policy
  have hall : ∀ p ∈ left.events.zip left.events, decide (p.1 = p.2) = true := by
    intro p hp
    obtain ⟨k, hk, rfl⟩ := List.getElem_of_mem hp
    simp
  rw [leadingEqual_eq_leadingEqualEvents, leadingEqualEvents, ← events_eq_of_passed h,
    List.takeWhile_eq_self_iff.2 hall, List.length_zip, Nat.min_self] at hsteps
  rw [← hsteps, ← hmismatch]

/-- What a comparison must report: nothing on non-empty traces of one length that
agree in all fields and in termination, else the first in the order of least
(step, field), trace length, termination, empty trace. -/
structure ReportsFirst (left right : ExecutionTrace) (policy : TerminalPolicy)
    (result : CompareResult) : Prop where
  passed : result.passed = true ↔
    left.events ≠ [] ∧ right.events ≠ [] ∧ left.events.length = right.events.length ∧
      traceDifferences left right = ∅ ∧ EndsAgree policy left.traceEnd right.traceEnd
  field : (traceDifferences left right).Nonempty →
    ∃ k f, IsLeast (traceDifferences left right) (toLex (k, f)) ∧
      result.located = some (some k, f.name)
  length : traceDifferences left right = ∅ → left.events.length ≠ right.events.length →
    result.located = some (some (min left.events.length right.events.length), "trace_length")
  termination : traceDifferences left right = ∅ → left.events.length = right.events.length →
    ¬EndsAgree policy left.traceEnd right.traceEnd → result.located = some (none, "termination")
  empty : left.events = [] → right.events = [] →
    EndsAgree policy left.traceEnd right.traceEnd → result.located = some (none, "empty_trace")
  comparedSteps : result.comparedSteps = leadingEqualEvents left right

theorem reportsFirst_compareWithPolicy (left right : ExecutionTrace) (policy : TerminalPolicy) :
    ReportsFirst left right policy (CompareResult.compareWithPolicy left right policy) := by
  have hnone : firstDifference CommitEvent.differs Field.all 0 left.events right.events = none ↔
      traceDifferences left right = ∅ :=
    firstDifference_none_iff Field.mem_all left.events right.events
  have hlocated := located_compareWithPolicy left right policy
  refine ⟨?_, ?_, ?_, ?_, ?_, ?_⟩
  · rw [passed_iff, ← hnone, terminalMatches_iff]
    constructor
    · rintro ⟨hne, hevents, hend⟩
      refine ⟨hne, hevents ▸ hne, congrArg _ hevents, ?_, hend⟩
      exact (firstDifference_eq_none_iff_agree (congrArg _ hevents)).2 hevents
    · rintro ⟨hne, -, hlength, hagree, hend⟩
      exact ⟨hne, (firstDifference_eq_none_iff_agree hlength).1 hagree, hend⟩
  · intro hdiff
    cases hfirst : firstDifference CommitEvent.differs Field.all 0 left.events right.events with
    | none => exact absurd (hnone.1 hfirst) hdiff.ne_empty
    | some p =>
        rw [hfirst] at hlocated
        exact ⟨p.1, p.2, firstDifference_isLeast Field.mem_all Field.all_sorted hfirst, hlocated⟩
  · intro hagree hlength
    rw [hnone.2 hagree] at hlocated
    simpa [hlength] using hlocated
  · intro hagree hlength hend
    rw [← terminalMatches_iff] at hend
    rw [hnone.2 hagree] at hlocated
    simpa [hlength, hend] using hlocated
  · intro hleft hright hend
    rw [← terminalMatches_iff] at hend
    simpa [hleft, hright, hend, firstDifference] using hlocated
  · rw [comparedSteps_compareWithPolicy, leadingEqual_eq_leadingEqualEvents]

end CkbSail.Core
