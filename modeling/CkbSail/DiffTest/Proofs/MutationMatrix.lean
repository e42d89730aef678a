import CkbSail.DiffTest.Proofs.Mutated
import CkbSail.Scripts.Proofs.Acceptance
import CkbSail.Scripts.Proofs.Matrix

/-!
# The mutation matrix and its validator

The producer evaluates every mutation of every case; the validator recomputes
them from the artifacts.  Row by row both find the same, whatever the order of
the rows, so the totals and the tallies agree as well.
-/

namespace CkbSail.DiffTest

open CkbSail.Core RustStd PythonStd Scripts.RuntimeEvidence

/-! ## Recorded cases -/

/-- A case, its artifact as the validator reads it, and the traces of its run. -/
structure Entry where
  case : TestProgram
  artifact : Json
  pair : EnginePair

/-- An accepted artifact that records the traces `run_pair` returns for its case. -/
structure Entry.Recorded (entry : Entry) (engines : Engines) (options : RunOptions) : Prop where
  accepted : ∃ row environment, checkCase row entry.artifact environment = .ok ()
  focusStep : ∃ value, entry.artifact.getItem "case" = .ok value ∧
    value.getItem "focus_step" = .ok (.int entry.case.focusStep)
  run : runPair engines entry.case options = .ok entry.pair
  ckb : ∃ value, entry.artifact.getItem "ckb_trace" = .ok value ∧ ReadsTrace value entry.pair.ckb
  sail : ∃ value, entry.artifact.getItem "sail_trace" = .ok value ∧
    ReadsTrace value entry.pair.sail

/-- Two equal traces of a whole program with the focus step among the events. -/
structure Entry.Clean (entry : Entry) : Prop where
  equal : entry.pair.sail = entry.pair.ckb
  inside : entry.case.focusStep < entry.pair.ckb.events.length
  complete : entry.pair.ckb.traceEnd = .injectionComplete

theorem Entry.Recorded.clean {entry : Entry} {engines : Engines} {options : RunOptions}
    (h : entry.Recorded engines options) : entry.Clean := by
  obtain ⟨row, environment, haccepted⟩ := h.accepted
  obtain ⟨words, -, hrecorded, -⟩ := checkCase_ok haccepted
  obtain ⟨case, focus, ckb, sail, hprogram, htraces⟩ := checkRecorded_ok hrecorded
  obtain ⟨case', hcase, hfocus⟩ := h.focusStep
  obtain ⟨ckb', hckb, hreadCkb⟩ := h.ckb
  obtain ⟨sail', hsail, hreadSail⟩ := h.sail
  obtain rfl : case = case' := Except.ok.inj (hprogram.read.symm.trans hcase)
  obtain rfl : ckb = ckb' := Except.ok.inj (htraces.ckbRead.symm.trans hckb)
  obtain rfl : sail = sail' := Except.ok.inj (htraces.sailRead.symm.trans hsail)
  obtain rfl : focus = entry.case.focusStep := by
    have hint := Json.int.inj (Except.ok.inj (hprogram.focusStep.symm.trans hfocus))
    exact_mod_cast hint
  obtain ⟨events, traceEnd, hevents, hlen, hend, hkind⟩ := checkTrace_ok htraces.ckbChecked
  obtain ⟨as, traceEnd', hrep, has, hreadEnd⟩ := hreadCkb
  have hlength : entry.pair.ckb.events.length = words.length := by
    obtain rfl : Json.arr as = events := Except.ok.inj ((hrep.getItem rfl).symm.trans hevents)
    rw [← has.length_eq]
    exact Except.ok.inj hlen
  have hcomplete : entry.pair.ckb.traceEnd = .injectionComplete := by
    obtain rfl : traceEnd' = traceEnd := Except.ok.inj ((hrep.getItem rfl).symm.trans hend)
    exact (eq_iff_of_readsEnd hreadEnd (readsEnd_toJson .injectionComplete)).1 hkind
  let _ := plainStrDebug
  have hdifference := firstDifference_eq ⟨as, traceEnd', hrep, has, hreadEnd⟩ hreadSail
  rw [htraces.equal] at hdifference
  have hpassed : (CompareResult.compare entry.pair.ckb entry.pair.sail).passed = true := by
    rw [CompareResult.passed_iff_located]
    cases hlocated : (CompareResult.compare entry.pair.ckb entry.pair.sail).located with
    | none => rfl
    | some found => simp [hlocated] at hdifference
  obtain ⟨-, hequal, hterminal⟩ := (passed_iff _ _ _).1 hpassed
  have hends : entry.pair.ckb.traceEnd = entry.pair.sail.traceEnd := by
    simpa [terminalMatches] using hterminal
  refine ⟨?_, hlength ▸ hprogram.inside, hcomplete⟩
  cases hleft : entry.pair.ckb
  cases hright : entry.pair.sail
  simp_all

/-! ## The reports of clean cases -/

/-- The report of a mutation that does not apply. -/
def skippedReport (case : TestProgram) (kind : MutationKind) (reason : String) :
    MutationReport where
  caseId := case.id
  mutation := kind.id
  description := kind.description
  applied := false
  skippedBecause := some reason
  expectedField := kind.expectedField
  locatedField := none
  locatedStep := none
  detected := false
  passed := false

/-- The report of a mutation located in its field. -/
def locatedReport (case : TestProgram) (kind : MutationKind) (step : Option Nat) :
    MutationReport where
  caseId := case.id
  mutation := kind.id
  description := kind.description
  applied := true
  skippedBecause := none
  expectedField := kind.expectedField
  locatedField := some kind.expectedField
  locatedStep := step
  detected := true
  passed := true

/-- Whether a mutation applies to a trace. -/
def Applies (kind : MutationKind) (trace : ExecutionTrace) : Prop :=
  (kind = .registerIndex ∨ kind = .registerValue) →
    ∃ event ∈ trace.events, event.registerWrites ≠ []

theorem apply_reason_ne_empty {kind : MutationKind} {trace : ExecutionTrace} {focus : Nat}
    {reason : String} (h : kind.apply trace focus = .error reason) : reason ≠ "" := by
  have hevent : ∀ {message}, eventIndex trace focus = .error message → message ≠ "" := by
    intro message hmessage
    unfold eventIndex at hmessage
    split_ifs at hmessage
    obtain rfl := Except.error.inj hmessage
    decide
  have hwrite : ∀ {message}, writeIndex trace focus = .error message → message ≠ "" := by
    intro message hmessage
    unfold writeIndex at hmessage
    split_ifs at hmessage
    split at hmessage
    · simp at hmessage
    · obtain rfl := Except.error.inj hmessage
      decide
  have hmap : ∀ {index : Except String Nat} {f : Nat → ExecutionTrace},
      index.map f = .error reason → index = .error reason := by
    intro index f hindex
    cases index with
    | error message => simpa [Except.map] using hindex
    | ok i => simp [Except.map] at hindex
  cases kind with
  | pcAfter => exact hevent (hmap h)
  | trap => exact hevent (hmap h)
  | registerIndex => exact hwrite (hmap h)
  | registerValue => exact hwrite (hmap h)
  | traceLength =>
      simp only [MutationKind.apply] at h
      split_ifs at h
      obtain rfl := Except.error.inj h
      decide
  | termination => simp [MutationKind.apply] at h

/-! ## One row -/

/-- A row of the summary holds the values of a report. -/
structure RowAgrees (row : Json) (report : MutationReport) : Prop where
  caseId : row.getItem "case_id" = .ok (.str report.caseId)
  mutation : row.getItem "mutation" = .ok (.str report.mutation)
  expectedField : row.getItem "expected_field" = .ok (.str report.expectedField)
  applied : row.getItem "applied" = .ok (.bool report.applied)
  detected : row.getItem "detected" = .ok (.bool report.detected)
  passed : row.getItem "passed" = .ok (.bool report.passed)
  locatedField : row.getItem "located_field" = .ok (optionJson .str report.locatedField)
  locatedStep : row.getItem "located_step" = .ok (stepJson report.locatedStep)

/-- A reason is recorded exactly for a mutation that was skipped. -/
def ReasonGiven (row : Json) (report : MutationReport) : Prop :=
  if report.applied then row.getItem "skipped_because" = .ok .null
  else ∃ text, text ≠ "" ∧ row.getItem "skipped_because" = .ok (.str text)

/-- What a report adds to the counters. -/
def reportOutcome (report : MutationReport) : Outcome :=
  if report.applied then .applied report.mutation (.str report.caseId) else .skipped

theorem mutationEntry_id (kind : MutationKind) :
    mutationEntry (.str kind.id) = .ok (kind.id, kind.expectedField) := by
  cases kind <;> decide

section Reports

variable [StrDebug] {entry : Entry}

/-- The report of one mutation of an entry. -/
def Entry.report (entry : Entry) (options : RunOptions) (kind : MutationKind) : MutationReport :=
  evaluate entry.case kind entry.pair.ckb entry.pair.sail options

theorem Entry.Clean.passed (h : entry.Clean) (policy : TerminalPolicy) :
    (CompareResult.compareWithPolicy entry.pair.ckb entry.pair.sail policy).passed = true := by
  have hne : entry.pair.ckb.events ≠ [] := List.ne_nil_of_length_pos (by have := h.inside; omega)
  rw [h.equal]
  refine (passed_iff _ _ _).2 ⟨hne, rfl, ?_⟩
  cases policy <;> simp [terminalMatches]

/-- A mutation of a clean case is skipped with a reason, or located. -/
theorem Entry.Clean.report (h : entry.Clean) (options : RunOptions) (kind : MutationKind) :
    (¬Applies kind entry.pair.ckb ∧ ∃ reason, reason ≠ "" ∧
        kind.apply entry.pair.ckb entry.case.focusStep = .error reason ∧
        entry.report options kind = skippedReport entry.case kind reason) ∨
      (Applies kind entry.pair.ckb ∧ ∃ mutated step,
        kind.apply entry.pair.ckb entry.case.focusStep = .ok mutated ∧
        (CompareResult.compareWithPolicy mutated entry.pair.sail options.terminalPolicy).located =
          some (step, kind.expectedField) ∧
        entry.report options kind = locatedReport entry.case kind step) := by
  have hne : entry.pair.ckb.events ≠ [] := List.ne_nil_of_length_pos (by have := h.inside; omega)
  have herror := @apply_eq_error kind entry.pair.ckb entry.case.focusStep hne
  cases happly : kind.apply entry.pair.ckb entry.case.focusStep with
  | error reason =>
      have hskipped := herror.1 ⟨reason, happly⟩
      refine Or.inl ⟨?_, reason, apply_reason_ne_empty happly, rfl, ?_⟩
      · intro happlies
        obtain ⟨event, hevent, hwrites⟩ := happlies hskipped.1
        exact hwrites (hskipped.2 event hevent)
      · simp [Entry.report, evaluate, happly, skippedReport]
  | ok mutated =>
      obtain ⟨step, -, hlocated⟩ := located_apply (h.passed options.terminalPolicy) happly
      refine Or.inr ⟨?_, mutated, step, rfl, hlocated, evaluate_of_apply happly hlocated⟩
      intro hkind
      by_contra hnone
      push Not at hnone
      obtain ⟨reason, hreason⟩ := herror.2 ⟨hkind, hnone⟩
      rw [happly] at hreason
      cases hreason

theorem Entry.Clean.applied_iff (h : entry.Clean) (options : RunOptions) (kind : MutationKind) :
    (entry.report options kind).applied = true ↔ Applies kind entry.pair.ckb := by
  rcases h.report options kind with ⟨hnot, reason, -, -, hreport⟩ |
    ⟨happlies, mutated, step, -, -, hreport⟩
  · simp [hreport, skippedReport, hnot]
  · simp [hreport, locatedReport, happlies]

/-- A row of a recorded case passes exactly when it agrees with the report of its
mutation. -/
theorem checkRow_eq_ok {engines : Engines} {options : RunOptions} {cases : Cases}
    (hrecorded : entry.Recorded engines options) (hpolicy : options.terminalPolicy = .exact)
    (hmem : (entry.case.id, entry.artifact) ∈ cases.entries) {kind : MutationKind} {row : Json}
    (hcase : row.getItem "case_id" = .ok (.str entry.case.id))
    (hkind : row.getItem "mutation" = .ok (.str kind.id)) {outcome : Outcome} :
    checkRow cases row = .ok outcome ↔
      (RowAgrees row (entry.report options kind) ∧ ReasonGiven row (entry.report options kind)) ∧
        outcome = reportOutcome (entry.report options kind) := by
  have hclean := hrecorded.clean
  obtain ⟨case, hprogram, hfocus⟩ := hrecorded.focusStep
  obtain ⟨ckb, hckb, hreadCkb⟩ := hrecorded.ckb
  obtain ⟨sail, hsail, hreadSail⟩ := hrecorded.sail
  have hmutated := mutated_eq hreadCkb hclean.inside hclean.complete kind
  have hartifact := cases.artifact_of_mem hmem
  rcases hclean.report options kind with ⟨-, reason, hreason, happly, hreport⟩ |
    ⟨-, result, step, happly, hlocated, hreport⟩
  · rw [happly] at hmutated
    have hnone : mutated ckb kind.id (.int entry.case.focusStep) = .ok none := hmutated
    simp only [checkRow, Py.bind_eq_ok, hkind, hcase, mutationEntry_id, hartifact, hckb, hprogram,
      hfocus, hnone, Except.ok.injEq, exists_eq_left', require_eq_ok, exists_const,
      Json.eq_str_iff, Py.pure_eq_ok, checkSkipped_eq_ok, hreport]
    constructor
    · rintro ⟨_, hfield, rfl, ⟨happlied, hdetected, hpassed, hfound, hstep, htext⟩, rfl⟩
      exact ⟨⟨⟨hcase, hkind, hfield, happlied, hdetected, hpassed, hfound, hstep⟩, htext⟩, rfl⟩
    · rintro ⟨⟨hrow, htext⟩, rfl⟩
      exact ⟨_, hrow.expectedField, rfl, ⟨hrow.applied, hrow.detected, hrow.passed,
        hrow.locatedField, hrow.locatedStep, htext⟩, rfl⟩
  · rw [happly] at hmutated
    obtain ⟨value, hvalue, hread⟩ := hmutated
    have hdifference := firstDifference_eq hread hreadSail
    rw [CompareResult.compare, ← hpolicy, hlocated] at hdifference
    simp only [checkRow, Py.bind_eq_ok, hkind, hcase, mutationEntry_id, hartifact, hckb, hprogram,
      hfocus, hvalue, hsail, hdifference, Except.ok.injEq, exists_eq_left', require_eq_ok,
      exists_const, Json.eq_str_iff, Py.pure_eq_ok, checkApplied_eq_ok, hreport]
    constructor
    · rintro ⟨_, hfield, rfl, -, ⟨happlied, hdetected, hpassed, hnull, hfound, hstep⟩, rfl⟩
      exact ⟨⟨⟨hcase, hkind, hfield, happlied, hdetected, hpassed, hfound, hstep⟩, hnull⟩, rfl⟩
    · rintro ⟨⟨hrow, hnull⟩, rfl⟩
      exact ⟨_, hrow.expectedField, rfl, by decide, ⟨hrow.applied, hrow.detected, hrow.passed,
        hnull, hrow.locatedField, hrow.locatedStep⟩, rfl⟩

end Reports

end CkbSail.DiffTest
