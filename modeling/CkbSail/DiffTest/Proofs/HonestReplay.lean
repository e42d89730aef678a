import CkbSail.DiffTest.Main
import CkbSail.DiffTest.Proofs.Classification
import CkbSail.DiffTest.Proofs.Replay
import CkbSail.Scripts.MinimizeMismatch

/-!
# Honest replays and the minimizer

The minimizer reads back what the command line prints and stores.  Its checks hold
of every replay under the exact policy whose artifact is stored, and the signature
is that of the two engine traces.
-/

namespace CkbSail.DiffTest.Main

open CkbSail.Core RustStd PythonStd ProofSupport CkbRunner SailRunner
open Scripts.MinimizeMismatch

/-! ## The program of an artifact -/

theorem validWords_wordsJson {program : List UInt32} (hne : program ≠ [])
    (hshort : program.length ≤ 256) : validWords (.arr (wordsJson program)) = true := by
  have hpos : 0 < program.length := List.length_pos_of_ne_nil hne
  have hrange := words_in_range program
  simp only [validWords, length_wordsJson, hrange, hpos, hshort, decide_true, Bool.and_self]

theorem program_artifact {artifact : Artifact} (hversion : artifact.schemaVersion = 3)
    (hhex : artifact.instructionsHex = hexWords artifact.case.instructions)
    (hinitial : artifact.initialState = InitialState.reset)
    (hne : artifact.case.instructions ≠ []) (hshort : artifact.case.instructions.length ≤ 256) :
    program artifact.toJson = .ok (wordsJson artifact.case.instructions) := by
  have hversion' : artifact.toJson.getItem "schema_version" = .ok (.int 3) := by
    rw [show (3 : Int) = (artifact.schemaVersion.toNat : Int) by rw [hversion]; rfl]
    rfl
  have hcase : artifact.toJson.getItem "case" = .ok artifact.case.toJson := rfl
  have hwords : artifact.case.toJson.getItem "instructions" =
      .ok (.arr (wordsJson artifact.case.instructions)) := rfl
  have hhex' : artifact.toJson.getItem "instructions_hex" =
      .ok (.arr ((hexWords artifact.case.instructions).map .str)) := by
    rw [← hhex]
    rfl
  have hinitial' : artifact.toJson.getItem "initial_state" = .ok InitialState.reset.toJson := by
    rw [← hinitial]
    rfl
  have hstate : InitialState.reset.toJson.eq
      (.obj [("pc", .int 0x80000000), ("integer_registers", .str "x0..x31 = 0")]) = true :=
    Json.eq_self _
  have hvalid := validWords_wordsJson hne hshort
  have hcollect := collect_formatWord artifact.case.instructions
  simp only [program, bind, Except.bind, hversion', require, Json.eq_self, if_true, hcase, hwords,
    hvalid, Json.iter, hhex', hcollect, hinitial', hstate, pure, Except.pure]

/-! ## The signature of two traces -/

/-- An artifact of two engine traces. -/
structure Traced (artifact : Artifact) (result : CompareResult) (ckb sail : ExecutionTrace) :
    Prop where
  error : artifact.error = none
  ckbTrace : artifact.ckbTrace = some ckb
  sailTrace : artifact.sailTrace = some sail
  comparison : artifact.comparison = some result
  passed : artifact.passed = result.passed
  classification : artifact.classification =
    if result.passed then CLASSIFICATION_MATCH else CLASSIFICATION_MISMATCH

section Signature

variable {artifact : Artifact} {result : CompareResult} {ckb sail : ExecutionTrace}

/-- The rows of a trace. -/
def rowsJson (trace : ExecutionTrace) : Json := .arr (trace.events.map CommitEvent.toJson)

theorem rowsJson_truthy (trace : ExecutionTrace) :
    (rowsJson trace).truthy = true ↔ trace.events ≠ [] := by
  simp [rowsJson, Json.truthy]

theorem nonemptyTrace_eq_ok {key : String} {trace : ExecutionTrace}
    (h : artifact.toJson.getItem key = .ok trace.toJson) :
    nonemptyTrace artifact.toJson key = .ok () ↔ trace.events ≠ [] := by
  have hevents : trace.toJson.getItem "events" = .ok (rowsJson trace) := rfl
  have hdict : trace.toJson.isDict = true := rfl
  rw [nonemptyTrace, h, ← rowsJson_truthy]
  simp only [bind, Except.bind, hdict, if_true, hevents, requirePy_eq_ok, Py.pure_eq_ok]

theorem eventsOf_eq {key : String} {trace : ExecutionTrace}
    (h : artifact.toJson.getItem key = .ok trace.toJson) :
    eventsOf artifact.toJson key = .ok (rowsJson trace) := by
  rw [eventsOf, h]
  rfl

theorem Traced.getItem_error (h : Traced artifact result ckb sail) :
    artifact.toJson.getItem "error" = .ok .null := by
  rw [show Json.null = optionJson .str artifact.error by rw [h.error]; rfl]
  rfl

theorem Traced.getItem_ckb (h : Traced artifact result ckb sail) :
    artifact.toJson.getItem "ckb_trace" = .ok ckb.toJson := by
  rw [show ckb.toJson = optionJson ExecutionTrace.toJson artifact.ckbTrace by
    rw [h.ckbTrace]; rfl]
  rfl

theorem Traced.getItem_sail (h : Traced artifact result ckb sail) :
    artifact.toJson.getItem "sail_trace" = .ok sail.toJson := by
  rw [show sail.toJson = optionJson ExecutionTrace.toJson artifact.sailTrace by
    rw [h.sailTrace]; rfl]
  rfl

theorem Traced.getItem_comparison (h : Traced artifact result ckb sail) :
    artifact.toJson.getItem "comparison" = .ok result.toJson := by
  rw [show result.toJson = optionJson CompareResult.toJson artifact.comparison by
    rw [h.comparison]; rfl]
  rfl

theorem Traced.getItem_passed (h : Traced artifact result ckb sail) :
    artifact.toJson.getItem "passed" = .ok (.bool result.passed) := by
  rw [← h.passed]
  rfl

theorem Traced.getItem_classification (h : Traced artifact result ckb sail) :
    artifact.toJson.getItem "classification" =
      .ok (.str (if result.passed then CLASSIFICATION_MATCH else CLASSIFICATION_MISMATCH)) := by
  rw [← h.classification]
  rfl

/-- An engine without events has no signature. -/
theorem Traced.signature_of_empty (h : Traced artifact result ckb sail)
    (hempty : ckb.events = [] ∨ sail.events = []) (observed : Json) :
    signature artifact.toJson ≠ .ok observed := by
  intro hsignature
  simp only [signature, Py.bind_eq_ok] at hsignature
  obtain ⟨_, _, _, _, _, hckb, _, hsail, _⟩ := hsignature
  have hleft := (nonemptyTrace_eq_ok h.getItem_ckb).1 hckb
  have hright := (nonemptyTrace_eq_ok h.getItem_sail).1 hsail
  exact hempty.elim hleft hright

/-- A recorded error has no signature. -/
theorem signature_of_error {error : String} (h : artifact.error = some error) (observed : Json) :
    signature artifact.toJson ≠ .ok observed := by
  intro hsignature
  have herror : artifact.toJson.getItem "error" = .ok (.str error) := by
    rw [show Json.str error = optionJson .str artifact.error by rw [h]; rfl]
    rfl
  simp only [signature, Py.bind_eq_ok, herror] at hsignature
  obtain ⟨value, hvalue, _, hnone, _⟩ := hsignature
  obtain rfl := Except.ok.inj hvalue
  rw [require_eq_ok] at hnone
  cases hnone

/-- The step of a mismatch as JSON. -/
def stepJson (mismatch : TraceMismatch) : Json := optionJson (fun n => .int n) mismatch.step

theorem stepJson_none (field left right : String) :
    stepJson ⟨none, field, left, right⟩ = .null := rfl

theorem stepJson_some (step : Nat) (field left right : String) :
    stepJson ⟨some step, field, left, right⟩ = .int step := rfl

/-- What `signature` does with the recorded difference of two traces with events. -/
def mismatchSignature (mismatch : TraceMismatch) (ckb sail : Json) : Py Json := do
  let field := Json.str mismatch.field
  let step := stepJson mismatch
  require (validField field) "invalid mismatch field"
  if field.eq (.str "trace_length") then
    requirePy (lengthBoundary step ckb sail) "invalid trace-length boundary"
    pure (signatureOf field .null)
  else if step.isNone then
    require (field.eq (.str "termination")) "event mismatch has no step"
    pure (signatureOf field .null)
  else stepSignature field step ckb sail

theorem Traced.signature_of_passed (h : Traced artifact result ckb sail)
    (hckb : ckb.events ≠ []) (hsail : sail.events ≠ []) (hpassed : result.passed = true) :
    signature artifact.toJson = .ok .null := by
  have hleft := (nonemptyTrace_eq_ok h.getItem_ckb).2 hckb
  have hright := (nonemptyTrace_eq_ok h.getItem_sail).2 hsail
  have hdict : result.toJson.isDict = true := rfl
  have hdifference : result.toJson.getItem "mismatch" =
      .ok (optionJson TraceMismatch.toJson result.mismatch) := rfl
  have hmismatch : result.mismatch = none := by
    rwa [CompareResult.passed, Option.isNone_iff_eq_none] at hpassed
  have hclass := h.getItem_classification
  have hbool := h.getItem_passed
  rw [hpassed] at hclass hbool
  rw [hmismatch] at hdifference
  simp only [signature, bind, Except.bind, h.getItem_error, require, Json.isNone, if_true, hleft,
    hright, h.getItem_comparison, hdict, hdifference, hbool, Json.isBool, beq_self_eq_true,
    passingEvidence, optionJson, hclass, CLASSIFICATION_MATCH, Json.eq_self, requirePy, pure,
    Except.pure]

theorem Traced.signature_of_mismatch (h : Traced artifact result ckb sail)
    (hckb : ckb.events ≠ []) (hsail : sail.events ≠ []) {mismatch : TraceMismatch}
    (hmismatch : result.mismatch = some mismatch) :
    signature artifact.toJson = mismatchSignature mismatch (rowsJson ckb) (rowsJson sail) := by
  have hleft := (nonemptyTrace_eq_ok h.getItem_ckb).2 hckb
  have hright := (nonemptyTrace_eq_ok h.getItem_sail).2 hsail
  have hdict : result.toJson.isDict = true := rfl
  have hdifference : result.toJson.getItem "mismatch" =
      .ok (optionJson TraceMismatch.toJson result.mismatch) := rfl
  have hpassed : result.passed = false := by
    rw [CompareResult.passed, hmismatch]
    rfl
  have hclass := h.getItem_classification
  have hbool := h.getItem_passed
  have hfield : mismatch.toJson.getItem "field" = .ok (.str mismatch.field) := rfl
  have hstep : mismatch.toJson.getItem "step" = .ok (stepJson mismatch) := rfl
  have hdict' : mismatch.toJson.isDict = true := rfl
  rw [hpassed] at hclass hbool
  rw [hmismatch] at hdifference
  have hneg : ((false : Bool) == true) = false := rfl
  simp only [signature, bind, Except.bind, h.getItem_error, require, Json.isNone, if_true, hleft,
    hright, h.getItem_comparison, hdict, hdifference, hbool, Json.isBool, beq_self_eq_true, hneg,
    recordedMismatch, optionJson, hclass, CLASSIFICATION_MISMATCH, Json.eq_self, requirePy, pure,
    Except.pure, Bool.false_eq_true, if_false, hdict', Bool.and_self, hfield, hstep,
    eventsOf_eq h.getItem_ckb, eventsOf_eq h.getItem_sail, mismatchSignature]

/-! ## The signature of a mismatch the comparator reports -/

theorem mismatchSignature_of_length {left right : String}
    (hne : ckb.events.length ≠ sail.events.length) :
    mismatchSignature
        ⟨some (min ckb.events.length sail.events.length), "trace_length", left, right⟩
        (rowsJson ckb) (rowsJson sail) = .ok (signatureOf (.str "trace_length") .null) := by
  have hvalid : validField (.str "trace_length") = true := by decide
  have hboundary : lengthBoundary
      (.int (min ckb.events.length sail.events.length : Nat)) (rowsJson ckb) (rowsJson sail) =
      .ok true := by
    simp [lengthBoundary, Json.isInt, rowsJson, Json.len, bind, Except.bind, pure, Except.pure, hne,
      Json.eq_self]
  simp only [mismatchSignature, bind, Except.bind, require, hvalid, if_true, Json.eq_self,
    stepJson_some, requirePy, hboundary, pure, Except.pure]

theorem mismatchSignature_of_termination {left right : String} :
    mismatchSignature ⟨none, "termination", left, right⟩ (rowsJson ckb) (rowsJson sail) =
      .ok (signatureOf (.str "termination") .null) := by
  have hvalid : validField (.str "termination") = true := by decide
  have hfield : (Json.str "termination").eq (.str "trace_length") = false := by
    rw [Json.str_eq_str]
    decide
  simp only [mismatchSignature, bind, Except.bind, require, hvalid, if_true, hfield,
    Bool.false_eq_true, if_false, stepJson_none, Json.isNone, Json.eq_self, pure, Except.pure]

theorem field_name_valid (field : Field) :
    validField (.str field.name) = true ∧ field.name ≠ "trace_length" ∧
      field.name ≠ "termination" := by
  cases field <;> decide

theorem instructionAt_rows {trace : ExecutionTrace} {step : Nat} {event : CommitEvent}
    (h : trace.events[step]? = some event) :
    instructionAt (rowsJson trace) step = .ok (.int event.instruction.toNat) := by
  have hat : (rowsJson trace).getAt step = .ok event.toJson := by
    rw [rowsJson, Json.getAt_natCast_eq_ok, List.getElem?_map, h]
    rfl
  rw [instructionAt, hat]
  rfl

theorem mismatchSignature_of_event {field : Field} {step : Nat} {left right : String}
    {event other : CommitEvent} (hckb : ckb.events[step]? = some event)
    (hsail : sail.events[step]? = some other) :
    mismatchSignature ⟨some step, field.name, left, right⟩ (rowsJson ckb) (rowsJson sail) =
      .ok (signatureOf (.str field.name)
        (.arr [.int event.instruction.toNat, .int other.instruction.toNat])) := by
  obtain ⟨hvalid, hlength, -⟩ := field_name_valid field
  have hfield : (Json.str field.name).eq (.str "trace_length") = false := by
    rw [Json.str_eq_str, decide_eq_false_iff_not]
    exact hlength
  have hleft := (List.getElem?_eq_some_iff.1 hckb).1
  have hright := (List.getElem?_eq_some_iff.1 hsail).1
  have hinside : insideTraces step (rowsJson ckb) (rowsJson sail) = .ok true := by
    simp [insideTraces, rowsJson, Json.len, bind, Except.bind, pure, Except.pure, hleft, hright]
  have hstep : stepSignature (.str field.name) (.int step) (rowsJson ckb) (rowsJson sail) =
      .ok (signatureOf (.str field.name)
        (.arr [.int event.instruction.toNat, .int other.instruction.toNat])) := by
    simp [stepSignature, bind, Except.bind, require, requirePy, hinside, instructionAt_rows hckb,
      instructionAt_rows hsail, pure, Except.pure]
  simp only [mismatchSignature, bind, Except.bind, require, hvalid, if_true, hfield,
    Bool.false_eq_true, if_false, stepJson_some, Json.isNone, hstep]

/-- The observation of two traces with events that differ: the field of the mismatch and
the instructions at its step, or the field alone for lengths and terminations. -/
structure Signed (ckb sail : ExecutionTrace) (mismatch : TraceMismatch) (observed : Json) :
    Prop where
  event : mismatch.field ≠ "trace_length" → mismatch.field ≠ "termination" →
    ∃ step left right, mismatch.step = some step ∧ ckb.events[step]? = some left ∧
      sail.events[step]? = some right ∧
      observed = signatureOf (.str mismatch.field)
        (.arr [.int left.instruction.toNat, .int right.instruction.toNat])
  boundary : mismatch.field = "trace_length" ∨ mismatch.field = "termination" →
    observed = signatureOf (.str mismatch.field) .null

theorem Signed.isNone {mismatch : TraceMismatch} {observed : Json}
    (h : Signed ckb sail mismatch observed) : observed.isNone = false := by
  by_cases hfield : mismatch.field = "trace_length" ∨ mismatch.field = "termination"
  · rw [h.boundary hfield]
    rfl
  · rw [not_or] at hfield
    obtain ⟨step, left, right, -, -, -, rfl⟩ := h.event hfield.1 hfield.2
    rfl

/-- Every mismatch the comparator reports of traces with events has a signature. -/
theorem mismatchSignature_eq_ok [StrDebug] {policy : TerminalPolicy} {mismatch : TraceMismatch}
    (hckb : ckb.events ≠ [])
    (h : (CompareResult.compareWithPolicy ckb sail policy).mismatch = some mismatch) :
    ∃ observed, mismatchSignature mismatch (rowsJson ckb) (rowsJson sail) = .ok observed ∧
      Signed ckb sail mismatch observed := by
  have hlocated := located_compareWithPolicy ckb sail policy
  rw [CompareResult.located, h, Option.map_some] at hlocated
  obtain ⟨step, field, left, right⟩ := mismatch
  cases hfirst : firstDifference CommitEvent.differs Field.all 0 ckb.events sail.events with
  | some p =>
      obtain ⟨k, f⟩ := p
      rw [hfirst] at hlocated
      obtain ⟨rfl, rfl⟩ := Prod.mk.inj (Option.some.inj hlocated)
      obtain ⟨event, other, hevent, hother, -⟩ :=
        mem_differences.1 (firstDifference_isLeast Field.mem_all Field.all_sorted hfirst).1
      obtain ⟨-, hlength, htermination⟩ := field_name_valid f
      exact ⟨_, mismatchSignature_of_event hevent hother,
        fun _ _ => ⟨k, event, other, rfl, hevent, hother, rfl⟩,
        fun hboundary => (hboundary.elim hlength htermination).elim⟩
  | none =>
      simp only [hfirst] at hlocated
      split_ifs at hlocated with hlength hend hzero
      · obtain ⟨rfl, rfl⟩ := Prod.mk.inj (Option.some.inj hlocated)
        exact ⟨_, mismatchSignature_of_length hlength, fun hne => absurd rfl hne, fun _ => rfl⟩
      · have hpos := List.length_pos_of_ne_nil hckb
        omega
      · obtain ⟨rfl, rfl⟩ := Prod.mk.inj (Option.some.inj hlocated)
        exact ⟨_, mismatchSignature_of_termination, fun _ hne => absurd rfl hne, fun _ => rfl⟩

end Signature

/-! ## The row and the artifact of one replay -/

section Row

variable [StrDebug] {engines : Engines} {case : TestProgram} {options : RunOptions}
  {environment : Environment} {disk : Disk} {directory path : String}

/-- The row of a case whose artifact was stored. -/
def rowOf (case : TestProgram) (run : CaseRun) (path : String) : CaseReport :=
  { storedReport case run path with passed := run.comparison.any CompareResult.passed }

theorem runCase_of_write (hdirectory : options.artifactDir = some directory)
    (hwrite : ((caseArtifact case options environment (engines.caseRun case options)
      directory).write directory disk).1 = .ok path) :
    (runCase engines case options environment disk).1 =
        rowOf case (engines.caseRun case options) path ∧
      ∃ place, Stores disk (runCase engines case options environment disk).2 path
        (caseArtifact case options environment (engines.caseRun case options)
          directory).toJson place := by
  have hrun : DiffTest.caseRun options.terminalPolicy
      ((engines.runCkb case options).map InjectionOutcome.trace) (engines.runSail case options) =
      engines.caseRun case options := rfl
  constructor
  · cases herror : (engines.caseRun case options).error <;>
      simp [runCase, rowOf, storedReport, hdirectory, hrun, hwrite, herror]
  · simp only [runCase, hdirectory, hrun]
    exact stores_of_ok hwrite

omit [StrDebug] in
/-- The row and the artifact of a run agree. -/
theorem sameKey_rowOf (run : CaseRun) :
    Py.forEach (sameKey (rowOf case run path).toJson
      (caseArtifact case options environment run directory).toJson)
      ["passed", "classification", "comparison", "error"] = .ok () := by
  have hsame : ∀ (key : String) (value : Json),
      (rowOf case run path).toJson.getItem key = .ok value →
      (caseArtifact case options environment run directory).toJson.getItem key = .ok value →
      sameKey (rowOf case run path).toJson
        (caseArtifact case options environment run directory).toJson key = .ok () := by
    intro key value hleft hright
    simp [sameKey, bind, Except.bind, hleft, hright, Json.eq_self, require]
  have hpassed := hsame "passed" (.bool (run.comparison.any CompareResult.passed)) rfl rfl
  have hclass := hsame "classification" (.str (classify run.comparison run.error)) rfl rfl
  have hcomparison := hsame "comparison" (optionJson CompareResult.toJson run.comparison) rfl rfl
  have herror := hsame "error" (optionJson .str run.error) rfl rfl
  simp only [Py.forEach, hpassed, hclass, hcomparison, herror]

/-- The envelope of a replay. -/
def replayReport (row : CaseReport) (environment : Environment) : RunReport where
  schemaVersion := REPORT_SCHEMA_VERSION
  mode := "replay"
  seed := none
  terminalPolicy := "exact"
  environment := some environment
  results := [.case row]
  mutations := none
  summary := ⟨1, if row.passed then 0 else 1, none, row.passed⟩

omit [StrDebug] in
theorem summary_eq (passed passed' : Bool) :
    (Summary.toJson ⟨1, if passed then 0 else 1, none, passed⟩).eq (summaryOf passed') =
      decide (passed = passed') := by
  cases passed <;> cases passed' <;> decide

omit [StrDebug] in
/-- The checks before and after the signature hold of every honest replay. -/
theorem checkTrial_eq_ok (run : CaseRun) (hne : case.instructions ≠ [])
    (hshort : case.instructions.length ≤ 256) {exitCode : Int}
    (hcode : exitCode = if run.comparison.any CompareResult.passed then 0 else 1)
    {observed : Json} :
    checkTrial (replayReport (rowOf case run path) environment).toJson
        (caseArtifact case options environment run directory).toJson exitCode
        (wordsJson case.instructions) = .ok observed ↔
      signature (caseArtifact case options environment run directory).toJson = .ok observed ∧
        observed.isNone = run.comparison.any CompareResult.passed := by
  have hmode : replayMode (replayReport (rowOf case run path) environment).toJson = .ok true := by
    have hversion : (replayReport (rowOf case run path) environment).toJson.getItem
        "schema_version" = .ok (.int 3) := rfl
    have hmode : (replayReport (rowOf case run path) environment).toJson.getItem "mode" =
        .ok (.str "replay") := rfl
    have hpolicy : (replayReport (rowOf case run path) environment).toJson.getItem
        "terminal_policy" = .ok (.str "exact") := rfl
    have hmutations : (replayReport (rowOf case run path) environment).toJson.getItem
        "mutations" = .ok .null := rfl
    simp [replayMode, bind, Except.bind, hversion, hmode, hpolicy, hmutations, Json.eq_self, pure,
      Except.pure, Json.isNone]
  have hresults : (replayReport (rowOf case run path) environment).toJson.getItem "results" =
      .ok (.arr [(rowOf case run path).toJson]) := rfl
  have hprogram : program (caseArtifact case options environment run directory).toJson =
      .ok (wordsJson case.instructions) :=
    @program_artifact (caseArtifact case options environment run directory) rfl rfl rfl hne hshort
  have hfirst : (Json.arr [(rowOf case run path).toJson]).getAt 0 =
      .ok (rowOf case run path).toJson := rfl
  have hkeys := @sameKey_rowOf case options environment directory path run
  have hfresh : (replayReport (rowOf case run path) environment).toJson.getItem "environment" =
      .ok environment.toJson := rfl
  have hrecorded : (caseArtifact case options environment run directory).toJson.getItem
      "environment" = .ok environment.toJson := rfl
  have hcase : sameCase (rowOf case run path).toJson
      (caseArtifact case options environment run directory).toJson
      (wordsJson case.instructions) = .ok true := by
    have hid : (rowOf case run path).toJson.getItem "id" = .ok (.str case.id) := rfl
    have hcase : (caseArtifact case options environment run directory).toJson.getItem "case" =
        .ok case.toJson := rfl
    have hid' : case.toJson.getItem "id" = .ok (.str case.id) := rfl
    have hlength : (rowOf case run path).toJson.getItem "instructions" =
        .ok (.int case.instructions.length) := rfl
    simp [sameCase, bind, Except.bind, hid, hcase, hid', hlength, Json.eq_self, pure, Except.pure]
  have hsummary : (replayReport (rowOf case run path) environment).toJson.getItem "summary" =
      .ok (Summary.toJson ⟨1, if run.comparison.any CompareResult.passed then 0 else 1, none,
        run.comparison.any CompareResult.passed⟩) := rfl
  have hcode' : (decide (exitCode = 0) || decide (exitCode = 1)) = true := by
    rw [hcode]
    split_ifs <;> rfl
  have hcount : (Json.arr [(rowOf case run path).toJson]).len = .ok 1 := rfl
  simp only [checkTrial, bind, Except.bind, require, hcode', if_true, requirePy, hmode, hresults,
    hcount, decide_true, hprogram, Json.eq_self, hfirst, hkeys, hfresh, hrecorded, hcase, hsummary,
    summary_eq, decide_eq_true_eq]
  cases signature (caseArtifact case options environment run directory).toJson with
  | error error => simp
  | ok value =>
      by_cases hnone : run.comparison.any CompareResult.passed = value.isNone
      · simp only [hnone, if_true, hcode, pure, Except.pure, Except.ok.injEq]
        constructor
        · rintro rfl
          exact ⟨rfl, rfl⟩
        · exact And.left
      · simp only [hnone, if_false, reduceCtorEq, false_iff, not_and, Except.ok.injEq]
        rintro rfl heq
        exact hnone heq.symm

/-- The signature of the artifact of two engine results. -/
theorem signature_caseArtifact {policy : TerminalPolicy} {ckb : Except Error InjectionOutcome}
    {sail : Except Error DiiOutcome} :
    (∃ c s, ckb = .ok c ∧ sail = .ok s ∧
      Traced (caseArtifact case options environment
        (caseRun policy (ckb.map InjectionOutcome.trace) sail) directory)
        (CompareResult.compareWithPolicy c.trace s.trace policy) c.trace s.trace) ∨
    (∃ error, (caseArtifact case options environment
      (caseRun policy (ckb.map InjectionOutcome.trace) sail) directory).error = some error) ∧
      ∀ c s, ckb = .ok c → sail ≠ .ok s := by
  cases ckb with
  | error error => exact Or.inr ⟨⟨_, rfl⟩, fun _ _ h => nomatch h⟩
  | ok c =>
      cases sail with
      | error error => exact Or.inr ⟨⟨_, rfl⟩, fun _ _ _ h => nomatch h⟩
      | ok s => exact Or.inl ⟨c, s, rfl, rfl, rfl, rfl, rfl, rfl, rfl, rfl⟩

/-- What the minimizer must read off a replay of two engine results. -/
structure ReadsReplay (ckb : Except Error InjectionOutcome) (sail : Except Error DiiOutcome)
    (verdict : Py Json) : Prop where
  passes : ∀ c s, ckb = .ok c → sail = .ok s →
    (CompareResult.compareWithPolicy c.trace s.trace .exact).passed = true → verdict = .ok .null
  differs : ∀ c s mismatch, ckb = .ok c → sail = .ok s → c.trace.events ≠ [] →
    s.trace.events ≠ [] →
    (CompareResult.compareWithPolicy c.trace s.trace .exact).mismatch = some mismatch →
    ∃ observed, verdict = .ok observed ∧ Signed c.trace s.trace mismatch observed
  raises : (∀ c s, ckb = .ok c → sail = .ok s → c.trace.events = [] ∨ s.trace.events = []) →
    ∃ error, verdict = .error error

omit [StrDebug] in
theorem exists_error_of_forall_ne_ok {α ε : Type} {x : Except ε α} (h : ∀ a, x ≠ .ok a) :
    ∃ error, x = .error error := by
  cases x with
  | error error => exact ⟨error, rfl⟩
  | ok a => exact absurd rfl (h a)

/-- Both engines returned traces, or there is nothing to read. -/
theorem readsReplay_caseRun {policy : TerminalPolicy} {ckb : Except Error InjectionOutcome}
    {sail : Except Error DiiOutcome} (hexact : policy = .exact) (hne : case.instructions ≠ [])
    (hshort : case.instructions.length ≤ 256) {exitCode : Int}
    (hcode : exitCode = if (caseRun policy (ckb.map InjectionOutcome.trace)
      sail).comparison.any CompareResult.passed then 0 else 1) :
    ReadsReplay ckb sail
      (checkTrial
        (replayReport (rowOf case (caseRun policy (ckb.map InjectionOutcome.trace) sail) path)
          environment).toJson
        (caseArtifact case options environment
          (caseRun policy (ckb.map InjectionOutcome.trace) sail) directory).toJson exitCode
        (wordsJson case.instructions)) := by
  subst hexact
  have hchecks := fun observed =>
    @checkTrial_eq_ok case options environment directory path
      (caseRun .exact (ckb.map InjectionOutcome.trace) sail) hne hshort exitCode hcode observed
  rcases @signature_caseArtifact _ case options environment directory .exact ckb sail with
    ⟨c, s, rfl, rfl, htraced⟩ | ⟨⟨error, herror⟩, hfailed⟩
  · refine ⟨?_, ?_, fun h => exists_error_of_forall_ne_ok fun observed hok => ?_⟩
    · rintro c' s' ⟨⟩ ⟨⟩ hpassed
      have hevents := (passed_iff _ _ _).1 hpassed
      have hsail : s.trace.events ≠ [] := hevents.2.1 ▸ hevents.1
      exact (hchecks .null).2 ⟨htraced.signature_of_passed hevents.1 hsail hpassed, hpassed.symm⟩
    · rintro c' s' mismatch ⟨⟩ ⟨⟩ hckb hsail hmismatch
      obtain ⟨observed, hobserved, hsigned⟩ := mismatchSignature_eq_ok hckb hmismatch
      refine ⟨observed, (hchecks observed).2 ⟨?_, ?_⟩, hsigned⟩
      · rw [htraced.signature_of_mismatch hckb hsail hmismatch, hobserved]
      · rw [hsigned.isNone]
        exact (congrArg Option.isNone hmismatch).symm
    · exact htraced.signature_of_empty (h c s rfl rfl) observed ((hchecks observed).1 hok).1
  · refine ⟨fun c s hckb hsail => absurd hsail (hfailed c s hckb),
      fun c s _ hckb hsail => absurd hsail (hfailed c s hckb),
      fun _ => exists_error_of_forall_ne_ok fun observed hok => ?_⟩
    exact signature_of_error herror observed ((hchecks observed).1 hok).1

end Row

/-! ## The process of a replay -/

section Process

variable [StrDebug] {host : CliHost} {arguments : Arguments} {disk : Disk} {path : String}
  {case : TestProgram}

/-- The environment of a run of injected programs. -/
def environmentOf (host : CliHost) (arguments : Arguments) : Environment :=
  host.detect arguments.sailBin arguments.sailConfig host.injection.isa host.injection.version

omit [StrDebug] in
theorem Arguments.corpus_of_replay (h : arguments.replay = some path) :
    arguments.corpus = false := by
  rw [← Bool.not_eq_true]
  intro hcorpus
  have hnone := (arguments.corpusConflicts hcorpus).2.2
  rw [h] at hnone
  cases hnone

omit [StrDebug] in
theorem Arguments.mutate_of_replay (h : arguments.replay = some path) :
    arguments.mutate = false := by
  rw [← Bool.not_eq_true]
  intro hmutate
  have hcorpus := arguments.mutateRequires hmutate
  rw [Arguments.corpus_of_replay h] at hcorpus
  cases hcorpus

/-- A replay runs one case, and its envelope holds the row of that case. -/
theorem main_replay (hreplay : arguments.replay = some path)
    (hexact : arguments.terminalCategoryOnly = false) (hjson : arguments.json = true)
    (hcase : selectReplay host.artifacts path = .ok [case]) :
    main host arguments disk =
      ⟨some (replayReport (runCase host.engines case (runOptions host arguments)
          (environmentOf host arguments) disk).1 (environmentOf host arguments)),
        if (runCase host.engines case (runOptions host arguments)
          (environmentOf host arguments) disk).1.passed then 0 else 1,
        (runCase host.engines case (runOptions host arguments)
          (environmentOf host arguments) disk).2⟩ := by
  have hcorpus := Arguments.corpus_of_replay hreplay
  have hmutate := Arguments.mutate_of_replay hreplay
  have hpolicy : arguments.policy = .exact := by simp [Arguments.policy, hexact]
  have hselect : selectCases host.artifacts arguments = .ok [case] := by
    rw [selectCases, hreplay]
    simp only [hcase, Except.mapError]
  have hinjected : runInjected host arguments disk =
      (.ok { mode := "replay"
             results := [.case (runCase host.engines case (runOptions host arguments)
               (environmentOf host arguments) disk).1]
             environment := some (environmentOf host arguments)
             mutations := none
             mutationArtifact := none },
        (runCase host.engines case (runOptions host arguments)
          (environmentOf host arguments) disk).2) := by
    rw [runInjected, hselect]
    simp only [mutationStage, hmutate, hreplay, Bool.false_eq_true, if_false]
    rfl
  rw [main, hcorpus, hreplay]
  simp only [Option.isSome_some, Bool.or_true, if_true, hinjected, hjson]
  cases hpassed : (runCase host.engines case (runOptions host arguments)
      (environmentOf host arguments) disk).1.passed <;>
    simp [Outcome.report, replayReport, hpassed, hcorpus, hpolicy, Report.passed]

omit [StrDebug] in
theorem instructions_ne_nil_of_selectReplay {source : ArtifactSource}
    (h : selectReplay source path = .ok [case]) : case.instructions ≠ [] := by
  rw [selectReplay] at h
  cases hread : Artifact.read source path with
  | error error => simp [hread] at h
  | ok artifact =>
      cases hprogram : artifact.program with
      | error error => simp [hread, hprogram] at h
      | ok case' =>
          obtain rfl : case' = case := by simpa [hread, hprogram] using h
          rw [Artifact.program] at hprogram
          cases hwords : readWords 0 artifact.instructionsHex with
          | error error => simp [hwords] at hprogram
          | ok instructions =>
              simp only [hwords] at hprogram
              split_ifs at hprogram with hempty hsame
              obtain rfl := Except.ok.inj hprogram
              simpa using hempty

/-- The minimizer accepts every honest replay and reads the signature of its traces. -/
theorem checkTrial_honestReplay {directory : String} (hreplay : arguments.replay = some path)
    (hexact : arguments.terminalCategoryOnly = false) (hjson : arguments.json = true)
    (hdirectory : arguments.artifactDir = some directory)
    (hcase : selectReplay host.artifacts path = .ok [case])
    (hshort : case.instructions.length ≤ 256)
    (hstored : Stored host.engines case (runOptions host arguments)
      (environmentOf host arguments) disk) :
    ∃ (report : RunReport) (stored : String) (artifact : Artifact) (place : Fs.Place),
      (main host arguments disk).printed = some report ∧
      Stores disk (main host arguments disk).disk stored artifact.toJson place ∧
      ReadsReplay (host.engines.runCkb case (runOptions host arguments))
        (host.engines.runSail case (runOptions host arguments))
        (checkTrial report.toJson artifact.toJson (main host arguments disk).exitCode
          (wordsJson case.instructions)) := by
  obtain ⟨stored, hwrite⟩ := hstored directory hdirectory
  obtain ⟨hrow, place, hstores⟩ := runCase_of_write hdirectory hwrite
  have hpolicy : (runOptions host arguments).terminalPolicy = .exact := by
    simp [runOptions, Arguments.policy, hexact]
  have hmain := @main_replay _ host arguments disk path case hreplay hexact hjson hcase
  rw [hrow] at hmain
  rw [hmain]
  exact ⟨_, stored, _, place, rfl, hstores, readsReplay_caseRun hpolicy
    (instructions_ne_nil_of_selectReplay hcase) hshort (Nat.cast_ite _ _ _)⟩

end Process

/-! ## A replay that is stored -/

/-- Surroundings that hold one artifact and no ELF file. -/
def replayHost : CliHost where
  engines := addiEngines
  elfVm := { addiVm with
    loadProgram := fun _ machine => (machine, .error "no ELF header")
    executeLoad32 := fun _ machine => (machine, .error "memory out of bound") }
  sailElf := ⟨fun _ => true, fun _ _ => .error "not executable"⟩
  injection := addiConfig
  runner := ⟨addiConfig.isa, addiConfig.version, addiConfig.maxCycles, 4194304, 0⟩
  artifacts := escapedSource
  detect := fun _ _ _ _ => addiEnvironment
  readDir := fun _ => .error "No such file or directory (os error 2)"
  readFile := fun _ => .error "No such file or directory (os error 2)"

def replayArguments : Arguments where
  corpus := false
  mutate := false
  cases := []
  replay := some "escaped.json"
  elf := none
  testDir := none
  sailBin := "sail_riscv_sim"
  sailConfig := "ckb_vm_config.json"
  maxSteps := 10000
  seed := 0
  artifactDir := some "artifacts"
  terminalCategoryOnly := false
  json := true
  corpusConflicts := nofun
  mutateRequires := nofun
  casesRequire := fun h => absurd rfl h
  replayConflicts := fun _ => ⟨rfl, rfl⟩
  elfConflicts := nofun

theorem checkTrial_honestReplay_escaped :
    ∃ (report : RunReport) (stored : String) (artifact : Artifact) (place : Fs.Place),
    (@main plainStrDebug replayHost replayArguments emptyDisk).printed = some report ∧
      Stores emptyDisk (@main plainStrDebug replayHost replayArguments emptyDisk).disk stored
        artifact.toJson place ∧
      @ReadsReplay plainStrDebug (addiEngines.runCkb escapedCase addiOptions)
        (addiEngines.runSail escapedCase addiOptions)
        (checkTrial report.toJson artifact.toJson
          (@main plainStrDebug replayHost replayArguments emptyDisk).exitCode
          (wordsJson escapedCase.instructions)) :=
  @checkTrial_honestReplay plainStrDebug replayHost replayArguments emptyDisk "escaped.json"
    escapedCase "artifacts" rfl rfl rfl rfl selectReplay_escaped (by decide)
    fun _ h => ⟨_, (Option.some.inj h) ▸ storeJson_eq_ok.2 ⟨rfl, _, escaped_opened, rfl⟩⟩

end CkbSail.DiffTest.Main
