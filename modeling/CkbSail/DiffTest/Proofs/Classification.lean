import CkbSail.DiffTest.Proofs.PassAccepted

/-!
# The class of a case and its evidence

`classify` decides by searching the text of the reported error.  The class follows
from what the engines and the disk did unless an error text of a supported program
quotes the words of a refusal.
-/

namespace CkbSail.DiffTest

open CkbSail.Core RustStd ProofSupport CkbRunner SailRunner

/-- The words `classify` searches for. -/
def REFUSAL : List Char := "unsupported instruction".toList

/-! ## The words of a refusal -/

/-- The labels of the two runners neither contain the words nor begin them. -/
theorem refusal_labelled (label : List Char) (text : String)
    (hlabel : ¬REFUSAL <:+: label) :
    REFUSAL <:+: label ++ ':' :: ' ' :: text.toList ↔ REFUSAL <:+: text.toList := by
  rw [infix_append_cons_iff (by decide) (by decide), List.infix_cons_iff]
  refine ⟨fun h => ?_, fun h => Or.inr (Or.inr h)⟩
  rcases h with h | h | h
  · exact absurd h hlabel
  · exact absurd (List.cons_prefix_cons.1 h).1 (by decide)
  · exact h

theorem refusal_of_ckb {error : Error} :
    REFUSAL <:+: s!"CKB-VM runner: {error.alternate}".toList ↔
      REFUSAL <:+: error.alternate.toList := by
  have htext : s!"CKB-VM runner: {error.alternate}".toList =
      "CKB-VM runner".toList ++ ':' :: ' ' :: error.alternate.toList := by
    rw [String.toList_append]
    rfl
  rw [htext]
  exact refusal_labelled _ _ (by decide +kernel)

theorem refusal_of_sail {error : Error} :
    REFUSAL <:+: s!"Sail runner: {error.alternate}".toList ↔
      REFUSAL <:+: error.alternate.toList := by
  have htext : s!"Sail runner: {error.alternate}".toList =
      "Sail runner".toList ++ ':' :: ' ' :: error.alternate.toList := by
    rw [String.toList_append]
    rfl
  rw [htext]
  exact refusal_labelled _ _ (by decide +kernel)

theorem refusal_display (error : UnsupportedInstruction) :
    REFUSAL <:+: (Error.msg error.display).alternate.toList := by
  have hfirst : REFUSAL <+: "unsupported instruction 0x".toList := by decide +kernel
  rw [Error.msg, Error.alternate, String.intercalate_singleton]
  refine (hfirst.trans ?_).isInfix
  delta UnsupportedInstruction.display
  simp only [String.append_assoc, String.toList_append]
  exact List.prefix_append _ _

/-! ## What the engines and the disk did -/

section Evidence

variable [StrDebug] (engines : Engines) (case : TestProgram) (options : RunOptions)

/-- Both engines returned traces, and their comparison passes or not. -/
def Compared (verdict : Bool) : Prop :=
  ∃ ckb sail, engines.runCkb case options = .ok ckb ∧ engines.runSail case options = .ok sail ∧
    (CompareResult.compareWithPolicy ckb.trace sail.trace options.terminalPolicy).passed = verdict

/-- A non-empty program with a word outside the supported subset. -/
def Refused : Prop :=
  case.instructions ≠ [] ∧ ∃ error, validateProgram case.instructions = .error error

/-- The failure a report names: that of CKB-VM before that of Sail. -/
def reportedFailure : Option Error :=
  match engines.runCkb case options, engines.runSail case options with
  | .error error, _ => some error
  | .ok _, .error error => some error
  | .ok _, .ok _ => none

/-- No artifact was asked for, or it was stored. -/
def Stored (environment : Environment) (disk : Disk) : Prop :=
  ∀ directory, options.artifactDir = some directory →
    ∃ path, ((caseArtifact case options environment (engines.caseRun case options)
      directory).write directory disk).1 = .ok path

/-- The reported failure of a program of the supported subset quotes the words of a
refusal. -/
def Quoted : Prop :=
  case.instructions ≠ [] ∧ validateProgram case.instructions = .ok () ∧
    ∃ error, reportedFailure engines case options = some error ∧
      REFUSAL <:+: error.alternate.toList

/-- The report of a case follows what the engines and the disk did. -/
structure FollowsEvidence (environment : Environment) (disk : Disk) : Prop where
  passed : (runCase engines case options environment disk).1.passed = true ↔
    Compared engines case options true ∧ Stored engines case options environment disk
  matched : (runCase engines case options environment disk).1.classification =
    CLASSIFICATION_MATCH ↔ (runCase engines case options environment disk).1.passed = true
  mismatch : (runCase engines case options environment disk).1.classification =
    CLASSIFICATION_MISMATCH ↔
      Compared engines case options false ∧ Stored engines case options environment disk
  unsupported : (runCase engines case options environment disk).1.classification =
    CLASSIFICATION_UNSUPPORTED ↔ Refused case ∧ Stored engines case options environment disk
  runnerError : (runCase engines case options environment disk).1.classification =
    CLASSIFICATION_RUNNER_ERROR ↔
      ¬(Compared engines case options true ∧ Stored engines case options environment disk) ∧
      ¬(Compared engines case options false ∧ Stored engines case options environment disk) ∧
      ¬(Refused case ∧ Stored engines case options environment disk)

variable {engines case options}

/-! ## The class of a run -/

/-- The ways two runs can end, and the class each gets. -/
theorem caseRun_cases :
    (∃ verdict, Compared engines case options verdict ∧
      reportedFailure engines case options = none ∧
      (engines.caseRun case options).comparison.any CompareResult.passed = verdict ∧
      classify (engines.caseRun case options).comparison (engines.caseRun case options).error =
        if verdict then CLASSIFICATION_MATCH else CLASSIFICATION_MISMATCH) ∨
    ∃ error, (∀ verdict, ¬Compared engines case options verdict) ∧
      reportedFailure engines case options = some error ∧
      (engines.caseRun case options).comparison.any CompareResult.passed = false ∧
      classify (engines.caseRun case options).comparison (engines.caseRun case options).error =
        if REFUSAL <:+: error.alternate.toList then CLASSIFICATION_UNSUPPORTED
        else CLASSIFICATION_RUNNER_ERROR := by
  cases hckb : engines.runCkb case options with
  | error error =>
      refine Or.inr ⟨error, fun verdict => ?_, ?_, ?_, ?_⟩
      · rintro ⟨ckb, sail, hok, -⟩
        rw [hckb] at hok
        cases hok
      · rw [reportedFailure, hckb]
      · rw [Engines.caseRun, hckb]
        rfl
      · rw [Engines.caseRun, hckb]
        exact if_congr refusal_of_ckb rfl rfl
  | ok ckb =>
      cases hsail : engines.runSail case options with
      | error error =>
          refine Or.inr ⟨error, fun verdict => ?_, ?_, ?_, ?_⟩
          · rintro ⟨ckb, sail, -, hok, -⟩
            rw [hsail] at hok
            cases hok
          · rw [reportedFailure, hckb, hsail]
          · rw [Engines.caseRun, hckb, hsail]
            rfl
          · rw [Engines.caseRun, hckb, hsail]
            exact if_congr refusal_of_sail rfl rfl
      | ok sail =>
          refine Or.inl ⟨_, ⟨ckb, sail, hckb, hsail, rfl⟩, ?_, ?_, ?_⟩
          · rw [reportedFailure, hckb, hsail]
          · rw [Engines.caseRun, hckb, hsail]
            rfl
          · rw [Engines.caseRun, hckb, hsail]
            rfl

omit [StrDebug] in
/-- Both engines refuse before they start, CKB-VM first. -/
theorem reportedFailure_of_refused (h : Refused case) :
    ∃ error, reportedFailure engines case options = some error ∧
      REFUSAL <:+: error.alternate.toList := by
  obtain ⟨hne, error, herror⟩ := h
  have hempty : case.instructions.isEmpty = false := by
    cases hlist : case.instructions with
    | nil => exact absurd hlist hne
    | cons word words => rfl
  refine ⟨.msg error.display, ?_, refusal_display error⟩
  have hckb : engines.runCkb case options = .error (.msg error.display) := by
    rw [Engines.runCkb, CkbRunner.runProgram, hempty, herror]
    rfl
  rw [reportedFailure, hckb]

omit [StrDebug] in
theorem not_refusal_of_empty (h : case.instructions = []) {error : Error}
    (herror : reportedFailure engines case options = some error) :
    ¬REFUSAL <:+: error.alternate.toList := by
  have hckb : engines.runCkb case options =
      .error (.msg "an injected program must contain at least one instruction") := by
    rw [Engines.runCkb, h]
    rfl
  rw [reportedFailure, hckb] at herror
  obtain rfl := Option.some.inj herror
  decide +kernel

variable {environment : Environment} {disk : Disk}

theorem runCase_of_stored (h : Stored engines case options environment disk) :
    (runCase engines case options environment disk).1.passed =
        (engines.caseRun case options).comparison.any CompareResult.passed ∧
      (runCase engines case options environment disk).1.classification =
        classify (engines.caseRun case options).comparison
          (engines.caseRun case options).error := by
  cases hdirectory : options.artifactDir with
  | none =>
      rw [runCase, hdirectory]
      exact ⟨Bool.and_true _, rfl⟩
  | some directory =>
      obtain ⟨path, hpath⟩ := h directory hdirectory
      rw [Engines.caseRun] at hpath
      simp only [runCase, hdirectory, hpath]
      exact ⟨Bool.and_true _, rfl⟩

theorem runCase_of_not_stored (h : ¬Stored engines case options environment disk) :
    (runCase engines case options environment disk).1.passed = false ∧
      (runCase engines case options environment disk).1.classification =
        CLASSIFICATION_RUNNER_ERROR := by
  rw [Stored, not_forall] at h
  obtain ⟨directory, h⟩ := h
  obtain ⟨hdirectory, hwrite⟩ := Classical.not_imp.1 h
  rw [Engines.caseRun] at hwrite
  cases hstored : ((caseArtifact case options environment (caseRun options.terminalPolicy
      ((engines.runCkb case options).map InjectionOutcome.trace) (engines.runSail case options))
      directory).write directory disk).1 with
  | ok path => exact absurd ⟨path, hstored⟩ hwrite
  | error failure =>
      simp only [runCase, hdirectory, hstored]
      exact ⟨Bool.and_false _, rfl⟩

theorem Compared.unique {verdict verdict' : Bool} (h : Compared engines case options verdict)
    (h' : Compared engines case options verdict') : verdict = verdict' := by
  obtain ⟨ckb, sail, hckb, hsail, rfl⟩ := h
  obtain ⟨ckb', sail', hckb', hsail', rfl⟩ := h'
  obtain rfl : ckb = ckb' := Except.ok.inj (hckb.symm.trans hckb')
  obtain rfl : sail = sail' := Except.ok.inj (hsail.symm.trans hsail')
  rfl

/-- The ways a report can come about, with its class and whether it passed. -/
theorem runCase_cases :
    (∃ verdict, Stored engines case options environment disk ∧
      (∀ other, Compared engines case options other ↔ verdict = other) ∧
      reportedFailure engines case options = none ∧
      (runCase engines case options environment disk).1.passed = verdict ∧
      (runCase engines case options environment disk).1.classification =
        if verdict then CLASSIFICATION_MATCH else CLASSIFICATION_MISMATCH) ∨
    (∃ error, Stored engines case options environment disk ∧
      (∀ verdict, ¬Compared engines case options verdict) ∧
      reportedFailure engines case options = some error ∧
      (runCase engines case options environment disk).1.passed = false ∧
      (runCase engines case options environment disk).1.classification =
        if REFUSAL <:+: error.alternate.toList then CLASSIFICATION_UNSUPPORTED
        else CLASSIFICATION_RUNNER_ERROR) ∨
    (¬Stored engines case options environment disk ∧
      (runCase engines case options environment disk).1.passed = false ∧
      (runCase engines case options environment disk).1.classification =
        CLASSIFICATION_RUNNER_ERROR) := by
  by_cases hstored : Stored engines case options environment disk
  · obtain ⟨hpassed, hclass⟩ := runCase_of_stored hstored
    rcases @caseRun_cases _ engines case options with
      ⟨verdict, hcompared, hnone, hany, hclassify⟩ | ⟨error, hcompared, hsome, hany, hclassify⟩
    · exact Or.inl ⟨verdict, hstored, fun other => ⟨hcompared.unique, fun h => h ▸ hcompared⟩,
        hnone, hpassed.trans hany, hclass.trans hclassify⟩
    · exact Or.inr (Or.inl ⟨error, hstored, hcompared, hsome, hpassed.trans hany,
        hclass.trans hclassify⟩)
  · exact Or.inr (Or.inr ⟨hstored, runCase_of_not_stored hstored⟩)

omit [StrDebug] in
/-- No two classes share a name. -/
theorem classifications_nodup : [CLASSIFICATION_MATCH, CLASSIFICATION_MISMATCH,
    CLASSIFICATION_RUNNER_ERROR, CLASSIFICATION_UNSUPPORTED].Nodup := by decide

theorem runCase_passed_iff : (runCase engines case options environment disk).1.passed = true ↔
    Compared engines case options true ∧ Stored engines case options environment disk := by
  rcases @runCase_cases _ engines case options environment disk with
    ⟨verdict, hstored, hcompared, -, hpassed, -⟩ | ⟨error, hstored, hcompared, -, hpassed, -⟩ |
    ⟨hstored, hpassed, -⟩
  · rw [hpassed, hcompared, and_iff_left hstored]
  · simp [hpassed, hcompared]
  · simp [hpassed, hstored]

theorem runCase_matched_iff :
    (runCase engines case options environment disk).1.classification = CLASSIFICATION_MATCH ↔
      (runCase engines case options environment disk).1.passed = true := by
  have hnodup := classifications_nodup
  rcases @runCase_cases _ engines case options environment disk with
    ⟨verdict, -, -, -, hpassed, hclass⟩ | ⟨error, -, -, -, hpassed, hclass⟩ | ⟨-, hpassed, hclass⟩
  · rw [hpassed, hclass]
    cases verdict <;> grind
  · rw [hpassed, hclass]
    grind
  · rw [hpassed, hclass]
    grind

theorem runCase_mismatch_iff :
    (runCase engines case options environment disk).1.classification =
      CLASSIFICATION_MISMATCH ↔
      Compared engines case options false ∧ Stored engines case options environment disk := by
  have hnodup := classifications_nodup
  rcases @runCase_cases _ engines case options environment disk with
    ⟨verdict, hstored, hcompared, -, -, hclass⟩ | ⟨error, -, hcompared, -, -, hclass⟩ |
    ⟨hstored, -, hclass⟩
  · rw [hclass, hcompared, and_iff_left hstored]
    cases verdict <;> grind
  · rw [hclass]
    grind
  · rw [hclass]
    grind

/-- The class depends on the text of the reported failure alone. -/
theorem runCase_unsupported_iff :
    (runCase engines case options environment disk).1.classification =
      CLASSIFICATION_UNSUPPORTED ↔
      (∃ error, reportedFailure engines case options = some error ∧
        REFUSAL <:+: error.alternate.toList) ∧ Stored engines case options environment disk := by
  have hnodup := classifications_nodup
  rcases @runCase_cases _ engines case options environment disk with
    ⟨verdict, -, -, hnone, -, hclass⟩ | ⟨error, hstored, -, hsome, -, hclass⟩ |
    ⟨hstored, -, hclass⟩
  · rw [hclass]
    cases verdict <;> grind
  · rw [hclass]
    grind
  · rw [hclass]
    grind

theorem classification_mem : (runCase engines case options environment disk).1.classification ∈
    [CLASSIFICATION_MATCH, CLASSIFICATION_MISMATCH, CLASSIFICATION_RUNNER_ERROR,
      CLASSIFICATION_UNSUPPORTED] := by
  rcases @runCase_cases _ engines case options environment disk with
    ⟨verdict, -, -, -, -, hclass⟩ | ⟨error, -, -, -, -, hclass⟩ | ⟨-, -, hclass⟩
  · rw [hclass]
    cases verdict <;> simp
  · rw [hclass]
    split <;> simp
  · simp [hclass]

omit [StrDebug] in
/-- The failures that quote a refusal are those of refused programs, unless that of a
supported program quotes one. -/
theorem quotes_iff_refused (h : ¬Quoted engines case options) :
    (∃ error, reportedFailure engines case options = some error ∧
      REFUSAL <:+: error.alternate.toList) ↔ Refused case := by
  constructor
  · rintro ⟨error, herror, hquotes⟩
    have hne : case.instructions ≠ [] := fun hempty =>
      not_refusal_of_empty hempty herror hquotes
    cases hvalid : validateProgram case.instructions with
    | error refusal => exact ⟨hne, refusal, hvalid⟩
    | ok u => exact absurd ⟨hne, hvalid, error, herror, hquotes⟩ h
  · exact reportedFailure_of_refused

/-- The class follows the evidence except where the failure of a supported program
quotes a refusal. -/
theorem classification_follows_iff (engines : Engines) (case : TestProgram) (options : RunOptions)
    (environment : Environment) (disk : Disk) :
    FollowsEvidence engines case options environment disk ↔
      ¬(Quoted engines case options ∧ Stored engines case options environment disk) := by
  constructor
  · rintro h ⟨hquoted, hstored⟩
    obtain ⟨-, hvalid, hquotes⟩ := id hquoted
    obtain ⟨⟨-, error, herror⟩, -⟩ := h.unsupported.1 (runCase_unsupported_iff.2 ⟨hquotes, hstored⟩)
    rw [hvalid] at herror
    cases herror
  · intro h
    have hunsupported : (runCase engines case options environment disk).1.classification =
        CLASSIFICATION_UNSUPPORTED ↔
          Refused case ∧ Stored engines case options environment disk := by
      rw [runCase_unsupported_iff]
      refine and_congr_left fun hstored => quotes_iff_refused fun hquoted => h ⟨hquoted, hstored⟩
    refine ⟨runCase_passed_iff, runCase_matched_iff, runCase_mismatch_iff, hunsupported, ?_⟩
    rw [← runCase_passed_iff, ← runCase_matched_iff, ← runCase_mismatch_iff, ← hunsupported]
    have hmem := @classification_mem _ engines case options environment disk
    have hnodup := classifications_nodup
    grind

end Evidence

/-! ## An emulator that names an instruction set -/

/-- The emulator exits before it answers, and says why. -/
def brokenHost : SailHost where
  isFile := fun _ => true
  start := .ok { addiSession.stream with incoming := [] }
  stdout := ""
  stderr := "unsupported instruction set: rv64q"
  status := .ok ⟨false, "exit status: 1"⟩

def brokenEngines : Engines := ⟨addiVm, fun _ => brokenHost⟩

theorem broken_classified_unsupported :
    validateProgram addiCase.instructions = .ok () ∧
      (@runCase plainStrDebug brokenEngines addiCase addiOptions addiEnvironment
        emptyDisk).1.classification = CLASSIFICATION_UNSUPPORTED ∧
      ¬@FollowsEvidence plainStrDebug brokenEngines addiCase addiOptions addiEnvironment
        emptyDisk := by
  have hvalid : validateProgram addiCase.instructions = .ok () := by decide
  have hclass : (@runCase plainStrDebug brokenEngines addiCase addiOptions addiEnvironment
      emptyDisk).1.classification = CLASSIFICATION_UNSUPPORTED := by decide +kernel
  refine ⟨hvalid, hclass, fun h => ?_⟩
  let _ := plainStrDebug
  obtain ⟨⟨-, error, herror⟩, -⟩ := h.unsupported.1 hclass
  rw [hvalid] at herror
  cases herror

end CkbSail.DiffTest
