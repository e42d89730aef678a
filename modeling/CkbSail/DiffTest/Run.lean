import CkbSail.CkbRunner.Injection
import CkbSail.DiffTest.Artifact

/-!
# One case on both engines

`runPair` needs both engines to succeed; `runCase` reports whatever happened and
stores the evidence.  A run whose evidence could not be stored is not a pass.
-/

namespace CkbSail.DiffTest

open CkbSail.Core RustStd PythonStd CkbRunner SailRunner

structure RunOptions where
  dii : DiiConfig
  ckb : InjectionConfig
  terminalPolicy : TerminalPolicy
  artifactDir : Option String
  seed : UInt64

/-- The two engines: the CKB-VM interface, and what the host does during the Sail
run of a case. -/
structure Engines where
  ckb : CkbVm
  sail : TestProgram → SailHost

structure EnginePair where
  ckb : ExecutionTrace
  sail : ExecutionTrace
  packets : List PacketBytes

def Engines.runCkb (engines : Engines) (case : TestProgram) (options : RunOptions) :
    Except Error InjectionOutcome :=
  CkbRunner.runProgram engines.ckb case.instructions options.ckb

def Engines.runSail (engines : Engines) (case : TestProgram) (options : RunOptions) :
    Except Error DiiOutcome :=
  SailRunner.runProgram (engines.sail case) case.instructions options.dii

/-- Run one case on both engines, failing if either engine fails. -/
def runPair (engines : Engines) (case : TestProgram) (options : RunOptions) :
    Except Error EnginePair :=
  match engines.runCkb case options with
  | .error error => .error (.msg s!"CKB-VM runner: {error.alternate}")
  | .ok ckb =>
      match engines.runSail case options with
      | .error error => .error (.msg s!"Sail runner: {error.alternate}")
      | .ok sail => .ok ⟨ckb.trace, sail.trace, sail.rawPackets⟩

/-! ## Reports -/

/-- Machine-readable outcome of one case. -/
structure CaseReport where
  id : String
  description : String
  family : String
  focusStep : Nat
  instructions : Nat
  passed : Bool
  classification : String
  comparison : Option CompareResult
  error : Option String
  artifact : Option String

def CaseReport.toJson (report : CaseReport) : Json :=
  .obj [("id", .str report.id), ("description", .str report.description),
    ("family", .str report.family), ("focus_step", .int report.focusStep),
    ("instructions", .int report.instructions), ("passed", .bool report.passed),
    ("classification", .str report.classification),
    ("comparison", optionJson CompareResult.toJson report.comparison),
    ("error", optionJson .str report.error), ("artifact", optionJson .str report.artifact)]

def CLASSIFICATION_MATCH : String := "match"
def CLASSIFICATION_MISMATCH : String := "unclassified_mismatch"
def CLASSIFICATION_RUNNER_ERROR : String := "runner_error"
def CLASSIFICATION_UNSUPPORTED : String := "unsupported"

def classify (comparison : Option CompareResult) (error : Option String) : String :=
  match comparison, error with
  | some comparison, _ =>
      if comparison.passed then CLASSIFICATION_MATCH else CLASSIFICATION_MISMATCH
  | none, some error =>
      if "unsupported instruction".toList <:+: error.toList then CLASSIFICATION_UNSUPPORTED
      else CLASSIFICATION_RUNNER_ERROR
  | none, none => CLASSIFICATION_RUNNER_ERROR

def replayCommands (case : TestProgram) (directory : String) (seed : UInt64) : Replay :=
  let artifactPath := joinPath directory (case.id ++ ".json")
  { fromArtifact := s!"cargo run -p ckb-vm-sail-diff -- --replay {artifactPath}"
    fromCorpus := some
      s!"cargo run -p ckb-vm-sail-diff -- --corpus --case {case.id} --seed {seed}" }

/-- What the two runs of a case leave behind. -/
structure CaseRun where
  comparison : Option CompareResult
  ckbTrace : Option ExecutionTrace
  sailTrace : Option ExecutionTrace
  packets : List PacketBytes
  error : Option String

/-- The comparison of two runs, or the error of the first that failed beside what
the other one recorded. -/
def caseRun [StrDebug] (policy : TerminalPolicy) (ckb : Except Error ExecutionTrace)
    (sail : Except Error DiiOutcome) : CaseRun :=
  match ckb, sail with
  | .ok ckb, .ok sail =>
      { comparison := some (CompareResult.compareWithPolicy ckb sail.trace policy)
        ckbTrace := some ckb
        sailTrace := some sail.trace
        packets := sail.rawPackets
        error := none }
  | .error error, sail =>
      { comparison := none
        ckbTrace := none
        sailTrace := sail.toOption.map DiiOutcome.trace
        packets := (sail.toOption.map DiiOutcome.rawPackets).getD []
        error := some s!"CKB-VM runner: {error.alternate}" }
  | .ok ckb, .error error =>
      { comparison := none
        ckbTrace := some ckb
        sailTrace := none
        packets := []
        error := some s!"Sail runner: {error.alternate}" }

/-- The artifact of a run. -/
def caseArtifact (case : TestProgram) (options : RunOptions) (environment : Environment)
    (run : CaseRun) (directory : String) : Artifact where
  schemaVersion := ARTIFACT_SCHEMA_VERSION
  instructionsHex := hexWords case.instructions
  case := case
  environment := environment
  initialState := InitialState.reset
  passed := run.comparison.any CompareResult.passed
  classification := classify run.comparison run.error
  comparison := run.comparison
  error := run.error
  ckbTrace := run.ckbTrace
  sailTrace := run.sailTrace
  sailRawPackets := hexBytes run.packets
  replay := replayCommands case directory options.seed

def runCase [StrDebug] (engines : Engines) (case : TestProgram) (options : RunOptions)
    (environment : Environment) (disk : Disk) : CaseReport × Disk :=
  let ckb := (engines.runCkb case options).map InjectionOutcome.trace
  let sail := engines.runSail case options
  let run := caseRun options.terminalPolicy ckb sail
  let passed := run.comparison.any CompareResult.passed
  let (stored, disk) :=
    match options.artifactDir with
    | some directory =>
        let (result, disk) :=
          (caseArtifact case options environment run directory).write directory disk
        (some result, disk)
    | none => (none, disk)
  let (artifact, artifactError) :=
    match stored with
    | some (.ok path) => (some path, none)
    | some (.error failure) => (none, some s!"artifact: {failure.alternate}")
    | none => (none, none)
  ({ id := case.id
     description := case.description
     family := case.family
     focusStep := case.focusStep
     instructions := case.instructions.length
     -- a run whose evidence could not be stored is not a clean pass
     passed := passed && artifactError.isNone
     classification :=
       if artifactError.isSome then CLASSIFICATION_RUNNER_ERROR
       else classify run.comparison run.error
     comparison := run.comparison
     error :=
       match run.error, artifactError with
       | some error, some artifact => some s!"{error}; {artifact}"
       | some error, none => some error
       | none, error => error
     artifact := artifact }, disk)

end CkbSail.DiffTest
