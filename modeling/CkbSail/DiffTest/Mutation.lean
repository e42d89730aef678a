import CkbSail.DiffTest.Run

/-!
# The mandatory mutation matrix

Each mutation damages the recorded CKB trace of a case whose unmutated pair
passes; the comparator must notice it and name the damaged field.
-/

namespace CkbSail.DiffTest

open CkbSail.Core RustStd PythonStd

inductive MutationKind where
  | pcAfter
  | registerIndex
  | registerValue
  | trap
  | traceLength
  | termination
deriving DecidableEq, Repr

def MANDATORY_MUTATIONS : List MutationKind :=
  [.pcAfter, .registerIndex, .registerValue, .trap, .traceLength, .termination]

/-- The event a mutation lands on: the focus step, clamped to the last event. -/
def eventIndex (trace : ExecutionTrace) (focusStep : Nat) : Except String Nat :=
  if trace.events.isEmpty then .error "the trace commits no events"
  else .ok (min focusStep (trace.events.length - 1))

/-- The focus event if it commits a register write, else the first that does. -/
def writeIndex (trace : ExecutionTrace) (focusStep : Nat) : Except String Nat :=
  if trace.events[focusStep]?.any fun event => !event.registerWrites.isEmpty then .ok focusStep
  else
    match trace.events.findIdx? fun event => !event.registerWrites.isEmpty with
    | some index => .ok index
    | none => .error "the trace commits no register write"

namespace MutationKind

def id : MutationKind → String
  | pcAfter => "pc_after"
  | registerIndex => "register_index"
  | registerValue => "register_value"
  | trap => "trap"
  | traceLength => "trace_length"
  | termination => "termination"

/-- The comparator field that must report the mutation. -/
def expectedField : MutationKind → String
  | pcAfter => "pc_after"
  | registerIndex | registerValue => "register_writes"
  | trap => "trap"
  | traceLength => "trace_length"
  | termination => "termination"

def description : MutationKind → String
  | pcAfter => "advance the committed next program counter by two"
  | registerIndex => "commit the write to a different register"
  | registerValue => "flip the low bit of the committed value"
  | trap => "invert the committed trap flag"
  | traceLength => "drop the last committed event"
  | termination => "report a different termination category"

/-- Replace one event of a trace. -/
def modifyEvent (trace : ExecutionTrace) (index : Nat) (f : CommitEvent → CommitEvent) :
    ExecutionTrace := { trace with events := trace.events.modify index f }

/-- Replace the first register write of an event. -/
def modifyWrite (f : RegisterWrite → RegisterWrite) (event : CommitEvent) : CommitEvent :=
  { event with registerWrites := event.registerWrites.modify 0 f }

def apply (kind : MutationKind) (trace : ExecutionTrace) (focusStep : Nat) :
    Except String ExecutionTrace :=
  match kind with
  | pcAfter =>
      (eventIndex trace focusStep).map fun index => modifyEvent trace index fun event =>
        { event with pcAfter := event.pcAfter + 2 }
  | registerIndex =>
      -- stay inside x1..x31: a write to x0 would be normalized away
      (writeIndex trace focusStep).map fun index => modifyEvent trace index <|
        modifyWrite fun write =>
          { write with index := if write.index ≥ 31 then 1 else write.index + 1 }
  | registerValue =>
      (writeIndex trace focusStep).map fun index => modifyEvent trace index <|
        modifyWrite fun write => { write with value := write.value ^^^ 1 }
  | trap =>
      (eventIndex trace focusStep).map fun index => modifyEvent trace index fun event =>
        { event with trap := !event.trap }
  | traceLength =>
      if trace.events.isEmpty then .error "the trace commits no events to drop"
      else .ok { trace with events := trace.events.dropLast }
  | termination =>
      -- the replacement differs in category, so either policy notices it
      .ok { trace with traceEnd :=
        match trace.traceEnd with
        | .stepLimit => .injectionComplete
        | _ => .stepLimit }

end MutationKind

/-! ## Reports -/

structure MutationReport where
  caseId : String
  mutation : String
  description : String
  applied : Bool
  skippedBecause : Option String
  expectedField : String
  locatedField : Option String
  locatedStep : Option Nat
  detected : Bool
  passed : Bool
deriving DecidableEq, Repr

def MutationReport.toJson (report : MutationReport) : Json :=
  .obj [("case_id", .str report.caseId), ("mutation", .str report.mutation),
    ("description", .str report.description), ("applied", .bool report.applied),
    ("skipped_because", optionJson .str report.skippedBecause),
    ("expected_field", .str report.expectedField),
    ("located_field", optionJson .str report.locatedField),
    ("located_step", optionJson (fun step => .int step) report.locatedStep),
    ("detected", .bool report.detected), ("passed", .bool report.passed)]

structure MutationCoverage where
  mutation : String
  expectedField : String
  applied : Nat
  located : Nat
  exampleCase : Option String
deriving DecidableEq, Repr

def MutationCoverage.toJson (coverage : MutationCoverage) : Json :=
  .obj [("mutation", .str coverage.mutation), ("expected_field", .str coverage.expectedField),
    ("applied", .int coverage.applied), ("located", .int coverage.located),
    ("example_case", optionJson .str coverage.exampleCase)]

structure MutationSummary where
  cases : Nat
  applied : Nat
  skipped : Nat
  baselineFailures : List String
  undetected : List String
  mislocated : List String
  coverage : List MutationCoverage
  reports : List MutationReport
  passed : Bool
deriving DecidableEq, Repr

def MutationSummary.toJson (summary : MutationSummary) : Json :=
  .obj [("cases", .int summary.cases), ("applied", .int summary.applied),
    ("skipped", .int summary.skipped),
    ("baseline_failures", .arr (summary.baselineFailures.map .str)),
    ("undetected", .arr (summary.undetected.map .str)),
    ("mislocated", .arr (summary.mislocated.map .str)),
    ("coverage", .arr (summary.coverage.map MutationCoverage.toJson)),
    ("reports", .arr (summary.reports.map MutationReport.toJson)),
    ("passed", .bool summary.passed)]

section Evaluate

variable [StrDebug]

def evaluate (case : TestProgram) (kind : MutationKind) (ckb sail : ExecutionTrace)
    (options : RunOptions) : MutationReport :=
  let base : MutationReport :=
    { caseId := case.id
      mutation := kind.id
      description := kind.description
      applied := false
      skippedBecause := none
      expectedField := kind.expectedField
      locatedField := none
      locatedStep := none
      detected := false
      passed := false }
  match kind.apply ckb case.focusStep with
  | .error reason => { base with skippedBecause := some reason }
  | .ok mutated =>
      let mismatch :=
        (CompareResult.compareWithPolicy mutated sail options.terminalPolicy).mismatch
      let locatedField := mismatch.map TraceMismatch.field
      { base with
        applied := true
        locatedStep := mismatch.bind TraceMismatch.step
        locatedField := locatedField
        detected := locatedField.isSome
        passed := locatedField = some kind.expectedField }

end Evaluate

def summarize (cases : Nat) (baselineFailures : List String) (reports : List MutationReport) :
    MutationSummary :=
  let applied := reports.countP MutationReport.applied
  let skipped := reports.length - applied
  let undetected := (reports.filter fun report => report.applied && !report.detected).map
    fun report => s!"{report.caseId}/{report.mutation}"
  let mislocated := (reports.filter fun report => report.detected && !report.passed).map
    fun report =>
      let got := report.locatedField.getD "none"
      s!"{report.caseId}/{report.mutation}: expected {report.expectedField}, got {got}"
  let coverage := MANDATORY_MUTATIONS.map fun kind =>
    let matching := reports.filter fun report => report.mutation = kind.id
    { mutation := kind.id
      expectedField := kind.expectedField
      applied := matching.countP MutationReport.applied
      located := matching.countP MutationReport.passed
      exampleCase := (matching.find? MutationReport.passed).map MutationReport.caseId :
        MutationCoverage }
  -- a category that never applied anywhere is a gap in the corpus, not a pass
  let everyCategoryLocated := coverage.all fun entry => decide (entry.located > 0)
  let passed := everyCategoryLocated && baselineFailures.isEmpty && undetected.isEmpty &&
    mislocated.isEmpty && !reports.isEmpty
  { cases, applied, skipped, baselineFailures, undetected, mislocated, coverage, reports, passed }

/-- What one case adds to the baseline failures and to the reports. -/
def runMutationsCase [StrDebug] (engines : Engines) (options : RunOptions) (case : TestProgram) :
    List String × List MutationReport :=
  match runPair engines case options with
  | .ok pair =>
      if ¬(CompareResult.compareWithPolicy pair.ckb pair.sail options.terminalPolicy).passed then
        ([case.id], [])
      else
        ([], MANDATORY_MUTATIONS.map fun kind => evaluate case kind pair.ckb pair.sail options)
  | .error error => ([s!"{case.id}: {error.alternate}"], [])

/-- Run every mandatory mutation over every case. -/
def runMutations [StrDebug] (engines : Engines) (cases : List TestProgram) (options : RunOptions) :
    MutationSummary :=
  let runs := cases.map (runMutationsCase engines options)
  summarize cases.length (runs.flatMap Prod.fst) (runs.flatMap Prod.snd)

end CkbSail.DiffTest
