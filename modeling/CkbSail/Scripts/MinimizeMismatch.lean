import CkbSail.ProofSupport.FaultyProgram
import CkbSail.PythonStd.Combinations
import CkbSail.PythonStd.Files
import CkbSail.PythonStd.Text
import CkbSail.Scripts.RuntimeEvidence

/-!
# The mismatch minimizer

`shortestSubsequence` tries the smaller subsequences of a program by increasing
size; `run` has it replay every candidate on both engines and keeps a report.
What the host answers depends on the time it is asked, and every exception is
one of `Exception` or `KeyboardInterrupt`.
-/

namespace CkbSail.Scripts.MinimizeMismatch

open PythonStd ProofSupport
open RuntimeEvidence (formatWord)

def TRIAGE : List String :=
  ["unclassified_mismatch", "unsupported", "configuration_or_version_difference",
    "adapter_defect", "ckb_candidate_defect"]

def ENVIRONMENT_KEYS : List String :=
  ["ckb_vm_commit", "ckb_vm_source_baseline", "sail_riscv_commit", "sail_model_version",
    "sail_config_sha256", "ckb_vm_isa_bits", "ckb_vm_isa", "ckb_vm_version", "rustc", "cargo",
    "sail_compiler"]

/-! ## One replay -/

/-- `artifact[key]["events"]`. -/
def eventsOf (artifact : Json) (key : String) : Py Json := do
  let trace ← artifact.getItem key
  trace.getItem "events"

def validWords : Json → Bool
  | .arr words => 0 < words.length && words.length ≤ 256 &&
      words.all fun word => word.integer 0 (2 ^ 32 - 1)
  | _ => false

/-- The instructions of an artifact. -/
def program (artifact : Json) : Py (List Json) := do
  let version ← artifact.getItem "schema_version"
  require (version.eq (.int 3)) "only source-baseline-aware schema 3 is supported"
  let case ← artifact.getItem "case"
  let instructions ← case.getItem "instructions"
  require (validWords instructions) "invalid instruction sequence"
  let words ← instructions.iter
  let hex ← artifact.getItem "instructions_hex"
  let expected ← Py.collect formatWord words
  require (hex.eq (.arr expected)) "hex/case instruction mismatch"
  let initial ← artifact.getItem "initial_state"
  require (initial.eq (.obj [("pc", .int 0x80000000), ("integer_registers", .str "x0..x31 = 0")]))
    "replay CLI does not implement arbitrary initial states"
  pure words

/-- A trace with an event. -/
def nonemptyTrace (artifact : Json) (key : String) : Py Unit := do
  let trace ← artifact.getItem key
  requirePy
    (if trace.isDict then do
      let events ← trace.getItem "events"
      pure events.truthy
    else pure false)
    "missing/empty engine trace"

def passingEvidence (artifact difference : Json) : Py Bool :=
  if difference.isNone then do
    let classification ← artifact.getItem "classification"
    pure (classification.eq (.str "match"))
  else pure false

def recordedMismatch (artifact passed difference : Json) : Py Bool :=
  if passed.isBool false then do
    let classification ← artifact.getItem "classification"
    pure (classification.eq (.str "unclassified_mismatch") && difference.isDict)
  else pure false

def validField : Json → Bool
  | .str field => field ≠ "" && field ≠ "empty_trace"
  | _ => false

/-- `type(step) is int and step == min(map(len, events)) and the lengths differ`. -/
def lengthBoundary (step ckb sail : Json) : Py Bool :=
  if step.isInt then do
    let left ← ckb.len
    let right ← sail.len
    pure (step.eq (.int (min left right)) && left ≠ right)
  else pure false

def insideTraces (step : Int) (ckb sail : Json) : Py Bool := do
  let left ← ckb.len
  if step < left then do
    let right ← sail.len
    pure (step < right)
  else pure false

def signatureOf (field words : Json) : Json := .obj [("field", field), ("offending_words", words)]

/-- `rows[step]["instruction"]`. -/
def instructionAt (rows : Json) (step : Int) : Py Json := do
  let event ← rows.getAt step
  event.getItem "instruction"

/-- The signature of a mismatch at an event. -/
def stepSignature (field step ckb sail : Json) : Py Json :=
  match step with
  | .int i => do
      require (0 ≤ i) "invalid mismatch step"
      requirePy (insideTraces i ckb sail) "mismatch step outside actual traces"
      let left ← instructionAt ckb i
      let right ← instructionAt sail i
      pure (signatureOf field (.arr [left, right]))
  | _ => .error (.runtimeError "invalid mismatch step")

/-- Preserve the observed field and the offending words, not the step. -/
def signature (artifact : Json) : Py Json := do
  let error ← artifact.getItem "error"
  require error.isNone "runner error is not a semantic outcome"
  nonemptyTrace artifact "ckb_trace"
  nonemptyTrace artifact "sail_trace"
  let comparison ← artifact.getItem "comparison"
  require comparison.isDict "missing comparison"
  let difference ← comparison.getItem "mismatch"
  let passed ← artifact.getItem "passed"
  if passed.isBool true then
    requirePy (passingEvidence artifact difference) "inconsistent passing evidence"
    pure .null
  else
    requirePy (recordedMismatch artifact passed difference) "not a recorded semantic mismatch"
    let field ← difference.getItem "field"
    require (validField field) "invalid mismatch field"
    let step ← difference.getItem "step"
    let ckb ← eventsOf artifact "ckb_trace"
    let sail ← eventsOf artifact "sail_trace"
    if field.eq (.str "trace_length") then
      requirePy (lengthBoundary step ckb sail) "invalid trace-length boundary"
      pure (signatureOf field .null)
    else if step.isNone then
      require (field.eq (.str "termination")) "event mismatch has no step"
      pure (signatureOf field .null)
    else stepSignature field step ckb sail

def replayMode (envelope : Json) : Py Bool := do
  let version ← envelope.getItem "schema_version"
  if !version.eq (.int 3) then pure false
  else
    let mode ← envelope.getItem "mode"
    if !mode.eq (.str "replay") then pure false
    else
      let policy ← envelope.getItem "terminal_policy"
      if !policy.eq (.str "exact") then pure false
      else
        let mutations ← envelope.getItem "mutations"
        pure mutations.isNone

/-- The report row and the artifact agree on a key. -/
def sameKey (result artifact : Json) (key : String) : Py Unit := do
  let left ← result.getItem key
  let right ← artifact.getItem key
  require (left.eq right) ("report/artifact disagreement: " ++ key)

def sameCase (result artifact : Json) (words : List Json) : Py Bool := do
  let id ← result.getItem "id"
  let case ← artifact.getItem "case"
  let caseId ← case.getItem "id"
  if id.eq caseId then do
    let instructions ← result.getItem "instructions"
    pure (instructions.eq (.int words.length))
  else pure false

def summaryOf (passed : Bool) : Json :=
  .obj [("total", .int 1), ("failures", .int (if passed then 0 else 1)),
    ("mutations_passed", .null), ("passed", .bool passed)]

/-- The signature of a replay, or `None` for a match. -/
def checkTrial (envelope artifact : Json) (exitCode : Int) (expectedWords : List Json) :
    Py Json := do
  require (exitCode = 0 || exitCode = 1) "abnormal replay process exit"
  requirePy (replayMode envelope) "wrong replay comparison mode"
  let results ← envelope.getItem "results"
  let count ← results.len
  require (count = 1) "expected one replay result"
  let words ← program artifact
  require ((Json.arr words).eq (.arr expectedWords)) "runner used a different input"
  let result ← results.getAt 0
  Py.forEach (sameKey result artifact) ["passed", "classification", "comparison", "error"]
  let environment ← envelope.getItem "environment"
  let recorded ← artifact.getItem "environment"
  require (environment.eq recorded) "report/artifact environment disagreement"
  requirePy (sameCase result artifact expectedWords) "replay result identifies a different case"
  let observed ← signature artifact
  let summary ← envelope.getItem "summary"
  require (summary.eq (summaryOf observed.isNone)) "inconsistent replay summary"
  require (exitCode = if observed.isNone then 0 else 1) "replay exit does not match observed outcome"
  pure observed

/-- `value.get(key)`. -/
def getOrNone (value : Json) (key : String) : Py Json :=
  match value with
  | .obj fields => .ok ((Json.lookup key fields).getD .null)
  | _ => .error .attributeError

def sameEnvironment (original fresh : Json) (key : String) : Py Bool := do
  let value ← getOrNone original key
  if value.isNone then pure false
  else do
    let other ← getOrNone fresh key
    let value ← original.getItem key
    pure (other.eq value)

def checkEnvironment (original fresh : Json) : Py Unit :=
  Py.forEach (fun key => requirePy (sameEnvironment original fresh key)
    ("replay environment differs or is unidentified: " ++ key)) ENVIRONMENT_KEYS

/-! ## The search -/

section Search

variable {α β σ ε : Type}

/-- `[words[i] for i in indices]`, for indices of the list. -/
def select (words : List α) (indices : List Nat) : List α :=
  indices.filterMap fun i => words[i]?

variable (words : List α) (expected : β) (same : β → β → Bool)
  (evaluate : List α → Program σ ε β)

/-- The loop over the combinations of one size. -/
def searchSize : List (List Nat) → Program σ ε (Option (List α × List Nat))
  | [] => pure none
  | indices :: rest => do
      let candidate := select words indices
      let observed ← evaluate candidate
      if same observed expected then pure (some (candidate, indices)) else searchSize rest

/-- The loop over the sizes. -/
def searchSizes : List Nat → Program σ ε (Option (List α × List Nat))
  | [] => pure none
  | size :: sizes => do
      match ← searchSize words expected same evaluate
          (combinations size (List.range words.length)) with
      | some found => pure (some found)
      | none => searchSizes sizes

/-- All smaller nonempty subsequences are checked before a result is returned;
an exception of the evaluator aborts. -/
def shortestSubsequence : Program σ ε (List α × List Nat) := do
  match ← searchSizes words expected same evaluate (List.range' 1 (words.length - 1)) with
  | some found => pure found
  | none => pure (words, List.range words.length)

end Search

/-! ## The replay oracle -/

structure Args where
  artifact : String
  output : String
  classification : String
  rationale : String
  differentialBinary : String
  sailBin : String
  sailConfig : String
  maxEvaluations : Int
  sailTimeout : Int
  timeout : Int

/-- One row of the report. -/
structure Trial where
  index : Nat
  inputWords : List Json
  inputSha256 : String
  command : List String
  cwd : String
  status : String
  exitCode : Option Int
  signature : Option Json
  artifact : Option String
  artifactSha256 : Option String
  stdoutSha256 : Option String
  stderrSha256 : Option String
  error : Option String

/-- The report; a key that is not set is `none`. -/
structure Report where
  status : String
  minimumProved : Bool
  sourceArtifact : String
  sourceSha256 : String
  originalWords : List Json
  signature : Json
  classification : String
  rationale : String
  scriptSha256 : String
  trials : List Trial
  runnerInputs : Option (List (String × String × String))
  minimalWords : Option (List Json)
  retainedOriginalIndices : Option (List Nat)
  minimizedArtifact : Option String
  minimizedArtifactSha256 : Option String
  replayArgv : Option (List String)
  error : Option String

/-- The report in memory, the one saved last, and the time. -/
structure State where
  report : Report
  saved : Option Report
  time : Nat

/-- The answers of the host at a time: digests and texts of files, new
directories, saved files and finished replays. -/
structure Host where
  root : String
  script : String
  sha : String → Nat → Except Exn String
  readJson : String → Nat → Except Exn Json
  mkdir : String → Nat → Except Exn Unit
  save : String → Json → Nat → Except Exn Unit
  saveReport : Nat → Except Exn Unit
  replay : List String → Nat → Except Exn Int
  /-- The text of an exception that a check raises. -/
  text : PyError → String

abbrev Action (α : Type) := Program State Exn α

/-- Ask the host, and time goes on. -/
def ask {α : Type} (answer : Nat → Except Exn α) : Action α := do
  let s ← .get
  .assign fun s => { s with time := s.time + 1 }
  match answer s.time with
  | .ok a => pure a
  | .error e => .raise e

def setReport (update : Report → Report) : Action Unit :=
  .assign fun s => { s with report := update s.report }

def typeName : PyError → String
  | .keyError => "KeyError"
  | .indexError => "IndexError"
  | .typeError => "TypeError"
  | .valueError => "ValueError"
  | .attributeError => "AttributeError"
  | .runtimeError _ => "RuntimeError"
  | .permissionError => "PermissionError"

def requireThat (condition : Bool) (message : String) : Action Unit :=
  if condition then pure () else .raise (.runtimeError message)

/-- `str(error) or type(error).__name__`. -/
def describe (error : Exn) : String := if error.text = "" then error.typeName else error.text

section Oracle

variable (host : Host) (args : Args)

/-- A check on values read from JSON. -/
def judge {α : Type} (value : Py α) : Action α :=
  match value with
  | .ok a => pure a
  | .error (.runtimeError message) => .raise (.runtimeError message)
  | .error e => .raise ⟨typeName e, host.text e⟩

def saveReport : Action Unit := do
  let s ← .get
  ask host.saveReport
  .assign fun t => { t with saved := some s.report }

/-- The paths and digests of the runner, by name. -/
def identityNow : Action (List (String × String × String)) := do
  let binary ← ask (host.sha args.differentialBinary)
  let sail ← ask (host.sha args.sailBin)
  let config ← ask (host.sha args.sailConfig)
  pure [("differential_binary", args.differentialBinary, binary),
    ("sail_binary", args.sailBin, sail), ("sail_config", args.sailConfig, config)]

def checkIdentity (identity : List (String × String × String)) : Action Unit := do
  let now ← identityNow host args
  requireThat (now = identity) "runner/config bytes changed during minimization"

/-- Update the row of the trial that runs. -/
def updateRow (update : Trial → Trial) : Action Unit :=
  setReport fun report => { report with
    trials := report.trials.modify (report.trials.length - 1) update }

/-- The input of a replay: the artifact with other words and nothing observed. -/
def candidateOf (artifact : Json) (words : List Json) : Py Json := do
  let hex ← Py.collect formatWord words
  let case ← artifact.getItem "case"
  let case ← case.setItem "id" (.str "candidate")
  let case ← case.setItem "instructions" (.arr words)
  let case ← case.setItem "focus_step" (.int 0)
  let case ← case.setItem "description"
    (.str "minimizer replay input; focus_step is not a mismatch location")
  let case ← case.setItem "seed" .null
  let candidate ← artifact.setItem "case" case
  let candidate ← candidate.setItem "instructions_hex" (.arr hex)
  let candidate ← candidate.setItem "passed" (.bool false)
  let candidate ← candidate.setItem "classification" (.str "input_only")
  let candidate ← candidate.setItem "comparison" .null
  let candidate ← candidate.setItem "error" (.str "not yet executed")
  let candidate ← candidate.setItem "ckb_trace" .null
  let candidate ← candidate.setItem "sail_trace" .null
  let candidate ← candidate.setItem "sail_raw_packets" (.arr [])
  candidate.setItem "replay" (.obj [("from_artifact", .str ""), ("from_corpus", .null)])

def trialDirectory (number : Nat) : String :=
  args.output ++ "/trial-" ++ String.ofList (RustStd.zeroPad 5 (Nat.toDigits 10 number))

def replayCommand (directory : String) : List String :=
  [args.differentialBinary, "--replay", directory ++ "/input.json", "--json", "--artifact-dir",
    directory ++ "/evidence", "--sail-bin", args.sailBin, "--sail-config", args.sailConfig,
    "--sail-timeout", toString args.sailTimeout]

/-- The body of the `try` statement: replay, check and record one candidate. -/
def observeTrial (artifact : Json) (identity : List (String × String × String))
    (directory digest : String) (words : List Json) : Action Json := do
  let exitCode ← ask (host.replay (replayCommand args directory))
  updateRow fun row => { row with exitCode := some exitCode }
  let observedFile := directory ++ "/evidence/candidate.json"
  let observed ← ask (host.readJson observedFile)
  let envelope ← ask (host.readJson (directory ++ "/stdout.json"))
  let result ← judge host (checkTrial envelope observed exitCode words)
  judge host do
    let original ← artifact.getItem "environment"
    let fresh ← observed.getItem "environment"
    checkEnvironment original fresh
  checkIdentity host args identity
  let now ← ask (host.sha (directory ++ "/input.json"))
  requireThat (now = digest) "candidate input changed during execution"
  let artifactSha256 ← ask (host.sha observedFile)
  let stdoutSha256 ← ask (host.sha (directory ++ "/stdout.json"))
  let stderrSha256 ← ask (host.sha (directory ++ "/stderr.log"))
  updateRow fun row => { row with
    status := "observed"
    signature := some result
    artifact := some observedFile
    artifactSha256 := some artifactSha256
    stdoutSha256 := some stdoutSha256
    stderrSha256 := some stderrSha256 }
  pure result

/-- `ReplayOracle.__call__`. -/
def replayOracle (artifact : Json) (identity : List (String × String × String))
    (words : List Json) : Action Json := do
  let s ← .get
  let number := s.report.trials.length
  if args.maxEvaluations ≤ number then
    .raise ⟨"BudgetExhausted", "replay budget exhausted; no minimality claim"⟩
  else
    checkIdentity host args identity
    let directory := trialDirectory args number
    ask (host.mkdir directory)
    let candidate ← judge host (candidateOf artifact words)
    ask (host.save (directory ++ "/input.json") candidate)
    let digest ← ask (host.sha (directory ++ "/input.json"))
    setReport fun report => { report with trials := report.trials ++ [{
      index := number
      inputWords := words
      inputSha256 := digest
      command := replayCommand args directory
      cwd := host.root
      status := "running"
      exitCode := none
      signature := none
      artifact := none
      artifactSha256 := none
      stdoutSha256 := none
      stderrSha256 := none
      error := none }] }
    saveReport host
    ((observeTrial host args artifact identity directory digest words).handle fun error => do
        updateRow fun row => { row with status := "failed", error := some (describe error) }
        .raise error).andFinally (saveReport host)

end Oracle

/-! ## The run -/

/-- What is known before the search: the artifact, its words, its signature. -/
structure Job where
  artifact : Json
  words : List Json
  expected : Json
  originalHash : String
  scriptHash : String

section Run

variable (host : Host) (args : Args)

/-- The statements before the `try` statement of `run`. -/
def prepare : Action Job := do
  requireThat (TRIAGE.contains args.classification &&
    args.rationale.toList.any fun c => !isSpace c) "classification rationale required"
  requireThat (2 ≤ args.maxEvaluations && 0 < args.timeout && 0 < args.sailTimeout)
    "invalid budget/timeout"
  let originalHash ← ask (host.sha args.artifact)
  let artifact ← ask (host.readJson args.artifact)
  let words ← judge host (program artifact)
  let expected ← judge host (signature artifact)
  requireThat (!expected.isNone) "matching artifact is not a mismatch to minimize"
  ask (host.mkdir args.output)
  let scriptHash ← ask (host.sha host.script)
  setReport fun _ =>
    { status := "running"
      minimumProved := false
      sourceArtifact := args.artifact
      sourceSha256 := originalHash
      originalWords := words
      signature := expected
      classification := args.classification
      rationale := args.rationale
      scriptSha256 := scriptHash
      trials := []
      runnerInputs := none
      minimalWords := none
      retainedOriginalIndices := none
      minimizedArtifact := none
      minimizedArtifactSha256 := none
      replayArgv := none
      error := none }
  saveReport host
  pure ⟨artifact, words, expected, originalHash, scriptHash⟩

/-- Up to the search: the oracle, and a replay of the whole program. -/
def reproduce (job : Job) : Action (List (String × String × String)) := do
  let identity ← identityNow host args
  setReport fun report => { report with runnerInputs := some identity }
  let observed ← replayOracle host args job.artifact identity job.words
  requireThat (observed.eq job.expected) "original mismatch is not reproducible now"
  pure identity

def search (job : Job) (identity : List (String × String × String)) :
    Action (List Json × List Nat) :=
  shortestSubsequence job.words job.expected Json.eq (replayOracle host args job.artifact identity)

/-- `final["artifact"]` and `final["artifact_sha256"]` of the last trial. -/
def finalTrial (report : Report) : Except Exn (List String × String × String) :=
  match report.trials.getLast? with
  | none => .error ⟨"IndexError", "list index out of range"⟩
  | some final =>
      match final.artifact, final.artifactSha256 with
      | some artifact, some digest => .ok (final.command.take 1, artifact, digest)
      | _, _ => .error ⟨"KeyError", "'artifact'"⟩

/-- After the search: a last replay, and the claim. -/
def conclude (job : Job) (identity : List (String × String × String)) (minimum : List Json)
    (indices : List Nat) : Action Unit := do
  let observed ← replayOracle host args job.artifact identity minimum
  requireThat (observed.eq job.expected) "final minimized input is not reproducible"
  let original ← ask (host.sha args.artifact)
  requireThat (original = job.originalHash) "original evidence changed during minimization"
  let script ← ask (host.sha host.script)
  requireThat (script = job.scriptHash) "minimizer source changed during run"
  let (binary, artifact, digest) ← .check fun s => finalTrial s.report
  setReport fun report => { report with
    status := "minimized"
    minimumProved := true
    minimalWords := some minimum
    retainedOriginalIndices := some indices
    minimizedArtifact := some artifact
    minimizedArtifactSha256 := some digest
    replayArgv := some (binary ++ ["--replay", artifact, "--json", "--sail-bin", args.sailBin,
      "--sail-config", args.sailConfig, "--sail-timeout", toString args.sailTimeout]) }

/-- The body of the `try` statement of `run`, and its return code. -/
def attempt (job : Job) : Action Nat := do
  let identity ← reproduce host args job
  let (minimum, indices) ← search host args job identity
  conclude host args job identity minimum indices
  pure 0

/-- The handler of the `try` statement of `run`, and its return code. -/
def giveUp (error : Exn) : Action Nat := do
  let exhausted := error.typeName = "BudgetExhausted"
  setReport fun report => { report with
    status := if exhausted then "incomplete" else "failed"
    error := some (describe error) }
  pure (if exhausted then 2 else 1)

def run : Action Nat := do
  let job ← prepare host args
  ((attempt host args job).handle giveUp).andFinally (saveReport host)

end Run

/-- The exit code of the process. -/
def exitStatus : Except Exn Nat → Nat
  | .ok code => code
  | .error _ => 1

end CkbSail.Scripts.MinimizeMismatch
