import CkbSail.CkbRunner.Elf
import CkbSail.DiffTest.Mutation
import CkbSail.DiffTest.Replay
import CkbSail.SailRunner.Elf

/-!
# The command line

Every mode fills the same envelope, and the process exits with an error as soon as
one result does not pass.
-/

namespace CkbSail.DiffTest.Main

open CkbSail.Core RustStd PythonStd CkbRunner SailRunner

def REPORT_SCHEMA_VERSION : UInt32 := 3

/-- The arguments that the parser lets through. -/
structure Arguments where
  corpus : Bool
  mutate : Bool
  cases : List String
  replay : Option String
  elf : Option String
  testDir : Option String
  sailBin : String
  sailConfig : String
  maxSteps : UInt64
  seed : UInt64
  artifactDir : Option String
  terminalCategoryOnly : Bool
  json : Bool
  corpusConflicts : corpus = true → elf = none ∧ testDir = none ∧ replay = none
  mutateRequires : mutate = true → corpus = true
  casesRequire : cases ≠ [] → corpus = true
  replayConflicts : replay.isSome = true → elf = none ∧ testDir = none
  elfConflicts : elf.isSome = true → testDir = none

def Arguments.policy (arguments : Arguments) : TerminalPolicy :=
  if arguments.terminalCategoryOnly then .categoryOnly else .exact

/-! ## Reports -/

structure ElfReport where
  elf : String
  passed : Bool
  comparison : Option CompareResult
  error : Option String

def ElfReport.toJson (report : ElfReport) : Json :=
  .obj [("elf", .str report.elf), ("passed", .bool report.passed),
    ("comparison", optionJson CompareResult.toJson report.comparison),
    ("error", optionJson .str report.error)]

inductive Report where
  | case (report : CaseReport)
  | elf (report : ElfReport)

def Report.passed : Report → Bool
  | .case report => report.passed
  | .elf report => report.passed

/-- An untagged enumeration. -/
def Report.toJson : Report → Json
  | .case report => report.toJson
  | .elf report => report.toJson

structure Summary where
  total : Nat
  failures : Nat
  mutationsPassed : Option Bool
  passed : Bool

def Summary.toJson (summary : Summary) : Json :=
  .obj [("total", .int summary.total), ("failures", .int summary.failures),
    ("mutations_passed", optionJson .bool summary.mutationsPassed),
    ("passed", .bool summary.passed)]

/-- The stable top-level shape of `--json`. -/
structure RunReport where
  schemaVersion : UInt32
  mode : String
  seed : Option UInt64
  terminalPolicy : String
  environment : Option Environment
  results : List Report
  mutations : Option MutationSummary
  summary : Summary

def RunReport.toJson (report : RunReport) : Json :=
  .obj [("schema_version", .int report.schemaVersion.toNat), ("mode", .str report.mode),
    ("seed", optionJson (fun seed => .int seed.toNat) report.seed),
    ("terminal_policy", .str report.terminalPolicy),
    ("environment", optionJson Environment.toJson report.environment),
    ("results", .arr (report.results.map Report.toJson)),
    ("mutations", optionJson MutationSummary.toJson report.mutations),
    ("summary", report.summary.toJson)]

structure Outcome where
  mode : String
  results : List Report
  environment : Option Environment
  mutations : Option MutationSummary
  mutationArtifact : Option String

/-! ## The host -/

/-- A directory entry: its path, and whether it is a regular file. -/
structure DirEntry where
  path : String
  isFile : Bool

/-- The program's surroundings: the engines, the file system and what
`Environment::detect` finds. -/
structure CliHost where
  engines : Engines
  elfVm : ElfVm
  sailElf : ElfHost
  /-- `InjectionConfig::default()`. -/
  injection : InjectionConfig
  /-- `RunnerConfig::default()`. -/
  runner : RunnerConfig
  artifacts : ArtifactSource
  detect : String → String → UInt8 → UInt32 → Environment
  readDir : String → Except String (List DirEntry)
  readFile : String → Except String (List UInt8)

/-! ## Injected programs -/

def selectCorpus (arguments : Arguments) : Except Fault (List TestProgram) :=
  match week2Corpus arguments.seed with
  | .error _ => .error .panic
  | .ok corpus =>
      if arguments.cases.isEmpty then .ok corpus
      else
        let selected := corpus.filter fun case => arguments.cases.contains case.id
        match arguments.cases.find? fun wanted => !selected.any fun case => case.id = wanted with
        | some wanted => .error (.error (.msg s!"no corpus case is called {wanted}"))
        | none => .ok selected

def selectCases (source : ArtifactSource) (arguments : Arguments) :
    Except Fault (List TestProgram) :=
  match arguments.replay with
  | some path => (selectReplay source path).mapError .error
  | none => selectCorpus arguments

section Injected

variable [StrDebug] (host : CliHost) (arguments : Arguments)

def runOptions : RunOptions where
  dii := ⟨arguments.sailBin, arguments.sailConfig⟩
  ckb := host.injection
  terminalPolicy := arguments.policy
  artifactDir := arguments.artifactDir
  seed := arguments.seed

/-- The runs of all cases, one after the other. -/
def runCases (options : RunOptions) (environment : Environment) :
    List TestProgram → Disk → List CaseReport × Disk
  | [], disk => ([], disk)
  | case :: cases, disk =>
      let (report, disk) := runCase host.engines case options environment disk
      let (reports, disk) := runCases options environment cases disk
      (report :: reports, disk)

/-- Replayable record of one run of the mutation matrix. -/
structure MutationArtifact where
  schemaVersion : UInt32
  environment : Environment
  seed : UInt64
  replay : String
  summary : MutationSummary

def MutationArtifact.toJson (artifact : MutationArtifact) : Json :=
  .obj [("schema_version", .int artifact.schemaVersion.toNat),
    ("environment", artifact.environment.toJson), ("seed", .int artifact.seed.toNat),
    ("replay", .str artifact.replay), ("summary", artifact.summary.toJson)]

def writeMutationSummary (directory : String) (environment : Environment) (seed : UInt64)
    (summary : MutationSummary) (disk : Disk) : Except Error String × Disk :=
  let artifact : MutationArtifact :=
    { schemaVersion := ARTIFACT_SCHEMA_VERSION
      environment := environment
      seed := seed
      replay := s!"cargo run -p ckb-vm-sail-diff -- --corpus --mutate --seed {seed}"
      summary := summary }
  storeJson directory "mutations.json" artifact.toJson disk

/-- The mutation matrix, if it was asked for, and where its report was stored. -/
def mutationStage (cases : List TestProgram) (options : RunOptions) (environment : Environment)
    (disk : Disk) : Except Error (Option MutationSummary × Option String) × Disk :=
  if arguments.mutate then
    let summary := runMutations host.engines cases options
    match arguments.artifactDir with
    | some directory =>
        let (stored, disk) :=
          writeMutationSummary directory environment arguments.seed summary disk
        (stored.map fun path => (some summary, some path), disk)
    | none => (.ok (some summary, none), disk)
  else (.ok (none, none), disk)

def runInjected (disk : Disk) : Except Fault Outcome × Disk :=
  match selectCases host.artifacts arguments with
  | .error fault => (.error fault, disk)
  | .ok cases =>
      let options := runOptions host arguments
      let environment := host.detect arguments.sailBin arguments.sailConfig options.ckb.isa
        options.ckb.version
      let (reports, disk) := runCases host options environment cases disk
      match mutationStage host arguments cases options environment disk with
      | (.error error, disk) => (.error (.error error), disk)
      | (.ok (mutations, mutationArtifact), disk) =>
          (.ok { mode := if arguments.replay.isSome then "replay" else "corpus"
                 results := reports.map Report.case
                 environment := some environment
                 mutations := mutations
                 mutationArtifact := mutationArtifact }, disk)

end Injected

/-! ## ELF files -/

/-- `path.extension() == Some("elf")`. -/
def hasElfExtension (path : String) : Bool :=
  let name := (path.toList.splitOn '/').getLast?.getD []
  ".elf".toList.isSuffixOf name && 4 < name.length

section Elf

variable [StrDebug] (host : CliHost) (arguments : Arguments)

def collectElfs : Except Error (List String) :=
  match arguments.elf, arguments.testDir with
  | some elf, _ => .ok [elf]
  | none, none => .error (.msg "one of --corpus, --replay, --elf or --test-dir is required")
  | none, some directory =>
      match host.readDir directory with
      | .error fault => .error ((Error.msg fault).context s!"failed to read {directory}")
      | .ok entries =>
          let files := (entries.filter fun entry => entry.isFile && hasElfExtension entry.path).map
            DirEntry.path
          if files.isEmpty then .error (.msg s!"{directory} contains no *.elf files")
          else .ok (files.mergeSort fun path path' => decide (path ≤ path'))

/-- The two traces of an ELF file, or the error of the first engine that failed. -/
def elfTraces (elf : String) : Except Fault (ExecutionTrace × ExecutionTrace) :=
  let config := { host.runner with maxSteps := arguments.maxSteps }
  match runElf host.elfVm host.readFile elf config with
  | .error error => .error (.error error)
  | .ok ckb =>
      (executeElf host.sailElf elf arguments.sailBin arguments.sailConfig arguments.maxSteps).map
        fun sail => (ckb, sail)

def runOneElf (elf : String) : Panics ElfReport :=
  match elfTraces host arguments elf with
  | .ok (ckb, sail) =>
      let comparison := CompareResult.compareWithPolicy ckb sail arguments.policy
      .ok ⟨elf, comparison.passed, some comparison, none⟩
  | .error (.error error) => .ok ⟨elf, false, none, some error.alternate⟩
  | .error .panic => .error "byte index is not a char boundary"

def runElfs : Except Fault Outcome :=
  match collectElfs host arguments with
  | .error error => .error (.error error)
  | .ok files =>
      match files.mapM (runOneElf host arguments) with
      | .error _ => .error .panic
      | .ok reports =>
          .ok { mode := "elf"
                results := reports.map Report.elf
                environment := none
                mutations := none
                mutationArtifact := none }

end Elf

/-! ## The process -/

/-- The envelope of a finished run. -/
def Outcome.report (outcome : Outcome) (arguments : Arguments) : RunReport :=
  let failures := outcome.results.countP fun report => !report.passed
  let mutationsPassed := outcome.mutations.map MutationSummary.passed
  { schemaVersion := REPORT_SCHEMA_VERSION
    mode := outcome.mode
    seed := if arguments.corpus then some arguments.seed else none
    terminalPolicy :=
      match arguments.policy with
      | .exact => "exact"
      | .categoryOnly => "category_only"
    environment := outcome.environment
    results := outcome.results
    mutations := outcome.mutations
    summary :=
      { total := outcome.results.length
        failures := failures
        mutationsPassed := mutationsPassed
        passed := failures = 0 && mutationsPassed.getD true } }

/-- How the process ends: the envelope it prints with `--json`, its exit code, and the
disk it leaves. -/
structure Process where
  printed : Option RunReport
  exitCode : Nat
  disk : Disk

/-- A run that returns an error exits with 1, one that panics with 101.  Paths and
arguments are UTF-8 text, and the report can be printed. -/
def main [StrDebug] (host : CliHost) (arguments : Arguments) (disk : Disk) : Process :=
  let (outcome, disk) :=
    if arguments.corpus || arguments.replay.isSome then runInjected host arguments disk
    else (runElfs host arguments, disk)
  match outcome with
  | .error (.error _) => ⟨none, 1, disk⟩
  | .error .panic => ⟨none, 101, disk⟩
  | .ok outcome =>
      let report := outcome.report arguments
      ⟨if arguments.json then some report else none, if report.summary.passed then 0 else 1, disk⟩

end CkbSail.DiffTest.Main
