import CkbSail.PythonStd.Transaction

/-!
# Publishing a generated model tree

`replaceModel` renames the old trees into backup directories, has the generator
recreate the source, adapts a copy of it and renames the copy to the
destination.  A failure before that last rename puts the old names back.
-/

namespace CkbSail.Scripts.SailModelTransaction

open PythonStd ProofSupport

/-- `require(condition, message)`. -/
def require (condition : Bool) (message : String) : Except Exn Unit :=
  if condition then .ok () else .error (.runtimeError message)

theorem require_eq_ok {condition : Bool} {message : String} {u : Unit} :
    require condition message = .ok u ↔ condition = true := by
  unfold require
  cases condition <;> simp

/-! ## Checks -/

/-- The paths the host resolves and forbids. -/
structure Paths where
  resolve : Path → Path
  home : Path

def directoryPath (paths : Paths) (path : Path) (entry : Option Entry) : Except Exn Unit := do
  require (path = paths.resolve path) ("symlink or noncanonical directory: " ++ path.display)
  require (path ≠ [] && path ≠ paths.resolve paths.home) "broad directory target"
  require (!Entry.pathExists entry || Entry.isDir entry) "directory target is not a directory"

/-- `Path.suffix`. -/
def suffix (name : String) : String :=
  let (extension, rest) := name.toList.reverse.span (· ≠ '.')
  if extension.isEmpty || rest.length ≤ 1 then "" else String.ofList ('.' :: extension.reverse)

def CACHED_NAMES : List String := [".lake", ".git", "target", "__pycache__"]

def CACHED_SUFFIXES : List String :=
  [".olean", ".ilean", ".o", ".so", ".a", ".vo", ".vos", ".vok"]

/-- What `regular_tree` asks of one descendant. -/
def regularEntry (root : Path) (row : Path × Node) : Except Exn Unit := do
  let (path, node) := row
  let name := path.getLastD ""
  let shown := Path.display (root ++ path)
  require (match node with | .directory | .file .. => true | _ => false)
    ("nonregular generated entry: " ++ shown)
  require (!CACHED_NAMES.contains name && !CACHED_SUFFIXES.contains (suffix name))
    ("cached/generated binary input: " ++ shown)
  require (match node with | .file links _ => links = 1 | _ => true)
    ("hardlinked generated file: " ++ shown)

def checkEntries (access : Access) (root : Path) : List (Path × Node) → Except Exn Unit
  | [] => .ok ()
  | row :: rows => do
      if access.reaches row.1 then
        regularEntry root row
        checkEntries access root rows
      else .error ⟨"PermissionError", "Permission denied"⟩

/-- `entry.relative_to(path).as_posix()` of a regular file. -/
def fileName? : Path × Node → Option String
  | (path, .file ..) => some ("/".intercalate path)
  | _ => none

/-- Reject links, special files and cached compiler inputs in fresh outputs. -/
def regularTree (access : Access) (root : Path) (entry : Option Entry) :
    Except Exn (List String) :=
  match entry with
  | some (.directory contents) => do
      checkEntries access root (access.seen contents)
      let files := (access.seen contents).filterMap fileName?
      require (!files.isEmpty) "empty fresh generated directory"
      pure (files.mergeSort (· ≤ ·))
  | _ => .error (.runtimeError "missing fresh generated directory")

/-! ## The transaction -/

/-- The names of a transaction; all but the first two lie in directories that
`mkdtemp` creates for it. -/
inductive Slot where
  | source
  | destination
  | previousSource
  | failedOutput
  | previousDestination
  | stage
deriving DecidableEq, Repr

/-- The places at which the host may fail. -/
inductive Point where
  | destinationParent
  | generationBackup
  | install
  | firstSave
  | moveSource
  | saveSource
  | readSource
  | copy
  | readStage
  | moveDestination
  | saveDestination
  | publish
  | savePublished
  | saveFailed
deriving DecidableEq, Repr

structure Record where
  status : String
  source : String
  destination : String
  generationBackup : String
  installationBackup : String
  oldSourceSaved : Bool
  oldDestinationSaved : Bool
  published : Bool
  policyChanged : Bool
  rawFiles : Option (List String)
  installedFiles : Option (List String)
  error : Option Exn
  destinationRestored : Bool
  sourceRestored : Bool
deriving DecidableEq, Repr

/-- What surrounds a transaction: what the user may do, what the callbacks leave and
raise, and which operations fail.  The generator only touches the source, the adapter
only the stage it is given. -/
structure Host where
  paths : Paths
  access : Slot → Access
  sourceParentIsDir : Bool
  generationSuffix : String
  installSuffix : String
  generate : Option Entry × Option Exn
  adapt : Entry → Option Entry × Option Exn
  partialCopy : Option Entry
  fault : Point → Option Exn

structure Variables where
  record : Record
  generationStarted : Bool

abbrev State := Workspace Slot Variables

abbrev Transaction (α : Type) := Program State Exn α

def setRecord (update : Record → Record) : Transaction Unit :=
  setVars fun vars => { vars with record := update vars.record }

section Run

variable (host : Host) (source destination : Path)

def save (point : Point) : Transaction Unit := orFail (host.fault point) untouched

/-- A look at a tree, which may fail. -/
def readTree (point : Point) (root : Path) (slot : Slot) : Transaction (List String) :=
  .check fun s =>
    match host.fault point with
    | some e => .error e
    | none => regularTree (host.access slot) root (s.disk slot)

def directorySlot (path : Path) (slot : Slot) : Transaction Unit :=
  .check fun s => directoryPath host.paths path (s.disk slot)

def saveOldSource : Transaction Unit :=
  moveAside (host.fault .moveSource) (host.fault .saveSource) .source .previousSource
    fun vars => { vars with record := { vars.record with oldSourceSaved := true } }

def runGenerate : Transaction Unit := do
  setVars fun vars => { vars with generationStarted := true }
  .perform (leaving .source host.generate)

/-- `shutil.copytree(source, stage)`, which may fail on its way. -/
def copyTree : Transaction Unit :=
  .perform fun s =>
    match host.fault .copy with
    | some e => (.error e, { s with disk := Function.update s.disk .stage host.partialCopy })
    | none => (.ok (), { s with disk := Function.update s.disk .stage (s.disk .source) })

def adaptStage (s : State) : Except Exn Unit × State :=
  match s.disk .stage with
  | some stage => leaving .stage (host.adapt stage) s
  | none => (.ok (), s)

def runAdapt : Transaction Unit := .perform (adaptStage host)

def saveOldDestination : Transaction Unit :=
  moveAside (host.fault .moveDestination) (host.fault .saveDestination) .destination
    .previousDestination
    fun vars => { vars with record := { vars.record with oldDestinationSaved := true } }

def publish : Transaction Unit := do
  orFail (host.fault .publish) (renameSlot .stage .destination)
  setRecord fun record => { record with published := true, status := "installed" }

def generationBackup : Path := source.dropLast ++ [".sail-generation-" ++ host.generationSuffix]

def installBackup : Path := destination.dropLast ++ [".sail-install-" ++ host.installSuffix]

/-- The body of the `try` statement. -/
def body : Transaction Record := do
  saveOldSource host
  runGenerate host
  let rawFiles ← readTree host .readSource source .source
  setRecord fun record => { record with rawFiles := some rawFiles }
  copyTree host
  runAdapt host
  let installedFiles ← readTree host .readStage (installBackup host destination ++ ["staged"])
    .stage
  setRecord fun record => { record with installedFiles := some installedFiles }
  directorySlot host destination .destination
  saveOldDestination host
  publish host
  save host .savePublished
  let s ← .get
  pure s.vars.record

/-- `if record['old_destination_saved'] and not destination.exists()`. -/
def restoreDestination : Transaction Unit := do
  let s ← .get
  if s.vars.record.oldDestinationSaved && !Entry.pathExists (s.disk .destination) then
    .perform (renameSlot .previousDestination .destination)
    setRecord fun record => { record with destinationRestored := true }
  else pure ()

/-- `if generation_started and (source.exists() or source.is_symlink())`. -/
def retainOutput : Transaction Unit := do
  let s ← .get
  if s.vars.generationStarted &&
      (Entry.pathExists (s.disk .source) || Entry.isSymlink (s.disk .source)) then
    .perform (renameSlot .source .failedOutput)
  else pure ()

/-- `if record['old_source_saved']`. -/
def restoreSource : Transaction Unit := do
  let s ← .get
  if s.vars.record.oldSourceSaved then
    .perform (renameSlot .previousSource .source)
    setRecord fun record => { record with sourceRestored := true }
  else pure ()

def rollBack : Transaction Unit := do
  let s ← .get
  if !s.vars.record.published then
    restoreDestination
    retainOutput
    restoreSource
  else pure ()

/-- The handler of the `try` statement. -/
def handler (error : Exn) : Transaction Record := do
  setRecord fun record => { record with status := "failed", error := some error }
  rollBack
  save host .saveFailed
  .raise error

def newRecord : Record where
  status := "running"
  source := source.display
  destination := destination.display
  generationBackup := (generationBackup host source).display
  installationBackup := (installBackup host destination).display
  oldSourceSaved := false
  oldDestinationSaved := false
  published := false
  policyChanged := false
  rawFiles := none
  installedFiles := none
  error := none
  destinationRestored := false
  sourceRestored := false

def checkPaths : Transaction Unit := do
  directorySlot host source .source
  directorySlot host destination .destination
  .check fun _ => require
    (source ≠ destination && !destination.isPrefixOf source && !source.isPrefixOf destination)
    "overlapping model directories"
  .check fun _ => require host.sourceParentIsDir "missing configured generation parent"

def replaceModel : Transaction Record := do
  checkPaths host source destination
  orFail (host.fault .destinationParent) untouched
  orFail (host.fault .generationBackup) untouched
  orFail (host.fault .install) untouched
  save host .firstSave
  .handle (body host source destination) (handler host)

/-- The two directories as they are found, and empty backup directories. -/
def initialState (oldSource oldDestination : Option (List (Path × Node))) : State where
  disk
    | .source => oldSource.map .directory
    | .destination => oldDestination.map .directory
    | _ => none
  vars := ⟨newRecord host source destination, false⟩

end Run

end CkbSail.Scripts.SailModelTransaction
