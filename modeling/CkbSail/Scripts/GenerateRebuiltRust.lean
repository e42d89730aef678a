import CkbSail.PythonStd.Text
import CkbSail.Scripts.SailModelTransaction

/-!
# Installing a rebuilt Rust model with its LLBC

`install` stages a generated model and its LLBC in a new backup directory, moves
both old outputs there, and moves the staged pair to their names.  A failure
after the first save moves everything back.
-/

namespace CkbSail.Scripts.GenerateRebuiltRust

open PythonStd ProofSupport
open SailModelTransaction (Paths require directoryPath regularTree)

/-! ## The host -/

/-- The two outputs. -/
inductive Artifact where
  | model
  | llbc
deriving DecidableEq, Repr

/-- Where an output may stand: under its own name, or under one of three names in
the backup directory. -/
inductive Place where
  | own
  | previous
  | staged
  | failed
deriving DecidableEq, Repr

abbrev Slot := Artifact × Place

/-- The places at which the host may fail. -/
inductive Point where
  | destinationParent
  | targetParent
  | backup
  | stagedDirectory
  | copyModel
  | copyToolchain
  | writeLakefile
  | writeBaseline
  | writeToolchain
  | copyLlbc
  | firstSave
  | moveOld (artifact : Artifact)
  | saveOld (artifact : Artifact)
  | moveNew (artifact : Artifact)
  | saveNew (artifact : Artifact)
  | hash (artifact : Artifact)
  | saveInstalled
  | saveFailed
deriving DecidableEq, Repr

structure Provenance where
  generatedLeanSha256 : String
  llbcSha256 : String

def Provenance.digest (provenance : Provenance) : Artifact → String
  | .model => provenance.generatedLeanSha256
  | .llbc => provenance.llbcSha256

/-- What surrounds an installation.  The new files are read twice and need not
stay the same; `baseline` is the text rendered from the provenance. -/
structure Host where
  paths : Paths
  sha256 : List UInt8 → String
  root : Path
  rootEntry : Option Entry
  targetParentEntry : Option Entry
  backupSuffix : String
  hashed : Artifact → Except Exn (List UInt8)
  copied : Artifact → Except Exn (List UInt8)
  toolchainFile : Except Exn (List UInt8)
  supportHome : Path
  baseline : List UInt8
  fault : Point → Option Exn
  partialWrite : Point → Option (List UInt8)

structure Record where
  status : String
  destination : String
  llbc : String
  backup : String
  oldSaved : Artifact → Bool
  newInstalled : Artifact → Bool
  policyChanged : Bool
  error : Option Exn

abbrev State := Workspace Slot Record

abbrev Installation (α : Type) := Program State Exn α

/-! ## Staging -/

def CHARON_VERSION : String := "0.1.247 (89ac118194b978d8cf753222c19f313521377aa0)"

def AENEAS_VERSION : String := "aeneas 379890b5"

def PROFILE : String := "rebuilt-main-v1"

def TOOLCHAIN : String := "leanprover/lean4:v4.31.0"

def toolchainText : String :=
  "charon=" ++ CHARON_VERSION ++ "\naeneas=" ++ AENEAS_VERSION ++ "\nprofile=" ++ PROFILE ++
    "\nlean_toolchain=" ++ TOOLCHAIN ++ "\n"

/-- The project of a model, on the Lean library of the support directory. -/
def lakefileText (supportHome : Path) : String :=
  "name = \"CkbVmProduction\"\ndefaultTargets = [\"CkbVmProduction\"]\n\n" ++
    "[[require]]\nname = \"Aeneas\"\npath = " ++
    dumpsText (supportHome ++ ["backends", "lean"]).display ++
    "\n\n[[lean_lib]]\nname = \"CkbVmProduction\"\n"

def MODEL_FILE : String := "CkbVmProduction.lean"

section Install

variable (host : Host) (provenance : Provenance)

/-- What a write leaves and raises, given what there is to write. -/
def written (point : Point) (content : Except Exn (List UInt8)) :
    Option (List UInt8) × Option Exn :=
  match content, host.fault point with
  | .error e, _ => (none, some e)
  | .ok _, some e => (host.partialWrite point, some e)
  | .ok bytes, none => (some bytes, none)

/-- A file of a directory; one of the same name is replaced. -/
def addFile (name : String) (bytes : Option (List UInt8)) : Option Entry → Option Entry
  | some (.directory contents) =>
      some (.directory (match bytes with
        | some bytes => ([name], .file 1 bytes) :: contents.filter (·.1 ≠ [name])
        | none => contents))
  | entry => entry

/-- A write into the staged tree. -/
def writeStaged (point : Point) (name : String) (content : Except Exn (List UInt8)) :
    Installation Unit :=
  .perform fun s =>
    let (bytes, raised) := written host point content
    leaving (.model, .staged) (addFile name bytes (s.disk (.model, .staged)), raised) s

def copyStagedLlbc : Installation Unit :=
  .perform fun s =>
    let (bytes, raised) := written host .copyLlbc (host.copied .llbc)
    leaving (.llbc, .staged) (bytes.map (.file 1), raised) s

def backup : Path :=
  host.root ++ ["proof", "lean", "generated", ".rust-install-" ++ host.backupSuffix]

def stage : Installation Unit := do
  orFail (host.fault .stagedDirectory) (leaving (.model, .staged) (some (.directory []), none))
  writeStaged host .copyModel MODEL_FILE (host.copied .model)
  writeStaged host .copyToolchain "lean-toolchain" host.toolchainFile
  writeStaged host .writeLakefile "lakefile.toml"
    (.ok (lakefileText host.supportHome).toUTF8.toList)
  writeStaged host .writeBaseline "SOURCE_BASELINE.json" (.ok host.baseline)
  writeStaged host .writeToolchain "TOOLCHAIN.txt" (.ok toolchainText.toUTF8.toList)
  copyStagedLlbc host
  -- the run has just made the staged directory itself
  let _ ← .check fun s =>
    regularTree .full (backup host ++ ["staged"]) (s.disk (.model, .staged))
  pure ()

/-! ## The exchange -/

def save (point : Point) : Installation Unit := orFail (host.fault point) untouched

def saveOld (artifact : Artifact) : Installation Unit :=
  moveAside (host.fault (.moveOld artifact)) (host.fault (.saveOld artifact)) (artifact, .own)
    (artifact, .previous)
    fun record => { record with oldSaved := Function.update record.oldSaved artifact true }

def installNew (artifact : Artifact) : Installation Unit := do
  orFail (host.fault (.moveNew artifact)) (renameSlot (artifact, .staged) (artifact, .own))
  setVars fun record =>
    { record with newInstalled := Function.update record.newInstalled artifact true }
  save host (.saveNew artifact)

/-- The bytes of an installed output that are hashed. -/
def installedBytes (artifact : Artifact) (entry : Option Entry) : Except Exn (List UInt8) :=
  match artifact with
  | .model => Entry.readChild MODEL_FILE entry
  | .llbc => Entry.readBytes entry

/-- Whether an installed output has the digest of the provenance. -/
def hashMatches (artifact : Artifact) (s : State) : Except Exn Bool := do
  if let some e := host.fault (.hash artifact) then throw e
  let bytes ← installedBytes artifact (s.disk (artifact, .own))
  pure (host.sha256 bytes = provenance.digest artifact)

def checkInstalled : Installation Unit :=
  .check fun s => do
    let same ← if ← hashMatches host provenance .model s then hashMatches host provenance .llbc s
      else pure false
    require same "installed model pair differs"

/-- The body of the `try` statement. -/
def body : Installation Record := do
  saveOld host .model
  saveOld host .llbc
  installNew host .model
  installNew host .llbc
  checkInstalled host provenance
  setVars fun record => { record with status := "installed" }
  save host .saveInstalled
  let s ← .get
  pure s.vars

def undoNew (artifact : Artifact) : Installation Unit := do
  let s ← .get
  if s.vars.newInstalled artifact then .perform (renameSlot (artifact, .own) (artifact, .failed))
  else pure ()

def restoreOld (artifact : Artifact) : Installation Unit := do
  let s ← .get
  if s.vars.oldSaved artifact then .perform (renameSlot (artifact, .previous) (artifact, .own))
  else pure ()

/-- The handler of the `try` statement. -/
def handler (error : Exn) : Installation Record := do
  undoNew .llbc
  undoNew .model
  restoreOld .llbc
  restoreOld .model
  setVars fun record => { record with status := "failed-restored", error := some error }
  save host .saveFailed
  .raise error

/-! ## Checks -/

def destination : Path := host.root ++ ["proof", "lean", "generated", "rust"]

def target : Path := host.root ++ ["target", "CkbVmProduction.llbc"]

def checkPaths : Installation Unit := do
  .check fun _ => directoryPath host.paths host.root host.rootEntry
  .check fun s => directoryPath host.paths (destination host) (s.disk (.model, .own))
  .check fun _ => directoryPath host.paths (target host).dropLast host.targetParentEntry
  .check fun s =>
    let old := s.disk (.llbc, .own)
    require (!Entry.isSymlink old && (!Entry.pathExists old || Entry.isFile old))
      "unsafe old LLBC target"

def checkNew : Installation Unit :=
  .check fun _ => do
    let model ← host.hashed .model
    let same ← if host.sha256 model = provenance.generatedLeanSha256 then do
        let llbc ← host.hashed .llbc
        pure (decide (host.sha256 llbc = provenance.llbcSha256))
      else pure false
    require same "new model pair differs from provenance"

def newRecord : Record where
  status := "running"
  destination := (destination host).display
  llbc := (target host).display
  backup := (backup host).display
  oldSaved := fun _ => false
  newInstalled := fun _ => false
  policyChanged := false
  error := none

def install : Installation Record := do
  checkPaths host
  checkNew host provenance
  orFail (host.fault .destinationParent) untouched
  orFail (host.fault .targetParent) untouched
  orFail (host.fault .backup) untouched
  stage host
  save host .firstSave
  .handle (body host provenance) (handler host)

/-- The two outputs as they are found, and no backup directory. -/
def initialState (oldModel : Option (List (Path × Node))) (oldLlbc : Option Entry) : State where
  disk
    | (.model, .own) => oldModel.map .directory
    | (.llbc, .own) => oldLlbc
    | _ => none
  vars := newRecord host

end Install

end CkbSail.Scripts.GenerateRebuiltRust
