import CkbSail.PythonStd.Ops
import CkbSail.PythonStd.PathOrder
import CkbSail.Scripts.SailModelTransaction

/-!
# The later check of a published generation

`generationEvidence` reopens the transaction that the log of the generation
stage names, and inventories the published tree in the order of its paths.
-/

namespace CkbSail.Scripts.RocqContext

open PythonStd
open SailModelTransaction (Record)

/-! ## The record -/

def namesJson (names : List String) : Json := .arr (names.map .str)

/-- What `json.loads` makes of a dumped record.  The keys that the record has only
from some point on are there exactly then. -/
def recordJson (record : Record) : Json :=
  .obj ([("status", .str record.status), ("source", .str record.source),
      ("destination", .str record.destination),
      ("generation_backup", .str record.generationBackup),
      ("installation_backup", .str record.installationBackup),
      ("old_source_saved", .bool record.oldSourceSaved),
      ("old_destination_saved", .bool record.oldDestinationSaved),
      ("published", .bool record.published), ("policy_changed", .bool record.policyChanged)] ++
    (record.rawFiles.map fun names => ("raw_files", namesJson names)).toList ++
    (record.installedFiles.map fun names => ("installed_files", namesJson names)).toList ++
    (record.error.toList.flatMap fun e =>
      [("error", Json.str e.text), ("error_type", Json.str e.typeName)]) ++
    (if record.destinationRestored then [("destination_restored", .bool true)] else []) ++
    (if record.sourceRestored then [("source_restored", .bool true)] else []))

/-! ## The check -/

/-- `path` as `PurePosixPath` reads it: the slashes it starts with and its components. -/
def anchor (name : String) : String :=
  match name.toList with
  | '/' :: '/' :: '/' :: _ => "/"
  | '/' :: '/' :: _ => "//"
  | '/' :: _ => "/"
  | _ => ""

/-- `Path(value)`. -/
def pathOf : Json → Py (String × Path)
  | .str name => .ok (anchor name, parts name)
  | _ => .error .typeError

/-- A line of the stage log: `SAIL_INSTALL_JSON=` and what `json.loads` makes of
the rest, or another text. -/
inductive LogLine where
  | transaction (value : Json)
  | other

def LogLine.value? : LogLine → Option Json
  | .transaction value => some value
  | .other => none

/-- What the check finds: the log, the saved transaction and the published tree, with
what the user who checks may do below the destination. -/
structure Host where
  root : Path
  logIsItself : Bool
  logSha : Py String
  logLines : List LogLine
  transactionIsItself : Path → Bool
  transactionJson : Path → Py Json
  transactionSha : Path → Py String
  destinationEntry : Option Entry
  access : Access
  sha256 : List UInt8 → String

structure Evidence where
  transaction : String
  transactionSha256 : String
  installedFilesSha256 : List (String × String)
deriving DecidableEq, Repr

/-- The row of a generation stage that completed. -/
def completed (root : Path) (row : Json) : Py Bool := do
  let name ← row.getItem "name"
  if !name.eq (.str "sail-generate") then pure false
  else
    let command ← row.getItem "command"
    if !command.eq (.arr [.str "bash", .str "scripts/generate_proof_model.sh", .str "rocq"]) then
      pure false
    else
      let cwd ← row.getItem "cwd"
      if !cwd.eq (.str root.display) then pure false
      else
        let status ← row.getItem "status"
        if !status.eq (.str "passed") then pure false
        else
          let exitCode ← row.getItem "exit_code"
          if !(exitCode.isInt && exitCode.eq (.int 0)) then pure false
          else
            let log ← row.getItem "log"
            pure (log.eq (.str "sail-generate.log"))

def sourceOf (root : Path) : Path := root ++ ["deps", "sail-riscv", "build", "rocq"]

def destinationOf (root : Path) : Path := root ++ ["proof", "rocq", "generated", "sail"]

def logDrift (host : Host) (row : Json) : Py Bool :=
  if host.logIsItself then do
    let now ← host.logSha
    let recorded ← row.getItem "log_sha256"
    pure (recorded.eq (.str now))
  else pure false

/-- The record is that of a publication to the destination. -/
def rightTransaction (root : Path) (record : Json) (backup : String × Path) : Py Bool := do
  let source ← record.getItem "source"
  if !source.eq (.str (sourceOf root).display) then pure false
  else
    let destination ← record.getItem "destination"
    if !destination.eq (.str (destinationOf root).display) then pure false
    else
      let status ← record.getItem "status"
      if !status.eq (.str "installed") then pure false
      else
        let published ← record.getItem "published"
        if !published.isBool true then pure false
        else
          let changed ← record.getItem "policy_changed"
          pure (changed.isBool false && backup.1 = "/" &&
            backup.2.dropLast = (destinationOf root).dropLast &&
            ".sail-install-".toList.isPrefixOf (backup.2.getLastD "").toList)

def matchesLog (host : Host) (transaction : Path) (record : Json) : Py Bool :=
  if host.transactionIsItself transaction then do
    let value ← host.transactionJson transaction
    pure (value.eq record)
  else pure false

section Inventory

variable (access : Access) (sha256 : List UInt8 → String)

/-- The loop over the sorted descendants. -/
def inventory : List (Path × Node) → Py (List (String × String))
  | [] => .ok []
  | (path, node) :: rows =>
      if access.reaches path then
        match node with
        | .symlink _ => .error (.runtimeError "linked Sail Rocq output")
        | .directory => inventory rows
        | .file links bytes => do
            require (links = 1) "nonregular/shared Sail Rocq output"
            if access.reads path then
              let rest ← inventory rows
              pure ((slashed path, sha256 bytes) :: rest)
            else .error .permissionError
        | .special => .error (.runtimeError "nonregular/shared Sail Rocq output")
      else .error .permissionError

/-- All that is below an entry. -/
def contentsOf : Option Entry → List (Path × Node)
  | some (.directory contents) => contents
  | _ => []

/-- `destination.rglob("*")`. -/
def descendants (entry : Option Entry) : List (Path × Node) := access.seen (contentsOf entry)

end Inventory

/-- `sorted` of paths, which compares their components. -/
def sortedPaths (contents : List (Path × Node)) : List (Path × Node) :=
  contents.mergeSort fun left right => left.1 ≤ right.1

def generationEvidence (host : Host) (report : Json) : Py Evidence := do
  let stages ← report.getItem "stages"
  let row ← stages.getAt 0
  requirePy (completed host.root row) "fresh Sail Rocq generation not completed"
  requirePy (logDrift host row) "Sail Rocq generation log drift"
  let records := host.logLines.filterMap LogLine.value?
  match records with
  | [record] => do
      let backupName ← record.getItem "installation_backup"
      let backup ← pathOf backupName
      requirePy (rightTransaction host.root record backup) "wrong Sail Rocq transaction"
      let transaction := backup.2 ++ ["transaction.json"]
      requirePy (matchesLog host transaction record) "Sail transaction/log mismatch"
      let files ← inventory host.access host.sha256
        (sortedPaths (descendants host.access host.destinationEntry))
      let recorded ← record.getItem "installed_files"
      require ((Json.arr (files.map fun file => .str file.1)).eq recorded &&
          ["rv64d.v", "rv64d_types.v"].all fun name => files.any fun file => file.1 = name)
        "Sail Rocq file inventory drift"
      let digest ← host.transactionSha transaction
      pure ⟨transaction.display, digest, files⟩
  | _ => .error (.runtimeError "missing/duplicate Sail Rocq generation transaction")

end CkbSail.Scripts.RocqContext
