import CkbSail.Scripts.WritePass

/-!
# Evidence bundles

`pack` archives the evidence tree of a clean-room run without fixed inputs and
build caches, and `extract` writes a bundle into another checkout.
-/

namespace CkbSail.Scripts.EvidenceBundle

open PythonStd ProofSupport ReleaseCommon
open SailModelTransaction (require)

def CLEAN : String := "artifacts/boundary-check/clean-room"

def EXCLUDED : List String :=
  ["fixed-inputs", "cargo-target", "rust-tests-cargo-home", "runtime-cargo-home"]

def VM_RECORD : String := "vm-provenance.json"

def safeMember (name : String) : Except Exn String := do
  let _ ← safeName name
  require ((CLEAN ++ "/").toList.isPrefixOf name.toList)
    ("member outside the clean-room evidence prefix: " ++ name)
  require (!(split name).any EXCLUDED.contains) ("excluded member: " ++ name)
  pure name

/-! ## Packing -/

/-- What the user who packs may do with a directory: list its names, and look at what
they name. -/
structure Rights where
  lists : Bool
  enters : Bool

/-- The entries of a directory: each with its name, and those after it.  A link leads
to a directory or not; a file can be read. -/
inductive Entries where
  | nil
  | file (name : String) (mode : Nat) (bytes : List UInt8) (rest : Entries)
  | link (name : String) (toDirectory : Bool) (rest : Entries)
  | special (name : String) (rest : Entries)
  | directory (name : String) (rights : Rights) (entries rest : Entries)

/-- `any((directory / name).is_symlink() for name in names)`, without the excluded names. -/
def Entries.anyLinkedDirectory : Entries → Bool
  | nil => false
  | file _ _ _ rest => rest.anyLinkedDirectory
  | link name toDirectory rest =>
      (toDirectory && !EXCLUDED.contains name) || rest.anyLinkedDirectory
  | special _ rest => rest.anyLinkedDirectory
  | directory _ _ _ rest => rest.anyLinkedDirectory

/-- Whether one step of the walk looks at an entry: it does at all but the excluded
directories. -/
def Entries.anyLookedAt : Entries → Bool
  | nil => false
  | file .. => true
  | link .. => true
  | special .. => true
  | directory name _ _ rest => !EXCLUDED.contains name || rest.anyLookedAt

/-- A checkout as packing finds it: whether a link is on the way to the evidence
directory, and what is in that directory, if it is one itself. -/
structure Checkout where
  root : Path
  linkedAbove : Bool
  clean : Option (Rights × Entries)

def Checkout.display (checkout : Checkout) (path : Path) : String :=
  Path.display (checkout.root ++ parts CLEAN ++ path)

/-- The name of a file below the evidence directory. -/
def memberName (path : Path) : String := join (parts CLEAN ++ path)

def Checkout.source (checkout : Checkout) (path : Path) (mode : Nat) (bytes : List UInt8) :
    Source where
  path := checkout.display path
  linked := checkout.linkedAbove
  isFile := true
  mode := mode
  bytes := bytes
  mtime := 0
  uid := 0
  gid := 0
  uname := ""
  gname := ""

/-- The loop over the file names of one directory. -/
def ownFiles (checkout : Checkout) (place : Path) :
    Entries → Except Exn (List (String × Source))
  | .nil => .ok []
  | .file name mode bytes rest => do
      let path := place ++ [name]
      require (mode &&& 0o7000 = 0) ("special evidence mode: " ++ checkout.display path)
      let member ← safeMember (memberName path)
      let files ← ownFiles checkout place rest
      pure ((member, checkout.source path mode bytes) :: files)
  | .link name toDirectory rest => do
      if toDirectory then ownFiles checkout place rest
      else .error (.runtimeError ("special/link evidence file: " ++
        checkout.display (place ++ [name])))
  | .special name _ =>
      .error (.runtimeError ("special/link evidence file: " ++ checkout.display (place ++ [name])))
  | .directory _ _ _ rest => ownFiles checkout place rest

/-- One step of the walk, in a directory that is listed. -/
def visit (checkout : Checkout) (place : Path) (rights : Rights) (entries : Entries) :
    Except Exn (List (String × Source)) := do
  if !rights.enters && entries.anyLookedAt then
    .error ⟨"PermissionError", "Permission denied"⟩
  else
    require (!entries.anyLinkedDirectory) "linked evidence directory"
    ownFiles checkout place entries

/-- The walk through the directories of a directory.  `os.walk` passes over a directory
that it cannot list. -/
def below (checkout : Checkout) (place : Path) : Entries → Except Exn (List (String × Source))
  | .nil => .ok []
  | .file _ _ _ rest => below checkout place rest
  | .link _ _ rest => below checkout place rest
  | .special _ rest => below checkout place rest
  | .directory name rights entries rest => do
      if EXCLUDED.contains name || !rights.lists then below checkout place rest
      else
        let own ← visit checkout (place ++ [name]) rights entries
        let inner ← below checkout (place ++ [name]) entries
        let others ← below checkout place rest
        pure (own ++ inner ++ others)

/-- `os.walk` from the evidence directory. -/
def osWalk (checkout : Checkout) (rights : Rights) (entries : Entries) :
    Except Exn (List (String × Source)) := do
  if rights.lists then
    let own ← visit checkout [] rights entries
    let inner ← below checkout [] entries
    pure (own ++ inner)
  else .ok []

def treeFiles (checkout : Checkout) : Except Exn (List (String × Source)) := do
  match checkout.clean with
  | none => .error (.runtimeError "clean-room evidence directory missing")
  | some (rights, entries) =>
      let files ← osWalk checkout rights entries
      require ((files.lookup (CLEAN ++ "/report.json")).isSome &&
          (files.lookup (CLEAN ++ "/" ++ VM_RECORD)).isSome)
        "evidence tree lacks the clean-room report or its VM provenance record"
      pure files

/-- A bundle, with the digest of its bytes. -/
structure Bundle where
  archive : Archive
  sha256 : String

structure Packed where
  bundle : Bundle
  members : Nat
  cleanRoomReportSha256 : String
  vmProvenanceSha256 : String

section Pack

variable (sha256 : List UInt8 → String) (archiveSha256 : List Member → String)

def shaOf (files : List (String × Source)) (name : String) : Except Exn String :=
  match files.lookup name with
  | some source => .ok (sha256 source.bytes)
  | none => .error ⟨"KeyError", repr name⟩

def pack (checkout : Checkout) (out : String) (outOccupied : Bool) : Except Exn Packed := do
  let files ← treeFiles checkout
  require (!outOccupied) ("archive output occupied: " ++ out)
  let members ← writeTarGz files [] []
  let report ← shaOf sha256 files (CLEAN ++ "/report.json")
  let record ← shaOf sha256 files (CLEAN ++ "/" ++ VM_RECORD)
  pure ⟨⟨stored members, archiveSha256 members⟩, files.length, report, record⟩

end Pack

/-! ## Extraction -/

/-- `SHA256.fullmatch(value)`. -/
def isDigest (text : String) : Bool :=
  text.toList.length = 64 && text.toList.all fun c => ('0' ≤ c && c ≤ '9') || ('a' ≤ c && c ≤ 'f')

section Extract

variable (host : FileHost) (destination : Path)

def target (name : String) : Path := destination ++ parts name

/-- The checks of one member. -/
def admitMember (item : Member) (targets : List String) : FileProgram (List String) := do
  let name ← .check fun _ => safeMember item.name
  .check fun _ => require (item.type = .regular && item.linkname = "")
    ("special/link bundle member: " ++ name)
  .check fun _ => require (!targets.contains name) "duplicate bundle member"
  let path := target destination name
  if ← occupied path then .raise (.runtimeError ("bundle target occupied: " ++ name))
  else if ← anyLink (parentsBelow destination path) then
    .raise (.runtimeError "linked bundle target ancestor")
  else pure (name :: targets)

/-- The first loop, which reads the headers only. -/
def admitMembers (stop : Option Exn) : List Member → List String → FileProgram (List String)
  | [], targets =>
      match stop with
      | some e => .raise e
      | none => pure targets
  | item :: items, targets => do
      let targets ← admitMember destination item targets
      admitMembers stop items targets

def extract (bundle : Bundle) (expected : String) : FileProgram (List String) := do
  .check fun _ => require (isDigest expected) "expected bundle SHA-256"
  .check fun _ => require (bundle.sha256 = expected) "bundle SHA-256 differs"
  openArchive bundle.archive
  let targets ← admitMembers destination bundle.archive.stop bundle.archive.members []
  .check fun _ => require (targets.contains (CLEAN ++ "/report.json") &&
      targets.contains (CLEAN ++ "/" ++ VM_RECORD))
    "bundle lacks the clean-room report or its VM provenance record"
  openArchive bundle.archive
  writeMembers host "unreadable bundle member"
    (bundle.archive.members.map fun item => (target destination item.name, item))
  .check fun _ => require (bundle.sha256 = expected) "bundle changed during extraction"
  pure (targets.mergeSort fun name name' => decide (name ≤ name'))

end Extract

end CkbSail.Scripts.EvidenceBundle
