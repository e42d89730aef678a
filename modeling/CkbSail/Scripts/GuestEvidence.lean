import CkbSail.Scripts.WritePass
import Mathlib

/-!
# The evidence that a guest hands back

The guest of the clean room writes an archive to its evidence disk.  The launcher
takes the members below three prefixes and writes each to a place below the candidate
checkout or below its own directory for the guest's files.
-/

namespace CkbSail.Scripts.GuestEvidence

open PythonStd ProofSupport ReleaseCommon
open SailModelTransaction (require)

/-! ## Where evidence comes from -/

/-- `CANONICAL.relative_to("/").as_posix()`. -/
def CANONICAL : String := "home/clair/tinyueng_workplace/ckb-vm-sail-verify"

/-- `CANONICAL.parent.relative_to("/").as_posix()`. -/
def WORKPLACE : String := "home/clair/tinyueng_workplace"

/-- `GUEST_RUN.relative_to("/").as_posix()`. -/
def GUEST_RUN : String := "home/clair/clean-room-run"

/-- `CLEAN_ROOM_OUT.rsplit("/", 1)`. -/
def BOUNDARY_CHECK : String := "artifacts/boundary-check"

def CLEAN_ROOM : String := "clean-room"

def CLEAN_ROOM_OUT : String := BOUNDARY_CHECK ++ "/" ++ CLEAN_ROOM

def DIAGNOSTIC_SUFFIXES : List String := [".json", ".log", ".stdout", ".stderr", ".txt"]

def RESTORED_ROOT_PREFIXES : List String := ["isolated-", "aeneas-opam-"]

def EXCLUDED_EVIDENCE_PARTS : List String :=
  ["fixed-inputs", "cargo-target", "rust-tests-cargo-home", "runtime-cargo-home"]

def boundary : String := CANONICAL ++ "/" ++ BOUNDARY_CHECK ++ "/"

def run : String := GUEST_RUN ++ "/"

def checkoutLogs : String := WORKPLACE ++ "/clean-room-checkout-"

/-- `name[len(start):] if name.startswith(start)`. -/
def behind? (start name : String) : Option String :=
  (name.toList.dropPrefix? start.toList).map String.ofList

/-- `name.startswith(starts)`. -/
def startsWithAny (starts : List String) (name : String) : Bool :=
  starts.any fun start => start.toList.isPrefixOf name.toList

/-- `name.endswith(ends)`. -/
def endsWithAny (ends : List String) (name : String) : Bool :=
  ends.any fun ending => ending.toList.isSuffixOf name.toList

/-! ## Where it goes -/

/-- The two directories that evidence is written below. -/
inductive Root where
  | evidence
  | guest
deriving DecidableEq, Repr

/-- A path below one of the directories. -/
structure Target where
  root : Root
  relative : String
deriving DecidableEq, Repr

/-- A member below the boundary-check directory of the checkout. -/
def locateEvidence (name rest : String) : Except Exn (Option Target) := do
  let excluded := (split name).any EXCLUDED_EVIDENCE_PARTS.contains
  let top := (split rest).headD ""
  require (!startsWithAny RESTORED_ROOT_PREFIXES top)
    ("guest evidence member inside a restored installation root: " ++ name)
  if top = CLEAN_ROOM then
    require (!excluded) ("downloaded inputs and build caches are not evidence: " ++ name)
    pure (some ⟨.evidence, BOUNDARY_CHECK ++ "/" ++ rest⟩)
  else
    require (endsWithAny DIAGNOSTIC_SUFFIXES name)
      ("guest evidence member outside allowed prefixes: " ++ name)
    pure (if excluded then none else some ⟨.evidence, BOUNDARY_CHECK ++ "/" ++ rest⟩)

/-- The target of a file, unless it is left out. -/
def locate (name : String) : Except Exn (Option Target) :=
  match behind? boundary name, behind? run name, behind? checkoutLogs name with
  | some rest, _, _ => locateEvidence name rest
  | none, some rest, _ => .ok (some ⟨.guest, rest⟩)
  | none, none, some rest => .ok (some ⟨.guest, "checkout-logs/" ++ rest⟩)
  | none, none, none =>
      .error (.runtimeError ("guest evidence member outside allowed prefixes: " ++ name))

/-- The checks of one member, up to the duplicates. -/
def targetOf (item : Member) : Except Exn (Option Target) := do
  require (!isAbsolute item.name &&
      (split item.name).all fun part => part ≠ "" && part ≠ "." && part ≠ "..")
    ("unsafe guest evidence member: " ++ item.name)
  require (item.type = .regular || item.type = .directory)
    ("special/link guest evidence member: " ++ item.name)
  if item.type = .directory then pure none else locate item.name

/-- A dictionary from the names of members to their targets. -/
abbrev Targets := List (String × Target)

def keep (item : Member) (kept : Targets) : Except Exn Targets := do
  match ← targetOf item with
  | none => pure kept
  | some target =>
      require (!(kept.map Prod.fst).contains item.name) "duplicate guest evidence member"
      pure (kept ++ [(item.name, target)])

/-- The loop, which reads the headers only. -/
def keepAll (stop : Option Exn) : List Member → Targets → Except Exn Targets
  | [], kept =>
      match stop with
      | some e => .error e
      | none => .ok kept
  | item :: items, kept => do
      let kept ← keep item kept
      keepAll stop items kept

def evidenceMembers (archive : Archive) : FileProgram Targets := do
  openArchive archive
  let members ← .check fun _ => keepAll archive.stop archive.members []
  .check fun _ => require (!members.isEmpty) "empty guest evidence archive"
  pure members

/-! ## Extraction -/

section Extract

variable (host : FileHost) (evidenceRoot hostDir : Path)

def base : Root → Path
  | .evidence => evidenceRoot
  | .guest => hostDir ++ ["guest"]

def Target.path (target : Target) : Path :=
  base evidenceRoot hostDir target.root ++ parts target.relative

def admitTargets : Targets → FileProgram Unit
  | [] => pure ()
  | (_, target) :: rest => do
      let path := target.path evidenceRoot hostDir
      let refused := .raise (.runtimeError
        ("extraction target occupied/linked: " ++ Path.display path))
      if ← occupied path then refused
      else if ← anyLink (parentsBelow (base evidenceRoot hostDir target.root) path) then refused
      else admitTargets rest

/-- The members that have a target, each with its path. -/
def jobs (targets : Targets) (members : List Member) : List (Path × Member) :=
  members.filterMap fun item =>
    (targets.lookup item.name).map fun target => (target.path evidenceRoot hostDir, item)

def extractEvidence (archive : Archive) : FileProgram (List String) := do
  let targets ← evidenceMembers archive
  admitTargets evidenceRoot hostDir targets
  if ← occupied (evidenceRoot ++ parts CLEAN_ROOM_OUT) then
    .raise (.runtimeError "clean-room output already exists in evidence root")
  else
    openArchive archive
    writeMembers host "unreadable guest evidence member"
      (jobs evidenceRoot hostDir targets archive.members)
    pure ((targets.map Prod.fst).mergeSort fun name name' => decide (name ≤ name'))

end Extract

end CkbSail.Scripts.GuestEvidence
