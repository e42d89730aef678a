import CkbSail.Scripts.CkbSourceBaseline

/-!
# Source snapshots

A snapshot inventories the tracked and the untracked files of a checkout beside their
changes from HEAD.  `exportFiles` copies the files to a payload, `restore` lays a payload over
clean clones and captures them again.
-/

namespace CkbSail.Scripts.SourceSnapshot

open PythonStd GitCheckout
open CkbSourceBaseline (modeText sortedNames)
open FixedInputs (Stage StageError raised)

def REPOS : List String := [".", "deps/ckb-vm", "deps/sail-riscv"]

def IDENTITY_KIND : String := "HEAD-plus-byte-inventoried-working-tree-not-a-commit"

def lifted {α : Type} : Except Exn α → Stage α
  | .ok a => .ok a
  | .error e => .error (.os e)

/-! ## Files -/

def safe (name : String) : Py String := do
  require (name ≠ "" && !isAbsolute name &&
    (split name).all fun part => !(["", ".", "..", ".git"].contains part)) "unsafe source path"
  pure name

/-- What `regular` finds: the mode and the bytes of the file.  No link stands before the
place that is looked at. -/
def regular (rows : WorkRows) (base : Path) (name : String) : Stage (Nat × List UInt8) := do
  let name ← raised (safe name)
  let fronts := (split name).inits.tail
  raised (require (!fronts.any fun front => WorkNode.isLink (rows.view (base ++ front)))
    ("source symlink: " ++ name))
  match rows.view (base ++ split name) with
  | some (.file mode bytes) => pure (mode, bytes)
  | _ => .error (.python (.runtimeError ("missing/non-regular source: " ++ name)))

structure BlobRow where
  mode : String
  gitBlob : String
deriving DecidableEq, Repr

def BlobRow.toJson (row : BlobRow) : Json :=
  .obj [("mode", .str row.mode), ("git_blob", .str row.gitBlob)]

structure FileRow where
  mode : String
  sha256 : String
  size : Nat
deriving DecidableEq, Repr

def FileRow.toJson (row : FileRow) : Json :=
  .obj [("mode", .str row.mode), ("sha256", .str row.sha256), ("size", .int row.size)]

structure Change where
  operation : String
  before : Option BlobRow
  after : Option FileRow
deriving DecidableEq, Repr

def Change.toJson (change : Change) : Json :=
  .obj [("operation", .str change.operation),
    ("before", (change.before.map BlobRow.toJson).getD .null),
    ("after", (change.after.map FileRow.toJson).getD .null)]

def isGitlink (row : GitRow) : Bool := row.mode = "160000" && row.kind = "commit"

/-- The blobs and the submodules of HEAD; each name is there once. -/
def entries : List GitRow → Py (List (String × BlobRow) × List (String × String))
  | [] => .ok ([], [])
  | row :: rows => do
      let name ← safe row.name
      if isGitlink row then
        let (blobs, links) ← entries rows
        pure (blobs, (name, row.oid) :: links)
      else
        require (row.kind = "blob" && (row.mode = "100644" || row.mode = "100755"))
          "unsupported Git source entry"
        let (blobs, links) ← entries rows
        pure ((name, ⟨row.mode, row.oid⟩) :: blobs, links)

/-! ## Inventories -/

structure Inventory where
  head : String
  gitlinks : List (String × String)
  files : List (String × FileRow)
  changesFromHead : List (String × Change)
deriving DecidableEq, Repr

def Inventory.toJson (inventory : Inventory) : Json :=
  .obj [("head", .str inventory.head),
    ("gitlinks", .obj (inventory.gitlinks.map fun link => (link.1, .str link.2))),
    ("files", .obj (inventory.files.map fun file => (file.1, file.2.toJson))),
    ("changes_from_head",
      .obj (inventory.changesFromHead.map fun change => (change.1, change.2.toJson)))]

/-- A file that is there, with the id git would give it. -/
structure Measured where
  name : String
  row : FileRow
  gitBlob : String
deriving DecidableEq, Repr

section Capture

variable (tools : Tools) (checkout : Checkout)

def measure (name : String) (mode : Nat) (bytes : List UInt8) : Measured where
  name := name
  row := ⟨modeText mode, tools.sha256 bytes, bytes.length⟩
  gitBlob := blobId tools bytes

/-- One pass of the loop over the listed names. -/
def measureFile (base : Path) (original : List (String × BlobRow)) (name : String) :
    Stage (Option Measured) := do
  let name ← raised (safe name)
  let path := base ++ parts name
  let found := findNode checkout.rows.view checkout.outside
  if (found true path).isNone && !WorkNode.isLink (found false path) then
    raised (require (original.lookup name).isSome "missing added source")
    pure none
  else
    let (mode, bytes) ← regular checkout.rows base name
    pure (some (measure tools name mode bytes))

def measureFiles (base : Path) (original : List (String × BlobRow)) :
    List String → Stage (List Measured)
  | [] => .ok []
  | name :: names => do
      let found ← measureFile tools checkout base original name
      let files ← measureFiles base original names
      pure (found.toList ++ files)

/-- The change of a file that is there. -/
def changeOf (original : List (String × BlobRow)) (file : Measured) : Option (String × Change) :=
  match original.lookup file.name with
  | none => some (file.name, ⟨"added", none, some file.row⟩)
  | some before =>
      if before = ⟨file.row.mode, file.gitBlob⟩ then none
      else some (file.name, ⟨"modified", some before, some file.row⟩)

def deletions (original : List (String × BlobRow)) (files : List Measured) :
    List (String × Change) :=
  (sortedNames ((original.map Prod.fst).filter fun name =>
    !(files.map Measured.name).contains name)).map fun name =>
      (name, ⟨"deleted", original.lookup name, none⟩)

/-- `inventory(root / repo)`. -/
def inventory (repo : String) : Stage Inventory := do
  let repository := checkout.repository repo
  let (original, links) ← raised (entries repository.tree)
  let listed := lsFiles tools repository (checkout.rows.below (baseOf repo))
  let paths := listed.dedup.filter fun name => !(links.map Prod.fst).contains name
  let files ← measureFiles tools checkout (baseOf repo) original (sortedNames paths)
  pure
    { head := repository.head
      gitlinks := links
      files := files.map fun file => (file.name, file.row)
      changesFromHead := files.filterMap (changeOf original) ++ deletions original files }

structure Snapshot where
  repositories : List (String × Inventory)
  ckbSourceBaseline : Json
  snapshotSha256 : String

/-- The snapshot without its digest. -/
def resultJson (repositories : List (String × Inventory)) (baseline : Json) : Json :=
  .obj [("schema_version", .int 1), ("identity_kind", .str IDENTITY_KIND),
    ("repositories", .obj (repositories.map fun repository =>
      (repository.1, repository.2.toJson))),
    ("ckb_source_baseline", baseline), ("ignored_build_and_evidence_files_included", .bool false),
    ("semantic_review_claimed", .bool false)]

/-- `==` of two snapshots. -/
def Snapshot.same (left right : Snapshot) : Bool :=
  left.repositories = right.repositories &&
    left.ckbSourceBaseline.eq right.ckbSourceBaseline &&
    left.snapshotSha256 = right.snapshotSha256

/-- The head of a submodule is the one that the root records. -/
def pinned (root : Inventory) (name : String) (info : Inventory) : Bool :=
  root.gitlinks.lookup name = some info.head && info.gitlinks.isEmpty

def capture : Stage Snapshot := do
  let root ← inventory tools checkout "."
  let ckb ← inventory tools checkout "deps/ckb-vm"
  let sail ← inventory tools checkout "deps/sail-riscv"
  let links := root.gitlinks.map Prod.fst
  raised (require (links.all REPOS.tail.contains && REPOS.tail.all links.contains)
    "unexpected project submodules")
  raised (require (pinned root "deps/ckb-vm" ckb && pinned root "deps/sail-riscv" sail)
    "submodule revision drift or unhandled nested submodule")
  raised (require sail.changesFromHead.isEmpty "unreviewed Sail source changes")
  let baseline ← CkbSourceBaseline.check tools checkout
  let repositories := [(".", root), ("deps/ckb-vm", ckb), ("deps/sail-riscv", sail)]
  pure
    { repositories := repositories
      ckbSourceBaseline := baseline
      snapshotSha256 := tools.sha256 (tools.canonical (resultJson repositories baseline)) }

end Capture

/-! ## Copies -/

/-- `int(mode, 8) & 0o777` of octal digits. -/
def permissions (mode : String) : Nat :=
  (mode.toList.foldl (fun value digit => 8 * value + (digit.toNat - '0'.toNat)) 0) &&& 0o777

/-- The parents of the target are made, and the bytes are copied with a mode. -/
def copyTo (tools : Tools) (target : Path) (mode : String) (bytes : List UInt8)
    (rows : WorkRows) : Stage WorkRows := do
  let rows ← lifted (rows.makeParents target.dropLast.inits)
  let rows ← lifted (rows.copyfile tools.newMode bytes target)
  lifted (rows.chmod target (permissions mode))

/-- A loop over names that changes a tree. -/
def overFiles {α : Type} (body : α → WorkRows → Stage WorkRows) :
    List α → WorkRows → Stage WorkRows
  | [], rows => .ok rows
  | file :: files, rows => do
      let rows ← body file rows
      overFiles body files rows

section Export

variable (tools : Tools) (checkout : Checkout)

def exportFile (base : Path) (file : String × FileRow) (payload : WorkRows) : Stage WorkRows := do
  let (_, bytes) ← regular checkout.rows base file.1
  let target := base ++ parts file.1
  let payload ← copyTo tools target file.2.mode bytes payload
  let copied ← lifted (WorkNode.readBytes (payload.view target))
  raised (require (tools.sha256 copied = file.2.sha256) "snapshot copy changed")
  pure payload

/-- `export` to a directory that is new and outside of the checkout. -/
def exportFiles (snapshot : Snapshot) : Stage WorkRows := do
  let now ← capture tools checkout
  raised (require (now.same snapshot) "source changed before snapshot export")
  let payload ← overFiles (fun repository =>
    overFiles (exportFile tools checkout (baseOf repository.1)) repository.2.files)
    snapshot.repositories [([], .directory)]
  let now ← capture tools checkout
  raised (require (now.same snapshot) "source changed during snapshot export")
  pure payload

end Export

section Restore

variable (tools : Tools) (clone : Checkout) (payload : WorkRows)

def independent (repository : Repository) : Py Unit := do
  require (!repository.alternates) "Git object alternates are not independent"
  require (!repository.sharedObjects) "shared/hardlinked Git objects"

def removeFile (base : Path) (name : String) (rows : WorkRows) : Stage WorkRows := do
  let _ ← regular rows base name
  pure (rows.unlink (base ++ split name))

def restoreFile (base : Path) (file : String × FileRow) (rows : WorkRows) : Stage WorkRows := do
  let (_, bytes) ← regular payload base file.1
  raised (require (tools.sha256 bytes = file.2.sha256 && bytes.length = file.2.size)
    "source payload hash/size differs")
  let name ← raised (safe file.1)
  raised (require (!(split name).inits.tail.any fun front =>
    WorkNode.isLink (rows.view (base ++ front))) "overlay target symlink")
  copyTo tools (base ++ parts name) file.2.mode bytes rows

/-- One pass of the loop over the repositories. -/
def restoreRepository (item : String × Inventory) (rows : WorkRows) : Stage WorkRows := do
  let repository := clone.repository item.1
  let base := baseOf item.1
  raised (independent repository)
  raised (require (repository.head = item.2.head) "wrong snapshot base")
  raised (require (clean tools repository (rows.below base)) "overlay destination already dirty")
  let (original, _) ← raised (entries repository.tree)
  -- a set in the source, whose order does not matter
  let removed := (original.map Prod.fst).filter fun name =>
    !(item.2.files.map Prod.fst).contains name
  let rows ← overFiles (removeFile base) removed rows
  overFiles (restoreFile tools payload base) item.2.files rows

def restore (snapshot : Snapshot) : Stage Checkout := do
  let rows ← overFiles (restoreRepository tools clone payload) snapshot.repositories clone.rows
  let restored := { clone with rows := rows }
  let now ← capture tools restored
  raised (require (now.same snapshot) "restored source tree differs from captured snapshot")
  pure restored

end Restore

end CkbSail.Scripts.SourceSnapshot
