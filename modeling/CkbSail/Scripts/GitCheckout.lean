import CkbSail.PythonStd.Ops
import CkbSail.PythonStd.WorkTree

/-!
# What git says about a checkout

A checkout is one working tree with a repository at its root and one at each submodule.
`ls-tree` lists HEAD, `ls-files` the index and the untracked files that are not ignored;
`status` compares HEAD, the index and the working tree.
-/

namespace CkbSail.Scripts.GitCheckout

open PythonStd

/-- A row of `ls-tree -rz HEAD`, or of the index.  Names are UTF-8 text. -/
structure GitRow where
  mode : String
  kind : String
  oid : String
  name : String
deriving DecidableEq, Repr

/-- What git holds about a repository: HEAD, the index, the other repositories in its
working tree, the rules for ignored files beside the `.gitignore` files, and whether it
borrows or shares objects. -/
structure Repository where
  head : String
  tree : List GitRow
  index : List GitRow
  nested : List Path
  excludes : String
  alternates : Bool
  sharedObjects : Bool

/-- The working tree is without the `.git` directories. -/
structure Checkout where
  rows : WorkRows
  outside : Outside
  repository : String → Repository

/-- Digests, JSON texts, git's rules for ignored files and for patches, and the mode of new
files.  Which files are ignored depends on the files that are there; git and the host
do what they are asked to. -/
structure Tools where
  sha1 : List UInt8 → String
  sha256 : List UInt8 → String
  /-- `json.dumps(value, sort_keys=True, separators=(",", ":")).encode()` -/
  canonical : Json → List UInt8
  loads : List UInt8 → Py Json
  ignores : String → (Path → Option (List UInt8)) → Path → Bool
  /-- `git apply --reverse --check` -/
  reverseApplies : WorkView → List UInt8 → Bool
  newMode : Nat

/-- Where a repository stands in the checkout. -/
def baseOf (repository : String) : Path := parts repository

/-- The regular files of a tree. -/
def filesIn (tree : WorkView) (path : Path) : Option (List UInt8) :=
  match tree path with
  | some (.file _ bytes) => some bytes
  | _ => none

/-- The id of a blob. -/
def blobId (tools : Tools) (bytes : List UInt8) : String :=
  tools.sha1 ((s!"blob {bytes.length}").toUTF8.toList ++ 0 :: bytes)

section Queries

variable (tools : Tools) (repository : Repository) (rows : WorkRows)

def ignored (path : Path) : Bool :=
  tools.ignores repository.excludes (filesIn rows.view) path

def indexed (name : String) : Bool := repository.index.any fun row => row.name = name

/-- A file or a link that belongs to the repository and is neither tracked nor ignored. -/
def untracked (row : Path × WorkNode) : Bool :=
  (row.2.isFileOrLink && !repository.nested.any fun place => place.isPrefixOf row.1) &&
    (!ignored tools repository rows row.1 && !indexed repository (join row.1))

/-- `git ls-files --others --exclude-standard`: another repository is one name. -/
def others : List String :=
  (rows.filter (untracked tools repository rows)).map (fun row => join row.1) ++
    (repository.nested.filter fun place =>
      !ignored tools repository rows place && !indexed repository (join place)).map
        fun place => join place ++ "/"

/-- `git ls-files --cached --others --exclude-standard`. -/
def lsFiles : List String := repository.index.map GitRow.name ++ others tools repository rows

/-- The working tree holds what a row says.  Submodules are not looked at. -/
def unchanged (row : GitRow) : Bool :=
  row.kind = "commit" ||
    match rows.view (split row.name) with
    | some (.file mode bytes) =>
        row.mode = (if mode &&& 0o100 = 0 then "100644" else "100755") &&
          row.oid = blobId tools bytes
    | some (.symlink target) => row.mode = "120000" && row.oid = blobId tools target.toUTF8.toList
    | _ => false

/-- `git status --porcelain --untracked-files=all --ignore-submodules=all` has no line. -/
def clean : Bool :=
  repository.index = repository.tree && repository.tree.all (unchanged tools rows) &&
    (others tools repository rows).isEmpty

end Queries

end CkbSail.Scripts.GitCheckout
