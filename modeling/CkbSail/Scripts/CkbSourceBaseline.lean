import CkbSail.PythonStd.Dict
import CkbSail.Scripts.FixedInputs
import CkbSail.Scripts.GitCheckout
import Mathlib.Data.List.Sort

/-!
# The reviewed source baseline

`check` compares the manifest in the root with the upstream commit, the patch, the inputs
of the extraction and the source tree of the submodule.
-/

namespace CkbSail.Scripts.CkbSourceBaseline

open PythonStd GitCheckout
open FixedInputs (Stage StageError raised)

def MANIFEST : String := "proof/lean/extraction/ckb-source-baseline.json"

def REPOSITORY : String := "deps/ckb-vm"

def differs (label : String) : String :=
  label ++ " differs from reviewed CKB source baseline; review required"

/-- `require(actual, expected, label)`. -/
def requireSame (actual expected : Json) (label : String) : Py Unit :=
  require (actual.eq expected) (differs label)

/-- `sorted(names)`. -/
def sortedNames (names : List String) : List String := names.insertionSort (· ≤ ·)

theorem mem_sortedNames {names : List String} {name : String} :
    name ∈ sortedNames names ↔ name ∈ names :=
  List.mem_insertionSort _

/-- The mode of a file as git records it. -/
def modeText (mode : Nat) : String := if mode &&& 0o111 = 0 then "100644" else "100755"

section Tree

variable (tools : Tools) (checkout : Checkout)

/-- The row of a regular file of HEAD. -/
def upstreamName (row : GitRow) : Py String := do
  require (row.kind = "blob" && (row.mode = "100644" || row.mode = "100755"))
    ("unsupported source tree entry: " ++ row.name)
  pure row.name

/-- `entries[name] = ("100644", None)` for each added name, which has to be new. -/
def addNames : List Json → List String → Py (List String)
  | [], names => .ok names
  | .str name :: items, names => do
      require (!names.contains name) ("added path already exists upstream: " ++ name)
      addNames items (names ++ [name])
  -- the items are names that git lists
  | _ :: _, _ => .error .typeError

def hashRow (name : String) : Stage (String × Json) := do
  let path := baseOf REPOSITORY ++ parts name
  let found := findNode checkout.rows.view checkout.outside
  raised (require (!WorkNode.isLink (found false path) && WorkNode.isFile (found true path))
    ("missing or non-regular source: " ++ name))
  match found true path with
  | some (.file mode bytes) =>
      pure (name, .obj [("mode", .str (modeText mode)), ("sha256", .str (tools.sha256 bytes))])
  | _ => .error (.os .fileNotFound)

def hashRows : List String → Stage (List (String × Json))
  | [] => .ok []
  | name :: names => do
      let row ← hashRow tools checkout name
      let rows ← hashRows names
      pure (row :: rows)

/-- `tree(repo, added)`. -/
def tree (added : Json) : Stage String := do
  let repository := checkout.repository REPOSITORY
  let upstream ← raised (Py.collect upstreamName repository.tree)
  let listed := lsFiles tools repository (checkout.rows.below (baseOf REPOSITORY))
  raised (requirePy (added.setEq (listed.filter fun name => !upstream.contains name))
    (differs "additional source paths"))
  let items ← raised added.iter
  let names ← raised (addNames items upstream)
  let hashes ← hashRows tools checkout (sortedNames names)
  pure (tools.sha256 (tools.canonical (.obj hashes)))

end Tree

section Inputs

variable (tools : Tools) (root : WorkView) (outside : Outside)

/-- `(root / name).read_bytes()`. -/
def readBytes (name : String) : Stage (List UInt8) :=
  let node := if isAbsolute name then outside.stat name else findNode root outside true (parts name)
  match WorkNode.readBytes node with
  | .ok bytes => .ok bytes
  | .error e => .error (.os e)

/-- `root / value`. -/
def nameOf : Json → Py String
  | .str name => .ok name
  | _ => .error .typeError

def checkInput (input : String × Json) : Stage Unit := do
  let bytes ← readBytes root outside input.1
  raised (requireSame (.str (tools.sha256 bytes)) input.2 input.1)

def checkInputs : List (String × Json) → Stage Unit
  | [] => .ok ()
  | input :: inputs => do
      checkInput tools root outside input
      checkInputs inputs

end Inputs

/-- `check(root)`. -/
def check (tools : Tools) (checkout : Checkout) : Stage Json := do
  let root := checkout.rows.view
  let manifestBytes ← readBytes root checkout.outside MANIFEST
  let manifest ← raised (tools.loads manifestBytes)
  let version ← raised (manifest.getItem "schema_version")
  raised (requireSame version (.int 1) "manifest schema")
  let commit ← raised (manifest.getItem "upstream_commit")
  raised (requireSame (.str (checkout.repository REPOSITORY).head) commit "upstream commit")
  let patch ← raised (manifest.getItem "patch" >>= nameOf)
  let patchBytes ← readBytes root checkout.outside patch
  let patchSha256 ← raised (manifest.getItem "patch_sha256")
  raised (requireSame (.str (tools.sha256 patchBytes)) patchSha256 "patch hash")
  let inputs ← raised (manifest.getItem "extraction_inputs" >>= Json.items)
  checkInputs tools root checkout.outside inputs
  let added ← raised (manifest.getItem "added_files")
  let hash ← tree tools checkout added
  let treeSha256 ← raised (manifest.getItem "source_tree_sha256")
  raised (requireSame (.str hash) treeSha256 "source tree")
  if !tools.reverseApplies (checkout.rows.below (baseOf REPOSITORY)).view patchBytes then
    .error (.os ⟨"CalledProcessError", "git apply --reverse --check"⟩)
  else
    let baselineId ← raised (manifest.getItem "baseline_id")
    pure (.obj [("baseline_id", baselineId), ("upstream_commit", commit),
      ("patch_sha256", patchSha256), ("source_tree_sha256", treeSha256),
      ("manifest_sha256", .str (tools.sha256 manifestBytes)),
      ("identity_kind", .str "verified-source-checkout-not-binary-attestation")])

end CkbSail.Scripts.CkbSourceBaseline
