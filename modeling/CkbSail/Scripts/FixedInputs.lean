import CkbSail.PythonStd.LinkWalk
import CkbSail.PythonStd.Ops
import CkbSail.PythonStd.PathOrder
import CkbSail.Scripts.ReleaseCommon
import Mathlib.Data.List.Sort

/-!
# The fixed inputs and their staging

`entriesValid` accepts an inventory of directories, files and relative links, and
follows every link by the text of its target.  `stage` writes the members of an
archive that match the inventory into a new directory, makes the links last, and
compares what it finds there with the inventory.
-/

namespace CkbSail.Scripts.FixedInputs

open PythonStd
open ReleaseCommon (safeName Member)

/-! ## The inventory -/

/-- `common.safe_name(name)`. -/
def safe (name : String) : Py String :=
  match safeName name with
  | .ok name => .ok name
  | .error e => .error (.runtimeError e.text)

/-- `PurePosixPath(name).parents`, as text. -/
def parents (name : String) : List String :=
  (parts name).inits.dropLast.reverse.map fun place => if place = [] then "." else join place

/-- `SHA256.fullmatch(value)`. -/
def sha256Matches : Json → Py Bool
  | .str text => .ok (text.toList.length = 64 &&
      text.toList.all fun c => ('0' ≤ c && c ≤ '9') || ('a' ≤ c && c ≤ 'f'))
  | _ => .error .typeError

/-- What a link may have as its target. -/
def targetFine : Json → Bool
  | .str target => target ≠ "" && !isAbsolute target && !target.toList.contains '\x00'
  | _ => false

def rowValid (row : Json) : Py Unit := do
  let kind ← row.get "kind"
  if kind.eq (.str "file") then
    requirePy (Py.conj [row.setEq ["kind", "sha256", "bytes", "mode"],
      row.getItem "sha256" >>= sha256Matches,
      (row.getItem "bytes").map Json.isInt,
      row.getItem "mode" >>= Json.between 0 0o777]) "invalid regular entry"
  else if kind.eq (.str "directory") then
    requirePy (Py.conj [row.setEq ["kind", "mode"],
      row.getItem "mode" >>= Json.between 0 0o777]) "invalid directory entry"
  else
    requirePy (Py.conj [.ok (kind.eq (.str "symlink")), row.setEq ["kind", "target"],
      (row.getItem "target").map targetFine]) "invalid symbolic link"

section Entries

variable (entries : List (String × Json))

/-- `str(parent) not in entries or entries[str(parent)].get("kind") == "directory"`. -/
def parentFine (parent : String) : Py Bool :=
  match Json.lookup parent entries with
  | some row => (row.get "kind").map fun kind => kind.eq (.str "directory")
  | none => .ok true

def checkEntry (name : String) : Py Unit := do
  let name ← safe name
  Py.forEach (fun parent => requirePy (parentFine entries parent) "entry overlaps a file parent")
    (parents name)
  let row ← (Json.obj entries).getItem name
  rowValid row

/-- `entries.get(name, {}).get("kind")`. -/
def kindOf (name : String) : Py Json :=
  match Json.lookup name entries with
  | some row => row.get "kind"
  | none => .ok .null

/-- `posixpath.normpath(posixpath.join(posixpath.dirname(name), target))`. -/
def targetName (name : String) : Json → Py String
  | .str target => .ok (normpath (posixJoin (dirname name) target))
  | _ => .error .typeError

/-- The next name of the chain. -/
def nextName (name : String) : Py String := do
  let row ← (Json.obj entries).getItem name
  let target ← row.getItem "target"
  let next ← targetName name target
  safe next

theorem mem_keys_of_kindOf {name : String} {kind : Json} (h : kindOf entries name = .ok kind)
    (hlink : kind.eq (.str "symlink") = true) : name ∈ Json.keys entries := by
  unfold kindOf at h
  cases hrow : Json.lookup name entries with
  | none =>
      obtain rfl : Json.null = kind := by simpa [hrow] using h
      simp [Json.eq, Json.eqBy, Json.looseAtom, Json.number?] at hlink
  | some row =>
      rw [Json.mem_keys]
      exact List.mem_map_of_mem (Json.exists_mem_of_lookup hrow)

theorem length_filter_visited_lt {names visited : List String} {current : String}
    (hmem : current ∈ names) (hvisited : current ∉ visited) :
    (names.filter (· ∉ current :: visited)).length < (names.filter (· ∉ visited)).length := by
  have hfilter : names.filter (· ∉ current :: visited) =
      (names.filter (· ∉ visited)).filter (· ≠ current) := by
    rw [List.filter_filter]
    refine List.filter_congr fun name _ => ?_
    simp [not_or]
  rw [hfilter, List.length_filter_lt_length_iff_exists]
  exact ⟨current, List.mem_filter.2 ⟨hmem, by simpa using hvisited⟩, by simp⟩

/-- The `while` loop, which visits every link once at most. -/
def follow (current : String) (visited : List String) : Py String :=
  match _hkind : kindOf entries current with
  | .error e => .error e
  | .ok kind =>
      if _hlink : kind.eq (.str "symlink") = true then
        if _hvisited : current ∈ visited then .error (.runtimeError "symbolic link cycle")
        else
          match nextName entries current with
          | .error e => .error e
          | .ok next => follow next (current :: visited)
      else .ok current
termination_by ((Json.keys entries).filter (· ∉ visited)).length
decreasing_by
  exact length_filter_visited_lt (mem_keys_of_kindOf entries _hkind _hlink) _hvisited

theorem follow_eq (current : String) (visited : List String) :
    follow entries current visited = (kindOf entries current >>= fun kind =>
      if kind.eq (.str "symlink") then
        if current ∈ visited then .error (.runtimeError "symbolic link cycle")
        else nextName entries current >>= fun next => follow entries next (current :: visited)
      else .ok current) := by
  rw [follow]
  split
  · next e hkind => rw [hkind]; rfl
  · next kind hkind =>
      rw [hkind]
      show _ = if kind.eq (.str "symlink") then _ else _
      split
      · split
        · rfl
        · cases nextName entries current <;> rfl
      · rfl

def checkLink (name : String) : Py Unit := do
  let row ← (Json.obj entries).getItem name
  let kind ← row.getItem "kind"
  if kind.eq (.str "symlink") then
    let final ← follow entries name []
    let kind ← kindOf entries final
    require (kind.eq (.str "file")) "link chain does not end at a recorded regular file"
  else pure ()

end Entries

def entriesValid : Json → Py Unit
  | .obj entries => do
      require (!entries.isEmpty) "empty entry inventory"
      Py.forEach (checkEntry entries) (Json.keys entries)
      Py.forEach (checkLink entries) (Json.keys entries)
  | _ => .error (.runtimeError "empty entry inventory")

def MANIFEST_KEYS : List String :=
  ["schema_version", "kind", "canonical_checkout", "inputs", "required_external", "boundaries",
    "entries"]

def BOUNDARY_KEYS : List String :=
  ["clean_room", "release", "kernel_execution", "relocatable", "host_closure_complete"]

/-- `Path(value).is_absolute()`. -/
def absolutePath : Json → Py Bool
  | .str name => .ok (isAbsolute name)
  | _ => .error .typeError

/-- `load_manifest` of a manifest with the expected digest. -/
def loadManifest (manifest : Json) : Py (List (String × Json)) := do
  let version ← manifest.get "schema_version"
  let kind ← manifest.get "kind"
  require (version.eq (.int 1) && kind.eq (.str "extra-fixed-prefix-installations-v1"))
    "unknown installation package"
  requirePy (manifest.setEq MANIFEST_KEYS) "manifest fields differ"
  requirePy (manifest.getItem "canonical_checkout" >>= absolutePath) "canonical checkout absent"
  let boundaries ← manifest.getItem "boundaries"
  require (boundaries.eq (.obj (BOUNDARY_KEYS.map fun key => (key, .bool false))))
    "package assurance differs"
  let entries ← manifest.getItem "entries"
  entriesValid entries
  match entries with
  | .obj entries => pure entries
  | _ => .error .typeError

/-! ## The staged tree -/

inductive StagedNode where
  | directory (mode : Int)
  | file (bytes : List UInt8) (mode : Int)
  | symlink (target : String)
deriving DecidableEq, Repr

def StagedNode.shape : StagedNode → Shape
  | .directory _ => .directory
  | .file _ _ => .file
  | .symlink target => .symlink target

def StagedNode.withMode (mode : Int) : StagedNode → StagedNode
  | .directory _ => .directory mode
  | .file bytes _ => .file bytes mode
  | .symlink target => .symlink target

/-- The shape at a path. -/
def layoutOf (nodes : List (Path × StagedNode)) : Layout := fun path =>
  (nodes.lookup path).map StagedNode.shape

/-- What stands below the staging directory: every path once, and its parent before it. -/
structure StagedTree where
  nodes : List (Path × StagedNode)
  nodup : (nodes.map Prod.fst).Nodup
  nonempty : ∀ path ∈ nodes.map Prod.fst, path ≠ []
  parent : ∀ path ∈ nodes.map Prod.fst, IsDirectory (layoutOf nodes) path.dropLast

namespace StagedTree

def layout (tree : StagedTree) : Layout := layoutOf tree.nodes

def empty : StagedTree := ⟨[], by simp, by simp, by simp⟩

/-- `Path.is_dir` below the staging directory, where no link leads to a directory. -/
def isDir (tree : StagedTree) (path : Path) : Bool :=
  path = [] || tree.layout path = some .directory

def isSymlink (tree : StagedTree) (path : Path) : Bool :=
  match tree.layout path with
  | some (.symlink _) => true
  | _ => false

theorem isDir_iff {tree : StagedTree} {path : Path} :
    tree.isDir path = true ↔ IsDirectory tree.layout path := by
  simp [isDir, IsDirectory]

theorem layoutOf_cons (path : Path) (node : StagedNode) (nodes : List (Path × StagedNode))
    (path' : Path) : layoutOf ((path, node) :: nodes) path' =
      if path' = path then some node.shape else layoutOf nodes path' := by
  rw [layoutOf, layoutOf, List.lookup_cons]
  by_cases h : path' = path
  · simp [h]
  · rw [if_neg h, beq_false_of_ne h]

theorem layoutOf_eq_none_iff {nodes : List (Path × StagedNode)} {path : Path} :
    layoutOf nodes path = none ↔ path ∉ nodes.map Prod.fst := by
  induction nodes with
  | nil => simp [layoutOf]
  | cons row nodes ih =>
      obtain ⟨place, node⟩ := row
      rw [layoutOf_cons, List.map_cons, List.mem_cons, not_or, ← ih]
      by_cases h : path = place <;> simp [h]

/-- A directory stays one when a node is put at a free path. -/
theorem isDirectory_cons {nodes : List (Path × StagedNode)} {path path' : Path} {node : StagedNode}
    (hfree : layoutOf nodes path = none) (h : IsDirectory (layoutOf nodes) path') :
    IsDirectory (layoutOf ((path, node) :: nodes)) path' := by
  rcases h with hnil | hdir
  · exact Or.inl hnil
  · have hne : path' ≠ path := by
      rintro rfl
      cases hfree.symm.trans hdir
    exact Or.inr (by rw [layoutOf_cons, if_neg hne, hdir])

/-- Put a node at a free path in a directory. -/
def add (tree : StagedTree) (path : Path) (node : StagedNode) (hne : path ≠ [])
    (hfree : tree.layout path = none) (hparent : tree.isDir path.dropLast = true) : StagedTree where
  nodes := (path, node) :: tree.nodes
  nodup := by
    rw [List.map_cons, List.nodup_cons]
    exact ⟨layoutOf_eq_none_iff.1 hfree, tree.nodup⟩
  nonempty := by
    rw [List.map_cons, List.forall_mem_cons]
    exact ⟨hne, tree.nonempty⟩
  parent := by
    rw [List.map_cons, List.forall_mem_cons]
    exact ⟨isDirectory_cons hfree (isDir_iff.1 hparent), fun place hplace =>
      isDirectory_cons hfree (tree.parent place hplace)⟩

theorem layoutOf_map_withMode (mode : Int) (path : Path) (nodes : List (Path × StagedNode)) :
    layoutOf (nodes.map fun row => if row.1 = path then (row.1, row.2.withMode mode) else row) =
      layoutOf nodes := by
  funext place
  induction nodes with
  | nil => rfl
  | cons row nodes ih =>
      obtain ⟨place', node⟩ := row
      have hshape : (node.withMode mode).shape = node.shape := by cases node <;> rfl
      rw [List.map_cons]
      by_cases h : place' = path
      · rw [if_pos h, layoutOf_cons, layoutOf_cons, ih, hshape]
      · rw [if_neg h, layoutOf_cons, layoutOf_cons, ih]

theorem map_fst_map_withMode (mode : Int) (path : Path) (nodes : List (Path × StagedNode)) :
    (nodes.map fun row => if row.1 = path then (row.1, row.2.withMode mode) else row).map
      Prod.fst = nodes.map Prod.fst := by
  rw [List.map_map]
  refine List.map_congr_left fun row _ => ?_
  rw [Function.comp_apply]
  split <;> rfl

/-- `Path.chmod`. -/
def chmod (tree : StagedTree) (path : Path) (mode : Int) : StagedTree where
  nodes := tree.nodes.map fun row => if row.1 = path then (row.1, row.2.withMode mode) else row
  nodup := by
    rw [map_fst_map_withMode]
    exact tree.nodup
  nonempty := by
    rw [map_fst_map_withMode]
    exact tree.nonempty
  parent := by
    rw [map_fst_map_withMode, layoutOf_map_withMode]
    exact tree.parent

end StagedTree

/-! ## Staging -/

/-- An exception of the code, or of the operating system. -/
inductive StageError where
  | python (error : PyError)
  | os (error : Exn)
deriving DecidableEq, Repr

abbrev Stage (α : Type) := Except StageError α

def raised {α : Type} : Py α → Stage α
  | .ok a => .ok a
  | .error e => .error (.python e)

structure PackageMember extends Member where
  sparse : Bool

/-- An archive as it is read once. -/
structure Package where
  openFault : Option Exn
  members : List PackageMember
  stop : Option Exn

/-- What staging finds.  The archive is read twice; a flag says whether a digest is
still the one expected. -/
structure Host where
  destinationFree : Bool
  manifestPinned : Bool
  checked : Package
  archiveUnchanged : Bool
  staged : Package
  inputsUnchanged : Bool
  defaultMode : Int
  sha256 : List UInt8 → String

def noneRaised : Option Exn → Stage Unit
  | some e => .error (.os e)
  | none => .ok ()

section Members

variable (entries : List (String × Json))

def validateMember (item : PackageMember) (seen : List String) : Py (String × Json) := do
  let name ← safe item.name
  require ((Json.lookup name entries).isSome && !seen.contains name)
    ("extra or repeated archive entry: " ++ name)
  let row ← (Json.obj entries).getItem name
  require (item.uid = 0 && item.gid = 0 && item.uname = "" && item.gname = "" && item.mtime = 0)
    "unreviewed ownership/timestamp metadata"
  let kind ← row.getItem "kind"
  if kind.eq (.str "file") then
    requirePy (Py.conj [.ok (item.type = .regular),
      (row.getItem "bytes").map fun value => (Json.int item.size).eq value,
      (row.getItem "mode").map fun value => (Json.int item.mode).eq value,
      .ok (item.linkname = ""), .ok !item.sparse]) ("regular archive metadata differs: " ++ name)
  else if kind.eq (.str "directory") then
    requirePy (Py.conj [.ok (item.type = .directory), .ok (item.size = 0),
      (row.getItem "mode").map fun value => (Json.int item.mode).eq value,
      .ok (item.linkname = "")]) "directory metadata differs"
  else
    requirePy (Py.conj [.ok (item.type = .symlink),
      (row.getItem "target").map fun value => (Json.str item.linkname).eq value,
      .ok (item.size = 0), .ok (item.mode = 0o777)]) "symbolic archive metadata differs"
  pure (name, row)

/-- `seen == set(entries)`. -/
def allSeen (seen : List String) : Bool :=
  (Json.keys entries).all seen.contains && seen.all (Json.keys entries).contains

variable (sha256 : List UInt8 → String)

def verifyMembers : List PackageMember → List String → Stage (List String)
  | [], seen => .ok seen
  | item :: items, seen => do
      let (name, row) ← raised (validateMember entries item seen)
      let kind ← raised (row.getItem "kind")
      if kind.eq (.str "file") then do
        noneRaised item.content.stop
        let digest ← raised (row.getItem "sha256")
        raised (require ((Json.str (sha256 item.content.bytes)).eq digest)
          ("archived bytes differ: " ++ name))
        verifyMembers items (name :: seen)
      else verifyMembers items (name :: seen)

/-- The reading of `verify_archive`. -/
def verifyPackage (package : Package) : Stage Unit := do
  noneRaised package.openFault
  let seen ← verifyMembers entries sha256 package.members []
  noneRaised package.stop
  raised (require (allSeen entries seen) "missing archive entries")

end Members

/-- A new node, where there is none yet. -/
def create (tree : StagedTree) (path : Path) (node : StagedNode) : Stage StagedTree :=
  if hne : path = [] then .error (.os (.osError "File exists"))
  else
    match hfree : tree.layout path with
    | some _ => .error (.os (.osError "File exists"))
    | none =>
        if hparent : tree.isDir path.dropLast = true then
          .ok (tree.add path node hne hfree hparent)
        else .error (.os (.osError "No such file or directory"))

/-- `Path.mkdir(exist_ok=True)`. -/
def mkdir (mode : Int) (tree : StagedTree) (path : Path) : Stage StagedTree :=
  if tree.isDir path then .ok tree else create tree path (.directory mode)

/-- `Path.mkdir(parents=True, exist_ok=True)`. -/
def mkdirParents (mode : Int) (tree : StagedTree) (path : Path) : Stage StagedTree :=
  path.inits.foldlM (mkdir mode) tree

/-- The mode that `chmod` is given. -/
def modeOf : Json → Py Int
  | .int mode => .ok mode
  | .bool value => .ok (if value then 1 else 0)
  | _ => .error .typeError

/-- The text that `symlink_to` is given. -/
def textOf : Json → Py String
  | .str text => .ok text
  | _ => .error .typeError

/-- The variables of the staging loop. -/
structure Staging where
  tree : StagedTree
  seen : List String
  links : List (Path × String)
  directories : List (Path × Int)

section Loop

variable (entries : List (String × Json)) (defaultMode : Int)

def stageMember (item : PackageMember) (s : Staging) : Stage Staging := do
  let (name, row) ← raised (validateMember entries item s.seen)
  let s := { s with seen := name :: s.seen }
  let target := parts name
  let tree ← mkdirParents defaultMode s.tree target.dropLast
  raised (require (!target.inits.any tree.isSymlink) "linked staging member")
  let kind ← raised (row.getItem "kind")
  if kind.eq (.str "symlink") then do
    let link ← raised (row.getItem "target" >>= textOf)
    pure { s with tree := tree, links := s.links ++ [(target, link)] }
  else if kind.eq (.str "directory") then do
    let tree ← mkdir defaultMode tree target
    let mode ← raised (row.getItem "mode" >>= modeOf)
    pure { s with tree := tree, directories := s.directories ++ [(target, mode)] }
  else do
    let tree ← create tree target (.file item.content.bytes defaultMode)
    noneRaised item.content.stop
    let mode ← raised (row.getItem "mode" >>= modeOf)
    pure { s with tree := tree.chmod target mode }

def stageMembers : List PackageMember → Staging → Stage Staging
  | [], s => .ok s
  | item :: items, s => do
      let s ← stageMember entries defaultMode item s
      stageMembers items s

def makeLinks : List (Path × String) → StagedTree → Stage StagedTree
  | [], tree => .ok tree
  | (target, link) :: links, tree => do
      let tree ← create tree target (.symlink link)
      makeLinks links tree

/-- The modes of the directories, the deepest first. -/
def chmodDirectories (directories : List (Path × Int)) (tree : StagedTree) : StagedTree :=
  (directories.insertionSort fun left right => right.1.length ≤ left.1.length).foldl
    (fun tree row => tree.chmod row.1 row.2) tree

end Loop

/-! ## The comparison -/

section Verify

variable (sha256 : List UInt8 → String)

/-- `identity(path)` below the staging directory. -/
def identity : StagedNode → Py Json
  | .symlink target => .ok (.obj [("kind", .str "symlink"), ("target", .str target)])
  | .directory mode => do
      require (mode / 0o1000 = 0) "special directory permission bits"
      pure (.obj [("kind", .str "directory"), ("mode", .int mode)])
  | .file bytes mode => do
      require (mode / 0o1000 = 0) "special source or permission bits"
      pure (.obj [("kind", .str "file"), ("sha256", .str (sha256 bytes)),
        ("bytes", .int bytes.length), ("mode", .int mode)])

variable (entries : List (String × Json))

/-- The parents of all entries, without the one above all. -/
def implied : List String := (Json.keys entries).flatMap fun name => (parents name).filter (· ≠ ".")

/-- The loop over the descendants. -/
def observe : List (Path × StagedNode) → Py (List (String × Json))
  | [] => .ok []
  | (path, node) :: nodes =>
      let name := slashed path
      if node.shape = .directory && (Json.lookup name entries).isNone then do
        require ((implied entries).contains name) ("unexpected staged directory: " ++ name)
        observe nodes
      else do
        let value ← identity sha256 node
        let observed ← observe nodes
        pure ((name, value) :: observed)

def verifyStaged (tree : StagedTree) : Py Unit := do
  let observed ← observe sha256 entries tree.nodes
  require ((Json.obj observed).eq (.obj entries)) "staged inventory differs"

end Verify

/-- The tree that staging leaves when it returns. -/
def stage (host : Host) (manifest : Json) : Stage StagedTree := do
  raised (require host.destinationFree "staging destination exists/linked")
  raised (require host.manifestPinned "manifest digest differs")
  let entries ← raised (loadManifest manifest)
  verifyPackage entries host.sha256 host.checked
  raised (require host.archiveUnchanged "archive/manifest changed during verification")
  noneRaised host.staged.openFault
  let s ← stageMembers entries host.defaultMode host.staged.members ⟨.empty, [], [], []⟩
  noneRaised host.staged.stop
  raised (require (allSeen entries s.seen) "missing staged entries")
  let tree ← makeLinks s.links s.tree
  let tree := chmodDirectories s.directories tree
  raised (verifyStaged host.sha256 entries tree)
  raised (require host.inputsUnchanged "inputs changed during staging")
  pure tree

/-- Whether the owner of a staged node, or root, may read it; a link has no mode. -/
def StagedNode.readable (root : Bool) : StagedNode → Bool
  | .file _ mode => root || mode / 0o400 % 2 = 1
  | _ => true

/-- `stage` by root or by another user.  The comparison reads every staged file. -/
def stageBy (root : Bool) (host : Host) (manifest : Json) : Stage StagedTree := do
  let tree ← stage host manifest
  if tree.nodes.all fun row => row.2.readable root then pure tree
  else .error (.os (.osError "Permission denied"))

end CkbSail.Scripts.FixedInputs
