import CkbSail.ProofSupport.Dictionary
import CkbSail.PythonStd.FileTree
import CkbSail.PythonStd.PosixPath

/-!
# A working tree

A working tree lists what stands below a directory, each path once.  The kernel walks
through it along a path, follows the links on its way and may leave it.
-/

namespace CkbSail.PythonStd

/-- A link is the text of its target. -/
inductive WorkNode where
  | directory
  | file (mode : Nat) (bytes : List UInt8)
  | symlink (target : String)
  | special
deriving DecidableEq, Repr

/-- What stands at each path; the directory itself is at the empty one. -/
abbrev WorkRows := List (Path × WorkNode)

abbrev WorkView := Path → Option WorkNode

def WorkRows.view (rows : WorkRows) : WorkView := fun path => List.lookup path rows

namespace WorkNode

def isLink : Option WorkNode → Bool
  | some (.symlink _) => true
  | _ => false

def isFile : Option WorkNode → Bool
  | some (.file _ _) => true
  | _ => false

def isFileOrLink : WorkNode → Bool
  | .file _ _ => true
  | .symlink _ => true
  | _ => false

/-- `open(path, "rb").read()`. -/
def readBytes : Option WorkNode → Except Exn (List UInt8)
  | some (.file _ bytes) => .ok bytes
  | some .directory => .error ⟨"IsADirectoryError", "Is a directory"⟩
  | some _ => .error (.osError "Not a regular file")
  | none => .error .fileNotFound

end WorkNode

/-! ## Walks -/

/-- What stands outside of the tree, with and without the last link followed. -/
structure Outside where
  stat : String → Option WorkNode
  lstat : String → Option WorkNode

/-- Where a walk ends; a path that leaves the tree is text. -/
inductive WalkEnd where
  | nothing
  | inside (place : Path)
  | outside (path : String)
deriving DecidableEq, Repr

/-- Walk from a directory up to the first link, which is left to `jump`.  A link at the
end is followed only if `last` says so. -/
def followParts (tree : WorkView) (last : Bool) (jump : Path → List String → WalkEnd) :
    Path → List String → WalkEnd
  | dir, [] => .inside dir
  | dir, name :: rest =>
      if name = "" ∨ name = "." then followParts tree last jump dir rest
      else if name = ".." then
        if dir = [] then .outside (join (name :: rest))
        else followParts tree last jump dir.dropLast rest
      else
        match tree (dir ++ [name]) with
        | some .directory => followParts tree last jump (dir ++ [name]) rest
        | some (.symlink target) =>
            if rest.isEmpty && !last then .inside (dir ++ [name])
            else if isAbsolute target then .outside (join (target :: rest))
            else jump dir (split target ++ rest)
        | some _ => if rest.isEmpty then .inside (dir ++ [name]) else .nothing
        | none => .nothing

/-- A walk that follows at most so many links. -/
def walkParts (tree : WorkView) (last : Bool) : Nat → Path → List String → WalkEnd
  | 0 => followParts tree last fun _ _ => .nothing
  | fuel + 1 => followParts tree last (walkParts tree last fuel)

/-- What the kernel finds at a path: `stat`, or `lstat` when the last link stays. -/
def findNode (tree : WorkView) (outside : Outside) (last : Bool) (path : Path) : Option WorkNode :=
  match walkParts tree last MAX_LINKS [] path with
  | .nothing => none
  | .inside place => tree place
  | .outside text => if last then outside.stat text else outside.lstat text

/-! ## Changes -/

namespace WorkRows

def put (path : Path) (node : WorkNode) (rows : WorkRows) : WorkRows :=
  (path, node) :: rows.filter fun row => row.1 ≠ path

/-- `path.unlink()`. -/
def unlink (path : Path) (rows : WorkRows) : WorkRows := rows.filter fun row => row.1 ≠ path

/-- `mkdir(parents=True, exist_ok=True)` of the last of these places, each in the one
before; no link stands there. -/
def makeParents : List Path → WorkRows → Except Exn WorkRows
  | [], rows => .ok rows
  | place :: places, rows =>
      match rows.view place with
      | some .directory => makeParents places rows
      | none => makeParents places (rows.put place .directory)
      | some _ => .error (if places.isEmpty then .fileExists else .notADirectory)

/-- `shutil.copyfile` of these bytes; the target is no link.  A new file has the mode the
host gives it. -/
def copyfile (newMode : Nat) (bytes : List UInt8) (target : Path) (rows : WorkRows) :
    Except Exn WorkRows :=
  match rows.view target with
  | none => .ok (rows.put target (.file newMode bytes))
  | some (.file mode _) => .ok (rows.put target (.file mode bytes))
  | some .directory => .error ⟨"IsADirectoryError", "Is a directory"⟩
  | some _ => .error ⟨"SpecialFileError", "is a named pipe"⟩

/-- `path.chmod(mode)` of a file that is there. -/
def chmod (path : Path) (mode : Nat) (rows : WorkRows) : Except Exn WorkRows :=
  match rows.view path with
  | some (.file _ bytes) => .ok (rows.put path (.file mode bytes))
  | some _ => .ok rows
  | none => .error .fileNotFound

/-- What stands below a directory, by the path from there. -/
def below (base : Path) (rows : WorkRows) : WorkRows :=
  rows.filterMap fun row =>
    if base <+: row.1 then some (row.1.drop base.length, row.2) else none

end WorkRows

/-! ## What the changes do -/

section Changes

variable {rows rows' : WorkRows} {path place : Path} {node : WorkNode}

theorem view_put : (rows.put path node).view place =
    if place = path then some node else rows.view place := by
  rw [WorkRows.view, WorkRows.put, List.lookup_cons]
  by_cases hsame : place = path
  · simp [hsame]
  · have hkeep : ∀ rows : WorkRows, List.lookup place (rows.filter fun row => row.1 ≠ path) =
        List.lookup place rows := by
      intro rows
      induction rows with
      | nil => rfl
      | cons row rows ih =>
          by_cases hrow : row.1 = path
          · have hne : (place == row.1) = false := by simp [hrow, hsame]
            rw [List.filter_cons_of_neg (by simp [hrow]), ih, List.lookup_cons, hne]
          · rw [List.filter_cons_of_pos (by simp [hrow]), List.lookup_cons, List.lookup_cons, ih]
    rw [beq_false_of_ne hsame, if_neg hsame]
    exact hkeep rows

theorem view_unlink : (rows.unlink path).view place =
    if place = path then none else rows.view place := by
  by_cases hsame : place = path
  · subst hsame
    rw [if_pos rfl, WorkRows.view, List.lookup_eq_none_iff]
    intro row hrow
    have hne := (List.mem_filter.1 hrow).2
    simp only [decide_eq_true_eq] at hne
    simpa using Ne.symm hne
  · rw [if_neg hsame]
    have hput := @view_put rows path place .special
    rw [if_neg hsame, WorkRows.view, WorkRows.put, List.lookup_cons, beq_false_of_ne hsame] at hput
    exact hput

/-- Each path is there once. -/
def WorkRows.Distinct (rows : WorkRows) : Prop := (rows.map Prod.fst).Nodup

instance (rows : WorkRows) : Decidable rows.Distinct := inferInstanceAs (Decidable (List.Nodup _))

theorem WorkRows.Distinct.unlink (h : rows.Distinct) (path : Path) : (rows.unlink path).Distinct :=
  h.sublist (List.filter_sublist.map _)

theorem WorkRows.Distinct.put (h : rows.Distinct) (path : Path) (node : WorkNode) :
    (rows.put path node).Distinct := by
  refine List.nodup_cons.2 ⟨?_, h.unlink path⟩
  simp

theorem mem_iff_view (h : rows.Distinct) : (path, node) ∈ rows ↔ rows.view path = some node :=
  (ProofSupport.lookup_eq_some_iff_mem h).symm

theorem view_below (base : Path) : (rows.below base).view path = rows.view (base ++ path) := by
  rw [WorkRows.view, WorkRows.view, WorkRows.below]
  induction rows with
  | nil => rfl
  | cons row rows ih =>
      obtain ⟨there, node⟩ := row
      rw [List.lookup_cons]
      by_cases hbase : base <+: there
      · obtain ⟨rest, rfl⟩ := hbase
        simp only [List.filterMap_cons, List.prefix_append, if_true, List.drop_left,
          List.lookup_cons]
        by_cases hpath : path = rest
        · simp [hpath]
        · have hne : (base ++ path == base ++ rest) = false := by simpa using hpath
          rw [beq_false_of_ne hpath, hne]
          exact ih
      · have hne : (base ++ path == there) = false := by
          refine beq_false_of_ne fun h => hbase (h ▸ List.prefix_append base path)
        rw [List.filterMap_cons_none (by simp [hbase]), ih, hne]

theorem mem_below (base : Path) : (path, node) ∈ rows.below base ↔ (base ++ path, node) ∈ rows := by
  rw [WorkRows.below, List.mem_filterMap]
  constructor
  · rintro ⟨⟨there, node'⟩, hrow, h⟩
    by_cases hbase : base <+: there
    · obtain ⟨rest, rfl⟩ := hbase
      simp only [List.prefix_append, if_true, List.drop_left, Option.some.injEq,
        Prod.mk.injEq] at h
      obtain ⟨rfl, rfl⟩ := h
      exact hrow
    · simp [hbase] at h
  · exact fun hrow => ⟨_, hrow, by simp⟩

/-- What parents that can be made become. -/
theorem view_makeParents {places : List Path} (h : rows.makeParents places = .ok rows') :
    (rows.Distinct → rows'.Distinct) ∧
      (∀ place ∈ places, rows.view place = none ∨ rows.view place = some .directory) ∧
      ∀ path, rows'.view path = if path ∈ places then some .directory else rows.view path := by
  induction places generalizing rows with
  | nil =>
      cases h
      exact ⟨id, by simp, by simp⟩
  | cons place places ih =>
      rw [WorkRows.makeParents] at h
      cases hnode : rows.view place with
      | none =>
          simp only [hnode] at h
          obtain ⟨hdistinct, hfree, hview⟩ := ih h
          refine ⟨fun hrows => hdistinct (hrows.put _ _), fun other hother => ?_, fun path => ?_⟩
          · rcases List.mem_cons.1 hother with rfl | hother
            · exact Or.inl hnode
            · have hother' := hfree other hother
              rw [view_put] at hother'
              by_cases hsame : other = place
              · exact Or.inl (hsame ▸ hnode)
              · rwa [if_neg hsame] at hother'
          · rw [hview, view_put]
            by_cases hsame : path = place
            · simp [hsame]
            · simp [hsame]
      | some node =>
          cases node with
          | directory =>
              simp only [hnode] at h
              obtain ⟨hdistinct, hfree, hview⟩ := ih h
              refine ⟨hdistinct, fun other hother => ?_, fun path => ?_⟩
              · rcases List.mem_cons.1 hother with rfl | hother
                · exact Or.inr hnode
                · exact hfree other hother
              · rw [hview]
                by_cases hsame : path = place
                · simp [hsame, hnode]
                · simp [hsame]
          | _ => simp [hnode] at h

theorem exists_makeParents {places : List Path}
    (h : ∀ place ∈ places, rows.view place = none ∨ rows.view place = some .directory) :
    ∃ rows', rows.makeParents places = .ok rows' := by
  induction places generalizing rows with
  | nil => exact ⟨rows, rfl⟩
  | cons place places ih =>
      rw [List.forall_mem_cons] at h
      rw [WorkRows.makeParents]
      rcases h.1 with hnode | hnode
      · simp only [hnode]
        refine ih fun other hother => ?_
        rw [view_put]
        split_ifs
        · exact Or.inr rfl
        · exact h.2 other hother
      · simp only [hnode]
        exact ih h.2

end Changes

/-- The directories on the way to a path and the path itself, without the first. -/
theorem mem_inits_tail {front path : Path} :
    front ∈ path.inits.tail ↔ front <+: path ∧ front ≠ [] := by
  cases path with
  | nil => simp [List.inits]
  | cons name path =>
      rw [List.inits, List.tail_cons, List.mem_map]
      constructor
      · rintro ⟨rest, hrest, rfl⟩
        exact ⟨List.cons_prefix_cons.2 ⟨rfl, List.mem_inits _ _ |>.1 hrest⟩, List.cons_ne_nil _ _⟩
      · rintro ⟨hbegins, hne⟩
        obtain ⟨head, rest, rfl⟩ := List.exists_cons_of_ne_nil hne
        obtain ⟨rfl, hrest⟩ := List.cons_prefix_cons.1 hbegins
        exact ⟨rest, List.mem_inits _ _ |>.2 hrest, rfl⟩

/-! ## What a walk finds -/

/-- Everything stands in a directory, under a name that leads down. -/
structure Closed (tree : WorkView) : Prop where
  parent : ∀ path node, path ≠ [] → tree path = some node → tree path.dropLast = some .directory
  plain : ∀ path node, tree path = some node → Plain path

instance (path : Path) : Decidable (Plain path) :=
  decidable_of_iff ((∀ part ∈ path, part ∉ ["", ".", ".."]) ∧ ∀ part ∈ path, '/' ∉ part.toList)
    ⟨fun h => ⟨h.1, h.2⟩, fun h => ⟨h.ordinary, h.slash⟩⟩

/-- A tree of distinct rows whose parents are rows. -/
theorem closed_of_rows {rows : WorkRows} (hdistinct : rows.Distinct)
    (hparent : ∀ row ∈ rows, row.1 ≠ [] → rows.view row.1.dropLast = some .directory)
    (hplain : ∀ row ∈ rows, Plain row.1) : Closed rows.view :=
  ⟨fun _ _ hne hnode => hparent _ ((mem_iff_view hdistinct).2 hnode) hne,
    fun _ _ hnode => hplain _ ((mem_iff_view hdistinct).2 hnode)⟩

section Walks

variable {tree : WorkView} {outside : Outside} {last : Bool} {path front : Path} {node : WorkNode}

theorem Closed.above (h : Closed tree) (hpath : tree path = some node) (hfront : front <+: path)
    (hne : front ≠ path) : tree front = some .directory := by
  obtain ⟨rest, rfl⟩ := hfront
  have hrest : rest ≠ [] := fun hnil => hne (by rw [hnil, List.append_nil])
  induction rest using List.reverseRecOn generalizing node with
  | nil => exact absurd rfl hrest
  | append_singleton rest name ih =>
      have hparent := h.parent _ _ (by simp) hpath
      rw [← List.append_assoc, List.dropLast_concat] at hparent
      by_cases hnil : rest = []
      · rwa [hnil, List.append_nil] at hparent
      · exact ih hparent (by simp [hnil]) hnil

/-- Along directories a walk comes to what is not a link. -/
theorem followParts_inside {jump : Path → List String → WalkEnd} {dir rest : Path}
    (hrest : Plain rest) (hdirs : ∀ front, front <+: rest → front ≠ rest → front ≠ [] →
      tree (dir ++ front) = some .directory) (hne : rest ≠ [])
    (hnode : tree (dir ++ rest) = some node) (hlink : ∀ target, node ≠ .symlink target) :
    followParts tree last jump dir rest = .inside (dir ++ rest) := by
  induction rest generalizing dir with
  | nil => exact absurd rfl hne
  | cons name rest ih =>
      have hname := hrest.ordinary name List.mem_cons_self
      simp only [Ordinary, List.mem_cons, List.not_mem_nil, or_false, not_or] at hname
      rw [followParts, if_neg (by simp [hname]), if_neg hname.2.2]
      by_cases hnil : rest = []
      · subst hnil
        rw [hnode]
        cases node with
        | directory => simp [followParts]
        | symlink target => exact absurd rfl (hlink target)
        | file mode bytes => simp
        | special => simp
      · rw [hdirs [name] (by simp) (by simpa using Ne.symm hnil) (by simp)]
        have hrest' := @ih (dir ++ [name])
          (hrest.sublist fun _ => List.mem_cons_of_mem name)
          (fun front hfront hne' hfront' => by
            rw [List.append_assoc]
            exact hdirs (name :: front) (List.cons_prefix_cons.2 ⟨rfl, hfront⟩)
              (by simpa using hne') (by simp))
          hnil (by rwa [List.append_assoc])
        rw [hrest', List.append_assoc]
        rfl

/-- Without links a walk to a free place finds nothing. -/
theorem followParts_nothing {jump : Path → List String → WalkEnd} {dir rest : Path}
    (hrest : Plain rest) (hlinks : ∀ path target, tree path ≠ some (.symlink target))
    (hne : rest ≠ []) (hnode : tree (dir ++ rest) = none) :
    followParts tree last jump dir rest = .nothing := by
  induction rest generalizing dir with
  | nil => exact absurd rfl hne
  | cons name rest ih =>
      have hname := hrest.ordinary name List.mem_cons_self
      simp only [Ordinary, List.mem_cons, List.not_mem_nil, or_false, not_or] at hname
      rw [followParts, if_neg (by simp [hname]), if_neg hname.2.2]
      by_cases hnil : rest = []
      · subst hnil
        rw [hnode]
      · rcases hnext : tree (dir ++ [name]) with _ | _ | _ | target | _
        · rfl
        · exact ih (hrest.sublist fun _ => List.mem_cons_of_mem name) hnil
            (by rwa [List.append_assoc])
        · simp [hnil]
        · exact absurd hnext (hlinks _ target)
        · simp [hnil]

theorem walkParts_eq (fuel : Nat) (dir todo : Path) : ∃ jump,
    walkParts tree last fuel dir todo = followParts tree last jump dir todo := by
  cases fuel with
  | zero => exact ⟨_, rfl⟩
  | succ fuel => exact ⟨_, rfl⟩

/-- What is there and no link is found at its own place. -/
theorem findNode_of_view (h : Closed tree) (hpath : tree path = some node) (hne : path ≠ [])
    (hlink : ∀ target, node ≠ .symlink target) : findNode tree outside last path = some node := by
  obtain ⟨jump, hjump⟩ := @walkParts_eq tree last MAX_LINKS [] path
  have hinside : followParts tree last jump [] path = .inside ([] ++ path) :=
    followParts_inside (h.plain _ _ hpath)
      (fun front hfront hne' _ => h.above hpath hfront hne') hne hpath hlink
  rw [findNode, hjump, hinside]
  exact hpath

/-- Without links it is the same as what stands there. -/
theorem findNode_eq (h : Closed tree) (hlinks : ∀ path target, tree path ≠ some (.symlink target))
    (hpath : Plain path) (hne : path ≠ []) : findNode tree outside last path = tree path := by
  cases hnode : tree path with
  | some node =>
      exact findNode_of_view h hnode hne fun target hsame => hlinks path target (hsame ▸ hnode)
  | none =>
      obtain ⟨jump, hjump⟩ := @walkParts_eq tree last MAX_LINKS [] path
      rw [findNode, hjump, @followParts_nothing tree last jump [] path hpath hlinks hne hnode]

end Walks

end CkbSail.PythonStd
