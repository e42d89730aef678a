import CkbSail.ProofSupport.FaultyProgram
import Mathlib.Data.List.Infix
import Mathlib.Logic.Function.Basic

/-!
# Directory entries and their renames

The scripts move whole trees between a few names.  A disk gives the entry of
each name; a tree lists everything below it by relative path.
-/

namespace CkbSail.PythonStd

/-- A raised exception: the name of its type and its text. -/
structure Exn where
  typeName : String
  text : String
deriving DecidableEq, Repr

def Exn.runtimeError (text : String) : Exn := ⟨"RuntimeError", text⟩

def Exn.osError (text : String) : Exn := ⟨"OSError", text⟩

/-- The components of an absolute path, or of a path below a directory. -/
abbrev Path := List String

/-- `str(path)` of an absolute path. -/
def Path.display (path : Path) : String := "/" ++ "/".intercalate path

/-- What a symbolic link leads to. -/
inductive TargetKind where
  | directory
  | file
deriving DecidableEq, Repr

/-- One descendant of a directory; a dangling link leads to nothing. -/
inductive Node where
  | directory
  | file (links : Nat) (bytes : List UInt8)
  | symlink (target : Option TargetKind)
  | special
deriving DecidableEq, Repr

/-- What stands under a name. -/
inductive Entry where
  | directory (contents : List (Path × Node))
  | file (links : Nat) (bytes : List UInt8)
  | symlink (target : Option TargetKind)
  | special
deriving DecidableEq, Repr

namespace Entry

/-- `Path.exists`, which follows links. -/
def pathExists : Option Entry → Bool
  | none => false
  | some (.symlink target) => target.isSome
  | some _ => true

/-- `Path.is_symlink`. -/
def isSymlink : Option Entry → Bool
  | some (.symlink _) => true
  | _ => false

/-- `Path.is_dir`, which follows links. -/
def isDir : Option Entry → Bool
  | some (.directory _) => true
  | some (.symlink target) => target = some .directory
  | _ => false

/-- `Path.is_file`, which follows links. -/
def isFile : Option Entry → Bool
  | some (.file _ _) => true
  | some (.symlink target) => target = some .file
  | _ => false

/-- `Path.read_bytes`; what a link leads to is not read here. -/
def readBytes : Option Entry → Except Exn (List UInt8)
  | none => .error (.osError "No such file or directory")
  | some (.file _ bytes) => .ok bytes
  | some (.directory _) => .error (.osError "Is a directory")
  | some _ => .error (.osError "Not a regular file")

/-- Reading a file of a directory. -/
def readChild (name : String) : Option Entry → Except Exn (List UInt8)
  | some (.directory contents) =>
      match contents.lookup [name] with
      | some (.file _ bytes) => .ok bytes
      | some .directory => .error (.osError "Is a directory")
      | some _ => .error (.osError "Not a regular file")
      | none => .error (.osError "No such file or directory")
  | _ => .error (.osError "Not a directory")

theorem pathExists_or_isSymlink (entry : Option Entry) :
    (pathExists entry || isSymlink entry) = entry.isSome := by
  rcases entry with _ | _ | _ | target | _ <;> simp [pathExists, isSymlink]

end Entry

/-! ## Access -/

/-- What a user may do below a directory: list a directory, look up names in it, and read
a file, each by its path from there. -/
structure Access where
  lists : Path → Bool
  enters : Path → Bool
  reads : Path → Bool

/-- The directories on the way to a path. -/
theorem mem_inits_dropLast {place path : Path} :
    place ∈ path.inits.dropLast ↔ place <+: path ∧ place ≠ path := by
  rcases List.eq_nil_or_concat path with rfl | ⟨front, name, rfl⟩
  · simp
  · rw [List.concat_eq_append, List.inits_append]
    simp only [List.inits, List.tail_cons, List.map_cons, List.map_nil, List.dropLast_concat,
      List.mem_inits]
    constructor
    · intro hplace
      refine ⟨hplace.trans (List.prefix_append _ _), ?_⟩
      rintro rfl
      have hle := hplace.length_le
      rw [List.length_append, List.length_singleton] at hle
      omega
    · rintro ⟨hplace, hne⟩
      exact (List.prefix_concat_iff.1 hplace).resolve_left hne

namespace Access

/-- What root may do. -/
def full : Access := ⟨fun _ => true, fun _ => true, fun _ => true⟩

variable (access : Access)

/-- The user can look at the path: names can be looked up all the way to it. -/
def reaches (path : Path) : Bool := path.inits.dropLast.all access.enters

/-- A walk comes to the path: all directories on the way to it are listed.  Both
`os.walk` and `Path.rglob` pass over those that are not. -/
def sees (path : Path) : Bool :=
  path.inits.dropLast.all fun place => access.reaches place && access.lists place

/-- What a walk finds. -/
def seen (contents : List (Path × Node)) : List (Path × Node) :=
  contents.filter fun row => access.sees row.1

variable {access}

theorem reaches_iff {path : Path} :
    access.reaches path = true ↔
      ∀ place, place <+: path → place ≠ path → access.enters place = true := by
  simp only [reaches, List.all_eq_true, mem_inits_dropLast, and_imp]

theorem sees_iff {path : Path} :
    access.sees path = true ↔ ∀ place, place <+: path → place ≠ path →
      access.reaches place = true ∧ access.lists place = true := by
  simp only [sees, List.all_eq_true, mem_inits_dropLast, and_imp, Bool.and_eq_true]

theorem reaches_initial {place path : Path} (h : access.reaches path = true)
    (hplace : place <+: path) : access.reaches place = true := by
  rw [reaches_iff] at h ⊢
  intro above habove hne
  refine h above (habove.trans hplace) ?_
  rintro rfl
  exact hne (habove.eq_of_length_le hplace.length_le)

@[simp] theorem reaches_full (path : Path) : Access.full.reaches path = true :=
  reaches_iff.2 fun _ _ _ => rfl

@[simp] theorem sees_full (path : Path) : Access.full.sees path = true :=
  sees_iff.2 fun place _ _ => ⟨reaches_full place, rfl⟩

theorem mem_seen {contents : List (Path × Node)} {row : Path × Node} :
    row ∈ access.seen contents ↔ row ∈ contents ∧ access.sees row.1 = true :=
  List.mem_filter

end Access

/-! ## Names -/

abbrev Disk (Slot : Type) := Slot → Option Entry

namespace Disk

variable {Slot : Type} [DecidableEq Slot] (disk : Disk Slot)

/-- The disk after `source` has become `target`. -/
def moved (source target : Slot) : Disk Slot :=
  Function.update (Function.update disk source none) target (disk source)

/-- `source.rename(target)`. -/
def rename (source target : Slot) : Except Exn Unit × Disk Slot :=
  match disk source, disk target with
  | none, _ => (.error (.osError "No such file or directory"), disk)
  | some _, none => (.ok (), disk.moved source target)
  | some (.directory _), some (.directory []) => (.ok (), disk.moved source target)
  | some (.directory _), some (.directory _) => (.error (.osError "Directory not empty"), disk)
  | some (.directory _), some _ => (.error (.osError "Not a directory"), disk)
  | some _, some (.directory _) => (.error (.osError "Is a directory"), disk)
  | some _, some _ => (.ok (), disk.moved source target)

theorem rename_of_free {source target : Slot} {entry : Entry} (hsource : disk source = some entry)
    (htarget : disk target = none) :
    disk.rename source target = (.ok (), disk.moved source target) := by
  simp only [rename, hsource, htarget]

variable {source target : Slot}

@[simp] theorem moved_apply (slot : Slot) :
    disk.moved source target slot =
      if slot = target then disk source else if slot = source then none else disk slot := by
  rw [moved, Function.update_apply, Function.update_apply]

/-- A rename to a free name either moves the entry or leaves the disk alone. -/
theorem rename_cases (htarget : disk target = none) :
    (∃ entry, disk source = some entry ∧
        disk.rename source target = (.ok (), disk.moved source target)) ∨
      ∃ e, disk.rename source target = (.error e, disk) := by
  cases hsource : disk source with
  | none =>
      refine Or.inr ⟨.osError "No such file or directory", ?_⟩
      simp only [rename, hsource]
  | some entry => exact Or.inl ⟨entry, rfl, disk.rename_of_free hsource htarget⟩

end Disk

end CkbSail.PythonStd
