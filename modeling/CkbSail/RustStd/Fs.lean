import Mathlib.Logic.Function.Basic

/-!
# The file system

The kernel walks along a path name by name: a link is replaced by its target, and `..`
is taken from the directory reached.  `create_dir_all` and `write` change the tree where
such a walk leads.  Every file has one name; devices and pipes are left out.
-/

namespace CkbSail.RustStd.Fs

abbrev Name := List Char

/-- The names from the root down. -/
abbrev Place := List Name

inductive Node (α : Type) where
  | directory
  | file (contents : α)
  | symlink (target : List Char)

abbrev Tree (α : Type) := Place → Option (Node α)

def NOT_FOUND : String := "No such file or directory (os error 2)"

def FILE_EXISTS : String := "File exists (os error 17)"

def NOT_A_DIRECTORY : String := "Not a directory (os error 20)"

def IS_A_DIRECTORY : String := "Is a directory (os error 21)"

def TOO_MANY_LINKS : String := "Too many levels of symbolic links (os error 40)"

/-- How many links the kernel follows on one path. -/
def MAX_LINKS : Nat := 40

/-! ## Paths -/

/-- The names on a path. -/
def components (path : List Char) : List Name :=
  (path.splitOn '/').filter fun name => !name.isEmpty

/-- What the kernel walks along: a slash at the end asks for a directory. -/
def names (path : List Char) : List Name :=
  components path ++ if path.getLast? = some '/' then [['.']] else []

/-- Where the walk along a path starts. -/
def start (dir : Place) (path : List Char) : Place := if path.head? = some '/' then [] else dir

section Walk

variable {α : Type} (tree : Tree α)

/-- Walk from a directory up to the first link, which is left to `jump`. -/
def follow (fuel : Nat) (jump : Place → List Name → Except String (Place × Nat)) :
    Place → List Name → Except String (Place × Nat)
  | dir, [] => .ok (dir, fuel)
  | dir, name :: rest =>
      if name = ['.'] then follow fuel jump dir rest
      else if name = ['.', '.'] then follow fuel jump dir.dropLast rest
      else
        match tree (dir ++ [name]) with
        | some .directory => follow fuel jump (dir ++ [name]) rest
        | some (.symlink target) => jump (start dir target) (names target ++ rest)
        | some (.file _) =>
            if rest.isEmpty then .ok (dir ++ [name], fuel) else .error NOT_A_DIRECTORY
        | none => if rest.isEmpty then .ok (dir ++ [name], fuel) else .error NOT_FOUND

/-- Where a walk along names leads, and how many more links it could follow.  The last
name may be free. -/
def resolve : Nat → Place → List Name → Except String (Place × Nat)
  | 0 => follow tree 0 fun _ _ => .error TOO_MANY_LINKS
  | fuel + 1 => follow tree (fuel + 1) (resolve fuel)

/-- The directory a link leads to.  Where it leads to none, making one in its place fails. -/
def linkedDirectory (fuel : Nat) (dir : Place) (target : List Char) (last : Bool) :
    Except String (Place × Nat) :=
  match fuel with
  | 0 => .error (if last then FILE_EXISTS else TOO_MANY_LINKS)
  | fuel + 1 =>
      match resolve tree fuel (start dir target) (names target) with
      | .error e => .error (if last || e = NOT_FOUND then FILE_EXISTS else e)
      | .ok (place, left) =>
          match tree place with
          | some .directory => .ok (place, left)
          | some (.file _) => .error (if last then FILE_EXISTS else NOT_A_DIRECTORY)
          | _ => .error FILE_EXISTS

/-- Make the directories that are missing along names. -/
def makeDirs (fault : Place → Option String) :
    Nat → Place → List Name → Tree α → Except String Unit × Tree α
  | _, _, [], tree => (.ok (), tree)
  | fuel, dir, name :: rest, tree =>
      if name = ['.'] then makeDirs fault fuel dir rest tree
      else if name = ['.', '.'] then makeDirs fault fuel dir.dropLast rest tree
      else
        match tree (dir ++ [name]) with
        | some .directory => makeDirs fault fuel (dir ++ [name]) rest tree
        | some (.symlink target) =>
            match linkedDirectory tree fuel dir target rest.isEmpty with
            | .error e => (.error e, tree)
            | .ok (place, left) => makeDirs fault left place rest tree
        | some (.file _) => (.error (if rest.isEmpty then FILE_EXISTS else NOT_A_DIRECTORY), tree)
        | none =>
            match fault (dir ++ [name]) with
            | some e => (.error e, tree)
            | none =>
                makeDirs fault fuel (dir ++ [name]) rest
                  (Function.update tree (dir ++ [name]) (some .directory))

end Walk

/-! ## Disks -/

/-- What the host refuses beside what the tree rules out: a path for `create_dir_all`,
a directory on it, a path to open, and a write after so many bytes. -/
structure Faults where
  createDir : String → Option String
  mkdir : Place → Option String
  openFile : String → Option String
  write : Place → Option (Nat × String)

/-- A tree, the refusals of the host, which stay the same, and the files that were opened
for writing, the newest first. -/
structure Disk (α : Type) where
  faults : Faults
  workingDirectory : Place
  tree : Tree α
  written : List Place

namespace Disk

variable {α : Type}

/-- `std::fs::create_dir_all`. -/
def createDirAll (path : String) (disk : Disk α) : Except String Unit × Disk α :=
  match disk.faults.createDir path with
  | some fault => (.error fault, disk)
  | none =>
      let (result, tree) := makeDirs disk.faults.mkdir MAX_LINKS
        (start disk.workingDirectory path.toList) (components path.toList) disk.tree
      (result, { disk with tree := tree })

/-- Where a path leads, which may be free. -/
def leads (path : String) (disk : Disk α) : Except String Place :=
  (resolve disk.tree MAX_LINKS (start disk.workingDirectory path.toList)
    (names path.toList)).map Prod.fst

/-- The file that `File::create` opens. -/
def creates (path : String) (disk : Disk α) : Except String Place :=
  match disk.faults.openFile path with
  | some fault => .error fault
  | none =>
      match disk.leads path with
      | .error e => .error e
      | .ok place =>
          match disk.tree place with
          | some .directory => .error IS_A_DIRECTORY
          -- no walk ends at a link
          | some (.symlink _) => .error TOO_MANY_LINKS
          | some (.file _) | none => .ok place

/-- Open a file and leave these contents in it. -/
def put (place : Place) (contents : α) (disk : Disk α) : Disk α :=
  { disk with
    tree := Function.update disk.tree place (some (.file contents))
    written := place :: disk.written }

/-- `std::fs::write`: the old contents are gone as soon as the file is open, and a write
that breaks off leaves a first part of the new ones. -/
def write (path : String) (contents : α) (part : Nat → α) (disk : Disk α) :
    Except String Unit × Disk α :=
  match disk.creates path with
  | .error e => (.error e, disk)
  | .ok place =>
      match disk.faults.write place with
      | some (length, fault) => (.error fault, disk.put place (part length))
      | none => (.ok (), disk.put place contents)

end Disk

end CkbSail.RustStd.Fs
