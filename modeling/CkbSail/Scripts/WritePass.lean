import CkbSail.PythonStd.ParentSteps
import CkbSail.Scripts.ReleaseCommon

/-!
# Writing checked members

The evidence scripts check all members of an archive first and then write them
in a second loop over the same archive, each as a new file.
-/

namespace CkbSail.Scripts.ReleaseCommon

open PythonStd ProofSupport

/-! ## The first loop -/

/-- `any(path.is_symlink() for path in paths)`. -/
def anyLink : List Path → FileProgram Bool
  | [] => pure false
  | path :: paths => do
      if ← settled path isSymlink then pure true else anyLink paths

/-- `path.exists() or path.is_symlink()`. -/
def occupied (path : Path) : FileProgram Bool := do
  if ← settled path pathExists then pure true else settled path isSymlink

/-- `[p for p in path.parents if p.is_relative_to(base)]`. -/
def parentsBelow (base path : Path) : List Path :=
  path.inits.dropLast.reverse.filter fun place => base.isPrefixOf place

/-! ## The second loop -/

/-- `0o755 if member.mode & 0o100 else 0o644`. -/
def givenMode (mode : Int) : Nat := if mode / 0o100 % 2 = 1 then 0o755 else 0o644

/-- The body of the loop.  `tar.extractfile` has no stream for a directory. -/
def writeMember (host : FileHost) (unreadable : String) (path : Path) (item : Member) :
    FileProgram Unit := do
  makeParents host true path.dropLast
  if item.type = .directory then .raise (.runtimeError unreadable)
  else
    settled path (openNew host)
    settled path fun target => writeBlocks target item.content.stop item.content.blocks
    settled path fun target => chmod host target (givenMode item.mode)

def writeMembers (host : FileHost) (unreadable : String) : List (Path × Member) → FileProgram Unit
  | [] => pure ()
  | (path, item) :: rest => do
      writeMember host unreadable path item
      writeMembers host unreadable rest

end CkbSail.Scripts.ReleaseCommon
