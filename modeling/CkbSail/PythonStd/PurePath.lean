import CkbSail.ProofSupport.SplitOn
import CkbSail.PythonStd.Files

/-!
# Names as pure paths

`PurePosixPath` drops empty components and components `.` from a name.
-/

namespace CkbSail.PythonStd

/-- `name.split("/")`. -/
def split (name : String) : List String := (name.toList.splitOn '/').map String.ofList

/-- `"/".join(path)`. -/
def join (path : Path) : String := String.ofList (['/'].intercalate (path.map String.toList))

/-- `PurePosixPath(name).parts` of a relative name. -/
def parts (name : String) : Path := (split name).filter fun part => part ≠ "" && part ≠ "."

def isAbsolute (name : String) : Bool := name.toList.head? = some '/'

/-- `PurePosixPath(name).as_posix()` of a relative name. -/
def asPosix (name : String) : String :=
  let text := join (parts name)
  if text = "" then "." else text

/-- `name.rstrip("/")`. -/
def rstripSlash (name : String) : String :=
  String.ofList (name.toList.reverse.dropWhile (· = '/')).reverse

/-- The paths above a relative path, without the one above all. -/
def ancestors (path : Path) : List Path :=
  path.inits.filter fun place => place ≠ path && place ≠ []

theorem asPosix_eq (name : String) :
    asPosix name = if join (parts name) = "" then "." else join (parts name) := rfl

theorem join_split (name : String) : join (split name) = name := by
  have hmap : (split name).map String.toList = name.toList.splitOn '/' := by
    simp [split, Function.comp_def]
  rw [join, hmap, List.intercalate_splitOn, String.ofList_toList]

theorem split_injective {name name' : String} (h : split name = split name') : name = name' := by
  rw [← join_split name, h, join_split]

theorem split_ne_nil (name : String) : split name ≠ [] := by
  simp [split]

theorem slash_notMem_of_mem_split {name part : String} (h : part ∈ split name) :
    '/' ∉ part.toList := by
  obtain ⟨chars, hchars, rfl⟩ := List.mem_map.1 h
  rw [String.toList_ofList]
  exact ProofSupport.notMem_of_mem_splitOn hchars

theorem mem_of_mem_split {name part : String} (h : part ∈ split name) {c : Char}
    (hc : c ∈ part.toList) : c ∈ name.toList := by
  obtain ⟨chars, hchars, rfl⟩ := List.mem_map.1 h
  rw [String.toList_ofList] at hc
  exact ProofSupport.mem_of_mem_splitOn hchars hc

theorem split_join {path : Path} (hpath : path ≠ []) (h : ∀ part ∈ path, '/' ∉ part.toList) :
    split (join path) = path := by
  rw [split, join, String.toList_ofList, List.splitOn_intercalate]
  · simp [Function.comp_def]
  · intro chars hchars
    obtain ⟨part, hpart, rfl⟩ := List.mem_map.1 hchars
    exact h part hpart
  · simpa using hpath

theorem mem_ancestors {path place : Path} :
    place ∈ ancestors path ↔ place <+: path ∧ place ≠ path ∧ place ≠ [] := by
  simp [ancestors, List.mem_inits]

end CkbSail.PythonStd
