import CkbSail.ProofSupport.ExactRun
import CkbSail.PythonStd.FileTree

/-!
# Operations on a file system

In a file system every node lies in a directory.  On a path without links the
tree then decides how each operation ends.
-/

namespace CkbSail.PythonStd

open ProofSupport

variable {α : Type}

/-- A null byte cannot be passed to the operating system. -/
def hasNul (path : Path) : Bool := path.any fun part => part.toList.contains '\x00'

structure FileSystem (tree : Tree) : Prop where
  root : tree [] = some .directory
  parent : ∀ path name, tree (path ++ [name]) ≠ none → tree path = some .directory
  named : ∀ path, hasNul path = true → tree path = none

/-- How a program ends on a tree, and with which tree. -/
abbrev Does (program : FileProgram α) (tree : Tree) (result : Except Exn α) (tree' : Tree) : Prop :=
  Ends Machine.tree program tree result tree'

/-! ## Where a path stops -/

theorem hasNul_append (path rest : Path) : hasNul (path ++ rest) = (hasNul path || hasNul rest) :=
  List.any_append

theorem Directories.initial {tree : Tree} {path place : Path} (h : Directories tree path)
    (hplace : place <+: path) : Directories tree place :=
  fun _ hbelow => h _ (hbelow.trans hplace)

theorem directories_snoc {tree : Tree} {path : Path} {name : String} :
    Directories tree (path ++ [name]) ↔
      Directories tree path ∧ tree (path ++ [name]) = some .directory := by
  constructor
  · exact fun h => ⟨h.initial (List.prefix_append _ _), h _ (List.prefix_refl _)⟩
  · rintro ⟨hpath, hname⟩ place hplace
    rcases List.prefix_concat_iff.1 hplace with rfl | hplace
    · exact hname
    · exact hpath place hplace

theorem unlinked_snoc {tree : Tree} {path : Path} {name : String} :
    Unlinked tree (path ++ [name]) ↔
      Unlinked tree path ∧ ∀ target, tree (path ++ [name]) ≠ some (.symlink target) := by
  constructor
  · exact fun h => ⟨h.initial (List.prefix_append _ _), h _ (List.prefix_refl _)⟩
  · rintro ⟨hpath, hname⟩ place hplace
    rcases List.prefix_concat_iff.1 hplace with rfl | hplace
    · exact hname
    · exact hpath place hplace

theorem Directories.unlinked {tree : Tree} {path : Path} (h : Directories tree path) :
    Unlinked tree path := by
  intro place hplace target htarget
  rw [h place hplace] at htarget
  cases htarget

namespace FileSystem

variable {tree : Tree} {path rest : Path}

theorem below (h : FileSystem tree) (hrest : rest ≠ []) (hnode : tree (path ++ rest) ≠ none) :
    tree path = some .directory := by
  induction rest using List.reverseRecOn with
  | nil => exact absurd rfl hrest
  | append_singleton front name ih =>
      rw [← List.append_assoc] at hnode
      have hfront := h.parent _ name hnode
      by_cases hnil : front = []
      · rw [← hfront, hnil, List.append_nil]
      · refine ih hnil ?_
        rw [hfront]
        exact Option.some_ne_none _

theorem eq_none_below (h : FileSystem tree) (hpath : tree path ≠ some .directory)
    (hrest : rest ≠ []) : tree (path ++ rest) = none := by
  by_contra hnode
  exact hpath (h.below hrest hnode)

theorem directories (h : FileSystem tree) (hpath : tree path = some .directory) :
    Directories tree path := by
  rintro place ⟨rest, rfl⟩
  by_cases hrest : rest = []
  · rw [← hpath, hrest, List.append_nil]
  · refine h.below hrest ?_
    rw [hpath]
    exact Option.some_ne_none _

theorem directories_dropLast (h : FileSystem tree) (hpath : tree path ≠ none) :
    Directories tree path.dropLast := by
  rcases List.eq_nil_or_concat path with rfl | ⟨front, name, rfl⟩
  · exact h.directories h.root
  · rw [List.concat_eq_append] at hpath ⊢
    rw [List.dropLast_concat]
    exact h.directories (h.parent _ _ hpath)

/-- A path leads to a directory, or stops at the first component that is none. -/
theorem directories_or_stop (h : FileSystem tree) (path : Path) :
    Directories tree path ∨ ∃ front name rest, path = front ++ name :: rest ∧
      Directories tree front ∧ tree (front ++ [name]) ≠ some .directory := by
  induction path using List.reverseRecOn with
  | nil => exact Or.inl (h.directories h.root)
  | append_singleton path name ih =>
      rcases ih with hpath | ⟨front, stop, rest, rfl, hfront, hstop⟩
      · by_cases hname : tree (path ++ [name]) = some .directory
        · exact Or.inl (directories_snoc.2 ⟨hpath, hname⟩)
        · exact Or.inr ⟨path, name, [], rfl, hpath, hname⟩
      · exact Or.inr ⟨front, stop, rest ++ [name], by simp, hfront, hstop⟩

theorem hasNul_eq_false (h : FileSystem tree) (hpath : tree path ≠ none) : hasNul path = false := by
  by_contra hnul
  exact hpath (h.named path (by simpa using hnul))

end FileSystem

/-! ## Resolution -/

/-- Why a path ends before its last component. -/
def stopError : Option Inode → Exn
  | none => .fileNotFound
  | some _ => .notADirectory

theorem walk_append {tree : Tree} {last : Bool} {fuel : Nat} {walked front rest : Path}
    {log : List Path} (h : Directories tree (walked ++ front)) :
    walk tree last fuel walked (front ++ rest) log =
      walk tree last fuel (walked ++ front) rest log := by
  induction front generalizing walked with
  | nil => rw [List.append_nil, List.nil_append]
  | cons name front ih =>
      have happend : walked ++ name :: front = walked ++ [name] ++ front := by simp
      rw [happend] at h ⊢
      have hname := h (walked ++ [name]) (List.prefix_append _ _)
      rw [List.cons_append, walk, hname]
      exact ih h

theorem walk_through {tree : Tree} {last : Bool} {fuel : Nat} {path : Path} {log : List Path}
    (h : Directories tree path) : walk tree last fuel [] path log = (.ok path, log) := by
  have hwalk : walk tree last fuel [] (path ++ []) log = walk tree last fuel path [] log :=
    walk_append h
  rw [List.append_nil] at hwalk
  rw [hwalk, walk]

/-- Resolution ends where something else than a directory or a link stands. -/
theorem walk_stop {tree : Tree} {last : Bool} {fuel : Nat} {front rest : Path} {name : String}
    {log : List Path} (hfront : Directories tree front)
    (hunlinked : ∀ target, tree (front ++ [name]) ≠ some (.symlink target))
    (hstop : tree (front ++ [name]) ≠ some .directory) :
    walk tree last fuel [] (front ++ name :: rest) log =
      if rest = [] then (.ok (front ++ [name]), log)
      else (.error (stopError (tree (front ++ [name]))), log) := by
  have hwalk : walk tree last fuel [] (front ++ name :: rest) log =
      walk tree last fuel front (name :: rest) log := walk_append hfront
  rw [hwalk, walk]
  cases hnode : tree (front ++ [name]) with
  | none => simp [stopError]
  | some node =>
      cases node with
      | directory => exact absurd hnode hstop
      | symlink target => exact absurd hnode (hunlinked target)
      | file links bytes mode => simp [stopError]
      | special => simp [stopError]

section Resolution

variable {m : Machine} {path : Path}

/-- A look finds the node of a path itself. -/
theorem look_eq (hsystem : FileSystem m.tree) (hunlinked : Unlinked m.tree path) (last : Bool) :
    m.look last path = (m.tree path, m) := by
  rcases hsystem.directories_or_stop path with hpath | ⟨front, name, rest, rfl, hfront, hstop⟩
  · rw [Machine.look, walk_through hpath]
  · have hname : ∀ target, m.tree (front ++ [name]) ≠ some (.symlink target) :=
      hunlinked _ ⟨rest, by simp⟩
    rw [Machine.look, walk_stop hfront hname hstop]
    by_cases hrest : rest = []
    · rw [if_pos hrest, hrest]
    · have hnone := hsystem.eq_none_below hstop hrest
      rw [List.append_assoc, List.singleton_append] at hnone
      rw [if_neg hrest, hnone]

/-- Where a look ends does not depend on the links followed before. -/
theorem walk_fst (tree : Tree) (last : Bool) (fuel : Nat) (walked todo : Path)
    (log log' : List Path) :
    (walk tree last fuel walked todo log).1 = (walk tree last fuel walked todo log').1 := by
  fun_induction walk tree last fuel walked todo log generalizing log' with
  | case1 => rw [walk]
  | case2 fuel walked log name rest target hlink hend =>
      rw [walk]
      simp only [hlink, hend, if_true]
  | case3 walked log name rest target hlink hgo =>
      rw [walk]
      simp only [hlink, hgo, Bool.false_eq_true, if_false]
  | case4 walked log name rest target hlink hgo fuel ih =>
      rw [walk]
      simp only [hlink, hgo, Bool.false_eq_true, if_false]
      exact ih _
  | case5 fuel walked log name rest hdirectory ih =>
      rw [walk]
      simp only [hdirectory]
      exact ih _
  | case6 fuel walked log name rest node hnode hlink hdirectory hend =>
      rw [walk]
      simp_all
  | case7 fuel walked log name rest node hnode hlink hdirectory hend =>
      rw [walk]
      simp_all
  | case8 fuel walked log name rest hnone hend =>
      rw [walk]
      simp only [hnone, hend, if_true]
  | case9 fuel walked log name rest hnone hend =>
      rw [walk]
      simp only [hnone, hend, Bool.false_eq_true, if_false]

/-- What stands at a path, by the tree alone. -/
def found (tree : Tree) (last : Bool) (path : Path) : Option Inode := (Machine.look ⟨tree, []⟩ last path).1

theorem look_fst (last : Bool) : (m.look last path).1 = found m.tree last path := by
  rw [found, Machine.look, Machine.look]
  simp only [walk_fst m.tree last MAX_LINKS [] path m.followed []]

theorem operate_stop {last : Bool} {front rest : Path} {name : String}
    {operation : Option Inode → Except Exn (Option Inode)} (hfront : Directories m.tree front)
    (hunlinked : ∀ target, m.tree (front ++ [name]) ≠ some (.symlink target))
    (hstop : m.tree (front ++ [name]) ≠ some .directory) (hrest : rest ≠ []) :
    m.operate last (front ++ name :: rest) operation =
      (.error (stopError (m.tree (front ++ [name]))), m) := by
  rw [Machine.operate, walk_stop hfront hunlinked hstop, if_neg hrest]

end Resolution

/-! ## How operations end -/

section Outcomes

variable {host : FileHost} {tree : Tree} {path : Path}

theorem does_isDir (hsystem : FileSystem tree) (hunlinked : Unlinked tree path) :
    Does (isDir path) tree (.ok (isDirectory (tree path))) tree := by
  refine .query fun m hm => ?_
  subst hm
  rw [look_eq hsystem hunlinked]
  exact ⟨rfl, rfl⟩

section SystemCall

variable {last : Bool} {operation : Option Inode → Except Exn (Option Inode)}

theorem does_systemCall_fault {e : Exn} :
    Does (systemCall (some e) last path operation) tree (.error e) tree :=
  fun _ hm => ⟨rfl, hm⟩

theorem does_systemCall {node : Option Inode} (hparent : Directories tree path.dropLast)
    (hunlinked : Unlinked tree path) (hdo : operation (tree path) = .ok node) :
    Does (systemCall none last path operation) tree (.ok ())
      (Function.update tree path node) := by
  rintro m rfl
  simp only [systemCall, Program.perform, operate_directories operation hunlinked hparent, hdo]
  exact ⟨trivial, trivial⟩

theorem does_systemCall_error {e : Exn} (hparent : Directories tree path.dropLast)
    (hunlinked : Unlinked tree path) (hdo : operation (tree path) = .error e) :
    Does (systemCall none last path operation) tree (.error e) tree := by
  rintro m rfl
  simp only [systemCall, Program.perform, operate_directories operation hunlinked hparent, hdo]
  exact ⟨trivial, trivial⟩

theorem does_systemCall_stop {front rest : Path} {name : String} (hfront : Directories tree front)
    (hunlinked : ∀ target, tree (front ++ [name]) ≠ some (.symlink target))
    (hstop : tree (front ++ [name]) ≠ some .directory) (hrest : rest ≠ []) :
    Does (systemCall none last (front ++ name :: rest) operation) tree
      (.error (stopError (tree (front ++ [name])))) tree := by
  rintro m rfl
  simp only [systemCall, Program.perform, operate_stop hfront hunlinked hstop hrest]
  exact ⟨trivial, trivial⟩

end SystemCall

theorem unlinked_of_free (hparent : Directories tree path.dropLast) (hfree : tree path = none) :
    Unlinked tree path := by
  intro place hplace target htarget
  rcases eq_or_prefix_dropLast hplace with rfl | hplace
  · rw [hfree] at htarget
    cases htarget
  · rw [hparent place hplace] at htarget
    cases htarget

theorem does_osMkdir (hfault : host.mkdirFault path = none)
    (hparent : Directories tree path.dropLast) (hfree : tree path = none) :
    Does (osMkdir host path) tree (.ok ()) (Function.update tree path (some .directory)) := by
  rw [osMkdir, hfault]
  exact does_systemCall hparent (unlinked_of_free hparent hfree) (by rw [hfree, makeNew])

theorem does_osMkdir_there (hfault : host.mkdirFault path = none)
    (hparent : Directories tree path.dropLast) (hunlinked : Unlinked tree path)
    (hthere : tree path ≠ none) : Does (osMkdir host path) tree (.error .fileExists) tree := by
  rw [osMkdir, hfault]
  refine does_systemCall_error hparent hunlinked ?_
  cases hnode : tree path with
  | none => exact absurd hnode hthere
  | some node => rw [makeNew]

theorem does_orDirectory {e : Exn} (hsystem : FileSystem tree)
    (hpath : tree path = some .directory) : Does (orDirectory true path e) tree (.ok ()) tree := by
  have hdirectory := does_isDir hsystem (hsystem.directories hpath).unlinked
  rw [hpath] at hdirectory
  exact hdirectory.bind_ok .pure

theorem does_orDirectory_error {existOk : Bool} {e : Exn} (hsystem : FileSystem tree)
    (hunlinked : Unlinked tree path) (hpath : tree path ≠ some .directory) :
    Does (orDirectory existOk path e) tree (.error e) tree := by
  have hdirectory : isDirectory (tree path) = false := by
    cases hnode : tree path with
    | none => rfl
    | some node =>
        cases node with
        | directory => exact absurd hnode hpath
        | file links bytes mode => rfl
        | symlink target => rfl
        | special => rfl
  cases existOk with
  | false => exact .raise
  | true =>
      have hdoes := does_isDir hsystem hunlinked
      rw [hdirectory] at hdoes
      exact hdoes.bind_ok .raise

end Outcomes

end CkbSail.PythonStd
