import CkbSail.PythonStd.Files
import Mathlib.Data.List.Infix
import Mathlib.Data.List.Induction
import Mathlib.Tactic.SplitIfs

/-!
# A tree of files with symbolic links

The operating system finds a path by following the links on its way.  A machine
holds the nodes by absolute path and the links that were followed, so that
following none can be said.
-/

namespace CkbSail.PythonStd

open ProofSupport

/-- The target of a link is an absolute path. -/
inductive Inode where
  | directory
  | file (links : Nat) (bytes : List UInt8) (mode : Nat)
  | symlink (target : Path)
  | special
deriving DecidableEq, Repr

abbrev Tree := Path → Option Inode

structure Machine where
  tree : Tree
  followed : List Path

def Exn.fileNotFound : Exn := ⟨"FileNotFoundError", "No such file or directory"⟩

def Exn.fileExists : Exn := ⟨"FileExistsError", "File exists"⟩

def Exn.notADirectory : Exn := ⟨"NotADirectoryError", "Not a directory"⟩

def Exn.tooManyLinks : Exn := .osError "Too many levels of symbolic links"

/-! ## Path resolution -/

/-- Walk down the components `todo` from the directory `walked`.  A link on the way is
followed, as often as `fuel` allows; one at the end only if `last` says so. -/
def walk (tree : Tree) (last : Bool) (fuel : Nat) (walked todo : Path) (followed : List Path) :
    Except Exn Path × List Path :=
  match todo with
  | [] => (.ok walked, followed)
  | name :: rest =>
      match tree (walked ++ [name]) with
      | some (.symlink target) =>
          if rest.isEmpty && !last then (.ok (walked ++ [name]), followed)
          else match fuel with
            | 0 => (.error .tooManyLinks, followed)
            | fuel + 1 => walk tree last fuel [] (target ++ rest) (followed ++ [walked ++ [name]])
      | some .directory => walk tree last fuel (walked ++ [name]) rest followed
      | some _ =>
          if rest.isEmpty then (.ok (walked ++ [name]), followed)
          else (.error .notADirectory, followed)
      | none =>
          if rest.isEmpty then (.ok (walked ++ [name]), followed)
          else (.error .fileNotFound, followed)
termination_by (fuel, todo.length)

def MAX_LINKS : Nat := 40

namespace Machine

variable (m : Machine)

/-- The node at a path, if resolution finds one, and the machine that looked for it. -/
def look (last : Bool) (path : Path) : Option Inode × Machine :=
  let (found, followed) := walk m.tree last MAX_LINKS [] path m.followed
  (match found with
    | .ok place => m.tree place
    | .error _ => none,
    { m with followed := followed })

/-- An operation on the node a path leads to. -/
def operate (last : Bool) (path : Path) (operation : Option Inode → Except Exn (Option Inode)) :
    Except Exn Unit × Machine :=
  let (found, followed) := walk m.tree last MAX_LINKS [] path m.followed
  match found with
  | .error e => (.error e, { m with followed := followed })
  | .ok place =>
      match operation (m.tree place) with
      | .error e => (.error e, { m with followed := followed })
      | .ok node => (.ok (), { tree := Function.update m.tree place node, followed := followed })

end Machine

/-! ## Operations -/

/-- What the host makes fail, and the mode of new files. -/
structure FileHost where
  mkdirFault : Path → Option Exn
  openFault : Path → Option Exn
  chmodFault : Path → Option Exn
  newFileMode : Nat

abbrev FileProgram (α : Type) := Program Machine Exn α

def isLink : Option Inode → Bool
  | some (.symlink _) => true
  | _ => false

def isDirectory : Option Inode → Bool
  | some .directory => true
  | _ => false

/-- `path.is_symlink()`. -/
def isSymlink (path : Path) : FileProgram Bool :=
  .query fun m => (isLink (m.look false path).1, (m.look false path).2)

/-- `path.is_dir()`. -/
def isDir (path : Path) : FileProgram Bool :=
  .query fun m => (isDirectory (m.look true path).1, (m.look true path).2)

/-- `path.exists()`. -/
def pathExists (path : Path) : FileProgram Bool :=
  .query fun m => ((m.look true path).1.isSome, (m.look true path).2)

/-- `any(p.is_symlink() for p in paths)`. -/
def anySymlink : List Path → FileProgram Bool
  | [] => pure false
  | path :: paths => do
      if ← isSymlink path then pure true else anySymlink paths

/-- `(path, *path.parents)`. -/
def withParents (path : Path) : List Path := path.inits.reverse

/-- A system call on a path, unless the host makes it fail. -/
def systemCall (fault : Option Exn) (last : Bool) (path : Path)
    (operation : Option Inode → Except Exn (Option Inode)) : FileProgram Unit :=
  .perform fun m =>
    match fault with
    | some e => (.error e, m)
    | none => m.operate last path operation

/-- A node made where there is none. -/
def makeNew (made : Inode) : Option Inode → Except Exn (Option Inode)
  | none => .ok (some made)
  | some _ => .error .fileExists

def extend (block : List UInt8) : Option Inode → Except Exn (Option Inode)
  | some (.file links bytes mode) => .ok (some (.file links (bytes ++ block) mode))
  | _ => .error (.osError "Bad file descriptor")

def setMode (mode : Nat) : Option Inode → Except Exn (Option Inode)
  | some (.file links bytes _) => .ok (some (.file links bytes mode))
  | some node => .ok (some node)
  | none => .error .fileNotFound

section Operations

variable (host : FileHost)

/-- `os.mkdir(path)`. -/
def osMkdir (path : Path) : FileProgram Unit :=
  systemCall (host.mkdirFault path) false path (makeNew .directory)

/-- What `mkdir` does about an error other than a missing parent. -/
def orDirectory (existOk : Bool) (path : Path) (e : Exn) : FileProgram Unit := do
  if existOk then
    if ← isDir path then pure () else .raise e
  else .raise e

/-- `path.mkdir(exist_ok=existOk)`. -/
def mkdir (existOk : Bool) (path : Path) : FileProgram Unit :=
  .handle (osMkdir host path) fun e =>
    if e.typeName = "FileNotFoundError" then .raise e else orDirectory existOk path e

/-- `path.mkdir(parents=True, exist_ok=existOk)`. -/
def mkdirParents (existOk : Bool) (path : Path) : FileProgram Unit :=
  .handle (osMkdir host path) fun e =>
    if e.typeName = "FileNotFoundError" then
      if _hroot : path = [] then .raise e
      else do
        mkdirParents true path.dropLast
        mkdir host existOk path
    else orDirectory existOk path e
termination_by path.length
decreasing_by
  rw [List.length_dropLast]
  have := List.length_pos_iff.2 _hroot
  omega

/-- `path.open("xb")`. -/
def openNew (path : Path) : FileProgram Unit :=
  systemCall (host.openFault path) false path (makeNew (.file 1 [] host.newFileMode))

/-- A write to the file just opened at a path. -/
def append (path : Path) (block : List UInt8) : FileProgram Unit :=
  systemCall none false path (extend block)

/-- `path.chmod(mode)`. -/
def chmod (path : Path) (mode : Nat) : FileProgram Unit :=
  systemCall (host.chmodFault path) true path (setMode mode)

end Operations

/-! ## Paths without links -/

/-- No link stands on the way to a path, nor at its end. -/
def Unlinked (tree : Tree) (path : Path) : Prop :=
  ∀ place, place <+: path → ∀ target, tree place ≠ some (.symlink target)

theorem Unlinked.initial {tree : Tree} {path place : Path} (h : Unlinked tree path)
    (hplace : place <+: path) : Unlinked tree place :=
  fun _ hbelow => h _ (hbelow.trans hplace)

/-- Resolution follows nothing on such a path, and finds only the path itself. -/
theorem walk_unlinked (tree : Tree) (last : Bool) (fuel : Nat) (walked todo : Path)
    (log : List Path) (h : Unlinked tree (walked ++ todo)) :
    (walk tree last fuel walked todo log).2 = log ∧
      ∀ place, (walk tree last fuel walked todo log).1 = .ok place → place = walked ++ todo := by
  induction todo generalizing walked with
  | nil =>
      rw [walk]
      refine ⟨rfl, fun place hplace => ?_⟩
      rw [List.append_nil]
      exact (Except.ok.inj hplace).symm
  | cons name rest ih =>
      have happend : walked ++ name :: rest = walked ++ [name] ++ rest := by simp
      have hnode := h (walked ++ [name]) (happend ▸ List.prefix_append _ _)
      rw [happend] at h ⊢
      rw [walk]
      split
      · exact absurd ‹_› (hnode _)
      · exact ih _ h
      all_goals
        split_ifs with hrest
        · refine ⟨rfl, fun place hplace => ?_⟩
          rw [List.isEmpty_iff.1 hrest, List.append_nil]
          exact (Except.ok.inj hplace).symm
        · exact ⟨rfl, fun place hplace => by cases hplace⟩

section Unlinked

variable {m : Machine} {path : Path}

theorem look_unlinked (last : Bool) (h : Unlinked m.tree path) : (m.look last path).2 = m := by
  have hwalk := (walk_unlinked m.tree last MAX_LINKS [] path m.followed h).1
  simp only [Machine.look, hwalk]

theorem look_eq_none_or (last : Bool) (h : Unlinked m.tree path) :
    (m.look last path).1 = none ∨ (m.look last path).1 = m.tree path := by
  obtain ⟨-, hplace⟩ := walk_unlinked m.tree last MAX_LINKS [] path m.followed h
  cases hwalk : (walk m.tree last MAX_LINKS [] path m.followed).1 with
  | error e => exact Or.inl (by simp only [Machine.look, hwalk])
  | ok place =>
      have hsame : place = path := hplace place hwalk
      exact Or.inr (by simp only [Machine.look, hwalk, hsame])

theorem isLink_look (h : Unlinked m.tree path) : isLink (m.look false path).1 = false := by
  rcases look_eq_none_or false h with hnone | hnode
  · rw [hnone]
    rfl
  · rw [hnode]
    have hlink := h path (List.prefix_refl path)
    cases htree : m.tree path with
    | none => rfl
    | some node =>
        cases node with
        | directory => rfl
        | file links bytes mode => rfl
        | symlink target => exact absurd htree (hlink target)
        | special => rfl

/-- An operation there fails, or changes the node of the path itself. -/
theorem operate_cases (last : Bool) (operation : Option Inode → Except Exn (Option Inode))
    (h : Unlinked m.tree path) :
    (∃ e, m.operate last path operation = (.error e, m)) ∨
      ∃ node, operation (m.tree path) = .ok node ∧
        m.operate last path operation =
          (.ok (), { m with tree := Function.update m.tree path node }) := by
  obtain ⟨hlog, hplace⟩ := walk_unlinked m.tree last MAX_LINKS [] path m.followed h
  cases hwalk : (walk m.tree last MAX_LINKS [] path m.followed).1 with
  | error e => exact Or.inl ⟨e, by simp only [Machine.operate, hwalk, hlog]⟩
  | ok place =>
      have hsame : place = path := hplace place hwalk
      cases hnode : operation (m.tree path) with
      | error e =>
          exact Or.inl ⟨e, by simp only [Machine.operate, hwalk, hlog, hsame, hnode]⟩
      | ok node =>
          exact Or.inr ⟨node, rfl, by simp only [Machine.operate, hwalk, hlog, hsame, hnode]⟩

end Unlinked

/-! ## Operations on paths without links -/

section Triples

variable {host : FileHost} {E : Exn → Machine → Prop} {A P : Machine → Prop} {path : Path}

theorem isSymlink_spec (hunlinked : ∀ m, P m → Unlinked m.tree path) (hvisit : ∀ m, P m → A m) :
    Triple E A P (isSymlink path) fun linked m => P m ∧ linked = false :=
  .query fun m hm => by
    simp only [look_unlinked _ (hunlinked m hm)]
    exact ⟨⟨hm, isLink_look (hunlinked m hm)⟩, hvisit m hm⟩

theorem isDir_spec (hunlinked : ∀ m, P m → Unlinked m.tree path) (hvisit : ∀ m, P m → A m) :
    Triple E A P (isDir path) fun _ => P :=
  .query fun m hm => by
    simp only [look_unlinked _ (hunlinked m hm)]
    exact ⟨hm, hvisit m hm⟩

theorem pathExists_spec (hunlinked : ∀ m, P m → Unlinked m.tree path) (hvisit : ∀ m, P m → A m) :
    Triple E A P (pathExists path) fun present m =>
      P m ∧ (present = true → m.tree path ≠ none) := by
  refine .query fun m hm => ?_
  rw [look_unlinked _ (hunlinked m hm)]
  refine ⟨⟨hm, fun hpresent hnone => ?_⟩, hvisit m hm⟩
  rcases look_eq_none_or true (hunlinked m hm) with hlook | hlook
  · rw [hlook] at hpresent
    cases hpresent
  · rw [hlook, hnone] at hpresent
    cases hpresent

theorem anySymlink_spec {paths : List Path}
    (hunlinked : ∀ m, P m → ∀ path ∈ paths, Unlinked m.tree path) (hvisit : ∀ m, P m → A m) :
    Triple E A P (anySymlink paths) fun linked m => P m ∧ linked = false := by
  induction paths with
  | nil => exact .pure fun m hm => ⟨hm, rfl⟩
  | cons path paths ih =>
      refine .bind (isSymlink_spec (fun _ hm => hunlinked _ hm path List.mem_cons_self) hvisit)
        fun linked => .assume fun hlinked => ?_
      rw [hlinked]
      exact ih fun m hm place hplace => hunlinked m hm place (List.mem_cons_of_mem _ hplace)

theorem orDirectory_spec {existOk : Bool} {e : Exn}
    (hunlinked : ∀ m, P m → Unlinked m.tree path) (herror : ∀ m e, P m → E e m)
    (hvisit : ∀ m, P m → A m) : Triple E A P (orDirectory existOk path e) fun _ => P :=
  .ite (fun _ => .bind (isDir_spec hunlinked hvisit) fun _ =>
      .ite (fun _ => .pure fun _ hm => hm) fun _ => .raise fun m hm => herror m e hm)
    fun _ => .raise fun m hm => herror m e hm

/-- A system call changes the node of its path or nothing. -/
theorem systemCall_spec {fault : Option Exn} {last : Bool} {Q : Machine → Prop}
    {operation : Option Inode → Except Exn (Option Inode)}
    (hunlinked : ∀ m, P m → Unlinked m.tree path) (herror : ∀ m e, P m → E e m)
    (hstay : ∀ m, P m → A m)
    (hdo : ∀ m node, P m → operation (m.tree path) = .ok node →
      Q { m with tree := Function.update m.tree path node } ∧
        A { m with tree := Function.update m.tree path node }) :
    Triple E A P (systemCall fault last path operation) fun _ => Q := by
  cases fault with
  | some e =>
      exact .perform (fun m _ h => by cases h) (fun m e hm _ => herror m e hm) hstay
  | none =>
      refine .perform (fun m hm hok => ?_) (fun m e hm hbad => ?_) fun m hm => ?_
      · rcases operate_cases last operation (hunlinked m hm) with ⟨e, hrun⟩ | ⟨node, hnode, hrun⟩
        · simp only [hrun] at hok
          cases hok
        · simp only [hrun]
          exact (hdo m node hm hnode).1
      · rcases operate_cases last operation (hunlinked m hm) with ⟨e', hrun⟩ | ⟨node, hnode, hrun⟩
        · simp only [hrun]
          exact herror m e hm
        · simp only [hrun] at hbad
          cases hbad
      · rcases operate_cases last operation (hunlinked m hm) with ⟨e, hrun⟩ | ⟨node, hnode, hrun⟩
        · simp only [hrun]
          exact hstay m hm
        · simp only [hrun]
          exact (hdo m node hm hnode).2

theorem makeNew_eq_ok {made : Inode} {node node' : Option Inode} :
    makeNew made node = .ok node' ↔ node = none ∧ node' = some made := by
  cases node with
  | none => simp [makeNew, eq_comm]
  | some _ => simp [makeNew]

theorem osMkdir_spec (hunlinked : ∀ m, P m → Unlinked m.tree path)
    (herror : ∀ m e, P m → E e m) (hvisit : ∀ m, P m → A m)
    (hmake : ∀ m, P m → m.tree path = none →
      P { m with tree := Function.update m.tree path (some .directory) }) :
    Triple E A P (osMkdir host path) fun _ => P := by
  refine systemCall_spec hunlinked herror hvisit fun m node hm hnode => ?_
  obtain ⟨hfree, rfl⟩ := makeNew_eq_ok.1 hnode
  exact ⟨hmake m hm hfree, hvisit _ (hmake m hm hfree)⟩

theorem mkdir_spec {existOk : Bool} (hunlinked : ∀ m, P m → Unlinked m.tree path)
    (herror : ∀ m e, P m → E e m) (hvisit : ∀ m, P m → A m)
    (hmake : ∀ m, P m → m.tree path = none →
      P { m with tree := Function.update m.tree path (some .directory) }) :
    Triple E A P (mkdir host existOk path) fun _ => P :=
  .handle (osMkdir_spec hunlinked (fun _ _ hm => hm) hvisit hmake) fun e =>
    .ite (fun _ => .raise fun m hm => herror m e hm) fun _ =>
      orDirectory_spec hunlinked herror hvisit

/-- `mkdir(parents=True)` makes directories on the way to its path only. -/
theorem mkdirParents_spec {existOk : Bool} (hunlinked : ∀ m, P m → Unlinked m.tree path)
    (herror : ∀ m e, P m → E e m) (hvisit : ∀ m, P m → A m)
    (hmake : ∀ m place, P m → place <+: path → m.tree place = none →
      P { m with tree := Function.update m.tree place (some .directory) }) :
    Triple E A P (mkdirParents host existOk path) fun _ => P := by
  induction hlength : path.length using Nat.strong_induction_on generalizing path existOk with
  | _ n ih =>
      rw [mkdirParents]
      refine .handle (osMkdir_spec hunlinked (fun _ _ hm => hm) hvisit
        fun m hm => hmake m path hm (List.prefix_refl path)) fun e => ?_
      refine .ite (fun _ => ?_) fun _ => orDirectory_spec hunlinked herror hvisit
      by_cases hroot : path = []
      · rw [dif_pos hroot]
        exact .raise fun m hm => herror m e hm
      · rw [dif_neg hroot]
        have hparent : path.dropLast <+: path := List.dropLast_prefix path
        have hshorter : path.dropLast.length < n := by
          rw [← hlength, List.length_dropLast]
          have := List.length_pos_iff.2 hroot
          omega
        refine .bind (ih _ hshorter (fun m hm => (hunlinked m hm).initial hparent)
          (fun m place hm hplace => hmake m place hm (hplace.trans hparent)) rfl) fun _ => ?_
        exact mkdir_spec hunlinked herror hvisit fun m hm => hmake m path hm (List.prefix_refl path)

end Triples

/-! ## Calls that succeed -/

/-- Everything on the way to a path, and at its end, is missing or a directory. -/
def Clear (tree : Tree) (path : Path) : Prop :=
  ∀ place, place <+: path → tree place = none ∨ tree place = some .directory

def Directories (tree : Tree) (path : Path) : Prop :=
  ∀ place, place <+: path → tree place = some .directory

theorem Clear.unlinked {tree : Tree} {path : Path} (h : Clear tree path) : Unlinked tree path := by
  intro place hplace target htarget
  rcases h place hplace with hnone | hdirectory
  · rw [hnone] at htarget
    cases htarget
  · rw [hdirectory] at htarget
    cases htarget

/-- Resolution reaches the end of a path over directories, whatever stands there but
a link. -/
theorem walk_directories (tree : Tree) (last : Bool) (fuel : Nat) (walked todo : Path)
    (log : List Path) (hunlinked : Unlinked tree (walked ++ todo))
    (hdirectories : ∀ before after, todo = before ++ after → before ≠ [] → after ≠ [] →
      tree (walked ++ before) = some .directory) :
    walk tree last fuel walked todo log = (.ok (walked ++ todo), log) := by
  induction todo generalizing walked with
  | nil => rw [walk, List.append_nil]
  | cons name rest ih =>
      have happend : walked ++ name :: rest = walked ++ [name] ++ rest := by simp
      rw [walk]
      by_cases hrest : rest = []
      · subst hrest
        have hnode := hunlinked (walked ++ [name]) (List.prefix_refl _)
        split
        · exact absurd ‹_› (hnode _)
        · rw [walk]
        · rfl
        · rfl
      · have hdirectory := hdirectories [name] rest rfl (by simp) hrest
        rw [hdirectory, happend]
        refine ih (walked ++ [name]) (happend ▸ hunlinked) fun before after hsplit
          hbefore hafter => ?_
        have hnode := hdirectories (name :: before) after (by simp [hsplit]) (by simp) hafter
        simpa using hnode

/-- Over missing entries and directories resolution succeeds or finds a missing one. -/
theorem walk_clear (tree : Tree) (last : Bool) (fuel : Nat) (walked todo : Path) (log : List Path)
    (hclear : Clear tree (walked ++ todo)) (hwalked : Directories tree walked) :
    (walk tree last fuel walked todo log = (.ok (walked ++ todo), log) ∧
        Directories tree (walked ++ todo).dropLast) ∨
      (walk tree last fuel walked todo log = (.error .fileNotFound, log) ∧ todo ≠ []) := by
  induction todo generalizing walked with
  | nil =>
      refine Or.inl ⟨by rw [walk, List.append_nil], fun place hplace => hwalked place ?_⟩
      rw [List.append_nil] at hplace
      exact hplace.trans (List.dropLast_prefix walked)
  | cons name rest ih =>
      have happend : walked ++ name :: rest = walked ++ [name] ++ rest := by simp
      have hnode := hclear (walked ++ [name]) (happend ▸ List.prefix_append _ _)
      rw [walk]
      rcases hnode with hnone | hdirectory
      · rw [hnone]
        by_cases hrest : rest = []
        · subst hrest
          refine Or.inl ⟨rfl, fun place hplace => hwalked place ?_⟩
          rwa [List.dropLast_append_of_ne_nil (by simp), List.dropLast_singleton,
            List.append_nil] at hplace
        · refine Or.inr ⟨?_, by simp⟩
          simp [hrest]
      · rw [hdirectory, happend]
        have hnext : Directories tree (walked ++ [name]) := by
          intro place hplace
          rcases List.prefix_concat_iff.1 hplace with rfl | hplace
          · exact hdirectory
          · exact hwalked place hplace
        rcases ih (walked ++ [name]) (happend ▸ hclear) hnext with hok | ⟨herror, -⟩
        · exact Or.inl hok
        · exact Or.inr ⟨herror, by simp⟩

section Total

variable {host : FileHost} {P : Machine → Prop} {path : Path}

theorem operate_directories {m : Machine} {last : Bool}
    (operation : Option Inode → Except Exn (Option Inode)) (hunlinked : Unlinked m.tree path)
    (hparent : Directories m.tree path.dropLast) :
    m.operate last path operation =
      match operation (m.tree path) with
      | .error e => (.error e, m)
      | .ok node => (.ok (), { m with tree := Function.update m.tree path node }) := by
  have hwalk : walk m.tree last MAX_LINKS [] path m.followed = (.ok path, m.followed) := by
    refine walk_directories m.tree last MAX_LINKS [] path m.followed hunlinked
      fun before after hsplit hbefore hafter => hparent before ?_
    rw [hsplit, List.dropLast_append_of_ne_nil hafter]
    exact List.prefix_append before _
  rw [Machine.operate, hwalk]

/-- A system call on a path whose parents are directories does what it is meant to. -/
theorem systemCall_total {last : Bool} {Q : Machine → Prop}
    {operation : Option Inode → Except Exn (Option Inode)}
    (hunlinked : ∀ m, P m → Unlinked m.tree path)
    (hparent : ∀ m, P m → Directories m.tree path.dropLast)
    (hdo : ∀ m, P m → ∃ node, operation (m.tree path) = .ok node ∧
      Q { m with tree := Function.update m.tree path node }) :
    Triple (fun _ _ => False) (fun _ => True) P (systemCall none last path operation)
      fun _ => Q := by
  have hrun : ∀ m, P m → ∃ node, m.operate last path operation =
      (.ok (), { m with tree := Function.update m.tree path node }) ∧
        Q { m with tree := Function.update m.tree path node } := by
    intro m hm
    obtain ⟨node, hnode, hnext⟩ := hdo m hm
    refine ⟨node, ?_, hnext⟩
    rw [operate_directories operation (hunlinked m hm) (hparent m hm), hnode]
  refine .perform (fun m hm _ => ?_) (fun m e hm hbad => ?_) fun _ _ => trivial
  · obtain ⟨node, hoperate, hnext⟩ := hrun m hm
    simp only [hoperate]
    exact hnext
  · obtain ⟨node, hoperate, -⟩ := hrun m hm
    simp only [hoperate] at hbad
    cases hbad

theorem eq_or_prefix_dropLast {place path : Path} (h : place <+: path) :
    place = path ∨ place <+: path.dropLast := by
  rcases List.eq_nil_or_concat path with rfl | ⟨front, last, rfl⟩
  · exact Or.inl (List.prefix_nil.1 h)
  · rw [List.concat_eq_append, List.dropLast_concat] at *
    exact List.prefix_concat_iff.1 h

theorem Directories.snoc {tree : Tree} {path : Path} (hparent : Directories tree path.dropLast)
    (hpath : tree path = some .directory) : Directories tree path := by
  intro place hplace
  rcases eq_or_prefix_dropLast hplace with rfl | hplace
  · exact hpath
  · exact hparent place hplace

theorem directories_update {tree : Tree} {path : Path} {node : Option Inode}
    (h : Directories tree path.dropLast) (hne : path ≠ []) :
    Directories (Function.update tree path node) path.dropLast := by
  intro place hplace
  have hsame : place ≠ path := by
    rintro rfl
    have hle := hplace.length_le
    have hpos := List.length_pos_iff.2 hne
    rw [List.length_dropLast] at hle
    omega
  simpa [hsame] using h place hplace

/-- `os.mkdir` makes a missing directory, or says that a parent is missing or that the
directory is there. -/
theorem osMkdir_total {R : Machine → Prop} (hfault : host.mkdirFault path = none)
    (hroot : ∀ m, P m → m.tree [] = some .directory) (hclear : ∀ m, P m → Clear m.tree path)
    (hmake : ∀ m, P m → m.tree path = none →
      R { m with tree := Function.update m.tree path (some .directory) }) :
    Triple (fun e m => P m ∧
        ((e = .fileNotFound ∧ path ≠ [] ∧ ¬Directories m.tree path.dropLast) ∨
          (e = .fileExists ∧ Directories m.tree path)))
      (fun _ => True) P (osMkdir host path) (fun _ m => R m ∧ Directories m.tree path) := by
  have hcases : ∀ m, P m →
      (m.operate false path (makeNew .directory) = (.error .fileNotFound, m) ∧ path ≠ [] ∧
        ¬Directories m.tree path.dropLast) ∨
      (m.operate false path (makeNew .directory) = (.error .fileExists, m) ∧
        Directories m.tree path) ∨
      (m.operate false path (makeNew .directory) = (.ok (), { m with
          tree := Function.update m.tree path (some .directory) }) ∧
        m.tree path = none ∧ Directories m.tree path.dropLast) := by
    intro m hm
    by_cases hparent : Directories m.tree path.dropLast
    · have hoperate : m.operate false path (makeNew .directory) = _ :=
        operate_directories (makeNew .directory) (hclear m hm).unlinked hparent
      rcases hclear m hm path (List.prefix_refl path) with hnone | hdirectory
      · rw [hnone] at hoperate
        exact Or.inr (Or.inr ⟨hoperate, hnone, hparent⟩)
      · rw [hdirectory] at hoperate
        exact Or.inr (Or.inl ⟨hoperate, hparent.snoc hdirectory⟩)
    · have hnil : Directories m.tree [] := by
        intro place hplace
        rw [List.prefix_nil.1 hplace]
        exact hroot m hm
      rcases walk_clear m.tree false MAX_LINKS [] path m.followed (hclear m hm) hnil with
        ⟨-, hdirectories⟩ | ⟨hwalk, hne⟩
      · exact absurd hdirectories hparent
      · refine Or.inl ⟨?_, hne, hparent⟩
        rw [Machine.operate, hwalk]
  rw [osMkdir, hfault]
  refine .perform (fun m hm hok => ?_) (fun m e hm hbad => ?_) fun _ _ => trivial
  · rcases hcases m hm with ⟨hrun, -⟩ | ⟨hrun, -⟩ | ⟨hrun, hfree, hparent⟩
    · simp [hrun] at hok
    · simp [hrun] at hok
    · simp only [hrun]
      refine ⟨hmake m hm hfree, Directories.snoc (fun place hplace => ?_) (by simp)⟩
      by_cases hsame : place = path
      · simp [hsame]
      · simpa [hsame] using hparent place hplace
  · rcases hcases m hm with ⟨hrun, hrest⟩ | ⟨hrun, hrest⟩ | ⟨hrun, -⟩
    · simp only [hrun] at hbad ⊢
      exact ⟨hm, Or.inl ⟨(Except.error.inj hbad).symm, hrest⟩⟩
    · simp only [hrun] at hbad ⊢
      exact ⟨hm, Or.inr ⟨(Except.error.inj hbad).symm, hrest⟩⟩
    · simp [hrun] at hbad

theorem isDir_total {E : Exn → Machine → Prop} (h : ∀ m, P m → Directories m.tree path) :
    Triple E (fun _ => True) P (isDir path) fun directory m => P m ∧ directory = true := by
  refine .query fun m hm => ?_
  have hclear : Clear m.tree path := fun place hplace => Or.inr (h m hm place hplace)
  have hwalk : walk m.tree true MAX_LINKS [] path m.followed = (.ok path, m.followed) := by
    refine walk_directories m.tree true MAX_LINKS [] path m.followed hclear.unlinked
      fun before after hsplit _ _ => h m hm before ?_
    rw [hsplit]
    exact List.prefix_append before after
  have hlook : m.look true path = (some .directory, m) := by
    rw [Machine.look, hwalk, ← h m hm path (List.prefix_refl path)]
  rw [hlook]
  exact ⟨⟨hm, rfl⟩, trivial⟩

/-- A directory that is there is no error if it may be there. -/
theorem orDirectory_total {existOk : Bool} {R : Machine → Prop} {e : Exn}
    (hthere : ∀ m, P m → existOk = true ∧ R m ∧ Directories m.tree path) :
    Triple (fun _ _ => False) (fun _ => True) P (orDirectory existOk path e)
      (fun _ m => R m ∧ Directories m.tree path) := by
  refine .ite (fun _ => ?_) fun hexist => .raise fun m hm => hexist (hthere m hm).1
  refine .bind (isDir_total fun m hm => (hthere m hm).2.2) fun directory =>
    .assume fun hdirectory => ?_
  rw [hdirectory]
  exact .pure fun m hm => (hthere m hm).2

theorem mkdir_total {existOk : Bool} {R : Machine → Prop} (hfault : host.mkdirFault path = none)
    (hroot : ∀ m, P m → m.tree [] = some .directory) (hclear : ∀ m, P m → Clear m.tree path)
    (hparent : ∀ m, P m → Directories m.tree path.dropLast)
    (hmake : ∀ m, P m → m.tree path = none →
      R { m with tree := Function.update m.tree path (some .directory) })
    (hthere : ∀ m, P m → m.tree path = some .directory → existOk = true ∧ R m) :
    Triple (fun _ _ => False) (fun _ => True) P (mkdir host existOk path)
      (fun _ m => R m ∧ Directories m.tree path) := by
  refine .handle (osMkdir_total hfault hroot hclear hmake) fun e => .ite (fun hname => ?_) fun _ =>
    ?_
  · refine .raise fun m hm => ?_
    rcases hm.2 with ⟨-, -, hmissing⟩ | ⟨rfl, -⟩
    · exact hmissing (hparent m hm.1)
    · exact absurd hname (by decide)
  · refine orDirectory_total fun m hm => ?_
    rcases hm.2 with ⟨-, -, hmissing⟩ | ⟨-, hdirectories⟩
    · exact absurd (hparent m hm.1) hmissing
    · obtain ⟨hexist, hR⟩ := hthere m hm.1 (hdirectories path (List.prefix_refl path))
      exact ⟨hexist, hR, hdirectories⟩

/-- `mkdir(parents=True)` succeeds where the way is clear. -/
theorem mkdirParents_total {existOk : Bool} {R : Machine → Prop}
    (hfault : ∀ place, host.mkdirFault place = none)
    (hroot : ∀ m, P m → m.tree [] = some .directory) (hclear : ∀ m, P m → Clear m.tree path)
    (hmake : ∀ m place, P m → place <+: path → place ≠ path → m.tree place = none →
      P { m with tree := Function.update m.tree place (some .directory) })
    (hlast : ∀ m, P m → m.tree path = none →
      R { m with tree := Function.update m.tree path (some .directory) })
    (hthere : ∀ m, P m → m.tree path = some .directory → existOk = true ∧ R m) :
    Triple (fun _ _ => False) (fun _ => True) P (mkdirParents host existOk path)
      (fun _ m => R m ∧ Directories m.tree path) := by
  induction hlength : path.length using Nat.strong_induction_on generalizing path existOk R with
  | _ n ih =>
      rw [mkdirParents]
      refine .handle (osMkdir_total (hfault path) hroot hclear hlast) fun e =>
        .ite (fun hname => ?_) fun hname => ?_
      · by_cases hnil : path = []
        · rw [dif_pos hnil]
          refine .raise fun m hm => ?_
          rcases hm.2 with ⟨-, hne, -⟩ | ⟨rfl, -⟩
          · exact hne hnil
          · exact absurd hname (by decide)
        · rw [dif_neg hnil]
          have hparent : path.dropLast <+: path := List.dropLast_prefix path
          have hshorter : path.dropLast.length < n := by
            rw [← hlength, List.length_dropLast]
            have := List.length_pos_iff.2 hnil
            omega
          have hproper : ∀ place, place <+: path.dropLast → place ≠ path := by
            intro place hplace hsame
            have hle := hplace.length_le
            rw [hsame] at hle
            omega
          have hparents : Triple (fun _ _ => False) (fun _ => True) P
              (mkdirParents host true path.dropLast)
              (fun _ m => P m ∧ Directories m.tree path.dropLast) :=
            ih _ hshorter (fun m hm place hplace => hclear m hm place (hplace.trans hparent))
              (fun m place hm hplace _ => hmake m place hm (hplace.trans hparent)
                (hproper place hplace))
              (fun m hm => hmake m _ hm hparent (hproper _ (List.prefix_refl _)))
              (fun m hm _ => ⟨rfl, hm⟩) rfl
          refine .bind (.weaken hparents (fun m hm => hm.1) fun _ _ hm => hm) fun _ => ?_
          exact mkdir_total (hfault path) (fun m hm => hroot m hm.1) (fun m hm => hclear m hm.1)
            (fun m hm => hm.2) (fun m hm => hlast m hm.1) fun m hm => hthere m hm.1
      · refine orDirectory_total fun m hm => ?_
        rcases hm.2 with ⟨rfl, -, -⟩ | ⟨-, hdirectories⟩
        · exact absurd rfl hname
        · obtain ⟨hexist, hR⟩ := hthere m hm.1 (hdirectories path (List.prefix_refl path))
          exact ⟨hexist, hR, hdirectories⟩

end Total

end CkbSail.PythonStd
