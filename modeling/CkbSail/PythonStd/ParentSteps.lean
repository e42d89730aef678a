import CkbSail.ProofSupport.Placement
import CkbSail.PythonStd.FileSystem

/-!
# Paths with steps to the parent

A component `..` leads to the parent of the directory before it, once there is one.
`mkdir(parents=True)` also makes the directories that such a component leaves.
-/

namespace CkbSail.PythonStd

open ProofSupport

variable {α : Type}

/-! ## Following `..` -/

/-- One more component: `..` is followed if a directory has been reached. -/
def settleStep (tree : Tree) (walked : Path) (name : String) : Path :=
  if name = ".." then
    match (walk tree true MAX_LINKS [] walked []).1 with
    | .ok place => if tree place = some .directory then place.dropLast else walked ++ [name]
    | .error _ => walked ++ [name]
  else walked ++ [name]

/-- The path without the components `..` that can be followed. -/
def settle (tree : Tree) (path : Path) : Path := path.foldl (settleStep tree) []

/-- An operation on a path that may have components `..`. -/
def settled (path : Path) (operation : Path → FileProgram α) : FileProgram α := fun m =>
  operation (settle m.tree path) m

/-- `path.mkdir(parents=True, exist_ok=existOk)`. -/
def makeParents (host : FileHost) (existOk : Bool) (path : Path) : FileProgram Unit :=
  .handle (settled path (osMkdir host)) fun e =>
    if e.typeName = "FileNotFoundError" then
      if _hroot : path = [] then .raise e
      else do
        makeParents host true path.dropLast
        settled path (mkdir host existOk)
    else settled path fun place => orDirectory existOk place e
termination_by path.length
decreasing_by
  rw [List.length_dropLast]
  have := List.length_pos_iff.2 _hroot
  omega

/-! ## Where a path leads without links -/

def descend (walked : Path) (name : String) : Path :=
  if name = ".." then walked.dropLast else walked ++ [name]

/-- The end of a path on which no link stands. -/
def lexical (path : Path) : Path := path.foldl descend []

/-- The directories such a path goes through, with its end. -/
def stations (path : Path) : List Path := path.inits.map lexical

theorem lexical_snoc (path : Path) (name : String) :
    lexical (path ++ [name]) = descend (lexical path) name := by
  rw [lexical, List.foldl_append]
  rfl

theorem settle_snoc (tree : Tree) (path : Path) (name : String) :
    settle tree (path ++ [name]) = settleStep tree (settle tree path) name := by
  rw [settle, List.foldl_append]
  rfl

theorem mem_stations {path place : Path} :
    place ∈ stations path ↔ ∃ front, front <+: path ∧ lexical front = place := by
  simp [stations, List.mem_inits]

theorem lexical_mem_stations {front path : Path} (h : front <+: path) :
    lexical front ∈ stations path :=
  mem_stations.2 ⟨front, h, rfl⟩

theorem nil_mem_stations (path : Path) : [] ∈ stations path :=
  lexical_mem_stations List.nil_prefix

theorem mem_stations_snoc {path place : Path} {name : String} :
    place ∈ stations (path ++ [name]) ↔ place ∈ stations path ∨ place = lexical (path ++ [name]) := by
  rw [mem_stations, mem_stations]
  constructor
  · rintro ⟨front, hfront, rfl⟩
    rcases List.prefix_concat_iff.1 hfront with rfl | hfront
    · exact Or.inr rfl
    · exact Or.inl ⟨front, hfront, rfl⟩
  · rintro (⟨front, hfront, rfl⟩ | rfl)
    · exact ⟨front, hfront.trans (List.prefix_append _ _), rfl⟩
    · exact ⟨_, List.prefix_refl _, rfl⟩

theorem stations_initial {front path place : Path} (h : front <+: path)
    (hplace : place ∈ stations front) : place ∈ stations path := by
  obtain ⟨start, hstart, rfl⟩ := mem_stations.1 hplace
  exact lexical_mem_stations (hstart.trans h)

/-- Whatever is above a station is one. -/
theorem mem_stations_of_isPrefix {path place above : Path} (hplace : place ∈ stations path)
    (habove : above <+: place) : above ∈ stations path := by
  induction path using List.reverseRecOn generalizing place with
  | nil =>
      have hnil : place = [] := by simpa [stations, lexical] using hplace
      rw [hnil] at habove
      rw [List.prefix_nil.1 habove]
      exact nil_mem_stations []
  | append_singleton path name ih =>
      rcases mem_stations_snoc.1 hplace with hplace | rfl
      · exact mem_stations_snoc.2 (Or.inl (ih hplace habove))
      · rw [lexical_snoc, descend] at habove
        have hend : lexical path ∈ stations path := lexical_mem_stations (List.prefix_refl _)
        split_ifs at habove with hname
        · exact mem_stations_snoc.2 (Or.inl (ih hend (habove.trans (List.dropLast_prefix _))))
        · rcases List.prefix_concat_iff.1 habove with rfl | habove
          · exact mem_stations_snoc.2 (Or.inr (by rw [lexical_snoc, descend, if_neg hname]))
          · exact mem_stations_snoc.2 (Or.inl (ih hend habove))

theorem lexical_of_plain {path : Path} (h : ".." ∉ path) : lexical path = path := by
  induction path using List.reverseRecOn with
  | nil => rfl
  | append_singleton path name ih =>
      rw [List.mem_append, not_or] at h
      have hname : name ≠ ".." := fun hname => h.2 (by simp [hname])
      rw [lexical_snoc, ih h.1, descend, if_neg hname]

theorem stations_of_plain {path : Path} (h : ".." ∉ path) : stations path = path.inits := by
  rw [stations]
  refine (List.map_congr_left fun front hfront => ?_).trans (List.map_id _)
  exact lexical_of_plain fun hmem => h (((List.mem_inits _ _).1 hfront).subset hmem)

/-! ## Where a path settles -/

/-- No link stands at a station of the path. -/
def LinkFree (tree : Tree) (path : Path) : Prop :=
  ∀ place ∈ stations path, ∀ target, tree place ≠ some (.symlink target)

theorem LinkFree.initial {tree : Tree} {front path : Path} (h : LinkFree tree path)
    (hfront : front <+: path) : LinkFree tree front :=
  fun place hplace => h place (stations_initial hfront hplace)

theorem LinkFree.of_plain {tree : Tree} {path : Path} (hplain : ".." ∉ path)
    (h : Unlinked tree path) : LinkFree tree path := by
  intro place hplace
  rw [stations_of_plain hplain] at hplace
  exact h place ((List.mem_inits _ _).1 hplace)

/-- Every station is a directory. -/
def Passed (tree : Tree) (path : Path) : Prop :=
  ∀ place ∈ stations path, tree place = some .directory

theorem Passed.directories {tree : Tree} {path : Path} (hsystem : FileSystem tree)
    (h : Passed tree path) : Directories tree (lexical path) :=
  hsystem.directories (h _ (lexical_mem_stations (List.prefix_refl _)))

theorem passed_snoc {tree : Tree} {path : Path} {name : String} :
    Passed tree (path ++ [name]) ↔
      Passed tree path ∧ tree (lexical (path ++ [name])) = some .directory := by
  constructor
  · exact fun h => ⟨fun place hplace => h place (mem_stations_snoc.2 (Or.inl hplace)),
      h _ (mem_stations_snoc.2 (Or.inr rfl))⟩
  · rintro ⟨hpath, hname⟩ place hplace
    rcases mem_stations_snoc.1 hplace with hplace | rfl
    · exact hpath place hplace
    · exact hname

theorem Passed.hasNul {tree : Tree} {path : Path} (hsystem : FileSystem tree)
    (h : Passed tree path) : hasNul path = false := by
  induction path using List.reverseRecOn with
  | nil => rfl
  | append_singleton path name ih =>
      obtain ⟨hpath, hname⟩ := passed_snoc.1 h
      rw [hasNul_append, ih hpath, Bool.false_or]
      by_cases hdots : name = ".."
      · rw [hdots]
        rfl
      · rw [lexical_snoc, descend, if_neg hdots] at hname
        have hnul := hsystem.hasNul_eq_false (by rw [hname]; exact Option.some_ne_none _)
        rw [hasNul_append, Bool.or_eq_false_iff] at hnul
        exact hnul.2

/-- A path settles where it leads to, or from its first station on that is no
directory it stays as it is. -/
theorem settle_cases {tree : Tree} (hsystem : FileSystem tree) {path : Path}
    (hlinks : LinkFree tree path) :
    (settle tree path = lexical path ∧ Passed tree path) ∨
      ∃ front name rest, path = front ++ name :: rest ∧ name ≠ ".." ∧ Passed tree front ∧
        tree (lexical front ++ [name]) ≠ some .directory ∧
        settle tree path = lexical front ++ name :: rest := by
  induction path using List.reverseRecOn with
  | nil =>
      refine Or.inl ⟨rfl, fun place hplace => ?_⟩
      have hnil : place = [] := by simpa [stations, lexical] using hplace
      rw [hnil, hsystem.root]
  | append_singleton path name ih =>
      rcases ih (hlinks.initial (List.prefix_append _ _)) with ⟨hsettle, hpassed⟩ |
        ⟨front, stop, rest, rfl, hstop, hpassed, hnode, hsettle⟩
      · by_cases hdots : name = ".."
        · have hend := hpassed.directories hsystem
          have hlexical : lexical (path ++ [name]) = (lexical path).dropLast := by
            rw [lexical_snoc, descend, if_pos hdots]
          refine Or.inl ⟨?_, passed_snoc.2 ⟨hpassed, ?_⟩⟩
          · rw [settle_snoc, hsettle, settleStep, if_pos hdots, walk_through hend, hlexical]
            simp only [hend _ (List.prefix_refl _), if_true]
          · rw [hlexical]
            exact hend _ (List.dropLast_prefix _)
        · have hlexical : lexical (path ++ [name]) = lexical path ++ [name] := by
            rw [lexical_snoc, descend, if_neg hdots]
          have hnext : settle tree (path ++ [name]) = lexical path ++ [name] := by
            rw [settle_snoc, hsettle, settleStep, if_neg hdots]
          by_cases hname : tree (lexical path ++ [name]) = some .directory
          · exact Or.inl ⟨hnext.trans hlexical.symm, passed_snoc.2 ⟨hpassed, hlexical ▸ hname⟩⟩
          · exact Or.inr ⟨path, name, [], rfl, hdots, hpassed, hname, hnext⟩
      · refine Or.inr ⟨front, stop, rest ++ [name], by simp, hstop, hpassed, hnode, ?_⟩
        have hfree : ∀ target, tree (lexical front ++ [stop]) ≠ some (.symlink target) := by
          have hlexical : lexical (front ++ [stop]) = lexical front ++ [stop] := by
            rw [lexical_snoc, descend, if_neg hstop]
          rw [← hlexical]
          exact hlinks _ (lexical_mem_stations ⟨rest ++ [name], by simp⟩)
        have hstay : settleStep tree (lexical front ++ stop :: rest) name =
            lexical front ++ stop :: rest ++ [name] := by
          rw [settleStep]
          split_ifs with hdots
          · rw [walk_stop (hpassed.directories hsystem) hfree hnode]
            by_cases hrest : rest = []
            · simp only [hrest, if_true, if_neg hnode]
            · simp only [if_neg hrest]
          · rfl
        rw [settle_snoc, hsettle, hstay]
        simp

/-- On the way to a place that is no directory stands no link. -/
theorem unlinked_stop {tree : Tree} (hsystem : FileSystem tree) {front rest : Path} {name : String}
    (hfront : Directories tree front)
    (hunlinked : ∀ target, tree (front ++ [name]) ≠ some (.symlink target))
    (hstop : tree (front ++ [name]) ≠ some .directory) :
    Unlinked tree (front ++ name :: rest) := by
  induction rest using List.reverseRecOn with
  | nil => exact unlinked_snoc.2 ⟨hfront.unlinked, hunlinked⟩
  | append_singleton rest last ih =>
      have happend : front ++ name :: (rest ++ [last]) = front ++ name :: rest ++ [last] := by simp
      have hnone := hsystem.eq_none_below hstop (show rest ++ [last] ≠ [] by simp)
      rw [List.append_assoc, List.singleton_append, happend] at hnone
      rw [happend]
      refine unlinked_snoc.2 ⟨ih, fun target htarget => ?_⟩
      rw [hnone] at htarget
      cases htarget

theorem unlinked_settle {tree : Tree} (hsystem : FileSystem tree) {path : Path}
    (hlinks : LinkFree tree path) : Unlinked tree (settle tree path) := by
  rcases settle_cases hsystem hlinks with ⟨hsettle, hpassed⟩ |
    ⟨front, name, rest, rfl, hname, hpassed, hstop, hsettle⟩
  · rw [hsettle]
    exact (hpassed.directories hsystem).unlinked
  · have hlexical : lexical (front ++ [name]) = lexical front ++ [name] := by
      rw [lexical_snoc, descend, if_neg hname]
    rw [hsettle]
    refine unlinked_stop hsystem (hpassed.directories hsystem) ?_ hstop
    rw [← hlexical]
    exact hlinks _ (lexical_mem_stations ⟨rest, by simp⟩)

theorem settle_ne_directory {tree : Tree} (hsystem : FileSystem tree) {path : Path}
    (hlinks : LinkFree tree path) (hpath : ¬Passed tree path) :
    tree (settle tree path) ≠ some .directory := by
  rcases settle_cases hsystem hlinks with ⟨-, hpassed⟩ |
    ⟨front, name, rest, -, -, -, hstop, hsettle⟩
  · exact absurd hpassed hpath
  · rw [hsettle]
    by_cases hrest : rest = []
    · rw [hrest]
      exact hstop
    · have hnone := hsystem.eq_none_below hstop hrest
      rw [List.append_assoc, List.singleton_append] at hnone
      rw [hnone]
      exact fun h => Option.some_ne_none _ h.symm

theorem hasNul_settle {tree : Tree} (hsystem : FileSystem tree) {path : Path}
    (hlinks : LinkFree tree path) : hasNul (settle tree path) = hasNul path := by
  rcases settle_cases hsystem hlinks with ⟨hsettle, hpassed⟩ |
    ⟨front, name, rest, rfl, -, hpassed, -, hsettle⟩
  · rw [hsettle, hpassed.hasNul hsystem]
    have hend := hpassed.directories hsystem _ (List.prefix_refl _)
    exact hsystem.hasNul_eq_false (by rw [hend]; exact Option.some_ne_none _)
  · have hend := hpassed.directories hsystem _ (List.prefix_refl _)
    have hlexical : hasNul (lexical front) = false :=
      hsystem.hasNul_eq_false (by rw [hend]; exact Option.some_ne_none _)
    rw [hsettle, hasNul_append, hasNul_append, hpassed.hasNul hsystem, hlexical]

/-! ## Making the parents -/

/-- The error for a path that the operating system cannot be given. -/
def nulFault (path : Path) : Option Exn :=
  if hasNul path then some ⟨"ValueError", "embedded null byte"⟩ else none

/-- A host where only a null byte makes an operation fail. -/
structure Obliging (host : FileHost) : Prop where
  mkdir : ∀ path, host.mkdirFault path = nulFault path
  create : ∀ path, host.openFault path = nulFault path
  chmod : ∀ path, host.chmodFault path = nulFault path

theorem nulFault_eq_none {path : Path} (h : hasNul path = false) : nulFault path = none := by
  rw [nulFault, h]
  rfl

theorem does_settled {tree tree' : Tree} {path : Path} {operation : Path → FileProgram α}
    {result : Except Exn α} (h : Does (operation (settle tree path)) tree result tree') :
    Does (settled path operation) tree result tree' := by
  rintro m rfl
  exact h m rfl

theorem does_settled_at {tree tree' : Tree} {path place : Path} (operation : Path → FileProgram α)
    {result : Except Exn α} (hplace : settle tree path = place)
    (h : Does (operation place) tree result tree') :
    Does (settled path operation) tree result tree' :=
  does_settled (hplace ▸ h)

theorem hasNul_stations {path place : Path} (h : hasNul path = false)
    (hplace : place ∈ stations path) : hasNul place = false := by
  induction path using List.reverseRecOn generalizing place with
  | nil =>
      have hnil : place = [] := by simpa [stations, lexical] using hplace
      rw [hnil]
      rfl
  | append_singleton path name ih =>
      rw [hasNul_append, Bool.or_eq_false_iff] at h
      rcases mem_stations_snoc.1 hplace with hplace | rfl
      · exact ih h.1 hplace
      · have hend : lexical path ∈ stations path := lexical_mem_stations (List.prefix_refl _)
        rw [lexical_snoc, descend]
        split_ifs
        · exact ih h.1 (mem_stations_of_isPrefix hend (List.dropLast_prefix _))
        · rw [hasNul_append, ih h.1 hend, h.2]
          rfl

/-- Making the stations of a path leaves a file system. -/
theorem FileSystem.made {tree : Tree} (h : FileSystem tree) {path : Path}
    (hnul : hasNul path = false) : FileSystem (made .directory tree (stations path)) where
  root := by rw [made_of_mem (nil_mem_stations path)]
  parent := by
    intro place name hnode
    by_cases hplace : place ∈ stations path
    · exact made_of_mem hplace
    · have hbelow : place ++ [name] ∉ stations path :=
        fun hmem => hplace (mem_stations_of_isPrefix hmem (List.prefix_append _ _))
      rw [made_of_not_mem hbelow] at hnode
      rw [made_of_not_mem hplace]
      exact h.parent place name hnode
  named := by
    intro place hplace
    have hmem : place ∉ stations path := by
      intro hmem
      rw [hasNul_stations hnul hmem] at hplace
      cases hplace
    rw [made_of_not_mem hmem]
    exact h.named place hplace

theorem passed_made {tree : Tree} {path : Path} :
    Passed (made .directory tree (stations path)) path :=
  fun _ hplace => made_of_mem hplace

theorem LinkFree.made {tree : Tree} {path front : Path} (h : LinkFree tree path) :
    LinkFree (made .directory tree (stations front)) path := by
  intro place hplace target htarget
  by_cases hfront : place ∈ stations front
  · rw [made_of_mem hfront] at htarget
    cases htarget
  · rw [made_of_not_mem hfront] at htarget
    exact h place hplace target htarget

theorem made_snoc {tree : Tree} {path : Path} {name : String} :
    made Inode.directory tree (stations (path ++ [name])) =
      Function.update (made .directory tree (stations path)) (lexical (path ++ [name]))
        (some .directory) := by
  funext place
  by_cases hend : place = lexical (path ++ [name])
  · rw [hend, Function.update_self, made_of_mem (mem_stations_snoc.2 (Or.inr rfl))]
  · rw [Function.update_of_ne hend]
    by_cases hplace : place ∈ stations path
    · rw [made_of_mem hplace, made_of_mem (mem_stations_snoc.2 (Or.inl hplace))]
    · rw [made_of_not_mem hplace, made_of_not_mem fun hmem =>
        (mem_stations_snoc.1 hmem).elim hplace hend]

section MakeParents

variable {host : FileHost} {tree : Tree} {path : Path} {name : String}

theorem settle_of_passed (hsystem : FileSystem tree) (hlinks : LinkFree tree path)
    (hpath : Passed tree path) : settle tree path = lexical path := by
  rcases settle_cases hsystem hlinks with ⟨hsettle, -⟩ | ⟨front, stop, rest, rfl, hdots, -, hstop, -⟩
  · exact hsettle
  · have hmem : lexical (front ++ [stop]) ∈ stations (front ++ stop :: rest) :=
      lexical_mem_stations ⟨rest, by simp⟩
    refine absurd (hpath _ hmem) ?_
    rwa [lexical_snoc, descend, if_neg hdots]

theorem does_orDirectory_settled {e : Exn} (hsystem : FileSystem tree) (hlinks : LinkFree tree path)
    (hpath : Passed tree path) :
    Does (orDirectory true (settle tree path) e) tree (.ok ()) tree := by
  rw [settle_of_passed hsystem hlinks hpath]
  exact does_orDirectory hsystem (hpath _ (lexical_mem_stations (List.prefix_refl _)))

theorem does_orDirectory_unsettled {e : Exn} {existOk : Bool} (hsystem : FileSystem tree)
    (hlinks : LinkFree tree path) (hpath : ¬Passed tree path) :
    Does (orDirectory existOk (settle tree path) e) tree (.error e) tree :=
  does_orDirectory_error hsystem (unlinked_settle hsystem hlinks)
    (settle_ne_directory hsystem hlinks hpath)

/-- Where the last component settles once its parent is there. -/
theorem settle_of_passed_parent (hsystem : FileSystem tree) (hlinks : LinkFree tree (path ++ [name]))
    (hpath : Passed tree path) : settle tree (path ++ [name]) = lexical (path ++ [name]) := by
  have hend := hpath.directories hsystem
  rw [settle_snoc, settle_of_passed hsystem (hlinks.initial (List.prefix_append _ _)) hpath,
    lexical_snoc, settleStep, descend]
  split_ifs
  · rw [walk_through hend]
    simp only [hend _ (List.prefix_refl _), if_true]
  · rfl

theorem does_osMkdir_occupied (hhost : Obliging host) (hsystem : FileSystem tree)
    (hlinks : LinkFree tree path) (hnul : hasNul path = false)
    (hthere : tree (settle tree path) ≠ none) :
    Does (osMkdir host (settle tree path)) tree (.error .fileExists) tree := by
  have hfault : host.mkdirFault (settle tree path) = none :=
    (hhost.mkdir _).trans (nulFault_eq_none ((hasNul_settle hsystem hlinks).trans hnul))
  exact does_osMkdir_there hfault (hsystem.directories_dropLast hthere)
    (unlinked_settle hsystem hlinks) hthere

theorem does_osMkdir_passed (hhost : Obliging host) (hsystem : FileSystem tree)
    (hlinks : LinkFree tree path) (hpath : Passed tree path) :
    Does (osMkdir host (settle tree path)) tree (.error .fileExists) tree := by
  refine does_osMkdir_occupied hhost hsystem hlinks (hpath.hasNul hsystem) ?_
  rw [settle_of_passed hsystem hlinks hpath, hpath _ (lexical_mem_stations (List.prefix_refl _))]
  exact Option.some_ne_none _

/-- Only a plain last component can be missing from a parent that is there. -/
theorem lexical_of_missing (hsystem : FileSystem tree) (hpath : Passed tree path)
    (hname : tree (lexical (path ++ [name])) ≠ some .directory) :
    lexical (path ++ [name]) = lexical path ++ [name] := by
  rw [lexical_snoc, descend] at hname ⊢
  split_ifs at hname ⊢
  · exact absurd (hpath.directories hsystem _ (List.dropLast_prefix _)) hname
  · rfl

theorem does_osMkdir_step (hhost : Obliging host) (hsystem : FileSystem tree)
    (hlinks : LinkFree tree (path ++ [name])) (hnul : hasNul (path ++ [name]) = false)
    (hpath : Passed tree path) (hfree : tree (lexical (path ++ [name])) = none) :
    Does (osMkdir host (settle tree (path ++ [name]))) tree (.ok ())
      (made .directory tree (stations (path ++ [name]))) := by
  have hmissing : tree (lexical (path ++ [name])) ≠ some .directory := by
    rw [hfree]
    exact fun h => Option.some_ne_none _ h.symm
  have hfault : host.mkdirFault (lexical (path ++ [name])) = none := by
    refine (hhost.mkdir _).trans (nulFault_eq_none ?_)
    exact hasNul_stations hnul (lexical_mem_stations (List.prefix_refl _))
  have hparent : Directories tree (lexical (path ++ [name])).dropLast := by
    rw [lexical_of_missing hsystem hpath hmissing, List.dropLast_concat]
    exact hpath.directories hsystem
  rw [settle_of_passed_parent hsystem hlinks hpath, made_snoc, made_eq_self hpath]
  exact does_osMkdir hfault hparent hfree

theorem Passed.open (h : Passed tree path) : Open .directory tree (stations path) :=
  fun place hplace => Or.inr (h place hplace)

theorem does_makeParents_passed (hhost : Obliging host) (hsystem : FileSystem tree)
    (hlinks : LinkFree tree path) (hpath : Passed tree path) :
    Does (makeParents host true path) tree (.ok ()) (made .directory tree (stations path)) := by
  rw [makeParents, made_eq_self hpath]
  refine .handle_error (does_settled (does_osMkdir_passed hhost hsystem hlinks hpath)) ?_
  rw [if_neg (by decide)]
  exact does_settled (does_orDirectory_settled hsystem hlinks hpath)

/-- With its parent there, the last directory is made unless it is there too. -/
theorem does_mkdir_step (hhost : Obliging host) (hsystem : FileSystem tree)
    (hlinks : LinkFree tree (path ++ [name])) (hnul : hasNul (path ++ [name]) = false)
    (hpath : Passed tree path) (hopen : Open .directory tree (stations (path ++ [name]))) :
    Does (mkdir host true (settle tree (path ++ [name]))) tree (.ok ())
      (made .directory tree (stations (path ++ [name]))) := by
  rcases hopen _ (mem_stations_snoc.2 (Or.inr rfl)) with hfree | hthere
  · exact .handle_ok (does_osMkdir_step hhost hsystem hlinks hnul hpath hfree)
  · have hpassed := passed_snoc.2 ⟨hpath, hthere⟩
    rw [made_eq_self hpassed]
    refine .handle_error (does_osMkdir_passed hhost hsystem hlinks hpassed) ?_
    rw [if_neg (by decide)]
    exact does_orDirectory_settled hsystem hlinks hpassed

/-- A path whose parent is not there stops before its last component. -/
theorem does_osMkdir_stop (hhost : Obliging host) (hsystem : FileSystem tree)
    (hlinks : LinkFree tree (path ++ [name])) (hnul : hasNul (path ++ [name]) = false)
    (hpath : ¬Passed tree path) :
    ∃ place ∈ stations path, tree place ≠ some .directory ∧
      Does (osMkdir host (settle tree (path ++ [name]))) tree (.error (stopError (tree place)))
        tree := by
  have hnul' := (hasNul_settle hsystem hlinks).trans hnul
  rcases settle_cases hsystem hlinks with ⟨-, hpassed⟩ |
    ⟨front, stop, rest, hsplit, hdots, hpassed, hstop, hsettle⟩
  · exact absurd (passed_snoc.1 hpassed).1 hpath
  · have hlexical : lexical (front ++ [stop]) = lexical front ++ [stop] := by
      rw [lexical_snoc, descend, if_neg hdots]
    have hrest : rest ≠ [] := by
      rintro rfl
      obtain ⟨rfl, -⟩ := List.append_inj' hsplit rfl
      exact hpath hpassed
    have habove : front ++ [stop] <+: path := by
      have hfront : front ++ [stop] <+: path ++ [name] := ⟨rest, by rw [hsplit]; simp⟩
      rcases List.prefix_concat_iff.1 hfront with heq | hfront
      · have hnil : rest = [] := by simpa using (heq.trans hsplit).symm
        exact absurd hnil hrest
      · exact hfront
    refine ⟨_, lexical_mem_stations habove, hlexical ▸ hstop, ?_⟩
    rw [osMkdir, hhost.mkdir, nulFault_eq_none hnul', hsettle, hlexical]
    refine does_systemCall_stop (hpassed.directories hsystem) ?_ hstop hrest
    rw [← hlexical]
    exact hlinks _ (lexical_mem_stations (habove.trans (List.prefix_append _ _)))

/-- After a missing parent the parents are made first. -/
theorem does_makeParents_missing {tree' : Tree} {result : Except Exn Unit}
    (hmkdir : Does (osMkdir host (settle tree (path ++ [name]))) tree (.error (stopError none)) tree)
    (hrest : Does (do makeParents host true path; settled (path ++ [name]) (mkdir host true)) tree
      result tree') : Does (makeParents host true (path ++ [name])) tree result tree' := by
  have hmissing : (stopError none).typeName = "FileNotFoundError" := rfl
  rw [makeParents]
  refine .handle_error (does_settled hmkdir) ?_
  rw [if_pos hmissing, dif_neg (by simp), List.dropLast_concat]
  exact hrest

/-- After any other error only a directory that is there helps. -/
theorem does_makeParents_blocked {e : Exn} (hsystem : FileSystem tree) (hlinks : LinkFree tree path)
    (hpath : ¬Passed tree path) (he : e.typeName ≠ "FileNotFoundError")
    (hmkdir : Does (osMkdir host (settle tree path)) tree (.error e) tree) :
    Does (makeParents host true path) tree (.error e) tree := by
  rw [makeParents]
  refine .handle_error (does_settled hmkdir) ?_
  rw [if_neg he]
  exact does_settled (does_orDirectory_unsettled hsystem hlinks hpath)

/-- `mkdir(parents=True, exist_ok=True)` makes the stations of an open path. -/
theorem does_makeParents (hhost : Obliging host) (hsystem : FileSystem tree)
    (hlinks : LinkFree tree path) (hnul : hasNul path = false)
    (hopen : Open .directory tree (stations path)) :
    Does (makeParents host true path) tree (.ok ()) (made .directory tree (stations path)) := by
  by_cases hpassed : Passed tree path
  · exact does_makeParents_passed hhost hsystem hlinks hpassed
  induction path using List.reverseRecOn with
  | nil =>
      refine absurd (fun place hplace => ?_) hpassed
      have hnil : place = [] := by simpa [stations, lexical] using hplace
      rw [hnil, hsystem.root]
  | append_singleton path name ih =>
      have hparent : path <+: path ++ [name] := List.prefix_append _ _
      have hpathNul : hasNul path = false := by
        rw [hasNul_append, Bool.or_eq_false_iff] at hnul
        exact hnul.1
      have hpathOpen : Open .directory tree (stations path) :=
        fun place hplace => hopen place (stations_initial hparent hplace)
      by_cases hpath : Passed tree path
      · rw [makeParents]
        refine .handle_ok (does_settled (does_osMkdir_step hhost hsystem hlinks hnul hpath ?_))
        rcases hopen _ (mem_stations_snoc.2 (Or.inr rfl)) with hfree | hthere
        · exact hfree
        · exact absurd (passed_snoc.2 ⟨hpath, hthere⟩) hpassed
      · obtain ⟨place, hplace, hstop, hmkdir⟩ := does_osMkdir_stop hhost hsystem hlinks hnul hpath
        have hnone : tree place = none := (hpathOpen place hplace).resolve_right hstop
        rw [hnone] at hmkdir
        refine does_makeParents_missing hmkdir ?_
        refine .bind_ok (ih (hlinks.initial hparent) hpathNul hpathOpen hpath) (does_settled ?_)
        have hsame : made Inode.directory (made .directory tree (stations path))
            (stations (path ++ [name])) = made .directory tree (stations (path ++ [name])) := by
          rw [made_snoc, made_snoc, made_eq_self (passed_made : Passed (made _ tree (stations path)) path)]
        rw [← hsame]
        refine does_mkdir_step hhost (hsystem.made hpathNul) hlinks.made hnul passed_made ?_
        intro place hplace
        by_cases hmem : place ∈ stations path
        · exact Or.inr (made_of_mem hmem)
        · rw [made_of_not_mem hmem]
          exact hopen place hplace

/-- With its parents made, only something at its own place stops the last directory. -/
theorem does_mkdir_blocked (hhost : Obliging host) (hsystem : FileSystem tree)
    (hlinks : LinkFree tree (path ++ [name])) (hnul : hasNul (path ++ [name]) = false)
    (hopen : Open .directory tree (stations path))
    (hblocked : ¬Open .directory tree (stations (path ++ [name]))) :
    ∃ e, Does (mkdir host true (settle (made .directory tree (stations path)) (path ++ [name])))
      (made .directory tree (stations path)) (.error e) (made .directory tree (stations path)) := by
  have hpathNul : hasNul path = false := by
    rw [hasNul_append, Bool.or_eq_false_iff] at hnul
    exact hnul.1
  have hend : lexical (path ++ [name]) ∉ stations path ∧
      tree (lexical (path ++ [name])) ≠ none ∧
      tree (lexical (path ++ [name])) ≠ some .directory := by
    by_contra hend
    refine hblocked fun place hplace => ?_
    rcases mem_stations_snoc.1 hplace with hplace | rfl
    · exact hopen place hplace
    · by_contra hother
      rw [not_or] at hother
      exact hend ⟨fun hmem => (hopen _ hmem).elim hother.1 hother.2, hother⟩
  obtain ⟨hnew, hthere, hnot⟩ := hend
  have hsystem' : FileSystem (made .directory tree (stations path)) := hsystem.made hpathNul
  have hlinks' : LinkFree (made .directory tree (stations path)) (path ++ [name]) := hlinks.made
  have hsame : made Inode.directory tree (stations path) (lexical (path ++ [name])) =
      tree (lexical (path ++ [name])) := made_of_not_mem hnew
  rw [← hsame] at hthere hnot
  rw [← settle_of_passed_parent hsystem' hlinks' passed_made] at hthere
  refine ⟨.fileExists, .handle_error (does_osMkdir_occupied hhost hsystem' hlinks' hnul hthere) ?_⟩
  rw [if_neg (by decide)]
  exact does_orDirectory_unsettled hsystem' hlinks' fun hpassed => hnot (passed_snoc.1 hpassed).2

/-- On any other path it fails, and at most some directories are new. -/
theorem does_makeParents_error (hhost : Obliging host) (hsystem : FileSystem tree)
    (hlinks : LinkFree tree path)
    (hclosed : ¬(hasNul path = false ∧ Open .directory tree (stations path))) :
    ∃ e tree', Does (makeParents host true path) tree (.error e) tree' ∧
      Grown .directory tree tree' := by
  have hpassed : ¬Passed tree path := fun hpassed => hclosed ⟨hpassed.hasNul hsystem, hpassed.open⟩
  induction path using List.reverseRecOn with
  | nil =>
      refine absurd (fun place hplace => ?_) hpassed
      have hnil : place = [] := by simpa [stations, lexical] using hplace
      rw [hnil, hsystem.root]
  | append_singleton path name ih =>
      have hparent : path <+: path ++ [name] := List.prefix_append _ _
      cases hnul : hasNul (path ++ [name]) with
      | true =>
          refine ⟨⟨"ValueError", "embedded null byte"⟩, tree,
            does_makeParents_blocked hsystem hlinks hpassed (by decide) ?_, .refl tree⟩
          rw [osMkdir, hhost.mkdir, nulFault, hasNul_settle hsystem hlinks, hnul, if_pos rfl]
          exact does_systemCall_fault
      | false =>
          have hblocked : ¬Open .directory tree (stations (path ++ [name])) :=
            fun hopen => hclosed ⟨hnul, hopen⟩
          have hpathNul : hasNul path = false := by
            rw [hasNul_append, Bool.or_eq_false_iff] at hnul
            exact hnul.1
          by_cases hpath : Passed tree path
          · have hend : tree (lexical (path ++ [name])) ≠ none := by
              intro hnone
              refine hblocked fun place hplace => ?_
              rcases mem_stations_snoc.1 hplace with hplace | rfl
              · exact Or.inr (hpath place hplace)
              · exact Or.inl hnone
            rw [← settle_of_passed_parent hsystem hlinks hpath] at hend
            exact ⟨.fileExists, tree, does_makeParents_blocked hsystem hlinks hpassed (by decide)
              (does_osMkdir_occupied hhost hsystem hlinks hnul hend), .refl tree⟩
          · obtain ⟨place, hplace, hstop, hmkdir⟩ :=
              does_osMkdir_stop hhost hsystem hlinks hnul hpath
            cases hnode : tree place with
            | some node =>
                rw [hnode] at hmkdir
                exact ⟨.notADirectory, tree,
                  does_makeParents_blocked hsystem hlinks hpassed (by decide) hmkdir, .refl tree⟩
            | none =>
                rw [hnode] at hmkdir
                by_cases hopen : Open .directory tree (stations path)
                · obtain ⟨e, hmkdir'⟩ := does_mkdir_blocked hhost hsystem hlinks hnul hopen hblocked
                  exact ⟨e, _, does_makeParents_missing hmkdir (.bind_ok
                    (does_makeParents hhost hsystem (hlinks.initial hparent) hpathNul hopen)
                    (does_settled hmkdir')), .of_made hopen⟩
                · obtain ⟨e, tree', hdoes, hgrown⟩ := ih (hlinks.initial hparent)
                    (fun h => hopen h.2) hpath
                  exact ⟨e, tree', does_makeParents_missing hmkdir (.bind_error hdoes), hgrown⟩

end MakeParents

end CkbSail.PythonStd
