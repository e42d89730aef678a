import CkbSail.Scripts.Proofs.RocqContext
import Mathlib.Data.Set.Finite.List

/-!
# What the later check makes of a publication

The record lists the published files in the order of their names, the check lists
them in the order of their paths.  Both name the same files of an unchanged tree; the
lists are the same exactly when no two paths are misordered.  A change is noticed
unless it lies in a directory that the check passes over.
-/

namespace CkbSail.Scripts.RocqContext

open PythonStd ProofSupport
open SailModelTransaction hiding require require_eq_ok suffix Host

/-! ## Trees -/

section Trees

/-- A name that an entry of a directory can have. -/
structure EntryName (part : String) : Prop where
  proper : Proper part
  notParent : part ≠ ".."
  nameable : '\x00' ∉ part.toList

/-- Descendants of a directory, each path once. -/
structure IsListing (contents : List (Path × Node)) : Prop where
  nodup : (contents.map Prod.fst).Nodup
  nonempty : ∀ row ∈ contents, row.1 ≠ []
  names : ∀ row ∈ contents, ∀ part ∈ row.1, EntryName part

/-- All that is below a directory. -/
structure IsTree (contents : List (Path × Node)) : Prop extends IsListing contents where
  closed : ∀ row ∈ contents, ∀ place, place <+: row.1 → place ≠ row.1 → place ≠ [] →
    (place, .directory) ∈ contents

/-- There is something at the path that is not a directory. -/
def IsFile (contents : List (Path × Node)) (path : Path) : Prop :=
  ∃ node, (path, node) ∈ contents ∧ node ≠ .directory

/-- A directory stands at the path or can be made there, as no file is in its way. -/
def Makeable (contents : List (Path × Node)) (path : Path) : Prop :=
  (∀ part ∈ path, EntryName part) ∧ ∀ place, place <+: path → ¬IsFile contents place

def filePath? : Path × Node → Option Path
  | (path, .file ..) => some path
  | _ => none

variable {contents contents' : List (Path × Node)} {access : Access} {path place : Path}

theorem IsListing.node_unique (hlisting : IsListing contents) {node node' : Node}
    (h : (path, node) ∈ contents) (h' : (path, node') ∈ contents) : node = node' := by
  have hsame := List.inj_on_of_nodup_map hlisting.nodup h h' rfl
  exact (Prod.mk.inj hsame).2

theorem IsListing.of_isFile (hlisting : IsListing contents) (h : IsFile contents path) :
    path ≠ [] ∧ ∀ part ∈ path, Component part := by
  obtain ⟨node, hrow, -⟩ := h
  exact ⟨hlisting.nonempty _ hrow, fun part hpart => (hlisting.names _ hrow part hpart).proper.1⟩

theorem IsListing.seen (hlisting : IsListing contents) : IsListing (access.seen contents) where
  nodup := hlisting.nodup.sublist (List.filter_sublist.map _)
  nonempty := fun row hrow => hlisting.nonempty row (Access.mem_seen.1 hrow).1
  names := fun row hrow => hlisting.names row (Access.mem_seen.1 hrow).1

/-- What stands above a row is a directory. -/
theorem IsTree.makeable (htree : IsTree contents) {row : Path × Node} (hrow : row ∈ contents)
    (hplace : place <+: row.1) (hne : place ≠ row.1) : Makeable contents place := by
  refine ⟨fun part hpart => htree.names row hrow part (hplace.subset hpart), ?_⟩
  rintro above habove ⟨node, hnode, hfile⟩
  have hneAbove : above ≠ row.1 := by
    rintro rfl
    exact hne (hplace.eq_of_length_le habove.length_le)
  have hdirectory := htree.closed row hrow above (habove.trans hplace) hneAbove
    (htree.nonempty _ hnode)
  exact hfile (htree.node_unique hnode hdirectory)

/-- A walk that can look at what it comes to, and lists what it can look at, comes to
everything. -/
theorem sees_of_lists (htree : IsTree contents)
    (hreach : ∀ row ∈ contents, access.sees row.1 = true → access.reaches row.1 = true)
    (hlist : ∀ row ∈ contents, ∀ place, place <+: row.1 → place ≠ row.1 →
      access.reaches place = true → access.lists place = true) :
    ∀ row ∈ contents, access.sees row.1 = true := by
  suffices hdepth : ∀ depth, ∀ row ∈ contents, row.1.length = depth → access.sees row.1 = true from
    fun row hrow => hdepth _ row hrow rfl
  intro depth
  induction depth using Nat.strong_induction_on with
  | h depth ih =>
      rintro row hrow rfl
      rw [Access.sees_iff]
      intro place hplace hne
      have hreaches : access.reaches place = true := by
        by_cases hroot : place = []
        · subst hroot
          exact Access.reaches_iff.2 fun above habove hneAbove =>
            absurd (List.prefix_nil.1 habove) hneAbove
        · have hdirectory := htree.closed row hrow place hplace hne hroot
          have hshorter : place.length < row.1.length :=
            lt_of_le_of_ne hplace.length_le fun h => hne (hplace.eq_of_length h)
          exact hreach _ hdirectory (ih _ hshorter _ hdirectory rfl)
      exact ⟨hreaches, hlist row hrow place hplace hne hreaches⟩

theorem seen_eq_self (h : ∀ row ∈ contents, access.sees row.1 = true) :
    access.seen contents = contents :=
  List.filter_eq_self.2 h

end Trees

/-! ## The two orders -/

section Orders

variable {contents contents' : List (Path × Node)} {path : Path}

theorem filterMap_fileName? (contents : List (Path × Node)) :
    contents.filterMap fileName? = (contents.filterMap filePath?).map slashed := by
  have hname : fileName? = fun row => (filePath? row).map slashed := by
    funext row
    obtain ⟨path, node⟩ := row
    cases node <;> rfl
  rw [List.map_filterMap, hname]

theorem mem_filePaths_iff (hregular : ∀ row ∈ contents, Regular row.2) :
    path ∈ contents.filterMap filePath? ↔ IsFile contents path := by
  rw [List.mem_filterMap]
  constructor
  · rintro ⟨⟨place, node⟩, hrow, hpath⟩
    cases node with
    | file links bytes =>
        obtain rfl := Option.some.inj hpath
        exact ⟨_, hrow, by simp⟩
    | _ => cases hpath
  · rintro ⟨node, hrow, hnode⟩
    refine ⟨_, hrow, ?_⟩
    cases node with
    | directory => exact absurd rfl hnode
    | file links bytes => rfl
    | _ => exact (hregular _ hrow).elim

theorem mem_fileNames_iff (hlisting : IsListing contents)
    (hregular : ∀ row ∈ contents, Regular row.2) (hne : path ≠ [])
    (hpath : ∀ part ∈ path, Component part) :
    slashed path ∈ contents.filterMap fileName? ↔ IsFile contents path := by
  rw [filterMap_fileName?, List.mem_map, ← mem_filePaths_iff hregular]
  constructor
  · rintro ⟨place, hplace, hname⟩
    obtain ⟨hplacene, hplacepath⟩ := hlisting.of_isFile ((mem_filePaths_iff hregular).1 hplace)
    rwa [← slashed_injective hplacepath hpath hplacene hne hname]
  · exact fun h => ⟨path, h, rfl⟩

/-- The names tell which files there are. -/
theorem isFile_of_names (hlisting : IsListing contents) (hlisting' : IsListing contents')
    (hregular : ∀ row ∈ contents, Regular row.2) (hregular' : ∀ row ∈ contents', Regular row.2)
    (hnames : (contents.filterMap fileName?).Perm (contents'.filterMap fileName?)) (path : Path) :
    IsFile contents path ↔ IsFile contents' path := by
  constructor
  · intro h
    obtain ⟨hne, hpath⟩ := hlisting.of_isFile h
    rw [← mem_fileNames_iff hlisting' hregular' hne hpath, ← hnames.mem_iff]
    exact (mem_fileNames_iff hlisting hregular hne hpath).2 h
  · intro h
    obtain ⟨hne, hpath⟩ := hlisting'.of_isFile h
    rw [← mem_fileNames_iff hlisting hregular hne hpath, hnames.mem_iff]
    exact (mem_fileNames_iff hlisting' hregular' hne hpath).2 h

theorem sortedPaths_perm (contents : List (Path × Node)) :
    (sortedPaths contents).Perm contents := List.mergeSort_perm _ _

theorem sortedPaths_pairwise (hlisting : IsListing contents) :
    ((sortedPaths contents).filterMap filePath?).Pairwise (· < ·) := by
  have hle : (sortedPaths contents).Pairwise fun left right => left.1 ≤ right.1 := by
    have h : (sortedPaths contents).Pairwise fun left right => decide (left.1 ≤ right.1) = true :=
      List.pairwise_mergeSort
        (fun a b c hab hbc => by
          simp only [decide_eq_true_eq] at hab hbc ⊢
          exact hab.trans hbc)
        (fun a b => by simpa using le_total a.1 b.1) contents
    simpa using h
  have hne : (sortedPaths contents).Pairwise fun left right => left.1 ≠ right.1 := by
    have h := ((sortedPaths_perm contents).map Prod.fst).nodup_iff.2 hlisting.nodup
    rwa [List.Nodup, List.pairwise_map] at h
  have hlt := hle.imp₂ (fun left right hle hne => lt_of_le_of_ne hle hne) hne
  refine hlt.filterMap filePath? fun left right h a ha b hb => ?_
  obtain ⟨path, node⟩ := left
  obtain ⟨path', node'⟩ := right
  cases node <;> cases node' <;> simp_all [filePath?]

/-- The order of the files depends on nothing but the files. -/
theorem sortedPaths_fileNames_congr (hlisting : IsListing contents)
    (hlisting' : IsListing contents')
    (hsame : contents.filterMap filePath? = contents'.filterMap filePath?) :
    (sortedPaths contents).filterMap fileName? = (sortedPaths contents').filterMap fileName? := by
  have hperm := ((sortedPaths_perm contents).filterMap filePath?).trans
    (hsame ▸ ((sortedPaths_perm contents').filterMap filePath?).symm)
  rw [filterMap_fileName?, filterMap_fileName?, hperm.eq_of_pairwise'
    (sortedPaths_pairwise hlisting) (sortedPaths_pairwise hlisting')]

end Orders

/-! ## A file that is hidden -/

section Hidden

/-- The tree with a new file in a directory, which is made if it is not there. -/
def withFile (contents : List (Path × Node)) (path : Path) (name : String) :
    List (Path × Node) :=
  let missing := path.inits.dedup.filter fun place =>
    place ≠ [] && !(contents.map Prod.fst).contains place
  contents ++ missing.map (fun place => (place, .directory)) ++ [(path ++ [name], .file 1 [])]

variable {contents : List (Path × Node)} {access : Access} {path : Path} {name : String}

theorem mem_withFile {row : Path × Node} :
    row ∈ withFile contents path name ↔ row ∈ contents ∨
      (∃ place, (place <+: path ∧ place ≠ [] ∧ place ∉ contents.map Prod.fst) ∧
        (place, .directory) = row) ∨ row = (path ++ [name], .file 1 []) := by
  simp only [withFile, List.mem_append, List.mem_map, List.mem_filter, List.mem_dedup,
    List.mem_inits,
    Bool.and_eq_true, decide_eq_true_eq, Bool.not_eq_true', List.contains_eq_mem,
    decide_eq_false_iff_not, List.mem_singleton, or_assoc]

/-- There is always another name. -/
theorem exists_fresh (contents : List (Path × Node)) (path : Path) :
    ∃ name, EntryName name ∧ path ++ [name] ∉ contents.map Prod.fst := by
  have hinjective : Function.Injective fun n : Nat =>
      path ++ [String.ofList (List.replicate (n + 1) 'a')] := by
    intro n n' h
    have hlength := congrArg List.length
      (congrArg String.toList (List.singleton_inj.1 (List.append_cancel_left h)))
    simpa using hlength
  obtain ⟨path', ⟨n, rfl⟩, hnew⟩ := (Set.infinite_range_of_injective hinjective).exists_notMem_finite
    (contents.map Prod.fst).finite_toSet
  have hchars : (String.ofList (List.replicate (n + 1) 'a')).toList = 'a' :: List.replicate n 'a' :=
    String.toList_ofList
  have hne : ∀ text : String, 'a' ∉ text.toList →
      String.ofList (List.replicate (n + 1) 'a') ≠ text := by
    rintro text htext rfl
    rw [hchars] at htext
    exact htext List.mem_cons_self
  have hnot : ∀ c : Char, c ≠ 'a' → c ∉ (String.ofList (List.replicate (n + 1) 'a')).toList := by
    intro c hc hmem
    rw [String.toList_ofList] at hmem
    exact hc (List.eq_of_mem_replicate hmem)
  exact ⟨_, ⟨⟨hnot '/' (by decide), hne "" (by decide), hne "." (by decide)⟩, hne ".." (by decide),
    hnot '\x00' (by decide)⟩, hnew⟩

theorem isTree_withFile (htree : IsTree contents) (hpath : Makeable contents path)
    (hname : EntryName name) (hnew : path ++ [name] ∉ contents.map Prod.fst) :
    IsTree (withFile contents path name) where
  nodup := by
    simp only [withFile, List.map_append, List.map_map, Function.comp_def, List.map_id',
      List.map_cons, List.map_nil]
    refine List.Nodup.append (.append htree.nodup ((List.nodup_dedup _).filter _) ?_)
      (List.nodup_singleton _) ?_
    · intro place hold hmissing
      simp only [List.mem_filter, Bool.and_eq_true, Bool.not_eq_true', List.contains_eq_mem,
        decide_eq_false_iff_not] at hmissing
      exact hmissing.2.2 hold
    · rw [List.disjoint_singleton, List.mem_append, not_or]
      refine ⟨hnew, fun hmissing => ?_⟩
      have hprefix := (List.mem_inits _ _).1 (List.mem_dedup.1 (List.mem_filter.1 hmissing).1)
      have hle := hprefix.length_le
      rw [List.length_append, List.length_singleton] at hle
      omega
  nonempty := by
    intro row hrow
    rcases mem_withFile.1 hrow with hrow | ⟨place, ⟨-, hne, -⟩, rfl⟩ | rfl
    · exact htree.nonempty row hrow
    · exact hne
    · exact List.append_ne_nil_of_right_ne_nil _ (List.cons_ne_nil _ _)
  names := by
    intro row hrow part hpart
    rcases mem_withFile.1 hrow with hrow | ⟨place, ⟨hplace, -, -⟩, rfl⟩ | rfl
    · exact htree.names row hrow part hpart
    · exact hpath.1 part (hplace.subset hpart)
    · rcases List.mem_append.1 hpart with hpart | hpart
      · exact hpath.1 part hpart
      · rw [List.mem_singleton.1 hpart]
        exact hname
  closed := by
    -- every directory on the way is there or made
    have hway : ∀ place, place <+: path → place ≠ [] →
        (place, .directory) ∈ withFile contents path name := by
      intro place hplace hne
      rw [mem_withFile]
      by_cases hold : place ∈ contents.map Prod.fst
      · obtain ⟨⟨place, node⟩, hrow, rfl⟩ := List.mem_map.1 hold
        by_cases hdirectory : node = .directory
        · exact Or.inl (hdirectory ▸ hrow)
        · exact absurd ⟨node, hrow, hdirectory⟩ (hpath.2 place hplace)
      · exact Or.inr (Or.inl ⟨place, ⟨hplace, hne, hold⟩, rfl⟩)
    intro row hrow place hplace hne hroot
    rcases mem_withFile.1 hrow with hrow | ⟨above, ⟨habove, -, -⟩, rfl⟩ | rfl
    · exact mem_withFile.2 (Or.inl (htree.closed row hrow place hplace hne hroot))
    · exact hway place (hplace.trans habove) hroot
    · exact hway place ((List.prefix_concat_iff.1 hplace).resolve_left hne) hroot

/-- In a directory that is not listed the new file is not seen. -/
theorem filePaths_withFile (hhidden : access.lists path = false) :
    (access.seen (withFile contents path name)).filterMap filePath? =
      (access.seen contents).filterMap filePath? := by
  have hunseen : access.sees (path ++ [name]) = false := by
    rw [Bool.eq_false_iff]
    intro hsees
    have hlists := (Access.sees_iff.1 hsees path (List.prefix_append _ _) (by simp)).2
    rw [hhidden] at hlists
    cases hlists
  have hdirectories : ∀ places : List Path,
      (access.seen (places.map fun place => (place, .directory))).filterMap filePath? = [] := by
    intro places
    rw [List.filterMap_eq_nil_iff]
    intro row hrow
    obtain ⟨place, -, rfl⟩ := List.mem_map.1 (Access.mem_seen.1 hrow).1
    rfl
  rw [withFile, Access.seen, List.filter_append, List.filter_append, List.filterMap_append,
    List.filterMap_append, ← Access.seen, ← Access.seen, hdirectories]
  simp [hunseen]

end Hidden

/-! ## The later check -/

section Later

variable {start : Start} {host : Host} {report : Json} {record : Record}
  {contents : List (Path × Node)}

/-- What access the later check needs: the files have all been recorded, every directory
that can be looked at beside them can be listed, and what stands can be looked at and
read. -/
structure Accessible (start : Start) (access : Access) (contents : List (Path × Node)) : Prop where
  recorded : ∀ path, IsFile contents path → (start.host.access .stage).sees path = true
  listed : ∀ path, Makeable contents path → access.reaches path = true → access.lists path = true
  reached : ∀ row ∈ contents, access.reaches row.1 = true
  read : ∀ path, IsFile contents path → access.reads path = true

theorem accepts_finding_iff (hrocq : ForRocq start host.root)
    (hpublished : Published start record contents)
    (hlogged : Logged host report record (installBackup start.host start.destination))
    (entry : Option Entry) :
    Accepts (host.finding entry) report ↔
      (∀ row ∈ descendants host.access entry, Passes host.access row) ∧
        (sortedPaths (descendants host.access entry)).filterMap fileName? =
          ((seenBy start contents).filterMap fileName?).mergeSort (· ≤ ·) ∧
        ∀ name ∈ ["rv64d.v", "rv64d_types.v"],
          name ∈ (seenBy start contents).filterMap fileName? := by
  have hlogged' : Logged (host.finding entry) report record
      (installBackup start.host start.destination) :=
    ⟨hlogged.row, hlogged.logIsItself, hlogged.once, hlogged.transactionIsItself,
      hlogged.transactionJson, hlogged.transactionSha⟩
  have hmem : ∀ row, row ∈ sortedPaths (descendants host.access entry) ↔
      row ∈ descendants host.access entry := fun row => (sortedPaths_perm _).mem_iff
  have hsorted : ∀ name, name ∈ ((seenBy start contents).filterMap fileName?).mergeSort (· ≤ ·) ↔
      name ∈ (seenBy start contents).filterMap fileName? :=
    fun name => (List.mergeSort_perm _ _).mem_iff
  have hroot : (host.finding entry).root = host.root := rfl
  rw [accepts_iff hrocq hroot hpublished hlogged']
  constructor
  · rintro ⟨files, hfiles, hnames, hrequired⟩
    obtain ⟨hpasses, hinventory⟩ := inventory_iff.1 ⟨files, hfiles, hnames⟩
    refine ⟨fun row hrow => hpasses row ((hmem row).2 hrow), hinventory, fun name hname => ?_⟩
    rw [← hsorted, ← hnames]
    exact hrequired name hname
  · rintro ⟨hpasses, hinventory, hrequired⟩
    obtain ⟨files, hfiles, hnames⟩ := inventory_iff.2
      ⟨fun row hrow => hpasses row ((hmem row).1 hrow), hinventory⟩
    refine ⟨files, hfiles, hnames, fun name hname => ?_⟩
    rw [hnames, hsorted]
    exact hrequired name hname

theorem Published.regular_seenBy (hpublished : Published start record contents) :
    ∀ row ∈ seenBy start contents, Regular row.2 := by
  obtain ⟨access, root, hcheck⟩ := hpublished.regular
  exact regular_of_checkEntries hcheck

/-- If all files are recorded, what is not recorded are directories. -/
theorem regular_of_recorded (hpublished : Published start record contents)
    (hrecorded : ∀ path, IsFile contents path → (start.host.access .stage).sees path = true) :
    ∀ row ∈ contents, Regular row.2 := by
  rintro ⟨path, node⟩ hrow
  by_cases hdirectory : node = .directory
  · subst hdirectory
    trivial
  · exact hpublished.regular_seenBy _
      (Access.mem_seen.2 ⟨hrow, hrecorded path ⟨node, hrow, hdirectory⟩⟩)

theorem fileNames_seenBy
    (hrecorded : ∀ path, IsFile contents path → (start.host.access .stage).sees path = true) :
    (seenBy start contents).filterMap fileName? = contents.filterMap fileName? := by
  rw [seenBy, Access.seen, List.filterMap_filter]
  refine List.filterMap_congr ?_
  rintro ⟨path, node⟩ hrow
  cases node with
  | file links bytes => rw [if_pos (hrecorded path ⟨_, hrow, by simp⟩)]
  | _ => exact ite_self _

/-- With the access it needs the check comes to all of a tree in which the published
files are. -/
theorem descendants_eq {contents' : List (Path × Node)} {entry : Option Entry}
    (hentry : contentsOf entry = contents') (htree : IsTree contents')
    (haccess : Accessible start host.access contents)
    (hreach : ∀ row ∈ descendants host.access entry, host.access.reaches row.1 = true)
    (hfiles : ∀ path, IsFile contents path → IsFile contents' path) :
    descendants host.access entry = contents' := by
  rw [descendants, hentry] at hreach ⊢
  refine seen_eq_self (sees_of_lists htree (fun row hrow hsees => ?_)
    fun row hrow place hplace hne hreaches => ?_)
  · exact hreach row (Access.mem_seen.2 ⟨hrow, hsees⟩)
  · obtain ⟨hnames, hclear⟩ := htree.makeable hrow hplace hne
    exact haccess.listed place ⟨hnames, fun above habove hfile =>
      hclear above habove (hfiles above hfile)⟩ hreaches

/-- The unchanged tree is accepted exactly when no two of its files are misordered. -/
theorem accepts_unchanged_iff (hrocq : ForRocq start host.root)
    (hpublished : Published start record contents)
    (hlogged : Logged host report record (installBackup start.host start.destination))
    (htree : IsTree contents) (haccess : Accessible start host.access contents)
    (hrequired : IsFile contents ["rv64d.v"] ∧ IsFile contents ["rv64d_types.v"]) :
    Accepts (host.finding (some (.directory contents))) report ↔
      ∀ left right, IsFile contents left → IsFile contents right → ¬Misordered left right := by
  have hregular := regular_of_recorded hpublished haccess.recorded
  have hfile : ∀ path, path ∈ contents.filterMap filePath? ↔ IsFile contents path :=
    fun path => mem_filePaths_iff hregular
  have hnames : ∀ name ∈ ["rv64d.v", "rv64d_types.v"], name ∈ contents.filterMap fileName? := by
    have hname : ∀ name, Component name → IsFile contents [name] →
        name ∈ contents.filterMap fileName? := by
      intro name hcomponent h
      have hslashed : slashed [name] = name := by
        rw [slashed, String.intercalate_singleton]
      rw [← hslashed]
      refine (mem_fileNames_iff htree.toIsListing hregular (List.cons_ne_nil _ _) ?_).2 h
      simpa using hcomponent
    simp only [List.forall_mem_cons]
    exact ⟨hname _ (by simp [Component]) hrequired.1, hname _ (by simp [Component]) hrequired.2,
      by simp⟩
  have horders := map_slashed_eq_mergeSort_iff
    ((sortedPaths_perm contents).filterMap filePath?) (sortedPaths_pairwise htree.toIsListing)
    fun path hpath => (htree.of_isFile ((hfile path).1 hpath)).2
  have hall : descendants host.access (some (.directory contents)) = contents :=
    descendants_eq rfl htree haccess
      (fun row hrow => haccess.reached row (Access.mem_seen.1 hrow).1) fun _ h => h
  have hpasses : ∀ row ∈ contents, Passes host.access row := fun row hrow =>
    ⟨haccess.reached row hrow, hregular row hrow, fun hnode => haccess.read _ ⟨_, hrow, hnode⟩⟩
  rw [accepts_finding_iff hrocq hpublished hlogged, hall, fileNames_seenBy haccess.recorded]
  simp only [filterMap_fileName?, horders, hfile]
  constructor
  · exact fun h left right hleft hright => h.2.1 left hleft right hright
  · intro h
    refine ⟨hpasses, fun left hleft right hright => h left right hleft hright, ?_⟩
    rwa [← filterMap_fileName?]

/-- A tree with other files is rejected. -/
theorem not_accepts_of_changed (hrocq : ForRocq start host.root)
    (hpublished : Published start record contents)
    (hlogged : Logged host report record (installBackup start.host start.destination))
    (htree : IsTree contents) (haccess : Accessible start host.access contents)
    {entry : Option Entry} (hentry : IsTree (contentsOf entry))
    (hchanged : ¬∀ path, IsFile (contentsOf entry) path ↔ IsFile contents path) :
    ¬Accepts (host.finding entry) report := by
  rw [accepts_finding_iff hrocq hpublished hlogged]
  rintro ⟨hpasses, hnames, -⟩
  have hperm : ((descendants host.access entry).filterMap fileName?).Perm
      (contents.filterMap fileName?) := by
    refine ((sortedPaths_perm _).filterMap fileName?).symm.trans ?_
    rw [hnames, fileNames_seenBy haccess.recorded]
    exact List.mergeSort_perm _ _
  have hsame := isFile_of_names hentry.toIsListing.seen htree.toIsListing
    (fun row hrow => (hpasses row hrow).regular)
    (regular_of_recorded hpublished haccess.recorded) hperm
  have hall : descendants host.access entry = contentsOf entry := by
    refine descendants_eq rfl hentry haccess (fun row hrow => (hpasses row hrow).reached)
      fun path hpath => ?_
    obtain ⟨node, hrow, hnode⟩ := (hsame path).2 hpath
    exact ⟨node, (Access.mem_seen.1 hrow).1, hnode⟩
  rw [← descendants, hall] at hsame
  exact hchanged hsame

/-- A file in a directory that is not listed goes unnoticed. -/
theorem accepts_withFile (hrocq : ForRocq start host.root)
    (hpublished : Published start record contents)
    (hlogged : Logged host report record (installBackup start.host start.destination))
    {path : Path} {name : String} (htree : IsTree contents)
    (hnewTree : IsTree (withFile contents path name))
    (hreaches : host.access.reaches path = true) (hhidden : host.access.lists path = false)
    (haccepts : Accepts (host.finding (some (.directory contents))) report) :
    Accepts (host.finding (some (.directory (withFile contents path name)))) report := by
  rw [accepts_finding_iff hrocq hpublished hlogged] at haccepts ⊢
  obtain ⟨hpasses, hnames, hrequired⟩ := haccepts
  refine ⟨fun row hrow => ?_, ?_, hrequired⟩
  · obtain ⟨hmem, hsees⟩ := Access.mem_seen.1 hrow
    rcases mem_withFile.1 hmem with hold | ⟨place, ⟨hplace, -, -⟩, rfl⟩ | rfl
    · exact hpasses row (Access.mem_seen.2 ⟨hold, hsees⟩)
    · exact ⟨Access.reaches_initial hreaches hplace, trivial, fun h => absurd rfl h⟩
    · have hlists := (Access.sees_iff.1 hsees path (List.prefix_append _ _) (by simp)).2
      rw [hhidden] at hlists
      cases hlists
  · rw [← hnames]
    exact sortedPaths_fileNames_congr hnewTree.toIsListing.seen htree.toIsListing.seen
      (filePaths_withFile hhidden)

/-- If the check accepts the unchanged tree and notices every change, then it has the
access it needs. -/
theorem accessible_of_exact (hrocq : ForRocq start host.root)
    (hpublished : Published start record contents)
    (hlogged : Logged host report record (installBackup start.host start.destination))
    (htree : IsTree contents)
    (haccepts : Accepts (host.finding (some (.directory contents))) report)
    (hrejects : ∀ entry, IsTree (contentsOf entry) →
      (¬∀ path, IsFile (contentsOf entry) path ↔ IsFile contents path) →
        ¬Accepts (host.finding entry) report) :
    Accessible start host.access contents := by
  have hlisted : ∀ path, Makeable contents path → host.access.reaches path = true →
      host.access.lists path = true := by
    intro path hpath hreaches
    by_contra hhidden
    rw [Bool.not_eq_true] at hhidden
    obtain ⟨name, hname, hnew⟩ := exists_fresh contents path
    have hnewTree := isTree_withFile htree hpath hname hnew
    refine hrejects (some (.directory (withFile contents path name))) hnewTree (fun hsame => ?_)
      (accepts_withFile hrocq hpublished hlogged htree hnewTree hreaches hhidden haccepts)
    have hadded : IsFile (withFile contents path name) (path ++ [name]) :=
      ⟨.file 1 [], mem_withFile.2 (Or.inr (Or.inr rfl)), by simp⟩
    obtain ⟨node, hrow, -⟩ := (hsame _).1 hadded
    exact hnew (List.mem_map_of_mem hrow)
  obtain ⟨hpasses, hnames, -⟩ := (accepts_finding_iff hrocq hpublished hlogged _).1 haccepts
  have hall : descendants host.access (some (.directory contents)) = contents := by
    refine seen_eq_self (sees_of_lists htree (fun row hrow hsees => ?_)
      fun row hrow place hplace hne hreaches => ?_)
    · exact (hpasses row (Access.mem_seen.2 ⟨hrow, hsees⟩)).reached
    · exact hlisted place (htree.makeable hrow hplace hne) hreaches
  rw [hall] at hpasses hnames
  have hperm : (contents.filterMap fileName?).Perm ((seenBy start contents).filterMap fileName?) :=
    ((sortedPaths_perm _).filterMap fileName?).symm.trans (hnames ▸ List.mergeSort_perm _ _)
  have hsame := isFile_of_names htree.toIsListing htree.toIsListing.seen
    (fun row hrow => (hpasses row hrow).regular) hpublished.regular_seenBy hperm
  refine ⟨fun path hpath => ?_, hlisted, fun row hrow => (hpasses row hrow).reached,
    fun path hpath => ?_⟩
  · obtain ⟨node, hrow, -⟩ := (hsame path).1 hpath
    exact (Access.mem_seen.1 hrow).2
  · obtain ⟨node, hrow, hnode⟩ := hpath
    exact (hpasses _ hrow).read hnode

/-- Every published tree is accepted as long as it stays as it is, and no tree with
other files is: this holds of a publication exactly when no two of its files are
misordered and the user who checks has the access that it takes. -/
theorem generationEvidence_iff (hrocq : ForRocq start host.root)
    (hreturned : (replaceModel start.host start.source start.destination (initialState start.host
      start.source start.destination start.oldSource start.oldDestination)).result = .ok record)
    (hcontents : (replaceModel start.host start.source start.destination (initialState start.host
      start.source start.destination start.oldSource start.oldDestination)).state.disk
        .destination = some (.directory contents))
    (hlogged : Logged host report record (installBackup start.host start.destination))
    (htree : IsTree contents)
    (hrequired : IsFile contents ["rv64d.v"] ∧ IsFile contents ["rv64d_types.v"]) :
    (Accepts (host.finding (some (.directory contents))) report ∧
        ∀ entry, IsTree (contentsOf entry) →
          (¬∀ path, IsFile (contentsOf entry) path ↔ IsFile contents path) →
            ¬Accepts (host.finding entry) report) ↔
      (∀ left right, IsFile contents left → IsFile contents right → ¬Misordered left right) ∧
        Accessible start host.access contents := by
  obtain ⟨contents', hcontents', hpublished⟩ := published_of_returned hreturned
  obtain rfl : contents = contents' := by
    simpa using hcontents.symm.trans hcontents'
  constructor
  · rintro ⟨haccepts, hrejects⟩
    have haccess := accessible_of_exact hrocq hpublished hlogged htree haccepts hrejects
    exact ⟨(accepts_unchanged_iff hrocq hpublished hlogged htree haccess hrequired).1 haccepts,
      haccess⟩
  · rintro ⟨horder, haccess⟩
    refine ⟨(accepts_unchanged_iff hrocq hpublished hlogged htree haccess hrequired).2 horder,
      fun entry hentry hchanged => ?_⟩
    exact not_accepts_of_changed hrocq hpublished hlogged htree haccess hentry hchanged

end Later

/-! ## Two publications -/

/-- A generator that leaves `tree`, which nothing is changed in. -/
def plainStart (tree : List (Path × Node)) : Start where
  host :=
    { paths := ⟨id, ["home"]⟩
      access := fun _ => .full
      sourceParentIsDir := true
      generationSuffix := "0"
      installSuffix := "0"
      generate := (some (.directory tree), none)
      adapt := fun entry => (some entry, none)
      partialCopy := none
      fault := fun _ => none }
  source := sourceOf ["work"]
  destination := destinationOf ["work"]
  oldSource := none
  oldDestination := none

def plainRecord (files : List String) : Record where
  status := "installed"
  source := "/work/deps/sail-riscv/build/rocq"
  destination := "/work/proof/rocq/generated/sail"
  generationBackup := "/work/deps/sail-riscv/build/.sail-generation-0"
  installationBackup := "/work/proof/rocq/generated/.sail-install-0"
  oldSourceSaved := false
  oldDestinationSaved := false
  published := true
  policyChanged := false
  rawFiles := some files
  installedFiles := some files
  error := none
  destinationRestored := false
  sourceRestored := false

def plainHost (record : Record) : RocqContext.Host where
  root := ["work"]
  logIsItself := true
  logSha := .ok "0"
  logLines := [.other, .transaction (recordJson record)]
  transactionIsItself := fun _ => true
  transactionJson := fun _ => .ok (recordJson record)
  transactionSha := fun _ => .ok "0"
  destinationEntry := none
  access := .full
  sha256 := fun _ => "0"

def plainReport : Json :=
  .obj [("stages", .arr [.obj [("name", .str "sail-generate"),
    ("command", .arr [.str "bash", .str "scripts/generate_proof_model.sh", .str "rocq"]),
    ("cwd", .str "/work"), ("status", .str "passed"), ("exit_code", .int 0),
    ("log", .str "sail-generate.log"), ("log_sha256", .str "0")]])]

theorem logged_plain (record : Record) (backup : Path) :
    Logged (plainHost record) plainReport record backup := by
  refine ⟨⟨_, _, _, rfl, rfl, ⟨rfl, rfl, rfl, rfl, rfl, rfl, rfl⟩, rfl⟩, rfl, rfl, rfl, rfl,
    _, rfl⟩

theorem forRocq_plain (tree : List (Path × Node)) (record : Record) :
    ForRocq (plainStart tree) (plainHost record).root := by
  refine ⟨rfl, rfl, fun part hpart => ?_, by simp [plainStart, Component]⟩
  obtain rfl := List.mem_singleton.1 hpart
  exact ⟨by simp [Component], by decide, by decide⟩

/-- Root has all the access that it takes. -/
theorem accessible_full {start : Start} {contents : List (Path × Node)}
    (h : start.host.access .stage = .full) : Accessible start .full contents := by
  refine ⟨fun path _ => ?_, fun _ _ _ => rfl, fun row _ => Access.reaches_full row.1,
    fun _ _ => rfl⟩
  rw [h]
  exact Access.sees_full path

/-- A tree whose names are in the order of its paths. -/
def orderedTree : List (Path × Node) :=
  [(["model"], .directory), (["model", "extra.v"], .file 1 []), (["rv64d.v"], .file 1 []),
    (["rv64d_types.v"], .file 1 [])]

/-- The name of the directory `rv64d` comes before `rv64d.v`, but `rv64d/extra.v` after. -/
def nestedTree : List (Path × Node) :=
  [(["rv64d"], .directory), (["rv64d", "extra.v"], .file 1 []), (["rv64d.v"], .file 1 []),
    (["rv64d_types.v"], .file 1 [])]

theorem isFile_orderedTree_iff {path : Path} : IsFile orderedTree path ↔
    path = ["model", "extra.v"] ∨ path = ["rv64d.v"] ∨ path = ["rv64d_types.v"] := by
  simp [IsFile, orderedTree, or_and_right, exists_or]

/-- The conditions on a tree, for one that is written down. -/
theorem isTree_of_listed {contents : List (Path × Node)} (hnodup : (contents.map Prod.fst).Nodup)
    (hnonempty : ∀ row ∈ contents, row.1 ≠ [])
    (hnames : ∀ row ∈ contents, ∀ part ∈ row.1, '/' ∉ part.toList ∧ '\x00' ∉ part.toList ∧
      part ∉ ["", ".", ".."])
    (hclosed : ∀ row ∈ contents, ∀ place ∈ row.1.inits.dropLast, place ≠ [] →
      (place, .directory) ∈ contents) : IsTree contents := by
  refine ⟨⟨hnodup, hnonempty, fun row hrow part hpart => ?_⟩, fun row hrow place hplace hne =>
    hclosed row hrow place (mem_inits_dropLast.2 ⟨hplace, hne⟩)⟩
  obtain ⟨hslash, hnul, hdots⟩ := hnames row hrow part hpart
  simp only [List.mem_cons, List.not_mem_nil, or_false, not_or] at hdots
  exact ⟨⟨hslash, hdots.1, hdots.2.1⟩, hdots.2.2, hnul⟩

theorem isTree_orderedTree : IsTree orderedTree :=
  isTree_of_listed (by decide) (by decide) (by decide +kernel) (by decide +kernel)

theorem isTree_nestedTree : IsTree nestedTree :=
  isTree_of_listed (by decide) (by decide) (by decide +kernel) (by decide +kernel)

theorem generationEvidence_iff_orderedTree :
    let record := plainRecord ((orderedTree.filterMap fileName?).mergeSort (· ≤ ·))
    Accepts ((plainHost record).finding (some (.directory orderedTree))) plainReport ∧
      ∀ entry, IsTree (contentsOf entry) →
        (¬∀ path, IsFile (contentsOf entry) path ↔ IsFile orderedTree path) →
          ¬Accepts ((plainHost record).finding entry) plainReport := by
  intro record
  refine (generationEvidence_iff (forRocq_plain orderedTree record) rfl rfl
    (logged_plain record _) isTree_orderedTree ?_).2 ⟨?_, accessible_full rfl⟩
  · exact ⟨isFile_orderedTree_iff.2 (by simp), isFile_orderedTree_iff.2 (by simp)⟩
  · intro left right hleft hright
    rcases isFile_orderedTree_iff.1 hleft with rfl | rfl | rfl <;>
      rcases isFile_orderedTree_iff.1 hright with rfl | rfl | rfl <;> simp [Misordered]

/-- The names `rv64d.v`, `rv64d/extra.v` are in order, the paths are not: the tree
is published and then rejected as it stands. -/
theorem nestedTree_not_accepted :
    let start := plainStart nestedTree
    let run := replaceModel start.host start.source start.destination (initialState start.host
      start.source start.destination start.oldSource start.oldDestination)
    let record := plainRecord ((nestedTree.filterMap fileName?).mergeSort (· ≤ ·))
    let host := plainHost record
    run.result = .ok record ∧ run.state.disk .destination = some (.directory nestedTree) ∧
      ForRocq start host.root ∧
      Logged host plainReport record (installBackup start.host start.destination) ∧
      IsTree nestedTree ∧ IsFile nestedTree ["rv64d.v"] ∧ IsFile nestedTree ["rv64d_types.v"] ∧
      ¬Accepts (host.finding (some (.directory nestedTree))) plainReport := by
  intro start run record host
  have hrocq : ForRocq start host.root := forRocq_plain nestedTree record
  have hreturned : run.result = .ok record := rfl
  have hcontents : run.state.disk .destination = some (.directory nestedTree) := rfl
  have hlogged := logged_plain record (installBackup start.host start.destination)
  have hrequired : IsFile nestedTree ["rv64d.v"] ∧ IsFile nestedTree ["rv64d_types.v"] := by
    constructor
    · exact ⟨.file 1 [], by simp [nestedTree], by simp⟩
    · exact ⟨.file 1 [], by simp [nestedTree], by simp⟩
  refine ⟨hreturned, hcontents, hrocq, hlogged, isTree_nestedTree, hrequired.1, hrequired.2, ?_⟩
  obtain ⟨contents, hcontents', hpublished⟩ := published_of_returned hreturned
  obtain rfl : nestedTree = contents := by
    simpa using hcontents.symm.trans hcontents'
  rw [accepts_unchanged_iff hrocq hpublished hlogged isTree_nestedTree (accessible_full rfl)
    hrequired]
  intro h
  refine h ["rv64d", "extra.v"] ["rv64d.v"] ?_ hrequired.1 ?_
  · exact ⟨.file 1 [], by simp [nestedTree], by simp⟩
  · exact Or.inr ⟨List.cons_ne_nil _ _, '.', ['v'], by decide, by decide⟩

end CkbSail.Scripts.RocqContext
