import CkbSail.Scripts.Proofs.Archive
import CkbSail.Scripts.Proofs.EvidenceBundle
import Mathlib.Data.List.Pairwise

/-!
# A packed bundle is extracted as it was

The walk lists the files that are not below an excluded name or a directory that
cannot be listed, each once.  Below a directory no name is a part of another, so
what is packed is extracted whole.
-/

namespace CkbSail.Scripts.EvidenceBundle

open PythonStd ProofSupport ReleaseCommon

/-! ## The files of a directory -/

/-- A file below a directory, and whether all directories from there to it can be
listed. -/
structure FileBelow where
  path : Path
  mode : Nat
  bytes : List UInt8
  seen : Bool

def FileBelow.under (place : Path) (file : FileBelow) : FileBelow :=
  { file with path := place ++ file.path }

/-- The file as one below the parent of its directory. -/
def FileBelow.within (name : String) (rights : Rights) (file : FileBelow) : FileBelow :=
  { file.under [name] with seen := rights.lists && file.seen }

/-- No component of the path is excluded. -/
def FileBelow.Included (file : FileBelow) : Prop := ∀ part ∈ file.path, part ∉ EXCLUDED

/-- The walk comes to the file. -/
def FileBelow.Walked (file : FileBelow) : Prop := file.Included ∧ file.seen = true

instance (file : FileBelow) : Decidable file.Walked :=
  inferInstanceAs (Decidable ((∀ part ∈ file.path, part ∉ EXCLUDED) ∧ file.seen = true))

namespace Entries

def names : Entries → List String
  | nil => []
  | file name _ _ rest => name :: rest.names
  | link name _ rest => name :: rest.names
  | special name rest => name :: rest.names
  | directory name _ _ rest => name :: rest.names

/-- All files below, however deep. -/
def files : Entries → List FileBelow
  | nil => []
  | file name mode bytes rest => ⟨[name], mode, bytes, true⟩ :: rest.files
  | link _ _ rest => rest.files
  | special _ rest => rest.files
  | directory name rights entries rest =>
      entries.files.map (FileBelow.within name rights) ++ rest.files

/-- What a name in a directory can be. -/
def Nameable (name : String) : Prop := name ≠ "" ∧ '/' ∉ name.toList

/-- A directory as the operating system keeps it. -/
def Proper : Entries → Prop
  | nil => True
  | file name _ _ rest => Nameable name ∧ name ∉ rest.names ∧ rest.Proper
  | link name _ rest => Nameable name ∧ name ∉ rest.names ∧ rest.Proper
  | special name rest => Nameable name ∧ name ∉ rest.names ∧ rest.Proper
  | directory name _ entries rest =>
      Nameable name ∧ name ∉ rest.names ∧ entries.Proper ∧ rest.Proper

theorem head_of_mem_files {entries : Entries} {below : FileBelow} (h : below ∈ entries.files) :
    ∃ name path, below.path = name :: path ∧ name ∈ entries.names := by
  induction entries generalizing below with
  | nil => cases h
  | file name mode bytes rest ih =>
      rcases List.mem_cons.1 h with rfl | h
      · exact ⟨name, [], rfl, List.mem_cons_self⟩
      · obtain ⟨first, path, hpath, hmem⟩ := ih h
        exact ⟨first, path, hpath, List.mem_cons_of_mem _ hmem⟩
  | link name toDirectory rest ih =>
      obtain ⟨first, path, hpath, hmem⟩ := ih h
      exact ⟨first, path, hpath, List.mem_cons_of_mem _ hmem⟩
  | special name rest ih =>
      obtain ⟨first, path, hpath, hmem⟩ := ih h
      exact ⟨first, path, hpath, List.mem_cons_of_mem _ hmem⟩
  | directory name rights entries rest ihEntries ihRest =>
      rcases List.mem_append.1 h with h | h
      · obtain ⟨inner, -, rfl⟩ := List.mem_map.1 h
        exact ⟨name, inner.path, rfl, List.mem_cons_self⟩
      · obtain ⟨first, path, hpath, hmem⟩ := ihRest h
        exact ⟨first, path, hpath, List.mem_cons_of_mem _ hmem⟩

theorem slash_notMem_of_mem_files {entries : Entries} (hproper : entries.Proper) {below : FileBelow}
    (h : below ∈ entries.files) : ∀ part ∈ below.path, '/' ∉ part.toList := by
  induction entries generalizing below with
  | nil => cases h
  | file name mode bytes rest ih =>
      obtain ⟨hname, -, hrest⟩ := hproper
      rcases List.mem_cons.1 h with rfl | h
      · intro part hpart
        rw [List.mem_singleton.1 hpart]
        exact hname.2
      · exact ih hrest h
  | link name toDirectory rest ih => exact ih hproper.2.2 h
  | special name rest ih => exact ih hproper.2.2 h
  | directory name rights entries rest ihEntries ihRest =>
      obtain ⟨hname, -, hentries, hrest⟩ := hproper
      rcases List.mem_append.1 h with h | h
      · obtain ⟨inner, hinner, rfl⟩ := List.mem_map.1 h
        intro part hpart
        rcases List.mem_cons.1 hpart with rfl | hpart
        · exact hname.2
        · exact ihEntries hentries hinner part hpart
      · exact ihRest hrest h

/-- No file is on the way to another. -/
def Beside (below other : FileBelow) : Prop :=
  ¬below.path <+: other.path ∧ ¬other.path <+: below.path

instance : Std.Symm Beside := ⟨fun _ _ h => ⟨h.2, h.1⟩⟩

theorem beside_of_heads {below other : FileBelow} {name name' : String} {path path' : Path}
    (h : below.path = name :: path) (h' : other.path = name' :: path') (hne : name ≠ name') :
    Beside below other := by
  rw [Beside, h, h', List.cons_prefix_cons, List.cons_prefix_cons]
  exact ⟨fun hboth => hne hboth.1, fun hboth => hne hboth.1.symm⟩

theorem files_beside {entries : Entries} (hproper : entries.Proper) :
    entries.files.Pairwise Beside := by
  induction entries with
  | nil => exact .nil
  | file name mode bytes rest ih =>
      obtain ⟨-, hnew, hrest⟩ := hproper
      refine List.pairwise_cons.2 ⟨fun other hother => ?_, ih hrest⟩
      obtain ⟨first, path, hpath, hmem⟩ := head_of_mem_files hother
      exact beside_of_heads rfl hpath fun heq => hnew (heq ▸ hmem)
  | link name toDirectory rest ih => exact ih hproper.2.2
  | special name rest ih => exact ih hproper.2.2
  | directory name rights entries rest ihEntries ihRest =>
      obtain ⟨-, hnew, hentries, hrest⟩ := hproper
      refine List.pairwise_append.2 ⟨?_, ihRest hrest, fun below hbelow other hother => ?_⟩
      · rw [List.pairwise_map]
        refine (ihEntries hentries).imp fun hbeside => ?_
        simpa [Beside, FileBelow.within, FileBelow.under] using hbeside
      · obtain ⟨inner, -, rfl⟩ := List.mem_map.1 hbelow
        obtain ⟨first, path, hpath, hmem⟩ := head_of_mem_files hother
        exact beside_of_heads rfl hpath fun heq => hnew (heq ▸ hmem)

/-- The files that packing keeps. -/
def kept (entries : Entries) : List FileBelow := entries.files.filter fun file => file.Walked

/-- No file that is to be packed is below a directory that cannot be listed. -/
def AllSeen (entries : Entries) : Prop :=
  ∀ file ∈ entries.files, file.Included → file.seen = true

end Entries

/-! ## The walk -/

/-- What the walk keeps of a file. -/
def listed (checkout : Checkout) (file : FileBelow) : String × Source :=
  (memberName file.path, checkout.source file.path file.mode file.bytes)

section Walk

variable {checkout : Checkout} {place : Path}

theorem split_memberName {path : Path} (h : ∀ part ∈ path, '/' ∉ part.toList) :
    split (memberName path) = parts CLEAN ++ path := by
  refine split_join (List.append_ne_nil_of_left_ne_nil (by decide) _) fun part hpart => ?_
  rcases List.mem_append.1 hpart with hclean | hpart
  · rw [parts_CLEAN] at hclean
    exact slash_notMem_of_mem_split hclean
  · exact h part hpart

/-- An accepted file is not below an excluded name. -/
theorem included_of_evidence {file : FileBelow} (h : ∀ part ∈ file.path, '/' ∉ part.toList)
    (hname : EvidenceName (memberName file.path)) : file.Included := by
  intro part hpart
  refine hname.included part ?_
  rw [split_memberName h]
  exact List.mem_append_right _ hpart

theorem filter_within_left {files : List FileBelow} {name : String} {rights : Rights}
    (h : name ∈ EXCLUDED ∨ rights.lists = false) :
    (files.map (FileBelow.within name rights)).filter (fun file => file.Walked) = [] := by
  rw [List.filter_eq_nil_iff]
  intro file hfile hwalked
  obtain ⟨inner, -, rfl⟩ := List.mem_map.1 hfile
  obtain ⟨hincluded, hseen⟩ := of_decide_eq_true hwalked
  rcases h with hexcluded | hunlisted
  · exact hincluded name List.mem_cons_self hexcluded
  · simp [FileBelow.within, hunlisted] at hseen

theorem filter_within_walked {files : List FileBelow} {name : String} {rights : Rights}
    (hincluded : name ∉ EXCLUDED) (hlisted : rights.lists = true) :
    (files.map (FileBelow.within name rights)).filter (fun file => file.Walked) =
      (files.filter fun file => file.Walked).map (FileBelow.under [name]) := by
  have hunder : FileBelow.within name rights = FileBelow.under [name] := by
    funext file
    simp [FileBelow.within, FileBelow.under, hlisted]
  rw [hunder, List.filter_map]
  refine congrArg _ (List.filter_congr fun file _ => ?_)
  have hiff : (file.under [name]).Walked ↔ file.Walked := by
    simp [FileBelow.Walked, FileBelow.Included, FileBelow.under, hincluded]
  simp [hiff]

theorem ownFiles_of_visit {rights : Rights} {entries : Entries} {own : List (String × Source)}
    (h : visit checkout place rights entries = .ok own) :
    ownFiles checkout place entries = .ok own := by
  rw [visit] at h
  split_ifs at h
  obtain ⟨-, -, hown⟩ := except_bind_eq_ok.1 h
  exact hown

/-- The walk lists the kept files, in some order, and accepts each of their names. -/
theorem walk_listed {entries : Entries} (hproper : entries.Proper)
    (hplace : ∀ part ∈ place, '/' ∉ part.toList) {own inner : List (String × Source)}
    (hown : ownFiles checkout place entries = .ok own)
    (hinner : below checkout place entries = .ok inner) :
    (own ++ inner).Perm (entries.kept.map fun file => listed checkout (file.under place)) ∧
      ∀ file ∈ entries.kept, EvidenceName (memberName (place ++ file.path)) := by
  induction entries generalizing place own inner with
  | nil =>
      obtain rfl := Except.ok.inj hown
      obtain rfl := Except.ok.inj hinner
      exact ⟨.nil, fun file hfile => absurd hfile List.not_mem_nil⟩
  | file name mode bytes rest ih =>
      obtain ⟨hname, -, hrest⟩ := hproper
      simp only [ownFiles, except_bind_eq_ok, except_pure_eq_ok, safeMember_eq_ok] at hown
      obtain ⟨-, -, member, ⟨rfl, hevidence⟩, others, hothers, rfl⟩ := hown
      obtain ⟨hperm, hnames⟩ := ih hrest hplace hothers hinner
      have hwalked : FileBelow.Walked ⟨[name], mode, bytes, true⟩ := by
        have hwhole : FileBelow.Included ⟨place ++ [name], mode, bytes, true⟩ := by
          refine included_of_evidence (fun part hpart => ?_) hevidence
          rcases List.mem_append.1 hpart with hpart | hpart
          · exact hplace part hpart
          · rw [List.mem_singleton.1 hpart]
            exact hname.2
        exact ⟨fun part hpart => hwhole part (List.mem_append_right _ hpart), rfl⟩
      rw [Entries.kept, Entries.files, List.filter_cons_of_pos (by simpa using hwalked),
        List.map_cons]
      exact ⟨hperm.cons _, List.forall_mem_cons.2 ⟨hevidence, hnames⟩⟩
  | link name toDirectory rest ih =>
      rw [ownFiles] at hown
      split_ifs at hown
      exact ih hproper.2.2 hplace hown hinner
  | special name rest ih => cases hown
  | directory name rights entries rest ihEntries ihRest =>
      obtain ⟨hname, -, hentries, hrest⟩ := hproper
      rw [below] at hinner
      have hskip : (EXCLUDED.contains name || !rights.lists) = true ↔
          name ∈ EXCLUDED ∨ rights.lists = false := by
        simp
      by_cases hleft : name ∈ EXCLUDED ∨ rights.lists = false
      · rw [if_pos (hskip.2 hleft)] at hinner
        rw [Entries.kept, Entries.files, List.filter_append, filter_within_left hleft,
          List.nil_append]
        exact ihRest hrest hplace hown hinner
      · rw [if_neg fun h => hleft (hskip.1 h)] at hinner
        obtain ⟨hincluded, hlisted⟩ := not_or.1 hleft
        rw [Bool.not_eq_false] at hlisted
        simp only [except_bind_eq_ok, except_pure_eq_ok] at hinner
        obtain ⟨own', hvisit, inner', hinner', others, hothers, rfl⟩ := hinner
        have hown' := ownFiles_of_visit hvisit
        have hplace' : ∀ part ∈ place ++ [name], '/' ∉ part.toList := by
          intro part hpart
          rcases List.mem_append.1 hpart with hpart | hpart
          · exact hplace part hpart
          · rw [List.mem_singleton.1 hpart]
            exact hname.2
        obtain ⟨hperm', hnames'⟩ := ihEntries hentries hplace' hown' hinner'
        obtain ⟨hperm, hnames⟩ := ihRest hrest hplace hown hothers
        rw [Entries.kept, Entries.files, List.filter_append,
          filter_within_walked hincluded hlisted, List.map_append, List.map_map]
        refine ⟨?_, fun file hfile => ?_⟩
        · have hunder : (fun file => listed checkout (FileBelow.under place file)) ∘
              FileBelow.under [name] =
                fun file => listed checkout (FileBelow.under (place ++ [name]) file) := by
            funext file
            simp [FileBelow.under]
          rw [hunder]
          have hmove : (own ++ (own' ++ inner' ++ others)).Perm
              (own' ++ inner' ++ (own ++ others)) := by
            rw [← List.append_assoc own, ← List.append_assoc (own' ++ inner')]
            exact List.perm_append_comm.append_right others
          exact hmove.trans (hperm'.append hperm)
        · rcases List.mem_append.1 hfile with hfile | hfile
          · obtain ⟨file, hmem, rfl⟩ := List.mem_map.1 hfile
            have hevidence := hnames' file hmem
            rwa [List.append_assoc] at hevidence
          · exact hnames file hfile

theorem treeFiles_listed {rights : Rights} {entries : Entries} {files : List (String × Source)}
    (hproper : entries.Proper) (hclean : checkout.clean = some (rights, entries))
    (h : treeFiles checkout = .ok files) :
    files.Perm (entries.kept.map (listed checkout)) ∧
      (∀ file ∈ entries.kept, EvidenceName (memberName file.path)) ∧
      (files.lookup (CLEAN ++ "/report.json")).isSome = true ∧
      (files.lookup (CLEAN ++ "/" ++ VM_RECORD)).isSome = true := by
  simp only [treeFiles, hclean, except_bind_eq_ok, except_pure_eq_ok,
    SailModelTransaction.require_eq_ok, Bool.and_eq_true] at h
  obtain ⟨files, hwalk, -, ⟨hreport, hrecord⟩, rfl⟩ := h
  rw [osWalk] at hwalk
  cases hlists : rights.lists with
  | false =>
      rw [hlists, if_neg Bool.false_ne_true] at hwalk
      obtain rfl := Except.ok.inj hwalk
      cases hreport
  | true =>
      rw [hlists, if_pos rfl] at hwalk
      simp only [except_bind_eq_ok, except_pure_eq_ok] at hwalk
      obtain ⟨own, hvisit, inner, hinner, rfl⟩ := hwalk
      obtain ⟨hperm, hnames⟩ := walk_listed hproper (fun part hpart => by cases hpart)
        (ownFiles_of_visit hvisit) hinner
      exact ⟨hperm, hnames, hreport, hrecord⟩

end Walk

/-! ## Packing -/

/-- Packing accepts the tree. -/
def PackAccepts (checkout : Checkout) : Prop :=
  ∃ files members, treeFiles checkout = .ok files ∧ writeTarGz files [] [] = .ok members

/-- A file as the reader of the bundle finds it. -/
def bundled (file : FileBelow) : Member :=
  (fileMember (memberName file.path) file.bytes file.mode).stored

theorem writeAll_eq_map {α : Type} {write : α → Except Exn Member} {item : α → Member}
    (hwrite : ∀ a member, write a = .ok member → member = item a) {items : List α}
    {members : List Member} (h : writeAll write items = .ok members) :
    members = items.map item := by
  induction items generalizing members with
  | nil => exact (Except.ok.inj h).symm
  | cons a items ih =>
      simp only [writeAll, except_bind_eq_ok, except_pure_eq_ok] at h
      obtain ⟨member, hmember, others, hothers, rfl⟩ := h
      rw [hwrite a member hmember, ih hothers, List.map_cons]

theorem writeTarGz_eq_map {files : List (String × Source)} {members : List Member}
    (h : writeTarGz files [] [] = .ok members) :
    members = (sortedItems files).map fun file => (ofFile file).member := by
  have hnone : sortedItems ([] : List (String × List UInt8)) = [] := List.mergeSort_nil
  simp only [writeTarGz, except_bind_eq_ok, except_pure_eq_ok, hnone, writeAll, Except.ok.injEq]
    at h
  obtain ⟨regularFiles, hfiles, extraFiles, rfl, rfl⟩ := h
  rw [List.map_nil, List.nil_append, List.append_nil]
  refine writeAll_eq_map (fun file member hwrite => ?_) hfiles
  simp only [writeFile, except_bind_eq_ok, except_pure_eq_ok, safeName_eq_ok] at hwrite
  obtain ⟨-, -, name, ⟨rfl, -⟩, rfl⟩ := hwrite
  rfl

/-- The members of a packed bundle are the kept files. -/
theorem pack_members {sha256 : List UInt8 → String} {archiveSha256 : List Member → String}
    {checkout : Checkout} {out : String} {occupied : Bool} {packed : Packed} {rights : Rights}
    {entries : Entries} (hproper : entries.Proper)
    (hclean : checkout.clean = some (rights, entries))
    (h : pack sha256 archiveSha256 checkout out occupied = .ok packed) :
    (∃ members, packed.bundle = ⟨stored members, archiveSha256 members⟩) ∧
      packed.bundle.archive.members.Perm (entries.kept.map bundled) ∧
      (∀ file ∈ entries.kept, EvidenceName (memberName file.path)) ∧
      CLEAN ++ "/report.json" ∈ packed.bundle.archive.members.map Member.name ∧
      CLEAN ++ "/" ++ VM_RECORD ∈ packed.bundle.archive.members.map Member.name := by
  simp only [pack, except_bind_eq_ok, except_pure_eq_ok] at h
  obtain ⟨files, hfiles, -, -, members, hmembers, -, -, -, -, rfl⟩ := h
  obtain ⟨hperm, hnames, hreport, hrecord⟩ := treeFiles_listed hproper hclean hfiles
  have hstored : (stored members).members =
      (sortedItems files).map fun file => (ofFile file).member.stored := by
    rw [writeTarGz_eq_map hmembers, stored, List.map_map]
    rfl
  have hsorted := perm_sortedItems files
  have hall : (stored members).members.Perm
      (files.map fun file => (ofFile file).member.stored) := by
    rw [hstored]
    exact hsorted.map _
  have hkeys : ∀ name, (files.lookup name).isSome = true →
      name ∈ (stored members).members.map Member.name := by
    intro name hname
    obtain ⟨file, hfile, heq⟩ := List.lookup_isSome_iff.1 hname
    rw [beq_iff_eq] at heq
    subst heq
    exact List.mem_map.2 ⟨_, hall.mem_iff.2 (List.mem_map_of_mem hfile), rfl⟩
  refine ⟨⟨members, rfl⟩, ?_, hnames, hkeys _ hreport, hkeys _ hrecord⟩
  have hlisted := hperm.map fun file => (ofFile file).member.stored
  rw [List.map_map] at hlisted
  exact hall.trans hlisted

/-! ## Unpacking -/

/-- A root without a clean-room directory, where one can be made. -/
structure Fresh (tree : Tree) (destination : Path) : Prop where
  system : FileSystem tree
  resolved : Resolved tree destination
  clear : Clear tree (target destination CLEAN)
  absent : tree (target destination CLEAN) = none

/-- The bit that lets the owner execute a file. -/
def ownerExecutes (mode : Nat) : Bool := mode / 0o100 % 2 = 1

/-- Below the clean-room directory are exactly the files that are not excluded. -/
structure Reproduced (entries : Entries) (destination : Path) (tree : Tree) : Prop where
  kept : ∀ file ∈ entries.files, file.Included → ∃ mode,
    tree (target destination CLEAN ++ file.path) = some (.file 1 file.bytes mode) ∧
      ownerExecutes mode = ownerExecutes file.mode
  only : ∀ path links bytes mode,
    tree (target destination CLEAN ++ path) = some (.file links bytes mode) →
      ∃ file ∈ entries.files, file.Included ∧ file.path = path

theorem ownerExecutes_givenMode (mode : Nat) :
    ownerExecutes (givenMode ((mode &&& 0o777 : Nat) : Int)) = ownerExecutes mode := by
  have hbit : (mode &&& 0o777) / 0o100 % 2 = mode / 0o100 % 2 := by
    rw [Nat.and_two_pow_sub_one_eq_mod mode 9]
    omega
  have hcast : ((mode &&& 0o777 : Nat) : Int) / 0o100 % 2 = 1 ↔ mode / 0o100 % 2 = 1 := by
    rw [← hbit]
    omega
  rw [givenMode, ownerExecutes, ownerExecutes]
  by_cases hexecutes : mode / 0o100 % 2 = 1
  · rw [if_pos (hcast.2 hexecutes)]
    simp [hexecutes]
  · rw [if_neg fun h => hexecutes (hcast.1 h)]
    simp [hexecutes]

section Unpacking

variable {entries : Entries} {tree : Tree} {destination : Path} {members : List Member}

/-- Below a directory that is not there is nothing, and everything can be made. -/
theorem Fresh.below (h : Fresh tree destination) {path : Path} (hpath : path ≠ []) :
    tree (target destination CLEAN ++ path) = none ∧
      Unlinked tree (target destination CLEAN ++ path) ∧
      Unblocked tree (target destination CLEAN ++ path) := by
  have hmissing : tree (target destination CLEAN) ≠ some .directory := by
    rw [h.absent]
    exact fun hnone => Option.some_ne_none _ hnone.symm
  have hclear : Clear tree (target destination CLEAN ++ path) := by
    intro place hplace
    rcases List.prefix_or_prefix_of_prefix hplace (List.prefix_append _ path) with habove |
      ⟨rest, rfl⟩
    · exact h.clear place habove
    · by_cases hrest : rest = []
      · rw [hrest, List.append_nil]
        exact Or.inl h.absent
      · exact Or.inl (h.system.eq_none_below hmissing hrest)
  exact ⟨h.system.eq_none_below hmissing hpath, hclear.unlinked,
    fun place hplace _ => hclear place hplace⟩

theorem Entries.mem_kept {file : FileBelow} :
    file ∈ entries.kept ↔ file ∈ entries.files ∧ file.Included ∧ file.seen = true := by
  rw [Entries.kept, List.mem_filter, decide_eq_true_iff, FileBelow.Walked]

theorem parts_memberName {path : Path} (hpath : ∀ part ∈ path, '/' ∉ part.toList)
    (hname : EvidenceName (memberName path)) : parts (memberName path) = parts CLEAN ++ path := by
  rw [hname.safe.parts_eq, split_memberName hpath]

theorem target_memberName {path : Path} (hpath : ∀ part ∈ path, '/' ∉ part.toList)
    (hname : EvidenceName (memberName path)) :
    target destination (memberName path) = target destination CLEAN ++ path := by
  rw [target, target, parts_memberName hpath hname, List.append_assoc]

/-- The members of a packed tree are admissible, and none is in the way of another. -/
theorem packed_separate (hproper : entries.Proper) (hfresh : Fresh tree destination)
    (hmembers : members.Perm (entries.kept.map bundled))
    (hnames : ∀ file ∈ entries.kept, EvidenceName (memberName file.path)) :
    AllAdmissible tree destination none members [] ∧ Separate tree destination members ∧
      AllRead members := by
  have hslash : ∀ file ∈ entries.kept, ∀ part ∈ file.path, '/' ∉ part.toList :=
    fun file hfile => Entries.slash_notMem_of_mem_files hproper (Entries.mem_kept.1 hfile).1
  have hbelow : ∀ item ∈ members, ∃ file ∈ entries.kept, item = bundled file ∧
      target destination item.name = target destination CLEAN ++ file.path ∧ file.path ≠ [] := by
    intro item hitem
    obtain ⟨file, hfile, rfl⟩ := List.mem_map.1 (hmembers.mem_iff.1 hitem)
    obtain ⟨name, path, hpath, -⟩ :=
      Entries.head_of_mem_files (Entries.mem_kept.1 hfile).1
    refine ⟨file, hfile, rfl, target_memberName (hslash file hfile) (hnames file hfile), ?_⟩
    rw [hpath]
    exact List.cons_ne_nil _ _
  have hbeside : entries.kept.Pairwise Entries.Beside :=
    (Entries.files_beside hproper).sublist List.filter_sublist
  have hunnested : (entries.kept.map bundled).Pairwise fun item other =>
      Unnested item.name other.name := by
    rw [List.pairwise_map]
    refine hbeside.imp_of_mem fun {file other} hfile hother hapart => ?_
    show Unnested (memberName file.path) (memberName other.path)
    rw [Unnested, parts_memberName (hslash file hfile) (hnames file hfile),
      parts_memberName (hslash other hother) (hnames other hother),
      List.prefix_append_right_inj, List.prefix_append_right_inj]
    exact hapart
  have hpairs : members.Pairwise fun item other => Unnested item.name other.name :=
    (hmembers.pairwise_iff fun h => ⟨h.2, h.1⟩).2 hunnested
  refine ⟨⟨rfl, fun item hitem => ?_, ?_, fun _ _ => List.not_mem_nil⟩, ⟨fun item hitem => ?_,
    hpairs⟩, fun item hitem => ?_⟩
  · obtain ⟨file, hfile, rfl, htarget, hpath⟩ := hbelow item hitem
    obtain ⟨habsent, hunlinked, -⟩ := hfresh.below hpath
    exact ⟨hnames file hfile, rfl, rfl, htarget ▸ habsent, htarget ▸ hunlinked⟩
  · rw [List.Nodup, List.pairwise_map]
    exact hpairs.imp fun hunnested hsame => hunnested.1 (by rw [hsame])
  · obtain ⟨file, -, -, htarget, hpath⟩ := hbelow item hitem
    rw [htarget]
    exact (hfresh.below hpath).2.2
  · obtain ⟨file, -, rfl, -⟩ := hbelow item hitem
    rfl

/-- Of the files that are to be packed those that the walk sees are reproduced. -/
theorem reproduced_iff {tree' : Tree} (hproper : entries.Proper)
    (hfresh : Fresh tree destination) (hmembers : members.Perm (entries.kept.map bundled))
    (hnames : ∀ file ∈ entries.kept, EvidenceName (memberName file.path))
    (h : Extracted tree tree' destination members) :
    Reproduced entries destination tree' ↔ entries.AllSeen := by
  have htarget : ∀ file ∈ entries.kept,
      target destination (bundled file).name = target destination CLEAN ++ file.path :=
    fun file hfile => target_memberName (Entries.slash_notMem_of_mem_files hproper
      (Entries.mem_kept.1 hfile).1) (hnames file hfile)
  have honly : ∀ path links bytes mode,
      tree' (target destination CLEAN ++ path) = some (.file links bytes mode) →
        ∃ file ∈ entries.kept, file.path = path := by
    intro path links bytes mode hnode
    by_contra hother
    have hapart : ∀ item ∈ members, target destination CLEAN ++ path ≠
        target destination item.name := by
      intro item hitem hplace
      obtain ⟨file, hfile, rfl⟩ := List.mem_map.1 (hmembers.mem_iff.1 hitem)
      rw [htarget file hfile] at hplace
      exact hother ⟨file, hfile, (List.append_cancel_left hplace).symm⟩
    have hnone : tree (target destination CLEAN ++ path) = none := by
      by_cases hpath : path = []
      · rw [hpath, List.append_nil, hfresh.absent]
      · exact (hfresh.below hpath).1
    rcases h.elsewhere _ hapart with hsame | ⟨-, hdirectory, -⟩
    · rw [hnode, hnone] at hsame
      cases hsame
    · rw [hnode] at hdirectory
      cases hdirectory
  constructor
  · intro hreproduced file hfile hincluded
    obtain ⟨mode, hnode, -⟩ := hreproduced.kept file hfile hincluded
    obtain ⟨other, hkept, hpath⟩ := honly _ _ _ _ hnode
    obtain ⟨hother, -, hseen⟩ := Entries.mem_kept.1 hkept
    -- Two different files of a directory have different paths.
    by_cases hsame : other = file
    · rwa [← hsame]
    · have hbeside := (Entries.files_beside hproper).forall hother hfile hsame
      exact absurd (hpath ▸ List.prefix_refl _) hbeside.1
  · intro hseen
    refine ⟨fun file hfile hincluded => ?_, fun path links bytes mode hnode => ?_⟩
    · have hkept := Entries.mem_kept.2 ⟨hfile, hincluded, hseen file hfile hincluded⟩
      have hwritten := h.written (bundled file)
        (hmembers.mem_iff.2 (List.mem_map_of_mem hkept))
      rw [htarget file hkept] at hwritten
      refine ⟨_, ?_, ownerExecutes_givenMode file.mode⟩
      rw [hwritten]
      simp [bundled, fileMember, Member.stored, Stream.bytes]
    · obtain ⟨file, hkept, hpath⟩ := honly path links bytes mode hnode
      obtain ⟨hfile, hincluded, -⟩ := Entries.mem_kept.1 hkept
      exact ⟨file, hfile, hincluded, hpath⟩

end Unpacking

/-! ## A root alone -/

def plainHost : FileHost := ⟨nulFault, nulFault, nulFault, 0o644⟩

theorem plainHost_obliging : Obliging plainHost := ⟨fun _ => rfl, fun _ => rfl, fun _ => rfl⟩

/-- Nothing but the root. -/
def rootOnly : Machine := ⟨fun path => if path = [] then some .directory else none, []⟩

theorem rootOnly_of_ne {path : Path} (h : path ≠ []) : rootOnly.tree path = none := if_neg h

theorem rootOnly_fileSystem : FileSystem rootOnly.tree where
  root := rfl
  parent := fun path name h => absurd (rootOnly_of_ne (by simp)) h
  named := by
    intro path hnul
    refine rootOnly_of_ne ?_
    rintro rfl
    cases hnul

theorem rootOnly_clear (path : Path) : Clear rootOnly.tree path := by
  intro place _
  by_cases hplace : place = []
  · rw [hplace]
    exact Or.inr rfl
  · exact Or.inl (rootOnly_of_ne hplace)

theorem rootOnly_resolved : Resolved rootOnly.tree ["candidate"] :=
  ⟨(rootOnly_clear _).unlinked, by decide, by decide⟩

def zeroDigest : String := String.ofList (List.replicate 64 '0')

theorem isDigest_zeroDigest : isDigest zeroDigest = true := by decide +kernel

theorem rootOnly_fresh : Fresh rootOnly.tree ["candidate"] where
  system := rootOnly_fileSystem
  resolved := rootOnly_resolved
  clear := rootOnly_clear _
  absent := rootOnly_of_ne (by simp [target])

/-! ## The round trip -/

/-- What packing makes of the tree is reproduced in a fresh root. -/
def RoundTrips (host : FileHost) (checkout : Checkout) : Prop :=
  ∀ (sha256 : List UInt8 → String) (archiveSha256 : List Member → String) (out : String)
    (occupied : Bool) (packed : Packed) (rights : Rights) (entries : Entries) (m : Machine)
    (destination : Path),
    (∀ members, isDigest (archiveSha256 members) = true) →
    checkout.clean = some (rights, entries) →
    pack sha256 archiveSha256 checkout out occupied = .ok packed → Fresh m.tree destination →
      let run := extract host destination packed.bundle packed.bundle.sha256 m
      (∃ names, run.result = .ok names) ∧ Reproduced entries destination run.state.tree

section RoundTrip

variable {host : FileHost} {checkout : Checkout} {sha256 : List UInt8 → String}
  {archiveSha256 : List Member → String} {out : String} {occupied : Bool} {packed : Packed}
  {rights : Rights} {entries : Entries}

theorem packAccepts_of_pack (h : pack sha256 archiveSha256 checkout out occupied = .ok packed) :
    PackAccepts checkout := by
  simp only [pack, except_bind_eq_ok, except_pure_eq_ok] at h
  obtain ⟨files, hfiles, -, -, members, hmembers, -⟩ := h
  exact ⟨files, members, hfiles, hmembers⟩

theorem pack_of_packAccepts (hproper : entries.Proper)
    (hclean : checkout.clean = some (rights, entries)) (h : PackAccepts checkout) :
    ∃ packed, pack sha256 archiveSha256 checkout out false = .ok packed := by
  obtain ⟨files, members, hfiles, hmembers⟩ := h
  obtain ⟨-, -, hreport, hrecord⟩ := treeFiles_listed hproper hclean hfiles
  obtain ⟨report, hreport⟩ := Option.isSome_iff_exists.1 hreport
  obtain ⟨record, hrecord⟩ := Option.isSome_iff_exists.1 hrecord
  simp only [pack, except_bind_eq_ok, except_pure_eq_ok, SailModelTransaction.require_eq_ok]
  refine ⟨_, files, hfiles, (), rfl, members, hmembers, sha256 report.bytes, ?_,
    sha256 record.bytes, ?_, rfl⟩
  · rw [shaOf, hreport]
  · rw [shaOf, hrecord]

/-- A packed tree is extracted, and reproduced exactly if the walk has seen all of it. -/
theorem extract_packed (hhost : Obliging host) {m : Machine} {destination : Path}
    (hdigest : ∀ members, isDigest (archiveSha256 members) = true)
    (hclean : checkout.clean = some (rights, entries)) (hproper : entries.Proper)
    (hpack : pack sha256 archiveSha256 checkout out occupied = .ok packed)
    (hfresh : Fresh m.tree destination) :
    (∃ names, (extract host destination packed.bundle packed.bundle.sha256 m).result = .ok names) ∧
      (Reproduced entries destination
          (extract host destination packed.bundle packed.bundle.sha256 m).state.tree ↔
        entries.AllSeen) := by
  obtain ⟨⟨members, hbundle⟩, hperm, hnames, hreport, hrecord⟩ := pack_members hproper hclean hpack
  obtain ⟨hadmissible, hclear, hread⟩ := packed_separate hproper hfresh hperm hnames
  have hadmitted : Admitted m.tree destination packed.bundle packed.bundle.sha256 := by
    refine ⟨?_, rfl, ?_, ?_, hreport, hrecord⟩
    · rw [hbundle]
      exact hdigest members
    · rw [hbundle, stored]
    · have hstop : packed.bundle.archive.stop = none := by rw [hbundle, stored]
      rw [hstop]
      exact hadmissible
  obtain ⟨hresult, hextracted⟩ := extract_of_separate hhost hfresh.system hfresh.resolved hadmitted
    hclear hread rfl
  exact ⟨⟨_, hresult⟩, reproduced_iff hproper hfresh hperm hnames hextracted⟩

/-- If packing accepts the tree, then it has seen all of it. -/
def SeesAll (checkout : Checkout) : Prop :=
  ∀ rights entries, checkout.clean = some (rights, entries) → PackAccepts checkout → entries.AllSeen

theorem roundTrips_iff (hhost : Obliging host) (hproper : ∀ rights entries,
    checkout.clean = some (rights, entries) → entries.Proper) :
    RoundTrips host checkout ↔ SeesAll checkout := by
  constructor
  · intro htrips rights entries hclean haccepts
    have hdigest : ∀ members : List Member, isDigest ((fun _ => zeroDigest) members) = true :=
      fun _ => isDigest_zeroDigest
    obtain ⟨packed, hpack⟩ := @pack_of_packAccepts checkout (fun _ => "") (fun _ => zeroDigest) ""
      _ _ (hproper rights entries hclean) hclean haccepts
    have hreproduced := (htrips _ _ _ _ _ _ _ rootOnly _ hdigest hclean hpack rootOnly_fresh).2
    exact (extract_packed hhost hdigest hclean (hproper rights entries hclean) hpack
      rootOnly_fresh).2.1 hreproduced
  · intro hsees sha256 archiveSha256 out occupied packed rights entries m destination hdigest
      hclean hpack hfresh run
    obtain ⟨hresult, hreproduced⟩ := extract_packed hhost hdigest hclean
      (hproper rights entries hclean) hpack hfresh
    exact ⟨hresult, hreproduced.2 (hsees rights entries hclean (packAccepts_of_pack hpack))⟩

end RoundTrip

/-- A packed tree is reproduced, and extraction is all or nothing, exactly if the walk
has seen all of the tree, and the first loop refuses the bundle, or its first member is
below a file, or all members can be read and none is below a file or another. -/
theorem bundle_iff (host : FileHost) (checkout : Checkout) (m : Machine) (destination : Path)
    (bundle : Bundle) (expected : String) (hhost : Obliging host)
    (hproper : ∀ rights entries, checkout.clean = some (rights, entries) → entries.Proper)
    (hsystem : FileSystem m.tree) (hdestination : Resolved m.tree destination) :
    (RoundTrips host checkout ∧ AllOrNothing m.tree destination bundle.archive.members
        (extract host destination bundle expected m)) ↔
      SeesAll checkout ∧ (Admitted m.tree destination bundle expected →
        (∃ item ∈ bundle.archive.members.head?, ¬Unblocked m.tree (target destination item.name)) ∨
          Separate m.tree destination bundle.archive.members ∧
            AllRead bundle.archive.members) := by
  rw [roundTrips_iff hhost hproper, extract_allOrNothing_iff hhost hsystem hdestination rfl]

/-! ## Two bundles -/

def oneByteMember (name : String) : Member := (fileMember name [7] 0o644).stored

/-- A bundle with a member below the report. -/
def nestedBundle : Bundle where
  archive := ⟨none, [CLEAN ++ "/report.json", CLEAN ++ "/vm-provenance.json",
    CLEAN ++ "/report.json/x"].map oneByteMember, none⟩
  sha256 := zeroDigest

theorem admitted_oneByte {names : List String}
    (hsafe : ∀ name ∈ names, safeMember name = .ok name) (hdistinct : names.Nodup)
    (hreport : CLEAN ++ "/report.json" ∈ names) (hrecord : CLEAN ++ "/" ++ VM_RECORD ∈ names) :
    Admitted rootOnly.tree ["candidate"] ⟨⟨none, names.map oneByteMember, none⟩, zeroDigest⟩
      zeroDigest := by
  have hnames : (names.map oneByteMember).map Member.name = names := by
    rw [List.map_map]
    exact List.map_id' names
  refine ⟨isDigest_zeroDigest, rfl, rfl, ⟨rfl, fun item hitem => ?_, by rwa [hnames],
    fun _ _ => List.not_mem_nil⟩, by rwa [hnames], by rwa [hnames]⟩
  obtain ⟨name, hname, rfl⟩ := List.mem_map.1 hitem
  exact ⟨(safeMember_eq_ok.1 (hsafe name hname)).2, rfl, rfl, rootOnly_of_ne (by simp [target]),
    (rootOnly_clear _).unlinked⟩

theorem safeMember_small : ∀ name ∈ [CLEAN ++ "/report.json", CLEAN ++ "/vm-provenance.json",
    CLEAN ++ "/report.json/x", CLEAN ++ "/logs/run.sh"], safeMember name = .ok name := by
  decide +kernel

theorem vmRecord_eq : CLEAN ++ "/" ++ VM_RECORD = CLEAN ++ "/vm-provenance.json" := by
  decide +kernel

theorem nestedBundle_admitted : Admitted rootOnly.tree ["candidate"] nestedBundle zeroDigest := by
  refine admitted_oneByte (fun name hname => safeMember_small name ?_) (by decide +kernel)
    List.mem_cons_self (vmRecord_eq ▸ List.mem_cons_of_mem _ List.mem_cons_self)
  exact List.mem_of_mem_take (i := 3) hname

/-- The first two members are written before the third turns out to be impossible. -/
theorem nestedBundle_not_allOrNothing :
    ¬AllOrNothing rootOnly.tree ["candidate"] nestedBundle.archive.members
      (extract plainHost ["candidate"] nestedBundle zeroDigest rootOnly) := by
  rw [extract_allOrNothing_iff plainHost_obliging rootOnly_fileSystem rootOnly_resolved rfl]
  intro hcondition
  rcases hcondition nestedBundle_admitted with ⟨item, -, hblocked⟩ |
    ⟨⟨-, hunnested⟩, -⟩
  · exact hblocked fun place _ _ => rootOnly_clear place place (List.prefix_refl _)
  · have hfirst := (List.pairwise_cons.1 hunnested).1 (oneByteMember (CLEAN ++ "/report.json/x"))
      (by simp [oneByteMember])
    exact hfirst.1 (by decide +kernel)

/-- A bundle with just the two required members. -/
def plainBundle : Bundle where
  archive := ⟨none, [CLEAN ++ "/report.json", CLEAN ++ "/vm-provenance.json"].map oneByteMember,
    none⟩
  sha256 := zeroDigest

/-- A tree with a log below a directory, and fixed inputs that cannot be listed. -/
def plainCheckout : Checkout where
  root := ["work"]
  linkedAbove := false
  clean := some (⟨true, true⟩, .file "report.json" 0o644 [1] <|
    .file "vm-provenance.json" 0o600 [2] <|
    .directory "logs" ⟨true, true⟩ (.file "run.sh" 0o755 [3] .nil) <|
    .directory "fixed-inputs" ⟨false, false⟩ (.file "rust.tar" 0o644 [4] .nil) .nil)

theorem plainCheckout_packAccepts : PackAccepts plainCheckout := by
  have hmember : memberName ["report.json"] = CLEAN ++ "/report.json" ∧
      memberName ["vm-provenance.json"] = CLEAN ++ "/vm-provenance.json" ∧
      memberName ["logs", "run.sh"] = CLEAN ++ "/logs/run.sh" := by decide +kernel
  have hnames := safeMember_small
  simp only [List.forall_mem_cons] at hnames
  obtain ⟨hreport, hrecord, -, hlog, -⟩ := hnames
  have hlogs : "logs" ∉ EXCLUDED ∧ "fixed-inputs" ∈ EXCLUDED := by decide
  have hne : (CLEAN ++ "/vm-provenance.json" == CLEAN ++ "/report.json") = false := by
    decide +kernel
  have hfiles : treeFiles plainCheckout = .ok
      [(CLEAN ++ "/report.json", plainCheckout.source ["report.json"] 0o644 [1]),
        (CLEAN ++ "/vm-provenance.json", plainCheckout.source ["vm-provenance.json"] 0o600 [2]),
        (CLEAN ++ "/logs/run.sh", plainCheckout.source ["logs", "run.sh"] 0o755 [3])] := by
    simp [treeFiles, plainCheckout, osWalk, visit, below, ownFiles, Entries.anyLinkedDirectory,
      SailModelTransaction.require, hlogs, hmember, hreport, hrecord, hlog, vmRecord_eq, hne, bind,
      Except.bind, pure, Except.pure, List.lookup_cons]
  refine ⟨_, _, hfiles, writeTarGz_of_safe ?_ fun content hcontent => ?_⟩
  · simp only [List.forall_mem_cons]
    exact ⟨by decide, by decide, by decide, fun _ h => absurd h List.not_mem_nil⟩
  · have hsafe : ∀ {name}, safeMember name = .ok name → safeName name = .ok name :=
      fun h => safeName_eq_ok.2 ⟨rfl, Or.inr (safeMember_eq_ok.1 h).2.safe⟩
    simp only [contents, List.map_cons, List.map_nil, List.append_nil, List.mem_cons,
      List.not_mem_nil, or_false] at hcontent
    rcases hcontent with rfl | rfl | rfl
    · exact hsafe hreport
    · exact hsafe hrecord
    · exact hsafe hlog

theorem bundle_iff_rootOnly :
    PackAccepts plainCheckout ∧ Admitted rootOnly.tree ["candidate"] plainBundle zeroDigest ∧
      RoundTrips plainHost plainCheckout ∧
        AllOrNothing rootOnly.tree ["candidate"] plainBundle.archive.members
          (extract plainHost ["candidate"] plainBundle zeroDigest rootOnly) := by
  have hadmitted : Admitted rootOnly.tree ["candidate"] plainBundle zeroDigest :=
    admitted_oneByte (fun name hname => safeMember_small name (List.mem_of_mem_take (i := 2) hname))
      (by decide +kernel) List.mem_cons_self
      (vmRecord_eq ▸ List.mem_cons_of_mem _ List.mem_cons_self)
  refine ⟨plainCheckout_packAccepts, hadmitted, (bundle_iff plainHost plainCheckout rootOnly
    ["candidate"] plainBundle zeroDigest plainHost_obliging ?_ rootOnly_fileSystem
    rootOnly_resolved).2 ⟨?_, fun _ => Or.inr ⟨⟨?_, ?_⟩, ?_⟩⟩⟩
  · rintro rights entries ⟨⟩
    simp [Entries.Proper, Entries.Nameable, Entries.names]
  · rintro rights entries ⟨⟩ -
    have hexcluded : "fixed-inputs" ∈ EXCLUDED := by decide
    simp [Entries.AllSeen, Entries.files, FileBelow.within, FileBelow.under, FileBelow.Included,
      hexcluded]
  · exact fun item _ place _ _ => rootOnly_clear place place (List.prefix_refl _)
  · have hapart : [CLEAN ++ "/report.json", CLEAN ++ "/vm-provenance.json"].Pairwise
        fun name name' => ¬parts name <+: parts name' ∧ ¬parts name' <+: parts name := by
      decide +kernel
    exact List.pairwise_map.2 hapart
  · intro item hitem
    obtain ⟨name, -, rfl⟩ := List.mem_map.1 hitem
    rfl

end CkbSail.Scripts.EvidenceBundle
