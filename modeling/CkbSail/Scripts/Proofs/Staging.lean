import CkbSail.Scripts.Proofs.InventoryRows
import CkbSail.Scripts.Proofs.StagedTree

/-!
# Staging in any order

A staged tree holds for every member of the archive its node, and directories
above them.  The order of the members does not matter: what is made for a member
is never in the way of another.
-/

namespace CkbSail.Scripts.FixedInputs

open PythonStd
open ReleaseCommon (SafeName)

/-! ## Members that fit together -/

/-- The node that stands for a member in the end. -/
def PackageMember.node (item : PackageMember) : StagedNode :=
  match item.type with
  | .regular => .file item.content.bytes item.mode
  | .symlink => .symlink item.linkname
  | _ => .directory item.mode

/-- The tree of some members: their nodes, and directories above them. -/
def Holds (mode : Int) (members : List PackageMember) (path : Path) (node : StagedNode) : Prop :=
  (∃ item ∈ members, path = split item.name ∧ node = item.node) ∨
    (∀ item ∈ members, path ≠ split item.name) ∧ path ≠ [] ∧
      (∃ item ∈ members, path <+: split item.name) ∧ node = .directory mode

/-- Names that can stand together: nothing is below a file or a link. -/
structure Layable (members : List PackageMember) : Prop where
  safe : ∀ item ∈ members, SafeName item.name
  nodup : (members.map fun item => item.name).Nodup
  leaf : ∀ item ∈ members, item.type ≠ .directory → ∀ other ∈ members,
    split item.name <+: split other.name → other.name = item.name

theorem Layable.sublist {members items : List PackageMember} (h : Layable members)
    (hsub : items.Sublist members) : Layable items where
  safe item hitem := h.safe item (hsub.subset hitem)
  nodup := h.nodup.sublist (hsub.map _)
  leaf item hitem hleaf other hother :=
    h.leaf item (hsub.subset hitem) hleaf other (hsub.subset hother)

theorem Layable.eq_of_split {members : List PackageMember} (h : Layable members)
    {item other : PackageMember} (hitem : item ∈ members) (hother : other ∈ members)
    (hpath : split item.name = split other.name) : item = other :=
  List.inj_on_of_nodup_map h.nodup hitem hother (split_injective hpath)

theorem split_not_prefix_dropLast (name : String) : ¬split name <+: (split name).dropLast := by
  intro h
  have hlength := h.length_le
  have hpos := List.length_pos_iff.2 (split_ne_nil name)
  rw [List.length_dropLast] at hlength
  omega

/-! ## The loop over the members -/

/-- The directories that staging makes for a member. -/
def Covers (item : PackageMember) (path : Path) : Prop :=
  path <+: (split item.name).dropLast ∨ item.type = .directory ∧ path = split item.name

/-- What the loop makes for a member. -/
def MadeBy (mode : Int) (item : PackageMember) (path : Path) (node : StagedNode) : Prop :=
  (item.type = .regular ∧ path = split item.name ∧
    node = .file item.content.bytes item.mode) ∨
    path ≠ [] ∧ Covers item path ∧ node = .directory mode

/-- The variables of the loop after some members. -/
structure Staged (mode : Int) (done : List PackageMember) (s : Staging) : Prop where
  nodes : ∀ path node, s.tree.node? path = some node ↔ ∃ item ∈ done, MadeBy mode item path node
  seen : ∀ name, name ∈ s.seen ↔ ∃ item ∈ done, item.name = name
  links : s.links = (done.filter fun item => item.type = .symlink).map
    fun item => (split item.name, item.linkname)
  directories : s.directories = (done.filter fun item => item.type = .directory).map
    fun item => (split item.name, item.mode)

section Step

variable {mode : Int} {done : List PackageMember} {item : PackageMember} {s : Staging}

theorem begins_of_covers {path : Path} (h : Covers item path) : path <+: split item.name := by
  rcases h with hbelow | ⟨-, rfl⟩
  · exact hbelow.trans (List.dropLast_prefix _)
  · exact List.prefix_refl _

/-- Along the path of a new member there are only directories. -/
theorem passable_of_staged (hs : Staged mode done s) (hlay : Layable (done ++ [item]))
    (hfresh : ∀ other ∈ done, other.name ≠ item.name) :
    Passable s.tree.node? (split item.name) := by
  intro place hplace node hnode
  obtain ⟨other, hother, hmade⟩ := (hs.nodes place node).1 hnode
  rcases hmade with ⟨htype, rfl, -⟩ | ⟨-, -, rfl⟩
  · have hsame := hlay.leaf other (by simp [hother]) (by simp [htype]) item (by simp) hplace
    exact absurd hsame.symm (hfresh other hother)
  · exact ⟨mode, rfl⟩

/-- The tree after the parents of a new member are made. -/
theorem withDirectories_eq_some (hs : Staged mode done s) {path : Path}
    (hpass : Passable s.tree.node? path) (place : Path) (node : StagedNode) :
    withDirectories mode s.tree.node? path place = some node ↔
      (∃ other ∈ done, MadeBy mode other place node) ∨
        place ≠ [] ∧ place <+: path ∧ node = .directory mode := by
  rw [withDirectories]
  split_ifs with hnew
  · have hnone : ¬∃ other ∈ done, MadeBy mode other place node := by
      rw [← hs.nodes, hnew.2.2]
      simp
    simp only [Option.some.injEq, hnone, false_or]
    exact ⟨fun h => ⟨hnew.1, hnew.2.1, h.symm⟩, fun h => h.2.2.symm⟩
  · rw [hs.nodes]
    constructor
    · exact Or.inl
    · rintro (hmade | ⟨hne, hplace, rfl⟩)
      · exact hmade
      · obtain ⟨other, hother⟩ := Option.ne_none_iff_exists'.1 fun h => hnew ⟨hne, hplace, h⟩
        obtain ⟨mode', rfl⟩ := hpass place hplace other hother
        obtain ⟨item', hitem', hmade⟩ := (hs.nodes _ _).1 hother
        rcases hmade with ⟨-, -, hfile⟩ | hdir
        · cases hfile
        · exact ⟨item', hitem', Or.inr ⟨hdir.1, hdir.2.1, rfl⟩⟩

/-- The loop made what it should for one member more. -/
theorem Staged.concat (hs : Staged mode done s) {next : Staging}
    (hnodes : ∀ path node, next.tree.node? path = some node ↔
      (∃ other ∈ done, MadeBy mode other path node) ∨ MadeBy mode item path node)
    (hseen : next.seen = item.name :: s.seen)
    (hlinks : next.links = s.links ++
      if item.type = .symlink then [(split item.name, item.linkname)] else [])
    (hdirectories : next.directories = s.directories ++
      if item.type = .directory then [(split item.name, item.mode)] else []) :
    Staged mode (done ++ [item]) next where
  nodes path node := by
    rw [hnodes]
    simp [or_and_right, exists_or]
  seen name := by
    rw [hseen, List.mem_cons, hs.seen]
    simp [or_and_right, exists_or, or_comm, eq_comm]
  links := by
    rw [hlinks, hs.links, List.filter_append, List.map_append]
    by_cases h : item.type = .symlink <;> simp [h]
  directories := by
    rw [hdirectories, hs.directories, List.filter_append, List.map_append]
    by_cases h : item.type = .directory <;> simp [h]

theorem not_madeBy_of_fresh (hlay : Layable (done ++ [item])) (hleaf : item.type ≠ .directory)
    (hfresh : ∀ other ∈ done, other.name ≠ item.name) (mode : Int) (node : StagedNode) :
    ¬∃ other ∈ done, MadeBy mode other (split item.name) node := by
  rintro ⟨other, hother, hmade⟩
  apply hfresh other hother
  rcases hmade with ⟨-, hpath, -⟩ | ⟨-, hcovers, -⟩
  · exact (split_injective hpath).symm
  · exact hlay.leaf item (by simp) hleaf other (by simp [hother]) (begins_of_covers hcovers)

/-- The tree after the parents of a member are made. -/
structure Entered (mode : Int) (done : List PackageMember) (item : PackageMember)
    (above : StagedTree) : Prop where
  nodes : ∀ path node, above.node? path = some node ↔
    (∃ other ∈ done, MadeBy mode other path node) ∨
      path ≠ [] ∧ path <+: (split item.name).dropLast ∧ node = .directory mode
  passable : Passable above.node? (split item.name)
  parent : IsDirectory above.layout (split item.name).dropLast

theorem mkdirParents_entered (hs : Staged mode done s) (hlay : Layable (done ++ [item]))
    (hfresh : ∀ other ∈ done, other.name ≠ item.name) :
    ∃ above, mkdirParents mode s.tree (split item.name).dropLast = .ok above ∧
      Entered mode done item above := by
  have hpass := passable_of_staged hs hlay hfresh
  obtain ⟨above, hparents, habove⟩ := mkdirParents_ok mode (passable_dropLast hpass)
  have hpassable : Passable above.node? (split item.name) := by
    rw [habove]
    exact passable_withDirectories hpass
  refine ⟨above, hparents, ?_, hpassable, ?_⟩
  · rw [habove]
    exact withDirectories_eq_some hs (passable_dropLast hpass)
  · apply isDirectory_of_passable (passable_dropLast hpassable) (List.prefix_refl _)
    by_cases hnil : (split item.name).dropLast = []
    · exact Or.inl hnil
    · rw [habove]
      exact Or.inr (withDirectories_ne_none (List.prefix_refl _) hnil)

variable {above : StagedTree}

theorem Entered.isSymlink (h : Entered mode done item above) (place : Path) :
    above.isSymlink place = false := by
  apply StagedTree.isSymlink_eq_false
  intro target hnode
  rw [h.nodes] at hnode
  rcases hnode with ⟨other, -, ⟨-, -, hfile⟩ | ⟨-, -, hdir⟩⟩ | ⟨-, -, hdir⟩
  · cases hfile
  · cases hdir
  · cases hdir

/-- What stands at the path of the member already is a directory that the loop made. -/
theorem Entered.standing (h : Entered mode done item above) {node : StagedNode}
    (hnode : above.node? (split item.name) = some node) : node = .directory mode := by
  obtain ⟨mode', rfl⟩ := h.passable _ (List.prefix_refl _) node hnode
  rcases (h.nodes _ _).1 hnode with ⟨other, -, ⟨-, -, hfile⟩ | ⟨-, -, hdir⟩⟩ | ⟨-, -, hdir⟩
  · cases hfile
  · exact hdir
  · exact hdir

/-- A directory is made where there is none. -/
theorem Entered.mkdir (h : Entered mode done item above) (htype : item.type = .directory) :
    ∃ made, mkdir mode above (split item.name) = .ok made ∧ ∀ path node,
      made.node? path = some node ↔
        (∃ other ∈ done, MadeBy mode other path node) ∨ MadeBy mode item path node := by
  obtain ⟨made, hmkdir, hmade⟩ := mkdir_ok mode h.passable h.parent
  refine ⟨made, hmkdir, fun path node => ?_⟩
  have hboth : made.node? path = some node ↔
      above.node? path = some node ∨ path = split item.name ∧ node = .directory mode := by
    rw [hmade]
    split_ifs with hnew
    · rw [Function.update_apply]
      by_cases hpath : path = split item.name
      · simp [hpath, hnew.2, eq_comm]
      · simp [hpath]
    · constructor
      · exact Or.inl
      · rintro (hnode | ⟨rfl, rfl⟩)
        · exact hnode
        · obtain ⟨node, hnode⟩ := Option.ne_none_iff_exists'.1 fun hnone =>
            hnew ⟨split_ne_nil item.name, hnone⟩
          rw [hnode, h.standing hnode]
  have hne := split_ne_nil item.name
  rw [hboth, h.nodes]
  simp only [MadeBy, Covers, htype]
  grind

/-- A file is made, and gets its mode. -/
theorem Entered.create (h : Entered mode done item above) (hlay : Layable (done ++ [item]))
    (hfresh : ∀ other ∈ done, other.name ≠ item.name) (htype : item.type = .regular) :
    ∃ made, create above (split item.name) (.file item.content.bytes mode) = .ok made ∧
      ∀ path node, (made.chmod (split item.name) item.mode).node? path = some node ↔
        (∃ other ∈ done, MadeBy mode other path node) ∨ MadeBy mode item path node := by
  have hnot := not_madeBy_of_fresh hlay (by simp [htype]) hfresh mode
  have hfree : above.node? (split item.name) = none := by
    rw [Option.eq_none_iff_forall_ne_some]
    intro node hnode
    rcases (h.nodes _ _).1 hnode with hmade | ⟨-, hbelow, -⟩
    · exact hnot node hmade
    · exact split_not_prefix_dropLast item.name hbelow
  obtain ⟨made, hcreate, hmade⟩ := create_ok (.file item.content.bytes mode)
    (split_ne_nil item.name) hfree h.parent
  refine ⟨made, hcreate, fun path node => ?_⟩
  rw [StagedTree.node?_chmod, hmade, Function.update_apply]
  by_cases hpath : path = split item.name
  · subst hpath
    have hown : MadeBy mode item (split item.name) node ↔
        node = .file item.content.bytes item.mode := by
      simp [MadeBy, Covers, htype, split_not_prefix_dropLast]
    rw [if_pos rfl, if_pos rfl, hown, or_iff_right (hnot node), Option.map_some, Option.some.injEq]
    exact eq_comm
  · rw [if_neg hpath, if_neg hpath, h.nodes]
    simp [MadeBy, Covers, htype, hpath]

theorem stage_ok_bind {α β : Type} (a : α) (f : α → Stage β) : ((.ok a : Stage α) >>= f) = f a := rfl

variable {entries : List (String × Json)} {row : Json} {entry : Entry}

/-- One pass of the loop. -/
theorem stageMember_ok (hs : Staged mode done s) (hlay : Layable (done ++ [item]))
    (hrow : Json.lookup item.name entries = some row) (hentry : row.Represents entry.fields)
    (hunowned : Unowned item) (hmatches : entry.Matches item)
    (hmode : ∀ value, entry.mode? = some value → modeOf value = .ok item.mode)
    (hread : item.type = .regular → item.content.stop = none) :
    ∃ next, stageMember entries mode item s = .ok next ∧ Staged mode (done ++ [item]) next := by
  have hsafe : SafeName item.name := hlay.safe item (by simp)
  have hfresh : ∀ other ∈ done, other.name ≠ item.name := by
    have hnodup := hlay.nodup
    rw [List.map_append, List.nodup_append] at hnodup
    exact fun other hother => hnodup.2.2 other.name (List.mem_map_of_mem hother) item.name (by simp)
  have hvalid : validateMember entries item s.seen = .ok (item.name, row) := by
    rw [validateMember_eq_ok hrow hentry]
    refine ⟨rfl, safe_eq_ok.2 ⟨rfl, Or.inr hsafe⟩, fun hmem => ?_, hunowned, hmatches⟩
    obtain ⟨other, hother, hname⟩ := (hs.seen item.name).1 hmem
    exact hfresh other hother hname
  obtain ⟨above, hparents, habove⟩ := mkdirParents_entered hs hlay hfresh
  have hunlinked : (!(split item.name).inits.any above.isSymlink) = true := by
    simp [habove.isSymlink]
  have hkind := getItem_kind hentry
  unfold stageMember
  rw [hvalid]
  simp only [raised, stage_ok_bind, hsafe.parts_eq, hparents, hunlinked, require, if_true, hkind]
  cases entry with
  | symlink target =>
      obtain ⟨htype, hlink, -, -⟩ := hmatches
      have htarget : row.getItem "target" = .ok (.str target) :=
        hentry.getItem (by simp [Entry.fields, Json.lookup_cons])
      rw [if_pos (by simp [Entry.kind]), htarget]
      simp only [ok_bind, textOf, stage_ok_bind]
      refine ⟨_, rfl, hs.concat ?_ rfl (by simp [htype, hlink]) (by simp [htype])⟩
      intro path node
      rw [habove.nodes]
      simp [MadeBy, Covers, htype]
  | directory value =>
      obtain ⟨htype, -, -, -⟩ := hmatches
      obtain ⟨made, hmkdir, hmade⟩ := habove.mkdir htype
      rw [if_neg (by simp [Entry.kind]), if_pos (by simp [Entry.kind]), hmkdir,
        getItem_mode hentry rfl]
      simp only [ok_bind, hmode value rfl, stage_ok_bind]
      exact ⟨_, rfl, hs.concat hmade rfl (by simp [htype]) (by simp [htype])⟩
  | file digest bytes value =>
      obtain ⟨htype, -, -, -, -⟩ := hmatches
      obtain ⟨made, hcreate, hmade⟩ := habove.create hlay hfresh htype
      rw [if_neg (by simp [Entry.kind]), if_neg (by simp [Entry.kind]), hcreate,
        getItem_mode hentry rfl, hread htype]
      simp only [ok_bind, hmode value rfl, stage_ok_bind, noneRaised]
      exact ⟨_, rfl, hs.concat hmade rfl (by simp [htype]) (by simp [htype])⟩

/-- What the loop needs of a member: its row, and a content that can be read. -/
def Acceptable (entries : List (String × Json)) (item : PackageMember) : Prop :=
  ∃ entry, Recorded entries item.name entry ∧ Unowned item ∧ entry.Matches item ∧
    (∀ value, entry.mode? = some value → modeOf value = .ok item.mode) ∧
    (item.type = .regular → item.content.stop = none)

/-- The whole loop. -/
theorem stageMembers_ok {items : List PackageMember} (hs : Staged mode done s)
    (hlay : Layable (done ++ items)) (hitems : ∀ item ∈ items, Acceptable entries item) :
    ∃ final, stageMembers entries mode items s = .ok final ∧
      Staged mode (done ++ items) final := by
  induction items generalizing done s with
  | nil =>
      rw [List.append_nil]
      exact ⟨s, rfl, hs⟩
  | cons item items ih =>
      rw [List.append_cons] at hlay ⊢
      rw [List.forall_mem_cons] at hitems
      obtain ⟨⟨entry, ⟨row, hrow, hentry⟩, hunowned, hmatches, hmode, hread⟩, hrest⟩ := hitems
      have hfirst : Layable (done ++ [item]) :=
        hlay.sublist (List.sublist_append_left _ _)
      obtain ⟨next, hnext, hstaged⟩ :=
        stageMember_ok hs hfirst hrow hentry hunowned hmatches hmode hread
      obtain ⟨final, hfinal, hdone⟩ := ih hstaged hlay hrest
      refine ⟨final, ?_, hdone⟩
      rw [stageMembers, hnext, stage_ok_bind, hfinal]

end Step

/-! ## Links and modes at the end -/

section Finish

variable {mode : Int} {members : List PackageMember} {s : Staging} {item : PackageMember}
  {path : Path} {node : StagedNode}

theorem holds_of_member (hlay : Layable members) (hitem : item ∈ members) :
    Holds mode members (split item.name) node ↔ node = item.node := by
  constructor
  · rintro (⟨other, hother, hpath, rfl⟩ | ⟨hnone, -⟩)
    · rw [hlay.eq_of_split hitem hother hpath]
    · exact absurd rfl (hnone item hitem)
  · intro hnode
    exact Or.inl ⟨item, hitem, rfl, hnode⟩

theorem holds_of_other (hpath : ∀ item ∈ members, path ≠ split item.name) :
    Holds mode members path node ↔
      path ≠ [] ∧ (∃ item ∈ members, path <+: split item.name) ∧ node = .directory mode := by
  constructor
  · rintro (⟨item, hitem, hpath', -⟩ | ⟨-, h⟩)
    · exact absurd hpath' (hpath item hitem)
    · exact h
  · exact fun h => Or.inr ⟨hpath, h⟩

/-- What the loop makes at the path of a member. -/
theorem made_of_member (hlay : Layable members) (hitem : item ∈ members) :
    (∃ other ∈ members, MadeBy mode other (split item.name) node) ↔
      item.type = .regular ∧ node = .file item.content.bytes item.mode ∨
        item.type = .directory ∧ node = .directory mode := by
  constructor
  · rintro ⟨other, hother, ⟨htype, hpath, rfl⟩ | ⟨hne, hcovers, rfl⟩⟩
    · obtain rfl := hlay.eq_of_split hitem hother hpath
      exact Or.inl ⟨htype, rfl⟩
    · by_cases htype : item.type = .directory
      · exact Or.inr ⟨htype, rfl⟩
      · have hname := hlay.leaf item hitem htype other hother (begins_of_covers hcovers)
        rcases hcovers with hbelow | ⟨hdir, hpath⟩
        · rw [hname] at hbelow
          exact absurd hbelow (split_not_prefix_dropLast item.name)
        · obtain rfl := hlay.eq_of_split hitem hother hpath
          exact absurd hdir htype
  · rintro (⟨htype, rfl⟩ | ⟨htype, rfl⟩)
    · exact ⟨item, hitem, Or.inl ⟨htype, rfl, rfl⟩⟩
    · exact ⟨item, hitem, Or.inr ⟨split_ne_nil _, Or.inr ⟨htype, rfl⟩, rfl⟩⟩

/-- What the loop makes elsewhere. -/
theorem made_of_other (hpath : ∀ item ∈ members, path ≠ split item.name) :
    (∃ item ∈ members, MadeBy mode item path node) ↔
      path ≠ [] ∧ (∃ item ∈ members, path <+: split item.name) ∧ node = .directory mode := by
  constructor
  · rintro ⟨item, hitem, ⟨-, hfile, -⟩ | ⟨hne, hcovers, rfl⟩⟩
    · exact absurd hfile (hpath item hitem)
    · exact ⟨hne, ⟨item, hitem, begins_of_covers hcovers⟩, rfl⟩
  · rintro ⟨hne, ⟨item, hitem, hprefix⟩, rfl⟩
    rcases eq_or_prefix_dropLast hprefix with heq | hbelow
    · exact absurd heq (hpath item hitem)
    · exact ⟨item, hitem, Or.inr ⟨hne, Or.inl hbelow, rfl⟩⟩

theorem nodup_map_split (hlay : Layable members) :
    (members.map fun item => split item.name).Nodup :=
  (List.Nodup.of_map _ hlay.nodup).map_on fun _ hitem _ hother => hlay.eq_of_split hitem hother

/-- The links are made at free paths. -/
theorem makeLinks_staged (hs : Staged mode members s) (hlay : Layable members) :
    ∃ linked, makeLinks s.links s.tree = .ok linked ∧ ∀ path node, linked.node? path = some node ↔
      (∃ item ∈ members, MadeBy mode item path node) ∨
        ∃ item ∈ members, item.type = .symlink ∧ path = split item.name ∧
          node = .symlink item.linkname := by
  have hnodup : (s.links.map Prod.fst).Nodup := by
    rw [hs.links, List.map_map]
    exact (nodup_map_split hlay).sublist (List.filter_sublist.map _)
  have hfree : ∀ row ∈ s.links, row.1 ≠ [] ∧ s.tree.node? row.1 = none ∧
      IsDirectory s.tree.layout row.1.dropLast := by
    rw [hs.links]
    intro row hrow
    obtain ⟨item, hitem, rfl⟩ := List.mem_map.1 hrow
    obtain ⟨hmem, htype⟩ := List.mem_filter.1 hitem
    have htype : item.type = .symlink := by simpa using htype
    refine ⟨split_ne_nil _, ?_, ?_⟩
    · rw [Option.eq_none_iff_forall_ne_some]
      intro node hnode
      rw [hs.nodes, made_of_member hlay hmem, htype] at hnode
      simp at hnode
    · by_cases hnil : (split item.name).dropLast = []
      · exact Or.inl hnil
      · right
        rw [StagedTree.layout_eq_directory_iff]
        refine ⟨mode, (hs.nodes _ _).2 ⟨item, hmem, Or.inr ⟨hnil, Or.inl ?_, rfl⟩⟩⟩
        exact List.prefix_refl _
  obtain ⟨linked, hlinked, hnodes⟩ := makeLinks_ok hnodup hfree
  refine ⟨linked, hlinked, fun path node => ?_⟩
  rw [hnodes, hs.nodes, hs.links]
  refine or_congr_right ?_
  simp only [List.mem_map, List.mem_filter, decide_eq_true_eq, Prod.mk.injEq]
  constructor
  · rintro ⟨link, ⟨item, ⟨hitem, htype⟩, hpath, rfl⟩, hnode⟩
    exact ⟨item, hitem, htype, hpath.symm, hnode⟩
  · rintro ⟨item, hitem, htype, hpath, hnode⟩
    exact ⟨item.linkname, ⟨item, ⟨hitem, htype⟩, hpath.symm, rfl⟩, hnode⟩

/-- The modes of the directories are set, the deepest first. -/
theorem node?_chmodDirectories {directories : List (Path × Int)}
    (hnodup : (directories.map Prod.fst).Nodup) (tree : StagedTree) (path : Path) :
    (∀ value, (path, value) ∈ directories → (chmodDirectories directories tree).node? path =
      (tree.node? path).map (StagedNode.withMode value)) ∧
    ((∀ value, (path, value) ∉ directories) →
      (chmodDirectories directories tree).node? path = tree.node? path) := by
  have hperm : (directories.insertionSort fun left right =>
      right.1.length ≤ left.1.length).Perm directories := List.perm_insertionSort _ _
  rw [chmodDirectories]
  generalize directories.insertionSort (fun left right => right.1.length ≤ left.1.length) = rows
    at hperm ⊢
  have hrows : (rows.map Prod.fst).Nodup := (hperm.map Prod.fst).nodup_iff.2 hnodup
  rw [node?_foldl_chmod hrows]
  constructor
  · intro value hvalue
    rw [(ProofSupport.lookup_eq_some_iff_mem hrows).2 (hperm.mem_iff.2 hvalue)]
  · intro hnone
    cases hlookup : rows.lookup path with
    | none => rfl
    | some value =>
        rw [ProofSupport.lookup_eq_some_iff_mem hrows, hperm.mem_iff] at hlookup
        exact absurd hlookup (hnone value)

/-- The three kinds of members that a row can have. -/
def Staple (item : PackageMember) : Prop :=
  item.type = .regular ∨ item.type = .directory ∨ item.type = .symlink

/-- The tree in the end. -/
theorem finish_ok (hs : Staged mode members s) (hlay : Layable members)
    (htypes : ∀ item ∈ members, Staple item) :
    ∃ linked, makeLinks s.links s.tree = .ok linked ∧ ∀ path node,
      (chmodDirectories s.directories linked).node? path = some node ↔
        Holds mode members path node := by
  obtain ⟨linked, hlinked, hnodes⟩ := makeLinks_staged hs hlay
  have hdirectories : ∀ path value, (path, value) ∈ s.directories ↔
      ∃ item ∈ members, item.type = .directory ∧ split item.name = path ∧ item.mode = value := by
    rw [hs.directories]
    intro path value
    simp [and_assoc]
  have hnodup : (s.directories.map Prod.fst).Nodup := by
    rw [hs.directories, List.map_map]
    exact (nodup_map_split hlay).sublist (List.filter_sublist.map _)
  refine ⟨linked, hlinked, fun path node => ?_⟩
  obtain ⟨hset, hkept⟩ := node?_chmodDirectories hnodup linked path
  by_cases hpath : ∃ item ∈ members, path = split item.name
  · obtain ⟨item, hitem, rfl⟩ := hpath
    have hlink : (∃ other ∈ members, other.type = .symlink ∧ split item.name = split other.name ∧
        node = .symlink other.linkname) ↔ item.type = .symlink ∧ node = .symlink item.linkname := by
      constructor
      · rintro ⟨other, hother, htype, hsame, hnode⟩
        obtain rfl := hlay.eq_of_split hitem hother hsame
        exact ⟨htype, hnode⟩
      · exact fun h => ⟨item, hitem, h.1, rfl, h.2⟩
    have hown : (∀ value, (split item.name, value) ∈ s.directories ↔
        item.type = .directory ∧ item.mode = value) := by
      intro value
      rw [hdirectories]
      constructor
      · rintro ⟨other, hother, htype, hsame, hvalue⟩
        obtain rfl := hlay.eq_of_split hitem hother hsame.symm
        exact ⟨htype, hvalue⟩
      · exact fun h => ⟨item, hitem, h.1, rfl, h.2⟩
    rw [holds_of_member hlay hitem]
    rcases htypes item hitem with htype | htype | htype
    · rw [hkept (by simp [hown, htype]), hnodes, made_of_member hlay hitem, hlink]
      simp [htype, PackageMember.node]
    · have hmade : linked.node? (split item.name) = some (.directory mode) := by
        rw [hnodes, made_of_member hlay hitem]
        exact Or.inl (Or.inr ⟨htype, rfl⟩)
      rw [hset item.mode ((hown _).2 ⟨htype, rfl⟩), hmade]
      simp [StagedNode.withMode, PackageMember.node, htype, eq_comm]
    · rw [hkept (by simp [hown, htype]), hnodes, made_of_member hlay hitem, hlink]
      simp [htype, PackageMember.node]
  · have hother : ∀ item ∈ members, path ≠ split item.name :=
      fun item hitem heq => hpath ⟨item, hitem, heq⟩
    have hnot : ∀ value, (path, value) ∉ s.directories := by
      intro value hvalue
      obtain ⟨item, hitem, -, hsame, -⟩ := (hdirectories _ _).1 hvalue
      exact hother item hitem hsame.symm
    rw [hkept hnot, hnodes, made_of_other hother, holds_of_other hother]
    constructor
    · rintro (h | ⟨item, hitem, -, hsame, -⟩)
      · exact h
      · exact absurd hsame (hother item hitem)
    · exact Or.inl

end Finish

end CkbSail.Scripts.FixedInputs
