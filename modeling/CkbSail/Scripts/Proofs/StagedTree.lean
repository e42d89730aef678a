import CkbSail.ProofSupport.Dictionary
import CkbSail.Scripts.FixedInputs
import Mathlib

/-!
# The nodes of a staged tree

What each operation of staging does to the node at every path.
-/

namespace CkbSail.Scripts.FixedInputs

open PythonStd ProofSupport

namespace StagedTree

/-- The node at a path. -/
def node? (tree : StagedTree) (path : Path) : Option StagedNode := tree.nodes.lookup path

theorem layout_eq (tree : StagedTree) (path : Path) :
    tree.layout path = (tree.node? path).map StagedNode.shape := rfl

theorem node?_empty (path : Path) : empty.node? path = none := rfl

theorem layout_eq_none_iff {tree : StagedTree} {path : Path} :
    tree.layout path = none ↔ tree.node? path = none := by
  rw [layout_eq, Option.map_eq_none_iff]

theorem layout_eq_directory_iff {tree : StagedTree} {path : Path} :
    tree.layout path = some .directory ↔ ∃ mode, tree.node? path = some (.directory mode) := by
  rw [layout_eq, Option.map_eq_some_iff]
  constructor
  · intro ⟨node, hnode, hshape⟩
    cases node with
    | directory mode => exact ⟨mode, hnode⟩
    | file bytes mode => cases hshape
    | symlink target => cases hshape
  · intro ⟨mode, hnode⟩
    exact ⟨_, hnode, rfl⟩

theorem isSymlink_eq_false {tree : StagedTree} {path : Path}
    (h : ∀ target, tree.node? path ≠ some (.symlink target)) : tree.isSymlink path = false := by
  unfold isSymlink
  rw [layout_eq]
  cases hnode : tree.node? path with
  | none => rfl
  | some node =>
      cases node with
      | symlink target => exact absurd hnode (h target)
      | _ => rfl

theorem node?_eq_some_iff_mem {tree : StagedTree} {path : Path} {node : StagedNode} :
    tree.node? path = some node ↔ (path, node) ∈ tree.nodes :=
  lookup_eq_some_iff_mem tree.nodup

theorem node?_add {tree : StagedTree} {path : Path} {node : StagedNode} (hne : path ≠ [])
    (hfree : tree.layout path = none) (hparent : tree.isDir path.dropLast = true) :
    (tree.add path node hne hfree hparent).node? =
      Function.update tree.node? path (some node) := by
  ext1 place
  rw [Function.update_apply]
  exact lookup_row place path node tree.nodes

theorem node?_chmod (tree : StagedTree) (path place : Path) (mode : Int) :
    (tree.chmod path mode).node? place =
      if place = path then (tree.node? place).map (StagedNode.withMode mode)
      else tree.node? place := by
  show (tree.nodes.map _).lookup place =
    if place = path then (tree.nodes.lookup place).map _ else tree.nodes.lookup place
  generalize tree.nodes = nodes
  induction nodes with
  | nil => simp
  | cons row nodes ih =>
      obtain ⟨other, node⟩ := row
      rw [List.map_cons]
      by_cases hother : other = path
      · rw [if_pos hother, lookup_row, lookup_row, ih]
        by_cases hplace : place = other
        · simp [hplace, hother]
        · simp [hplace]
      · rw [if_neg hother, lookup_row, lookup_row, ih]
        by_cases hplace : place = other
        · simp [hplace, hother]
        · simp [hplace]

end StagedTree

/-! ## New nodes -/

section New

variable {tree : StagedTree}

theorem create_ok {path : Path} (node : StagedNode) (hne : path ≠ [])
    (hfree : tree.node? path = none) (hparent : IsDirectory tree.layout path.dropLast) :
    ∃ made, create tree path node = .ok made ∧
      made.node? = Function.update tree.node? path (some node) := by
  have hnone : tree.layout path = none := StagedTree.layout_eq_none_iff.2 hfree
  have hdir : tree.isDir path.dropLast = true := StagedTree.isDir_iff.2 hparent
  refine ⟨tree.add path node hne hnone hdir, ?_, StagedTree.node?_add hne hnone hdir⟩
  unfold create
  rw [dif_neg hne]
  split
  · next shape hshape => cases hnone.symm.trans hshape
  · rw [dif_pos hdir]

/-- The nodes after the missing directories along a path are made. -/
def withDirectories (mode : Int) (nodes : Path → Option StagedNode) (path : Path) :
    Path → Option StagedNode :=
  fun place =>
    if place ≠ [] ∧ place <+: path ∧ nodes place = none then some (.directory mode)
    else nodes place

/-- Along a path there are at most directories. -/
def Passable (nodes : Path → Option StagedNode) (path : Path) : Prop :=
  ∀ place, place <+: path → ∀ node, nodes place = some node → ∃ mode, node = .directory mode

theorem isDirectory_of_passable {path place : Path} (hclear : Passable tree.node? path)
    (hplace : place <+: path) (h : place = [] ∨ tree.node? place ≠ none) :
    IsDirectory tree.layout place := by
  rcases h with hnil | hsome
  · exact Or.inl hnil
  · obtain ⟨node, hnode⟩ := Option.ne_none_iff_exists'.1 hsome
    obtain ⟨mode, rfl⟩ := hclear place hplace node hnode
    exact Or.inr (StagedTree.layout_eq_directory_iff.2 ⟨mode, hnode⟩)

/-- A directory below directories is made, or is already there. -/
theorem mkdir_ok (mode : Int) {path : Path} (hclear : Passable tree.node? path)
    (hparent : IsDirectory tree.layout path.dropLast) :
    ∃ made, mkdir mode tree path = .ok made ∧ made.node? =
      if path ≠ [] ∧ tree.node? path = none then
        Function.update tree.node? path (some (.directory mode))
      else tree.node? := by
  unfold mkdir
  by_cases hnew : path ≠ [] ∧ tree.node? path = none
  · have hnot : tree.isDir path = false := by
      rw [Bool.eq_false_iff, ne_eq, StagedTree.isDir_iff]
      rintro (hnil | hdir)
      · exact hnew.1 hnil
      · rw [StagedTree.layout_eq_none_iff.2 hnew.2] at hdir
        cases hdir
    rw [hnot, if_pos hnew]
    exact create_ok _ hnew.1 hnew.2 hparent
  · have hdir : tree.isDir path = true := by
      rw [StagedTree.isDir_iff]
      apply isDirectory_of_passable hclear (List.prefix_refl path)
      by_cases hnil : path = []
      · exact Or.inl hnil
      · exact Or.inr fun hnone => hnew ⟨hnil, hnone⟩
    rw [hdir, if_neg hnew]
    exact ⟨tree, rfl, rfl⟩

theorem passable_dropLast {nodes : Path → Option StagedNode} {path : Path}
    (h : Passable nodes path) : Passable nodes path.dropLast :=
  fun place hplace => h place (hplace.trans (List.dropLast_prefix path))

theorem inits_concat (path : Path) (part : String) :
    (path ++ [part]).inits = path.inits ++ [path ++ [part]] := by
  rw [List.inits_append]
  rfl

theorem not_prefix_of_concat (path : Path) (part : String) : ¬path ++ [part] <+: path := by
  intro h
  have hlength := h.length_le
  simp at hlength

/-- One component more, one directory more. -/
theorem withDirectories_concat (mode : Int) (nodes : Path → Option StagedNode) (path : Path)
    (part : String) :
    withDirectories mode nodes (path ++ [part]) =
      let above := withDirectories mode nodes path
      if path ++ [part] ≠ [] ∧ above (path ++ [part]) = none then
        Function.update above (path ++ [part]) (some (.directory mode))
      else above := by
  ext1 place
  by_cases hplace : place = path ++ [part]
  · subst hplace
    by_cases hnone : nodes (path ++ [part]) = none
    · simp [withDirectories, hnone, not_prefix_of_concat]
    · simp [withDirectories, hnone]
  · have hprefix : place <+: path ++ [part] ↔ place <+: path := by
      rw [List.prefix_concat_iff]
      exact ⟨fun h => h.resolve_left hplace, Or.inr⟩
    have hother : ∀ (condition : Prop) [Decidable condition] (nodes' : Path → Option StagedNode),
        (if condition then Function.update nodes' (path ++ [part]) (some (.directory mode))
          else nodes') place = nodes' place := by
      intro condition _ nodes'
      split_ifs
      · exact Function.update_of_ne hplace ..
      · rfl
    show withDirectories mode nodes (path ++ [part]) place =
      (if _ then Function.update (withDirectories mode nodes path) (path ++ [part])
        (some (.directory mode)) else withDirectories mode nodes path) place
    rw [hother]
    simp only [withDirectories, hprefix]

theorem passable_withDirectories {mode : Int} {nodes : Path → Option StagedNode} {path other : Path}
    (h : Passable nodes other) : Passable (withDirectories mode nodes path) other := by
  intro place hplace node hnode
  rw [withDirectories] at hnode
  split_ifs at hnode with hnew
  · exact ⟨mode, (Option.some.inj hnode).symm⟩
  · exact h place hplace node hnode

theorem withDirectories_ne_none {mode : Int} {nodes : Path → Option StagedNode} {path place : Path}
    (hplace : place <+: path) (hne : place ≠ []) : withDirectories mode nodes path place ≠ none := by
  rw [withDirectories]
  split_ifs with hnew
  · simp
  · exact fun hnone => hnew ⟨hne, hplace, hnone⟩

/-- The directories along a passable path are made. -/
theorem mkdirParents_ok (mode : Int) {path : Path} (hclear : Passable tree.node? path) :
    ∃ made, mkdirParents mode tree path = .ok made ∧
      made.node? = withDirectories mode tree.node? path := by
  induction path using List.reverseRecOn with
  | nil =>
      refine ⟨tree, rfl, ?_⟩
      ext1 place
      have hnot : ¬(place ≠ [] ∧ place <+: [] ∧ tree.node? place = none) :=
        fun h => h.1 (List.prefix_nil.1 h.2.1)
      rw [withDirectories, if_neg hnot]
  | append_singleton path part ih =>
      have hparent : Passable tree.node? path := by
        have hdrop := passable_dropLast hclear
        rwa [List.dropLast_concat] at hdrop
      obtain ⟨above, hmade, hnodes⟩ := ih hparent
      have hpassable : Passable above.node? (path ++ [part]) := by
        rw [hnodes]
        exact passable_withDirectories hclear
      have hdir : IsDirectory above.layout (path ++ [part]).dropLast := by
        rw [List.dropLast_concat]
        apply isDirectory_of_passable (passable_dropLast hpassable) (by simp)
        by_cases hnil : path = []
        · exact Or.inl hnil
        · rw [hnodes]
          exact Or.inr (withDirectories_ne_none (List.prefix_refl path) hnil)
      obtain ⟨made, hlast, hlastnodes⟩ := mkdir_ok mode hpassable hdir
      refine ⟨made, ?_, ?_⟩
      · rw [mkdirParents, inits_concat, List.foldlM_append]
        rw [mkdirParents] at hmade
        rw [hmade]
        show (mkdir mode above (path ++ [part]) >>= fun made => .ok made) = _
        rw [hlast]
        rfl
      · rw [hlastnodes, withDirectories_concat, hnodes]

end New

/-! ## Links and modes -/

section Last

variable {tree : StagedTree}

/-- All links are made when their paths are free, distinct and in directories. -/
theorem makeLinks_ok {links : List (Path × String)} (hnodup : (links.map Prod.fst).Nodup)
    (hfree : ∀ row ∈ links, row.1 ≠ [] ∧ tree.node? row.1 = none ∧
      IsDirectory tree.layout row.1.dropLast) :
    ∃ made, makeLinks links tree = .ok made ∧ ∀ path node, made.node? path = some node ↔
      tree.node? path = some node ∨ ∃ link, (path, link) ∈ links ∧ node = .symlink link := by
  induction links generalizing tree with
  | nil => exact ⟨tree, rfl, by simp⟩
  | cons row links ih =>
      obtain ⟨target, link⟩ := row
      rw [List.map_cons, List.nodup_cons] at hnodup
      have htarget : target ∉ links.map Prod.fst := hnodup.1
      rw [List.forall_mem_cons] at hfree
      obtain ⟨⟨hne, hnone, hparent⟩, hrest⟩ := hfree
      obtain ⟨next, hcreate, hnext⟩ := create_ok (.symlink link) hne hnone hparent
      have hkeep : ∀ row ∈ links, row.1 ≠ [] ∧ next.node? row.1 = none ∧
          IsDirectory next.layout row.1.dropLast := by
        intro row hrow
        obtain ⟨hne', hnone', hparent'⟩ := hrest row hrow
        have hother : row.1 ≠ target := by
          intro heq
          apply htarget
          rw [← heq]
          exact List.mem_map_of_mem hrow
        refine ⟨hne', by rw [hnext, Function.update_of_ne hother, hnone'], ?_⟩
        refine hparent'.imp_right fun hdir => ?_
        have hdifferent : row.1.dropLast ≠ target := by
          intro heq
          rw [heq, StagedTree.layout_eq_none_iff.2 hnone] at hdir
          cases hdir
        rw [StagedTree.layout_eq, hnext, Function.update_of_ne hdifferent]
        exact hdir
      obtain ⟨made, hmake, hmade⟩ := ih hnodup.2 hkeep
      refine ⟨made, ?_, fun path node => ?_⟩
      · show (create tree target (.symlink link) >>= fun tree => makeLinks links tree) = .ok made
        rw [hcreate]
        exact hmake
      · rw [hmade, hnext]
        by_cases hpath : path = target
        · subst hpath
          have hnot : ∀ link', (path, link') ∉ links := fun link' hmem =>
            htarget (List.mem_map_of_mem hmem)
          simp [hnone, hnot, eq_comm]
        · rw [Function.update_of_ne hpath]
          simp [hpath]

/-- The modes at distinct paths, whatever the order. -/
theorem node?_foldl_chmod {rows : List (Path × Int)} (hnodup : (rows.map Prod.fst).Nodup)
    (tree : StagedTree) (path : Path) :
    (rows.foldl (fun tree row => tree.chmod row.1 row.2) tree).node? path =
      match rows.lookup path with
      | some mode => (tree.node? path).map (StagedNode.withMode mode)
      | none => tree.node? path := by
  induction rows generalizing tree with
  | nil => rfl
  | cons row rows ih =>
      obtain ⟨place, mode⟩ := row
      rw [List.map_cons, List.nodup_cons] at hnodup
      have hplace : place ∉ rows.map Prod.fst := hnodup.1
      rw [List.foldl_cons, ih hnodup.2, ProofSupport.lookup_row, StagedTree.node?_chmod]
      by_cases hpath : path = place
      · subst hpath
        have hnone : rows.lookup path = none := by
          rw [List.lookup_eq_none_iff]
          intro row hrow
          rw [bne_iff_ne]
          rintro rfl
          exact hplace (List.mem_map_of_mem hrow)
        simp [hnone]
      · simp [hpath]

end Last

end CkbSail.Scripts.FixedInputs
