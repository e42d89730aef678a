import CkbSail.Scripts.FixedInputs
import CkbSail.Scripts.Proofs.SafeName
import Mathlib

/-!
# What staging makes of accepted links

A staged tree is the layout its inventory describes.  The links of the inventory
lead to files by the text of their targets; the kernel gets there exactly when
every target goes through directories alone and no chain is too long.
-/

namespace CkbSail.Scripts.FixedInputs

open PythonStd
open ReleaseCommon (safeName SafeName safeName_eq_ok)

/-! ## Names -/

section Names

variable {name name' : String}

theorem safe_eq_ok : safe name = .ok name' ↔ name' = name ∧ (name = "." ∨ SafeName name) := by
  rw [← safeName_eq_ok, safe]
  cases safeName name <;> simp

theorem plain_split (h : SafeName name) : Plain (split name) :=
  ⟨fun part hpart => h.components part hpart, fun _ => slash_notMem_of_mem_split⟩

theorem plain_parts (h : safe name = .ok name') : Plain (parts name) := by
  rcases (safe_eq_ok.1 h).2 with rfl | hsafe
  · rw [show parts "." = [] from by decide]
    exact ⟨by simp, by simp⟩
  · rw [hsafe.parts_eq]
    exact plain_split hsafe

theorem slashed_eq_join (path : Path) : slashed path = join path := by
  apply String.toList_injective
  rw [toList_slashed, join, String.toList_ofList]

theorem split_slashed {path : Path} (hne : path ≠ []) (h : Plain path) :
    split (slashed path) = path := by
  rw [slashed_eq_join, split_join hne h.slash]

theorem slashed_split (name : String) : slashed (split name) = name := by
  rw [slashed_eq_join, join_split]

end Names

/-! ## Staging keeps names plain -/

section Staging

variable {tree tree' : StagedTree}

def AllPlain (tree : StagedTree) : Prop := ∀ path ∈ tree.nodes.map Prod.fst, Plain path

theorem raised_eq_ok {α : Type} {value : Py α} {a : α} : raised value = .ok a ↔ value = .ok a := by
  cases value <;> simp [raised]

theorem stage_bind_eq_ok {α β : Type} {x : Stage α} {f : α → Stage β} {b : β} :
    (x >>= f) = .ok b ↔ ∃ a, x = .ok a ∧ f a = .ok b := by
  cases x <;> simp [bind, Except.bind]

theorem allPlain_create {path : Path} {node : StagedNode} (htree : AllPlain tree)
    (hpath : Plain path) (h : create tree path node = .ok tree') : AllPlain tree' := by
  unfold create at h
  split at h
  · cases h
  · split at h
    · cases h
    · split at h
      · cases h
        rw [AllPlain, StagedTree.add, List.map_cons, List.forall_mem_cons]
        exact ⟨hpath, htree⟩
      · cases h

theorem allPlain_mkdir {mode : Int} {path : Path} (htree : AllPlain tree) (hpath : Plain path)
    (h : mkdir mode tree path = .ok tree') : AllPlain tree' := by
  unfold mkdir at h
  split at h
  · cases h
    exact htree
  · exact allPlain_create htree hpath h

theorem allPlain_mkdirParents {mode : Int} {path : Path} (htree : AllPlain tree)
    (hpath : Plain path) (h : mkdirParents mode tree path = .ok tree') : AllPlain tree' := by
  have hplaces : ∀ place ∈ path.inits, Plain place := fun place hplace =>
    hpath.sublist fun _ hpart => ((List.mem_inits _ _).1 hplace).subset hpart
  unfold mkdirParents at h
  generalize path.inits = places at h hplaces
  induction places generalizing tree with
  | nil =>
      cases h
      exact htree
  | cons place places ih =>
      rw [List.foldlM_cons, stage_bind_eq_ok] at h
      obtain ⟨next, hnext, h⟩ := h
      rw [List.forall_mem_cons] at hplaces
      exact ih (allPlain_mkdir htree hplaces.1 hnext) h hplaces.2

theorem allPlain_chmod (htree : AllPlain tree) (path : Path) (mode : Int) :
    AllPlain (tree.chmod path mode) := by
  rw [AllPlain, StagedTree.chmod, StagedTree.map_fst_map_withMode]
  exact htree

variable {entries : List (String × Json)} {mode : Int}

/-- The names staging has met are plain. -/
structure PlainStaging (s : Staging) : Prop where
  tree : AllPlain s.tree
  links : ∀ row ∈ s.links, Plain row.1

theorem safe_of_validateMember {item : PackageMember} {seen : List String} {name : String}
    {row : Json} (h : validateMember entries item seen = .ok (name, row)) :
    safe item.name = .ok name := by
  rw [validateMember, Py.bind_eq_ok] at h
  obtain ⟨name', hsafe, h⟩ := h
  obtain ⟨u, -, h⟩ := Py.bind_eq_ok.1 h
  obtain ⟨row', -, h⟩ := Py.bind_eq_ok.1 h
  obtain ⟨u', -, h⟩ := Py.bind_eq_ok.1 h
  obtain ⟨kind, -, h⟩ := Py.bind_eq_ok.1 h
  have hname : name' = name := by
    split_ifs at h
    · obtain ⟨u'', -, h⟩ := Py.bind_eq_ok.1 h
      exact congrArg Prod.fst (Py.pure_eq_ok.1 h)
    · obtain ⟨u'', -, h⟩ := Py.bind_eq_ok.1 h
      exact congrArg Prod.fst (Py.pure_eq_ok.1 h)
    · obtain ⟨u'', -, h⟩ := Py.bind_eq_ok.1 h
      exact congrArg Prod.fst (Py.pure_eq_ok.1 h)
  rwa [← hname]

theorem plainStaging_stageMember {item : PackageMember} {s s' : Staging} (hs : PlainStaging s)
    (h : stageMember entries mode item s = .ok s') : PlainStaging s' := by
  rw [stageMember, stage_bind_eq_ok] at h
  obtain ⟨⟨name, row⟩, hvalid, h⟩ := h
  obtain ⟨tree, hparents, h⟩ := stage_bind_eq_ok.1 h
  obtain ⟨u, -, h⟩ := stage_bind_eq_ok.1 h
  obtain ⟨kind, -, h⟩ := stage_bind_eq_ok.1 h
  have hname := safe_of_validateMember (raised_eq_ok.1 hvalid)
  have hpath : Plain (parts name) := by
    rw [(safe_eq_ok.1 hname).1]
    exact plain_parts hname
  have htree := allPlain_mkdirParents hs.tree hpath.dropLast hparents
  split_ifs at h
  · obtain ⟨link, -, h⟩ := stage_bind_eq_ok.1 h
    cases h
    refine ⟨htree, fun row hrow => ?_⟩
    rcases List.mem_append.1 hrow with hold | hnew
    · exact hs.links row hold
    · rwa [List.mem_singleton.1 hnew]
  · obtain ⟨next, hnext, h⟩ := stage_bind_eq_ok.1 h
    obtain ⟨mode, -, h⟩ := stage_bind_eq_ok.1 h
    cases h
    exact ⟨allPlain_mkdir htree hpath hnext, hs.links⟩
  · obtain ⟨next, hnext, h⟩ := stage_bind_eq_ok.1 h
    obtain ⟨u, -, h⟩ := stage_bind_eq_ok.1 h
    obtain ⟨mode, -, h⟩ := stage_bind_eq_ok.1 h
    cases h
    exact ⟨allPlain_chmod (allPlain_create htree hpath hnext) _ _, hs.links⟩

theorem plainStaging_stageMembers {items : List PackageMember} {s s' : Staging}
    (hs : PlainStaging s) (h : stageMembers entries mode items s = .ok s') : PlainStaging s' := by
  induction items generalizing s with
  | nil =>
      cases h
      exact hs
  | cons item items ih =>
      obtain ⟨next, hnext, h⟩ := stage_bind_eq_ok.1 h
      exact ih (plainStaging_stageMember hs hnext) h

theorem allPlain_makeLinks {links : List (Path × String)} (hlinks : ∀ row ∈ links, Plain row.1)
    (htree : AllPlain tree) (h : makeLinks links tree = .ok tree') : AllPlain tree' := by
  induction links generalizing tree with
  | nil =>
      cases h
      exact htree
  | cons row links ih =>
      obtain ⟨next, hnext, h⟩ := stage_bind_eq_ok.1 h
      rw [List.forall_mem_cons] at hlinks
      exact ih hlinks.2 (allPlain_create htree hlinks.1 hnext) h

theorem allPlain_chmodDirectories (directories : List (Path × Int)) (htree : AllPlain tree) :
    AllPlain (chmodDirectories directories tree) := by
  have hrows : ∀ (rows : List (Path × Int)) (tree : StagedTree), AllPlain tree →
      AllPlain (rows.foldl (fun tree row => tree.chmod row.1 row.2) tree) := by
    intro rows
    induction rows with
    | nil => exact fun _ htree => htree
    | cons row rows ih => exact fun tree htree => ih _ (allPlain_chmod htree _ _)
  exact hrows _ tree htree

/-- What a staging that returns has checked. -/
theorem stage_eq_ok {host : Host} {manifest : Json} (h : stage host manifest = .ok tree) :
    ∃ entries, loadManifest manifest = .ok entries ∧ AllPlain tree ∧
      verifyStaged host.sha256 entries tree = .ok () := by
  rw [stage, stage_bind_eq_ok] at h
  obtain ⟨_, -, h⟩ := h
  obtain ⟨_, -, h⟩ := stage_bind_eq_ok.1 h
  obtain ⟨entries, hload, h⟩ := stage_bind_eq_ok.1 h
  obtain ⟨_, -, h⟩ := stage_bind_eq_ok.1 h
  obtain ⟨_, -, h⟩ := stage_bind_eq_ok.1 h
  obtain ⟨_, -, h⟩ := stage_bind_eq_ok.1 h
  obtain ⟨s, hs, h⟩ := stage_bind_eq_ok.1 h
  obtain ⟨_, -, h⟩ := stage_bind_eq_ok.1 h
  obtain ⟨_, -, h⟩ := stage_bind_eq_ok.1 h
  obtain ⟨linked, hlinked, h⟩ := stage_bind_eq_ok.1 h
  obtain ⟨_, hverify, h⟩ := stage_bind_eq_ok.1 h
  obtain ⟨_, -, h⟩ := stage_bind_eq_ok.1 h
  cases h
  have hstart : PlainStaging ⟨.empty, [], [], []⟩ := ⟨by simp [AllPlain, StagedTree.empty], by simp⟩
  have hstaged := plainStaging_stageMembers hstart hs
  refine ⟨entries, raised_eq_ok.1 hload, ?_, raised_eq_ok.1 hverify⟩
  exact allPlain_chmodDirectories _ (allPlain_makeLinks hstaged.links hstaged.tree hlinked)

end Staging

/-! ## The layout an inventory describes -/

section Described

variable (entries : List (String × Json))

/-- What kind of row it is. -/
def shapeOf (row : Json) : Option Shape :=
  match row.getItem "kind", row.getItem "target" with
  | .ok (.str "directory"), _ => some .directory
  | .ok (.str "file"), _ => some .file
  | .ok (.str "symlink"), .ok (.str target) => some (.symlink target)
  | _, _ => none

/-- The recorded entries, and the directories above them. -/
def described : Layout := fun path =>
  match (Json.keys entries).find? fun name => split name = path with
  | some name => (Json.lookup name entries).bind shapeOf
  | none =>
      if path ≠ [] && (Json.keys entries).any fun name => path.isPrefixOf (split name) then
        some .directory
      else none

variable {entries} {sha256 : List UInt8 → String}

theorem identity_shape {node : StagedNode} {value row : Json} (h : identity sha256 node = .ok value)
    (heq : value.eq row = true) : shapeOf row = some node.shape := by
  cases node with
  | directory mode =>
      obtain ⟨u, -, h⟩ := Py.bind_eq_ok.1 h
      cases h
      have hkind : row.getItem "kind" = .ok (.str "directory") :=
        Json.getItem_of_obj_eq heq (by simp [Json.lookup_cons])
      simp [shapeOf, hkind, StagedNode.shape]
  | file bytes mode =>
      obtain ⟨u, -, h⟩ := Py.bind_eq_ok.1 h
      cases h
      have hkind : row.getItem "kind" = .ok (.str "file") :=
        Json.getItem_of_obj_eq heq (by simp [Json.lookup_cons])
      simp [shapeOf, hkind, StagedNode.shape]
  | symlink target =>
      cases h
      have hkind : row.getItem "kind" = .ok (.str "symlink") :=
        Json.getItem_of_obj_eq heq (by simp [Json.lookup_cons])
      have htarget : row.getItem "target" = .ok (.str target) :=
        Json.getItem_of_obj_eq heq (by simp [Json.lookup_cons])
      simp [shapeOf, hkind, htarget, StagedNode.shape]

/-- What the loop has observed of the nodes, and what it has passed by. -/
theorem observe_spec {nodes : List (Path × StagedNode)} {observed : List (String × Json)}
    (hnodup : (nodes.map Prod.fst).Nodup) (hplain : ∀ path ∈ nodes.map Prod.fst, Plain path)
    (hne : ∀ path ∈ nodes.map Prod.fst, path ≠ [])
    (h : observe sha256 entries nodes = .ok observed) :
    (∀ row ∈ nodes, (row.2.shape = .directory ∧ Json.lookup (slashed row.1) entries = none ∧
        slashed row.1 ∈ implied entries) ∨
      ∃ value, identity sha256 row.2 = .ok value ∧
        Json.lookup (slashed row.1) observed = some value) ∧
    ∀ name value, Json.lookup name observed = some value →
      ∃ row ∈ nodes, name = slashed row.1 := by
  induction nodes generalizing observed with
  | nil =>
      cases h
      simp
  | cons row nodes ih =>
      obtain ⟨path, node⟩ := row
      rw [List.map_cons, List.nodup_cons] at hnodup
      rw [List.map_cons, List.forall_mem_cons] at hplain hne
      have hother : ∀ row ∈ nodes, slashed row.1 ≠ slashed path := by
        intro row hrow heq
        have hmem : row.1 ∈ nodes.map Prod.fst := List.mem_map_of_mem hrow
        have hpath := slashed_injective (hplain.2 _ hmem).slash hplain.1.slash (hne.2 _ hmem) hne.1
          heq
        rw [hpath] at hmem
        exact hnodup.1 hmem
      rw [observe] at h
      split_ifs at h with hskip
      · obtain ⟨u, himplied, h⟩ := Py.bind_eq_ok.1 h
        obtain ⟨hnodes, hnames⟩ := ih hnodup.2 hplain.2 hne.2 h
        rw [List.forall_mem_cons]
        refine ⟨⟨Or.inl ?_, hnodes⟩, fun name value hvalue => ?_⟩
        · simp only [Bool.and_eq_true, decide_eq_true_eq, Option.isNone_iff_eq_none] at hskip
          refine ⟨hskip.1, hskip.2, ?_⟩
          simpa using himplied
        · obtain ⟨row, hrow, hname⟩ := hnames name value hvalue
          exact ⟨row, List.mem_cons_of_mem _ hrow, hname⟩
      · obtain ⟨value, hvalue, h⟩ := Py.bind_eq_ok.1 h
        obtain ⟨rest, hrest, h⟩ := Py.bind_eq_ok.1 h
        obtain rfl := Py.pure_eq_ok.1 h
        obtain ⟨hnodes, hnames⟩ := ih hnodup.2 hplain.2 hne.2 hrest
        rw [List.forall_mem_cons]
        refine ⟨⟨Or.inr ⟨value, hvalue, by simp [Json.lookup_cons]⟩, fun row hrow => ?_⟩, ?_⟩
        · refine (hnodes row hrow).imp_right fun hseen => ?_
          rwa [Json.lookup_cons, if_neg (hother row hrow)]
        · intro name value' hlookup
          rw [Json.lookup_cons] at hlookup
          split_ifs at hlookup with hname
          · exact ⟨_, List.mem_cons_self, hname⟩
          · obtain ⟨row, hrow, hname⟩ := hnames name value' hlookup
            exact ⟨row, List.mem_cons_of_mem _ hrow, hname⟩

theorem described_split {name : String} (h : name ∈ Json.keys entries) :
    described entries (split name) = (Json.lookup name entries).bind shapeOf := by
  have hfind : (Json.keys entries).find? (fun other => split other = split name) = some name := by
    cases hfound : (Json.keys entries).find? (fun other => split other = split name) with
    | none =>
        have hnone := List.find?_eq_none.1 hfound name h
        simp at hnone
    | some other =>
        have hother : split other = split name := by
          simpa using List.find?_some hfound
        rw [split_injective hother]
  rw [described, hfind]

theorem described_of_notMem {path : Path} (h : ∀ name ∈ Json.keys entries, split name ≠ path) :
    described entries path =
      if path ≠ [] ∧ ∃ name ∈ Json.keys entries, path <+: split name then some .directory
      else none := by
  have hfind : (Json.keys entries).find? (fun other => split other = path) = none := by
    simpa using h
  rw [described, hfind]
  simp

theorem layoutOf_of_mem {nodes : List (Path × StagedNode)} {row : Path × StagedNode}
    (hnodup : (nodes.map Prod.fst).Nodup) (h : row ∈ nodes) :
    layoutOf nodes row.1 = some row.2.shape := by
  induction nodes with
  | nil => cases h
  | cons head nodes ih =>
      obtain ⟨path, node⟩ := head
      rw [List.map_cons, List.nodup_cons] at hnodup
      rw [StagedTree.layoutOf_cons]
      rcases List.mem_cons.1 h with rfl | hrest
      · exact if_pos rfl
      · have hne : row.1 ≠ path := by
          intro heq
          have hmem : row.1 ∈ nodes.map Prod.fst := List.mem_map_of_mem hrest
          exact hnodup.1 (by rwa [← heq])
        rw [if_neg hne, ih hnodup.2 hrest]

theorem exists_mem_of_layoutOf {nodes : List (Path × StagedNode)} {path : Path} {shape : Shape}
    (hnodup : (nodes.map Prod.fst).Nodup) (h : layoutOf nodes path = some shape) :
    ∃ row ∈ nodes, row.1 = path ∧ row.2.shape = shape := by
  have hmem : path ∈ nodes.map Prod.fst := by
    by_contra hnot
    rw [StagedTree.layoutOf_eq_none_iff.2 hnot] at h
    cases h
  obtain ⟨row, hrow, rfl⟩ := List.mem_map.1 hmem
  rw [layoutOf_of_mem hnodup hrow] at h
  exact ⟨row, hrow, rfl, Option.some.inj h⟩

theorem parts_eq_split {name : String} (h : Plain (split name)) : parts name = split name := by
  refine List.filter_eq_self.2 fun part hpart => ?_
  have hordinary := h.ordinary part hpart
  simp only [Ordinary, List.mem_cons, List.not_mem_nil, or_false, not_or] at hordinary
  simp [hordinary]

/-- The text of a parent is that of a path above. -/
theorem isPrefix_of_mem_parents {name : String} {path : Path} (hname : Plain (split name))
    (hpath : Plain path) (hne : path ≠ []) (h : slashed path ∈ parents name)
    (hdot : slashed path ≠ ".") : path <+: split name := by
  rw [parents, parts_eq_split hname] at h
  obtain ⟨place, hplace, htext⟩ := List.mem_map.1 h
  have hprefix : place <+: split name :=
    (List.mem_inits _ _).1 (List.mem_of_mem_dropLast (List.mem_reverse.1 hplace))
  by_cases hempty : place = []
  · rw [if_pos hempty] at htext
    exact absurd htext.symm hdot
  · rw [if_neg hempty, ← slashed_eq_join] at htext
    have hplain : Plain place := hname.sublist fun _ hpart => hprefix.subset hpart
    rwa [← slashed_injective hplain.slash hpath.slash hempty hne htext]

theorem sound_layout {tree : StagedTree} (hplain : AllPlain tree) : Sound tree.layout := by
  have hmem : ∀ path shape, tree.layout path = some shape → path ∈ tree.nodes.map Prod.fst := by
    intro path shape h
    by_contra hnot
    rw [StagedTree.layout, StagedTree.layoutOf_eq_none_iff.2 hnot] at h
    cases h
  exact ⟨fun path shape h => hplain path (hmem path shape h),
    fun path shape h => tree.nonempty path (hmem path shape h),
    fun path shape h => tree.parent path (hmem path shape h)⟩

/-- Above everything there are directories. -/
theorem isDirectory_of_proper {layout : Layout} (hs : Sound layout) {path place : Path}
    {shape : Shape} (h : layout path = some shape) (hplace : place <+: path) (hne : place ≠ path) :
    IsDirectory layout place := by
  obtain ⟨rest, rfl⟩ := hplace
  induction rest using List.reverseRecOn generalizing shape with
  | nil => exact absurd (List.append_nil place).symm hne
  | append_singleton rest part ih =>
      have hparent := hs.parent _ _ h
      rw [← List.append_assoc, List.dropLast_concat] at hparent
      rcases hparent with hnil | hdir
      · rw [(List.append_eq_nil_iff.1 hnil).1]
        exact Or.inl rfl
      · by_cases hrest : rest = []
        · subst hrest
          rw [List.append_nil] at hdir
          exact Or.inr hdir
        · exact ih hdir (by simpa using hrest)

/-- The verified tree is what the inventory describes, and every name of the
inventory is the name of a node. -/
theorem layout_eq_described {tree : StagedTree} (hplain : AllPlain tree)
    (h : verifyStaged sha256 entries tree = .ok ()) :
    (∀ name ∈ Json.keys entries, ∃ row ∈ tree.nodes, name = slashed row.1) ∧
      tree.layout = described entries := by
  obtain ⟨observed, hobserve, h⟩ := Py.bind_eq_ok.1 h
  rw [require_eq_ok] at h
  have hsame := Json.eqBy_obj_iff.1 h
  obtain ⟨hnodes, hnames⟩ := observe_spec tree.nodup hplain tree.nonempty hobserve
  have hkeys : ∀ name ∈ Json.keys entries, ∃ row ∈ tree.nodes, name = slashed row.1 := by
    intro name hname
    rw [Json.mem_keys, List.mem_map] at hname
    obtain ⟨field, hfield, rfl⟩ := hname
    obtain ⟨row, hrow⟩ := Option.isSome_iff_exists.1 (Json.lookup_isSome_of_mem hfield)
    have hboth := hsame field.1
    rw [hrow] at hboth
    cases hother : Json.lookup field.1 observed with
    | none => simp [hother] at hboth
    | some value => exact hnames field.1 value hother
  have hrow : ∀ row ∈ tree.nodes, row.1 ≠ [] ∧ split (slashed row.1) = row.1 := by
    intro row hrow
    have hmem : row.1 ∈ tree.nodes.map Prod.fst := List.mem_map_of_mem hrow
    exact ⟨tree.nonempty _ hmem, split_slashed (tree.nonempty _ hmem) (hplain _ hmem)⟩
  refine ⟨hkeys, funext fun path => ?_⟩
  by_cases hpath : ∃ name ∈ Json.keys entries, split name = path
  · obtain ⟨name, hname, rfl⟩ := hpath
    obtain ⟨row, hmem, rfl⟩ := hkeys name hname
    rw [described_split hname, (hrow row hmem).2, StagedTree.layout,
      layoutOf_of_mem tree.nodup hmem]
    rw [Json.mem_keys, List.mem_map] at hname
    obtain ⟨field, hfield, hkey⟩ := hname
    obtain ⟨value', hvalue'⟩ := Option.isSome_iff_exists.1 (Json.lookup_isSome_of_mem hfield)
    rw [hkey] at hvalue'
    rw [hvalue']
    rcases hnodes row hmem with ⟨-, hnone, -⟩ | ⟨value, hvalue, hlookup⟩
    · cases hnone.symm.trans hvalue'
    · have hboth := hsame (slashed row.1)
      rw [hlookup, hvalue'] at hboth
      exact (identity_shape hvalue hboth).symm
  · have hnone : ∀ name ∈ Json.keys entries, split name ≠ path := by
      intro name hname heq
      exact hpath ⟨name, hname, heq⟩
    rw [described_of_notMem hnone]
    cases hshape : tree.layout path with
    | none =>
        refine (if_neg ?_).symm
        rintro ⟨hne, name, hname, hprefix⟩
        obtain ⟨row, hmem, rfl⟩ := hkeys name hname
        rw [(hrow row hmem).2] at hprefix
        have hlayout : tree.layout row.1 = some row.2.shape := layoutOf_of_mem tree.nodup hmem
        have hdir := isDirectory_of_proper (sound_layout hplain) hlayout hprefix fun heq =>
          hnone _ hname (by rw [(hrow row hmem).2, heq])
        rcases hdir with hnil | hdir
        · exact hne hnil
        · cases hshape.symm.trans hdir
    | some shape =>
        obtain ⟨row, hmem, rfl, rfl⟩ := exists_mem_of_layoutOf tree.nodup hshape
        have hrowplain : Plain row.1 := hplain _ (List.mem_map_of_mem hmem)
        rcases hnodes row hmem with ⟨hdir, -, himplied⟩ | ⟨value, -, hlookup⟩
        · obtain ⟨name, hname, hparent⟩ := List.mem_flatMap.1 himplied
          obtain ⟨hparent, hdot⟩ := List.mem_filter.1 hparent
          have hsplit : Plain (split name) := by
            obtain ⟨other, hother, rfl⟩ := hkeys name hname
            rw [(hrow other hother).2]
            exact hplain _ (List.mem_map_of_mem hother)
          rw [if_pos, hdir]
          exact ⟨(hrow row hmem).1, name, hname, isPrefix_of_mem_parents hsplit hrowplain
            (hrow row hmem).1 hparent (by simpa using hdot)⟩
        · have hboth := hsame (slashed row.1)
          rw [hlookup] at hboth
          cases hother : Json.lookup (slashed row.1) entries with
          | none => simp [hother] at hboth
          | some other =>
              refine absurd (hrow row hmem).2 (hnone _ ?_)
              rw [Json.mem_keys]
              exact List.mem_map_of_mem (Json.exists_mem_of_lookup hother)

end Described

/-! ## The links of an inventory -/

section Links

variable {entries : List (String × Json)} {name : String}

def IsLink (entries : List (String × Json)) (name target : String) : Prop :=
  ∃ row, Json.lookup name entries = some row ∧ row.getItem "kind" = .ok (.str "symlink") ∧
    row.getItem "target" = .ok (.str target)

def IsFile (entries : List (String × Json)) (name : String) : Prop :=
  ∃ row, Json.lookup name entries = some row ∧ row.getItem "kind" = .ok (.str "file")

theorem getItem_of_get {row : Json} {key text : String} (h : row.get key = .ok (.str text)) :
    row.getItem key = .ok (.str text) := by
  cases row with
  | obj fields =>
      rw [Json.getItem_obj_eq_ok]
      cases hlookup : Json.lookup key fields with
      | none => simp [Json.get, hlookup] at h
      | some value => simpa [Json.get, hlookup] using h
  | _ => simp [Json.get] at h

theorem exists_row_of_kindOf {text : String} (h : kindOf entries name = .ok (.str text)) :
    ∃ row, Json.lookup name entries = some row ∧ row.getItem "kind" = .ok (.str text) := by
  unfold kindOf at h
  cases hrow : Json.lookup name entries with
  | none => simp [hrow] at h
  | some row =>
      rw [hrow] at h
      exact ⟨row, rfl, getItem_of_get h⟩

theorem mem_keys_of_lookup {row : Json} (h : Json.lookup name entries = some row) :
    name ∈ Json.keys entries := by
  rw [Json.mem_keys]
  exact List.mem_map_of_mem (Json.exists_mem_of_lookup h)

theorem described_of_isFile (h : IsFile entries name) :
    described entries (split name) = some .file := by
  obtain ⟨row, hrow, hkind⟩ := h
  rw [described_split (mem_keys_of_lookup hrow), hrow]
  simp [shapeOf, hkind]

theorem described_of_isLink {target : String} (h : IsLink entries name target) :
    described entries (split name) = some (.symlink target) := by
  obtain ⟨row, hrow, hkind, htarget⟩ := h
  rw [described_split (mem_keys_of_lookup hrow), hrow]
  simp [shapeOf, hkind, htarget]

theorem isLink_of_described {path : Path} {target : String}
    (h : described entries path = some (.symlink target)) :
    IsLink entries (slashed path) target ∧ split (slashed path) = path := by
  by_cases hpath : ∃ name ∈ Json.keys entries, split name = path
  · obtain ⟨name, hname, rfl⟩ := hpath
    rw [described_split hname, Option.bind_eq_some_iff] at h
    obtain ⟨row, hrow, hshape⟩ := h
    rw [slashed_split]
    refine ⟨⟨row, hrow, ?_⟩, rfl⟩
    unfold shapeOf at hshape
    split at hshape <;> simp_all
  · have hnone : ∀ name ∈ Json.keys entries, split name ≠ path := by
      intro name hname heq
      exact hpath ⟨name, hname, heq⟩
    rw [described_of_notMem hnone] at h
    split_ifs at h
    cases h

theorem get_of_getItem {row value : Json} {key : String} (h : row.getItem key = .ok value) :
    row.get key = .ok value := by
  obtain ⟨fields, rfl, hlookup⟩ := Json.getItem_eq_ok.1 h
  rw [Json.get, hlookup, Option.getD_some]

/-- What an accepted row of a link says of its target. -/
theorem relative_of_checkEntry {target : String} (h : checkEntry entries name = .ok ())
    (hlink : IsLink entries name target) : isAbsolute target = false := by
  obtain ⟨row, hrow, hkind, htarget⟩ := hlink
  rw [checkEntry, Py.bind_eq_ok] at h
  obtain ⟨name', hsafe, h⟩ := h
  obtain ⟨_, -, h⟩ := Py.bind_eq_ok.1 h
  obtain ⟨row', hrow', h⟩ := Py.bind_eq_ok.1 h
  rw [(safe_eq_ok.1 hsafe).1, Json.getItem_obj_eq_ok, hrow] at hrow'
  obtain rfl := Option.some.inj hrow'
  rw [rowValid, get_of_getItem hkind] at h
  simp only [bind, Except.bind, Json.str_eq_str] at h
  rw [if_neg (by decide), if_neg (by decide), requirePy_eq_ok, Py.conj_eq_true] at h
  have hfine := h ((row.getItem "target").map targetFine) (by simp)
  rw [htarget] at hfine
  have htext : targetFine (.str target) = true := by simpa [Except.map] using hfine
  simp only [targetFine, Bool.and_eq_true, Bool.not_eq_true'] at htext
  exact htext.1.2

theorem exists_target_of_nextName {row : Json} {next : String}
    (hrow : Json.lookup name entries = some row) (h : nextName entries name = .ok next) :
    ∃ target, row.getItem "target" = .ok (.str target) := by
  rw [nextName, Py.bind_eq_ok] at h
  obtain ⟨row', hrow', h⟩ := h
  rw [Json.getItem_obj_eq_ok, hrow] at hrow'
  obtain rfl := Option.some.inj hrow'
  obtain ⟨value, hvalue, h⟩ := Py.bind_eq_ok.1 h
  obtain ⟨text, htext, -⟩ := Py.bind_eq_ok.1 h
  cases value with
  | str target => exact ⟨target, hvalue⟩
  | _ => cases htext

/-- One step along an accepted link. -/
theorem nextName_eq_ok {next target : String} (hname : Plain (split name))
    (hrelative : isAbsolute target = false) (hlink : IsLink entries name target)
    (h : nextName entries name = .ok next) :
    next = "." ∨ split next = lexicalTarget (split name) target := by
  obtain ⟨row, hrow, hkind, htarget⟩ := hlink
  rw [nextName, Py.bind_eq_ok] at h
  obtain ⟨row', hrow', h⟩ := h
  rw [Json.getItem_obj_eq_ok, hrow] at hrow'
  obtain rfl := Option.some.inj hrow'
  obtain ⟨value, hvalue, h⟩ := Py.bind_eq_ok.1 h
  rw [htarget] at hvalue
  obtain rfl := Except.ok.inj hvalue
  obtain ⟨text, htext, h⟩ := Py.bind_eq_ok.1 h
  obtain ⟨rfl, hsafe⟩ := safe_eq_ok.1 h
  obtain rfl := Except.ok.inj htext
  have hpath := normpath_join_dirname hname (split_ne_nil name) hrelative
  rw [join_split] at hpath
  rw [hpath]
  by_cases hempty : join (lexicalTarget (split name) target) = ""
  · exact Or.inl (if_pos hempty)
  · rw [if_neg hempty]
    refine Or.inr (split_join ?_ ?_)
    · rintro hnil
      exact hempty (by rw [hnil]; rfl)
    · exact slash_notMem_foldl_pushComponent (fun part hpart => hname.slash part
        (List.mem_of_mem_dropLast hpart)) fun part => slash_notMem_of_mem_split

/-- The loop goes where the text of the targets leads. -/
theorem leads_of_follow (hs : Sound (described entries))
    (hrelative : ∀ name target, IsLink entries name target → isAbsolute target = false)
    {visited : List String} {final : String} (h : follow entries name visited = .ok final)
    (hfinal : IsFile entries final) :
    ∃ n, Leads (described entries) n (split name) (split final) := by
  induction name, visited using follow.induct entries with
  | case1 current visited e hkind =>
      rw [follow_eq, hkind] at h
      cases h
  | case2 current visited kind hkind hlink hvisited =>
      rw [follow_eq, hkind] at h
      simp [bind, Except.bind, hlink, hvisited] at h
  | case3 current visited kind hkind hlink hvisited e hnext =>
      rw [follow_eq, hkind, hnext] at h
      simp [bind, Except.bind, hlink, hvisited] at h
  | case4 current visited kind hkind hlink hvisited next hnext ih =>
      rw [follow_eq, hkind, hnext] at h
      simp only [bind, Except.bind, hlink, if_true, if_neg hvisited] at h
      obtain ⟨n, hchain⟩ := ih h
      rw [Json.eq_str_iff.1 hlink] at hkind
      obtain ⟨row, hrow, hrowkind⟩ := exists_row_of_kindOf hkind
      obtain ⟨target, htarget⟩ := exists_target_of_nextName hrow hnext
      have hislink : IsLink entries current target := ⟨row, hrow, hrowkind, htarget⟩
      have hdescribed := described_of_isLink hislink
      rcases nextName_eq_ok (hs.plain _ _ hdescribed) (hrelative _ _ hislink) hislink hnext with
        rfl | hsplit
      · obtain ⟨shape, hshape, -⟩ := hchain.not_directory
        exact absurd ((hs.plain _ _ hshape).ordinary "." (by decide)) (by simp [Ordinary])
      · rw [hsplit] at hchain
        exact ⟨n + 1, .link hdescribed hchain⟩
  | case5 current visited kind hkind hlink =>
      rw [follow_eq, hkind] at h
      simp only [bind, Except.bind, if_neg hlink] at h
      obtain rfl := Except.ok.inj h
      exact ⟨0, .file (described_of_isFile hfinal)⟩

/-- What an accepted link leads to. -/
theorem follow_of_checkLink (h : checkLink entries name = .ok ()) {target : String}
    (hlink : IsLink entries name target) :
    ∃ final, follow entries name [] = .ok final ∧ IsFile entries final := by
  obtain ⟨row, hrow, hkind, -⟩ := hlink
  rw [checkLink, Py.bind_eq_ok] at h
  obtain ⟨row', hrow', h⟩ := h
  rw [Json.getItem_obj_eq_ok, hrow] at hrow'
  obtain rfl := Option.some.inj hrow'
  obtain ⟨kind, hkind', h⟩ := Py.bind_eq_ok.1 h
  rw [hkind] at hkind'
  obtain rfl := Except.ok.inj hkind'
  rw [if_pos (Json.eq_self _)] at h
  obtain ⟨final, hfollow, h⟩ := Py.bind_eq_ok.1 h
  obtain ⟨kind, hfinal, h⟩ := Py.bind_eq_ok.1 h
  rw [require_eq_ok, Json.eq_str_iff] at h
  rw [h] at hfinal
  obtain ⟨row, hrow, hfile⟩ := exists_row_of_kindOf hfinal
  exact ⟨final, hfollow, row, hrow, hfile⟩

end Links

/-! ## Staged links -/

section Staged

/-- The number of links the kernel follows on one path. -/
def MAXSYMLINKS : Nat := 40

/-- The links of the tree are those of the inventory, and the kernel gets from each to
the recorded file that the loop of `entries_valid` ends at. -/
structure Resolved (entries : List (String × Json)) (tree : StagedTree) : Prop where
  links : ∀ path target, tree.layout path = some (.symlink target) ↔
    ∃ name, split name = path ∧ IsLink entries name target
  files : ∀ name target, IsLink entries name target →
    ∃ final, follow entries name [] = .ok final ∧ IsFile entries final ∧
      ∃ n ≤ MAXSYMLINKS, Walk tree.layout [] (split name) (split final) n

variable {host : Host} {manifest : Json} {tree : StagedTree} {entries : List (String × Json)}

theorem loadManifest_eq_ok (h : loadManifest manifest = .ok entries) :
    manifest.getItem "entries" = .ok (.obj entries) ∧ entriesValid (.obj entries) = .ok () := by
  rw [loadManifest, Py.bind_eq_ok] at h
  obtain ⟨_, -, h⟩ := h
  obtain ⟨_, -, h⟩ := Py.bind_eq_ok.1 h
  obtain ⟨_, -, h⟩ := Py.bind_eq_ok.1 h
  obtain ⟨_, -, h⟩ := Py.bind_eq_ok.1 h
  obtain ⟨_, -, h⟩ := Py.bind_eq_ok.1 h
  obtain ⟨_, -, h⟩ := Py.bind_eq_ok.1 h
  obtain ⟨_, -, h⟩ := Py.bind_eq_ok.1 h
  obtain ⟨value, hvalue, h⟩ := Py.bind_eq_ok.1 h
  obtain ⟨_, hvalid, h⟩ := Py.bind_eq_ok.1 h
  cases value with
  | obj fields =>
      obtain rfl := Py.pure_eq_ok.1 h
      exact ⟨hvalue, hvalid⟩
  | _ => cases h

theorem entriesValid_eq_ok (h : entriesValid (.obj entries) = .ok ()) :
    ∀ name ∈ Json.keys entries, checkEntry entries name = .ok () ∧
      checkLink entries name = .ok () := by
  rw [entriesValid, Py.bind_eq_ok] at h
  obtain ⟨_, -, h⟩ := h
  obtain ⟨_, hentries, h⟩ := Py.bind_eq_ok.1 h
  exact fun name hname => ⟨Py.forEach_eq_ok.1 hentries name hname, Py.forEach_eq_ok.1 h name hname⟩

/-- On a staged tree all links resolve exactly when every target goes through
directories alone and no chain has too many links. -/
theorem resolved_iff (hstage : stage host manifest = .ok tree)
    (hentries : manifest.getItem "entries" = .ok (.obj entries)) :
    Resolved entries tree ↔
      (∀ name target, IsLink entries name target →
        Straight (described entries) (split name) target) ∧
      ∀ n path found, Leads (described entries) n path found → n ≤ MAXSYMLINKS := by
  obtain ⟨entries', hload, hplain, hverify⟩ := stage_eq_ok hstage
  obtain ⟨hitem, haccepted⟩ := loadManifest_eq_ok hload
  obtain rfl : entries' = entries := by
    simpa using hitem.symm.trans hentries
  obtain ⟨-, hlayout⟩ := layout_eq_described hplain hverify
  have hs : Sound (described entries') := hlayout ▸ sound_layout hplain
  have hvalid := entriesValid_eq_ok haccepted
  have hmem : ∀ {name target}, IsLink entries' name target → name ∈ Json.keys entries' :=
    fun hlink => hlink.elim fun row hrow => mem_keys_of_lookup hrow.1
  have hrelative : ∀ name target, IsLink entries' name target → isAbsolute target = false :=
    fun name target hlink => relative_of_checkEntry (hvalid name (hmem hlink)).1 hlink
  have hfollow : ∀ name target, IsLink entries' name target →
      ∃ final, follow entries' name [] = .ok final ∧ IsFile entries' final ∧
        ∃ n, Leads (described entries') n (split name) (split final) := by
    intro name target hlink
    obtain ⟨final, hfinal, hfile⟩ := follow_of_checkLink (hvalid name (hmem hlink)).2 hlink
    exact ⟨final, hfinal, hfile, leads_of_follow hs hrelative hfinal hfile⟩
  have hlinks : ∀ path target, described entries' path = some (.symlink target) ↔
      ∃ name, split name = path ∧ IsLink entries' name target := by
    intro path target
    constructor
    · intro h
      exact ⟨slashed path, (isLink_of_described h).2, (isLink_of_described h).1⟩
    · rintro ⟨name, rfl, hlink⟩
      exact described_of_isLink hlink
  have hleads : ∀ path target, described entries' path = some (.symlink target) →
      ∃ n found, Leads (described entries') n path found := by
    intro path target h
    obtain ⟨name, rfl, hlink⟩ := (hlinks path target).1 h
    obtain ⟨final, -, -, n, hchain⟩ := hfollow name target hlink
    exact ⟨n, _, hchain⟩
  have hall := all_walk_iff hs hleads MAXSYMLINKS
  constructor
  · intro h
    obtain ⟨hstraight, hshort⟩ := hall.1 fun path target hpath => by
      obtain ⟨name, rfl, hlink⟩ := (hlinks path target).1 hpath
      obtain ⟨final, hfinal, hfile, n, hchain⟩ := hfollow name target hlink
      obtain ⟨final', hfinal', -, m, hm, hwalk⟩ := h.files name target hlink
      obtain rfl : final = final' := Except.ok.inj (hfinal.symm.trans hfinal')
      rw [hlayout] at hwalk
      exact ⟨split final, ⟨n, hchain⟩, m, hm, hwalk⟩
    exact ⟨fun name target hlink => hstraight _ _ (described_of_isLink hlink), hshort⟩
  · rintro ⟨hstraight, hshort⟩
    refine ⟨fun path target => by rw [hlayout, hlinks], fun name target hlink => ?_⟩
    obtain ⟨final, hfinal, hfile, n, hchain⟩ := hfollow name target hlink
    obtain ⟨found, ⟨m, hchain'⟩, k, hk, hwalk⟩ := hall.2 ⟨fun path target hpath => by
      obtain ⟨name, rfl, hlink⟩ := (hlinks path target).1 hpath
      exact hstraight name target hlink, hshort⟩ _ _ (described_of_isLink hlink)
    rw [hlayout]
    rw [(hchain.unique hchain').1] at hwalk
    exact ⟨final, hfinal, hfile, k, hk, hwalk⟩

/-! ### A file and a link -/

def zeroDigest : String := "0000000000000000000000000000000000000000000000000000000000000000"

/-- An empty file `d/f`, and beside it a link `d/l`. -/
def linkEntries (target : String) : List (String × Json) :=
  [("d/f", .obj [("kind", .str "file"), ("sha256", .str zeroDigest), ("bytes", .int 0),
      ("mode", .int 0o644)]),
    ("d/l", .obj [("kind", .str "symlink"), ("target", .str target)])]

/-- A manifest of the one schema, for given entries. -/
def manifestOf (entries : List (String × Json)) : Json :=
  .obj [("schema_version", .int 1), ("kind", .str "extra-fixed-prefix-installations-v1"),
    ("canonical_checkout", .str "/work"), ("inputs", .obj []), ("required_external", .arr []),
    ("boundaries", .obj (BOUNDARY_KEYS.map fun key => (key, .bool false))),
    ("entries", .obj entries)]

def linkManifest (target : String) : Json := manifestOf (linkEntries target)

theorem complete_of_empty : (⟨[], none⟩ : ReleaseCommon.Stream).stop = none →
    (⟨[], none⟩ : ReleaseCommon.Stream).bytes.length = (0 : Int).toNat := by
  simp [ReleaseCommon.Stream.bytes]

def plainMember (name : String) (type : ReleaseCommon.MemberType) (mode : Int)
    (linkname : String) : PackageMember where
  name := name
  type := type
  mode := mode
  size := 0
  uid := 0
  gid := 0
  mtime := 0
  linkname := linkname
  uname := ""
  gname := ""
  content := ⟨[], none⟩
  complete := complete_of_empty
  sparse := false

def linkPackage (target : String) : Package :=
  ⟨none, [plainMember "d/f" .regular 0o644 "", plainMember "d/l" .symlink 0o777 target], none⟩

def linkHost (target : String) : Host where
  destinationFree := true
  manifestPinned := true
  checked := linkPackage target
  archiveUnchanged := true
  staged := linkPackage target
  inputsUnchanged := true
  defaultMode := 0o755
  sha256 := fun _ => zeroDigest

theorem isLink_linkEntries {target name target' : String}
    (h : IsLink (linkEntries target) name target') : name = "d/l" ∧ target' = target := by
  obtain ⟨row, hrow, hkind, htarget⟩ := h
  simp only [linkEntries, Json.lookup_cons, Json.lookup_nil] at hrow
  split_ifs at hrow with hfile hlink
  · obtain rfl := Option.some.inj hrow
    simp [Json.lookup_cons] at hkind
  · obtain rfl := Option.some.inj hrow
    rw [Json.getItem_obj_eq_ok] at htarget
    simp only [Json.lookup_cons] at htarget
    exact ⟨hlink, by simpa using htarget.symm⟩

theorem resolved_iff_link : ∃ tree, stage (linkHost "f") (linkManifest "f") = .ok tree ∧
    Resolved (linkEntries "f") tree := by
  have hsome : (stage (linkHost "f") (linkManifest "f")).toOption.isSome = true := by
    decide +kernel
  cases hstage : stage (linkHost "f") (linkManifest "f") with
  | error e => simp [hstage, Except.toOption] at hsome
  | ok tree =>
      refine ⟨tree, rfl, (resolved_iff hstage rfl).2 ⟨fun name target h => ?_, ?_⟩⟩
      · obtain ⟨rfl, rfl⟩ := isLink_linkEntries h
        intro front hfront hne
        obtain rfl : front = [] := by
          rw [show split "f" = ["f"] from by decide] at hfront hne
          simpa [List.prefix_cons_iff, hne] using hfront
        exact Or.inr (by decide +kernel)
      · intro n path found h
        cases h with
        | file => exact Nat.zero_le _
        | link hlink hrest =>
            obtain ⟨hislink, hsplit⟩ := isLink_of_described hlink
            obtain ⟨hname, rfl⟩ := isLink_linkEntries hislink
            rw [hname] at hsplit
            subst hsplit
            have hfile : described (linkEntries "f") (lexicalTarget (split "d/l") "f") =
                some .file := by decide +kernel
            cases hrest with
            | file => decide
            | link hlink => cases hfile.symm.trans hlink

/-- The target `missing/../f` is accepted for `d/f`, and staged; the kernel finds no
directory `missing`. -/
theorem missing_not_resolved :
    entriesValid (.obj (linkEntries "missing/../f")) = .ok () ∧
      ∃ tree, stage (linkHost "missing/../f") (linkManifest "missing/../f") = .ok tree ∧
        tree.layout ["d", "l"] = some (.symlink "missing/../f") ∧
        ∀ found n, ¬Walk tree.layout [] (split "d/l") found n := by
  refine ⟨by decide +kernel, ?_⟩
  have hnodes : (stage (linkHost "missing/../f") (linkManifest "missing/../f")).toOption.map
      StagedTree.nodes = some [(["d", "l"], .symlink "missing/../f"), (["d", "f"], .file [] 0o644),
        (["d"], .directory 0o755)] := by
    decide +kernel
  cases hstage : stage (linkHost "missing/../f") (linkManifest "missing/../f") with
  | error e => simp [hstage, Except.toOption] at hnodes
  | ok tree =>
      have hlayout : tree.layout = layoutOf [(["d", "l"], .symlink "missing/../f"),
          (["d", "f"], .file [] 0o644), (["d"], .directory 0o755)] := by
        rw [hstage] at hnodes
        rw [StagedTree.layout, Option.some.inj hnodes]
      have hlink : tree.layout (["d"] ++ ["l"]) = some (.symlink "missing/../f") := by
        rw [hlayout]
        rfl
      have hdir : tree.layout ([] ++ ["d"]) = some .directory := by
        rw [hlayout]
        rfl
      have habsent : tree.layout (["d"] ++ ["missing"]) = none := by
        rw [hlayout]
        rfl
      refine ⟨tree, rfl, hlink, fun found n h => ?_⟩
      rw [show split "d/l" = ["d", "l"] from by decide, walk_enter_iff (by simp [Ordinary]) hdir,
        List.nil_append, walk_follow_iff (by simp [Ordinary]) hlink] at h
      obtain ⟨m, -, h⟩ := h
      rw [show split "missing/../f" = ["missing", "..", "f"] from by decide] at h
      exact not_walk_of_absent (by simp [Ordinary]) habsent h

end Staged

end CkbSail.Scripts.FixedInputs
