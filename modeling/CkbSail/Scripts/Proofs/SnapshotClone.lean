import CkbSail.Scripts.Proofs.SnapshotRestore

/-!
# Checkouts and their clones

A checkout holds three repositories, whose files do not mix.  A fresh clone has the same
HEADs and holds their files, and nothing else.
-/

namespace CkbSail.Scripts.SourceSnapshot

open PythonStd GitCheckout
open CkbSourceBaseline (modeText)
open FixedInputs (Stage raised raised_eq_ok stage_bind_eq_ok)

/-! ## Checkouts -/

/-- The rows of a tree of git: each name once, and none below another. -/
structure IsGitTree (rows : List GitRow) : Prop where
  nodup : (rows.map GitRow.name).Nodup
  apart : ∀ row ∈ rows, ∀ row' ∈ rows, ¬Above (split row.name) (split row'.name)

/-- A working tree on a disk, with a directory for each repository. -/
structure IsCheckout (checkout : Checkout) : Prop where
  distinct : checkout.rows.Distinct
  closed : Closed checkout.rows.view
  bases : ∀ repo ∈ REPOS, checkout.rows.view (baseOf repo) = some .directory
  trees : ∀ repo ∈ REPOS, IsGitTree (checkout.repository repo).tree

/-- Clones of the repositories at the same HEADs that share no objects: index and working
tree are those of HEAD.  What git ignores and what is outside may differ. -/
structure FreshClone (tools : Tools) (checkout clone : Checkout) : Prop where
  head : ∀ repo ∈ REPOS, (clone.repository repo).head = (checkout.repository repo).head
  tree : ∀ repo ∈ REPOS, (clone.repository repo).tree = (checkout.repository repo).tree
  index : ∀ repo ∈ REPOS, (clone.repository repo).index = (checkout.repository repo).tree
  independent : ∀ repo ∈ REPOS, (clone.repository repo).alternates = false ∧
    (clone.repository repo).sharedObjects = false
  nested : ∀ repo ∈ REPOS, ∀ place, place ∈ (clone.repository repo).nested ↔
    repo = "." ∧ ∃ sub ∈ REPOS.tail, place = baseOf sub
  distinct : clone.rows.Distinct
  closed : Closed clone.rows.view
  bases : ∀ repo ∈ REPOS, clone.rows.view (baseOf repo) = some .directory
  files : ∀ repo ∈ REPOS, ∀ row ∈ (checkout.repository repo).tree, isGitlink row = false →
    unchanged tools (clone.rows.below (baseOf repo)) row = true
  only : ∀ path node, clone.rows.view path = some node → (∃ repo ∈ REPOS,
    ∃ name ∈ headFiles (checkout.repository repo).tree, path = baseOf repo ++ split name) ∨
      node = .directory ∧ ∃ repo ∈ REPOS, path <+: baseOf repo ∨
        ∃ name ∈ headFiles (checkout.repository repo).tree, Above path (baseOf repo ++ split name)

/-- The path belongs to the repository and not to a submodule of it. -/
def Owned (repo : String) (path : Path) : Prop :=
  baseOf repo <+: path ∧ (repo = "." → ∀ sub ∈ REPOS.tail, ¬baseOf sub <+: path)

instance (repo : String) (path : Path) : Decidable (Owned repo path) :=
  inferInstanceAs (Decidable (_ ∧ _))

theorem mem_REPOS {repo : String} :
    repo ∈ REPOS ↔ repo = "." ∨ repo = "deps/ckb-vm" ∨ repo = "deps/sail-riscv" := by
  simp [REPOS]

theorem baseOf_root : baseOf "." = [] := by decide

theorem baseOf_ckb : baseOf "deps/ckb-vm" = ["deps", "ckb-vm"] := by decide

theorem baseOf_sail : baseOf "deps/sail-riscv" = ["deps", "sail-riscv"] := by decide

theorem split_of_mem_tail {sub : String} (h : sub ∈ REPOS.tail) : split sub = baseOf sub := by
  simp only [REPOS, List.tail_cons, List.mem_cons, List.not_mem_nil, or_false] at h
  rcases h with rfl | rfl <;> decide

/-- The bases of two submodules do not lead to one path. -/
theorem eq_of_bases {repo repo' : String} (hrepo : repo ∈ REPOS.tail) (hrepo' : repo' ∈ REPOS.tail)
    {path : Path} (h : baseOf repo <+: path) (h' : baseOf repo' <+: path) : repo = repo' := by
  have hsame : baseOf repo <+: baseOf repo' := by
    refine List.prefix_of_prefix_length_le h h' ?_
    simp only [REPOS, List.tail_cons, List.mem_cons, List.not_mem_nil, or_false] at hrepo hrepo'
    rcases hrepo with rfl | rfl <;> rcases hrepo' with rfl | rfl <;>
      simp [baseOf_ckb, baseOf_sail]
  simp only [REPOS, List.tail_cons, List.mem_cons, List.not_mem_nil, or_false] at hrepo hrepo'
  rcases hrepo with rfl | rfl <;> rcases hrepo' with rfl | rfl <;>
    simp_all [baseOf_ckb, baseOf_sail]

theorem mem_tail_of_ne {repo : String} (hrepo : repo ∈ REPOS) (hne : repo ≠ ".") :
    repo ∈ REPOS.tail := by
  rcases mem_REPOS.1 hrepo with rfl | rfl | rfl
  · exact absurd rfl hne
  · simp [REPOS]
  · simp [REPOS]

/-- A path on the way to one of another repository is on the way to that repository. -/
theorem Owned.above {repo repo' : String} {path path' : Path} (hrepo : repo ∈ REPOS)
    (hrepo' : repo' ∈ REPOS) (h : Owned repo path) (h' : Owned repo' path')
    (hpath : path <+: path') : repo = repo' ∨ repo' ∈ REPOS.tail ∧ path <+: baseOf repo' := by
  by_cases hroot' : repo' = "."
  · by_cases hroot : repo = "."
    · exact Or.inl (hroot.trans hroot'.symm)
    · exact absurd (h.1.trans hpath) (h'.2 hroot' repo (mem_tail_of_ne hrepo hroot))
  · have hsub' := mem_tail_of_ne hrepo' hroot'
    by_cases hroot : repo = "."
    · refine Or.inr ⟨hsub', ?_⟩
      rcases List.prefix_or_prefix_of_prefix hpath h'.1 with hway | hway
      · exact hway
      · exact absurd hway (h.2 hroot repo' hsub')
    · exact Or.inl (eq_of_bases (mem_tail_of_ne hrepo hroot) hsub' (h.1.trans hpath) h'.1)

/-! ## Captures -/

def snapshotOf (tools : Tools) (root ckb sail : Inventory) (baseline : Json) : Snapshot :=
  let repositories := [(".", root), ("deps/ckb-vm", ckb), ("deps/sail-riscv", sail)]
  { repositories := repositories
    ckbSourceBaseline := baseline
    snapshotSha256 := tools.sha256 (tools.canonical (resultJson repositories baseline)) }

/-- What `capture` requires of the three inventories. -/
structure Pinned (root ckb sail : Inventory) : Prop where
  links : ∀ name, name ∈ root.gitlinks.map Prod.fst ↔ name ∈ REPOS.tail
  ckbHead : pinned root "deps/ckb-vm" ckb = true
  sailHead : pinned root "deps/sail-riscv" sail = true
  unchanged : sail.changesFromHead = []

section Captures

variable {tools : Tools} {checkout : Checkout} {snapshot : Snapshot} {repo : String}
  {info : Inventory}

theorem capture_eq_ok : capture tools checkout = .ok snapshot ↔
    ∃ root ckb sail baseline, inventory tools checkout "." = .ok root ∧
      inventory tools checkout "deps/ckb-vm" = .ok ckb ∧
      inventory tools checkout "deps/sail-riscv" = .ok sail ∧ Pinned root ckb sail ∧
      CkbSourceBaseline.check tools checkout = .ok baseline ∧
      snapshot = snapshotOf tools root ckb sail baseline := by
  have hlinks : ∀ links : List String,
      (links.all REPOS.tail.contains && REPOS.tail.all links.contains) = true ↔
        ∀ name, name ∈ links ↔ name ∈ REPOS.tail := by
    intro links
    simp only [Bool.and_eq_true, List.all_eq_true, List.contains_eq_mem, decide_eq_true_eq]
    exact ⟨fun h name => ⟨h.1 name, h.2 name⟩, fun h => ⟨fun name => (h name).1, fun name =>
      (h name).2⟩⟩
  simp only [capture, stage_bind_eq_ok, raised_eq_ok, PythonStd.require_eq_ok, hlinks,
    Bool.and_eq_true, List.isEmpty_iff, exists_const]
  constructor
  · rintro ⟨root, hroot, ckb, hckb, sail, hsail, hkeys, ⟨hpin, hpin'⟩, hsame, baseline, hcheck, h⟩
    exact ⟨root, ckb, sail, baseline, hroot, hckb, hsail, ⟨hkeys, hpin, hpin', hsame⟩, hcheck,
      (Except.ok.inj h).symm⟩
  · rintro ⟨root, ckb, sail, baseline, hroot, hckb, hsail, hpinned, hcheck, rfl⟩
    exact ⟨root, hroot, ckb, hckb, sail, hsail, hpinned.links, ⟨hpinned.ckbHead, hpinned.sailHead⟩,
      hpinned.unchanged, baseline, hcheck, rfl⟩

/-- The rows of a captured repository. -/
theorem inventory_of_mem (h : capture tools checkout = .ok snapshot) {item : String × Inventory}
    (hitem : item ∈ snapshot.repositories) :
    item.1 ∈ REPOS ∧ inventory tools checkout item.1 = .ok item.2 := by
  obtain ⟨root, ckb, sail, baseline, hroot, hckb, hsail, -, -, rfl⟩ := capture_eq_ok.1 h
  simp only [snapshotOf, List.mem_cons, List.not_mem_nil, or_false] at hitem
  rcases hitem with rfl | rfl | rfl
  · exact ⟨by simp [REPOS], hroot⟩
  · exact ⟨by simp [REPOS], hckb⟩
  · exact ⟨by simp [REPOS], hsail⟩

/-- The submodules of the root are those that are captured. -/
theorem isGitlink_of_capture (h : capture tools checkout = .ok snapshot) {sub : String}
    (hsub : sub ∈ REPOS.tail) :
    ∃ row ∈ (checkout.repository ".").tree, isGitlink row = true ∧ row.name = sub := by
  obtain ⟨root, ckb, sail, baseline, hroot, -, -, hpinned, -, -⟩ := capture_eq_ok.1 h
  rw [inventory, stage_bind_eq_ok] at hroot
  obtain ⟨⟨original, links⟩, hentries, hroot⟩ := hroot
  rw [stage_bind_eq_ok] at hroot
  obtain ⟨files, -, hroot⟩ := hroot
  obtain rfl := Except.ok.inj hroot
  have hlink := (hpinned.links sub).2 hsub
  rw [(entries_eq_ok (raised_eq_ok.1 hentries)).2.2, List.map_map] at hlink
  obtain ⟨row, hrow, rfl⟩ := List.mem_map.1 hlink
  obtain ⟨hmem, hgitlink⟩ := List.mem_filter.1 hrow
  exact ⟨row, hmem, hgitlink, rfl⟩

theorem entries_of_capture (h : capture tools checkout = .ok snapshot) (hrepo : repo ∈ REPOS) :
    ∃ original links, entries (checkout.repository repo).tree = .ok (original, links) := by
  obtain ⟨root, ckb, sail, baseline, hroot, hckb, hsail, -, -, -⟩ := capture_eq_ok.1 h
  have hentries : ∀ {repo info}, inventory tools checkout repo = .ok info →
      ∃ original links, entries (checkout.repository repo).tree = .ok (original, links) := by
    intro repo info hinfo
    rw [inventory, stage_bind_eq_ok] at hinfo
    obtain ⟨⟨original, links⟩, hentries, -⟩ := hinfo
    exact ⟨original, links, raised_eq_ok.1 hentries⟩
  rcases mem_REPOS.1 hrepo with rfl | rfl | rfl
  · exact hentries hroot
  · exact hentries hckb
  · exact hentries hsail

/-- A file of HEAD belongs to its repository. -/
theorem owned_headFile (hcheckout : IsCheckout checkout)
    (h : capture tools checkout = .ok snapshot) (hrepo : repo ∈ REPOS) {name : String}
    (hname : name ∈ headFiles (checkout.repository repo).tree) :
    SourceName name ∧ Owned repo (baseOf repo ++ split name) := by
  obtain ⟨original, links, hentries⟩ := entries_of_capture h hrepo
  obtain ⟨row, hrow, rfl⟩ := List.mem_map.1 hname
  obtain ⟨hmem, hblob⟩ := List.mem_filter.1 hrow
  refine ⟨((entries_eq_ok hentries).1 row hmem).1, List.prefix_append _ _, fun hroot sub hsub => ?_⟩
  subst hroot
  obtain ⟨link, hlink, hgitlink, rfl⟩ := isGitlink_of_capture h hsub
  have htree := hcheckout.trees "." (by simp [REPOS])
  rw [baseOf_root, List.nil_append, ← split_of_mem_tail hsub]
  intro hbegins
  refine htree.apart link hlink row hmem ⟨hbegins, fun hsame => ?_⟩
  have hrows : link = row :=
    List.inj_on_of_nodup_map htree.nodup hlink hmem (split_injective hsame)
  rw [hrows] at hgitlink
  simp [hgitlink] at hblob

end Captures

/-! ## Captured files -/

/-- The submodules of HEAD. -/
def linkNames (rows : List GitRow) : List String := (rows.filter isGitlink).map GitRow.name

/-- The names that git lists and at which a file stands, without the submodules. -/
def kept (tools : Tools) (checkout : Checkout) (repo : String) : List String :=
  (lsFiles tools (checkout.repository repo) (checkout.rows.below (baseOf repo))).filter fun name =>
    !(linkNames (checkout.repository repo).tree).contains name &&
      WorkNode.isFile (checkout.rows.view (baseOf repo ++ split name))

section Inventoried

variable {tools : Tools} {checkout : Checkout} {repo : String} {info : Inventory}

theorem mem_kept {name : String} : name ∈ kept tools checkout repo ↔
    name ∈ lsFiles tools (checkout.repository repo) (checkout.rows.below (baseOf repo)) ∧
      name ∉ linkNames (checkout.repository repo).tree ∧
      ∃ mode bytes, checkout.rows.view (baseOf repo ++ split name) = some (.file mode bytes) := by
  have hfile : ∀ node : Option WorkNode, WorkNode.isFile node = true ↔
      ∃ mode bytes, node = some (.file mode bytes) := by
    intro node
    rcases node with _ | _ | _ | _ | _ <;> simp [WorkNode.isFile]
  rw [kept, List.mem_filter]
  simp [hfile]

theorem map_fst_links {rows : List GitRow} {blobs : List (String × BlobRow)}
    {links : List (String × String)} (h : entries rows = .ok (blobs, links)) :
    links.map Prod.fst = linkNames rows := by
  rw [(entries_eq_ok h).2.2, List.map_map]
  rfl

/-- The captured files are those that git lists and that are there. -/
theorem mem_files_iff (hclosed : Closed checkout.rows.view)
    (h : inventory tools checkout repo = .ok info) {name : String} :
    name ∈ info.files.map Prod.fst ↔ name ∈ kept tools checkout repo := by
  obtain ⟨original, links, hentries, rfl, -⟩ := inventory_eq_ok hclosed h
  rw [mem_kept, ← map_fst_links hentries, ← and_assoc, ← mem_listedNames, inventoryOf,
    List.map_map, List.mem_map]
  constructor
  · rintro ⟨file, hfile, rfl⟩
    obtain ⟨name, hname, hmeasured⟩ := List.mem_filterMap.1 hfile
    rw [Function.comp_apply, measuredAt_name hmeasured]
    exact ⟨hname, measuredAt_isSome.1 (Option.isSome_of_mem hmeasured)⟩
  · rintro ⟨hname, hfile⟩
    obtain ⟨file, hmeasured⟩ := Option.isSome_iff_exists.1 (measuredAt_isSome.2 hfile)
    exact ⟨file, List.mem_filterMap.2 ⟨name, hname, hmeasured⟩, measuredAt_name hmeasured⟩

theorem captured_of_mem (hclosed : Closed checkout.rows.view)
    (h : inventory tools checkout repo = .ok info) {file : String × FileRow}
    (hfile : file ∈ info.files) : Captured tools checkout (baseOf repo) file := by
  obtain ⟨original, links, -, rfl, hnames⟩ := inventory_eq_ok hclosed h
  obtain ⟨measured, hmeasured, rfl⟩ := List.mem_map.1 hfile
  obtain ⟨name, hname, hat⟩ := List.mem_filterMap.1 hmeasured
  obtain ⟨mode, bytes, hview⟩ := measuredAt_isSome.1 (Option.isSome_of_mem hat)
  obtain rfl : measure tools name mode bytes = measured := by
    rw [measuredAt, hview] at hat
    exact Option.some.inj hat
  exact ⟨(hnames name hname).1, mode, bytes, hview, rfl⟩

/-- A listed name that is neither captured nor a submodule is a file of HEAD. -/
theorem headFile_of_listed (hclosed : Closed checkout.rows.view)
    (h : inventory tools checkout repo = .ok info) {name : String}
    (hname : name ∈ lsFiles tools (checkout.repository repo) (checkout.rows.below (baseOf repo)))
    (hlink : name ∉ linkNames (checkout.repository repo).tree)
    (hfree : name ∉ kept tools checkout repo) :
    name ∈ headFiles (checkout.repository repo).tree ∧
      checkout.rows.view (baseOf repo ++ split name) ≠ some .directory := by
  obtain ⟨original, links, hentries, -, hnames⟩ := inventory_eq_ok hclosed h
  have hlisted : name ∈ listedNames tools checkout repo links :=
    mem_listedNames.2 ⟨hname, (map_fst_links hentries).symm ▸ hlink⟩
  have hnone : measuredAt tools checkout.rows.view (baseOf repo) name = none := by
    rw [← Option.not_isSome_iff_eq_none, measuredAt_isSome]
    exact fun hfile => hfree (mem_kept.2 ⟨hname, hlink, hfile⟩)
  obtain ⟨hknown, hdir⟩ := (hnames name hlisted).2 hnone
  exact ⟨(lookup_isSome_blobs hentries).1 hknown, hdir⟩

end Inventoried

/-! ## What a clone lists -/

/-- The repositories stand in a tree with plain names. -/
structure WellPlaced (rows : WorkRows) : Prop where
  distinct : rows.Distinct
  plain : ∀ path node, rows.view path = some node → Plain path
  bases : ∀ repo ∈ REPOS, rows.view (baseOf repo) = some .directory

section Listing

variable {tools : Tools} {checkout clone : Checkout} {snapshot : Snapshot} {rows : WorkRows}
  {repo name : String}

theorem indexed_clone (hclone : FreshClone tools checkout clone) (hrepo : repo ∈ REPOS) :
    indexed (clone.repository repo) name = true ↔
      name ∈ (checkout.repository repo).tree.map GitRow.name := by
  simp [indexed, hclone.index repo hrepo]

theorem mem_others_clone (hcapture : capture tools checkout = .ok snapshot)
    (hclone : FreshClone tools checkout clone) (hrows : WellPlaced rows) (hrepo : repo ∈ REPOS) :
    name ∈ others tools (clone.repository repo) (rows.below (baseOf repo)) ↔
      (∃ node, rows.view (baseOf repo ++ split name) = some node ∧ node.isFileOrLink = true) ∧
        Owned repo (baseOf repo ++ split name) ∧
        ignored tools (clone.repository repo) (rows.below (baseOf repo)) (split name) = false ∧
        indexed (clone.repository repo) name = false := by
  have hnested : ((clone.repository repo).nested.filter fun place =>
      !ignored tools (clone.repository repo) (rows.below (baseOf repo)) place &&
        !indexed (clone.repository repo) (join place)) = [] := by
    rw [List.filter_eq_nil_iff]
    intro place hplace hnew
    obtain ⟨rfl, sub, hsub, rfl⟩ := (hclone.nested repo hrepo place).1 hplace
    obtain ⟨row, hrow, -, rfl⟩ := isGitlink_of_capture hcapture hsub
    rw [← split_of_mem_tail hsub, join_split,
      (indexed_clone hclone hrepo).2 (List.mem_map_of_mem hrow)] at hnew
    simp at hnew
  have howned : ∀ path : Path, ((clone.repository repo).nested.any fun place =>
      place.isPrefixOf path) = false ↔ Owned repo (baseOf repo ++ path) := by
    intro path
    rw [List.any_eq_false]
    constructor
    · refine fun h => ⟨List.prefix_append _ _, fun hroot sub hsub hbegins => ?_⟩
      refine h (baseOf sub) ((hclone.nested repo hrepo _).2 ⟨hroot, sub, hsub, rfl⟩) ?_
      rw [hroot, baseOf_root, List.nil_append] at hbegins
      exact List.isPrefixOf_iff_prefix.2 hbegins
    · intro h place hplace hbegins
      obtain ⟨rfl, sub, hsub, rfl⟩ := (hclone.nested repo hrepo place).1 hplace
      refine h.2 rfl sub hsub ?_
      rw [baseOf_root, List.nil_append]
      exact List.isPrefixOf_iff_prefix.1 hbegins
  rw [others, hnested, List.map_nil, List.append_nil, List.mem_map]
  constructor
  · rintro ⟨⟨path, node⟩, hrow, rfl⟩
    obtain ⟨hmem, huntracked⟩ := List.mem_filter.1 hrow
    simp only [untracked, Bool.and_eq_true, Bool.not_eq_true'] at huntracked
    obtain ⟨⟨hfile, hfree⟩, hignored, hnew⟩ := huntracked
    have hview := (mem_iff_view hrows.distinct).1 ((mem_below _).1 hmem)
    have hne : path ≠ [] := by
      rintro rfl
      rw [List.append_nil, hrows.bases repo hrepo] at hview
      obtain rfl := Option.some.inj hview
      simp [WorkNode.isFileOrLink] at hfile
    have hplain : Plain path :=
      (hrows.plain _ _ hview).sublist fun _ => List.mem_append_right _
    rw [split_join hne hplain.slash]
    exact ⟨⟨node, hview, hfile⟩, (howned path).1 hfree, hignored, hnew⟩
  · rintro ⟨⟨node, hview, hfile⟩, howns, hignored, hnew⟩
    refine ⟨(split name, node), List.mem_filter.2 ⟨(mem_below _).2
      ((mem_iff_view hrows.distinct).2 hview), ?_⟩, join_split name⟩
    simp [untracked, hfile, (howned _).2 howns, hignored, join_split, hnew]

end Listing

end CkbSail.Scripts.SourceSnapshot
