import CkbSail.Scripts.Proofs.SnapshotProgress

/-!
# Captures of what was restored

A clone lists the files of HEAD, whether they are there or not, and the files that were laid
beside them and that it does not ignore.
-/

namespace CkbSail.Scripts.SourceSnapshot

open PythonStd GitCheckout
open CkbSourceBaseline (modeText)
open FixedInputs (Stage raised raised_eq_ok stage_bind_eq_ok)

section Recapture

variable {tools : Tools} {checkout clone : Checkout} {snapshot : Snapshot} {payload rows : WorkRows}
  {repo name : String}

/-- Every tree that the loop of `restore` reaches. -/
theorem wellPlaced_restored (hcheckout : IsCheckout checkout)
    (hcapture : capture tools checkout = .ok snapshot)
    (hpayload : ∀ path ∈ keptPaths tools checkout,
      payload.view path = some (payloadFile checkout path))
    {items : List (String × Inventory)} (hitems : ∀ item ∈ items, item ∈ snapshot.repositories)
    {start : WorkRows} (hstart : WellPlaced start)
    (h : overFiles (restoreRepository tools clone payload) items start = .ok rows) :
    WellPlaced rows := by
  induction items generalizing start with
  | nil =>
      cases h
      exact hstart
  | cons item items ih =>
      rw [overFiles, stage_bind_eq_ok] at h
      obtain ⟨next, hnext, h⟩ := h
      rw [List.forall_mem_cons] at hitems
      have hstep := restored_repository
        (fun file hfile => captured_file hcheckout hcapture hitems.1 hfile)
        (fun path hpath => hpayload path (capturedIn_kept hcheckout hcapture hitems.1 hpath)) hnext
      refine ih hitems.2 (hstart.restored hstep fun target htarget => ?_) h
      exact plain_of_kept hcheckout.closed (capturedIn_kept hcheckout hcapture hitems.1 htarget)

/-! ## What a clone lists -/

/-! ## What the clone lists again -/

/-- A clone to which a tree was restored. -/
def withRows (clone : Checkout) (rows : WorkRows) : Checkout := { clone with rows := rows }

/-- A captured file is one of HEAD, or it is in no submodule and the rules of the clone do not
ignore it in this tree. -/
def Visible (tools : Tools) (checkout clone : Checkout) (tree : WorkView) : Prop :=
  ∀ repo ∈ REPOS, ∀ name ∈ kept tools checkout repo,
    name ∈ headFiles (checkout.repository repo).tree ∨
      Owned repo (baseOf repo ++ split name) ∧
        tools.ignores (clone.repository repo).excludes
          (filesIn fun path => tree (baseOf repo ++ path)) (split name) = false

instance (tools : Tools) (checkout clone : Checkout) (tree : WorkView) :
    Decidable (Visible tools checkout clone tree) :=
  inferInstanceAs (Decidable (∀ repo ∈ REPOS, ∀ name ∈ kept tools checkout repo, _ ∨ _ ∧ _))

theorem ignored_below (base : Path) (path : Path) (repository : Repository) :
    ignored tools repository (rows.below base) path =
      tools.ignores repository.excludes (filesIn fun path => rows.view (base ++ path)) path := by
  have hview : (rows.below base).view = fun path => rows.view (base ++ path) :=
    funext fun _ => view_below base
  rw [ignored, hview]

theorem mem_headFiles_of_row {rows : List GitRow} (hname : name ∈ rows.map GitRow.name)
    (hlink : name ∉ linkNames rows) : name ∈ headFiles rows := by
  obtain ⟨row, hrow, rfl⟩ := List.mem_map.1 hname
  refine List.mem_map_of_mem (List.mem_filter.2 ⟨hrow, ?_⟩)
  by_contra hgitlink
  exact hlink (List.mem_map_of_mem (List.mem_filter.2 ⟨hrow, by simpa using hgitlink⟩))

/-- Where the same files are captured again, the clone lists them. -/
theorem visible_of_inventory (hcapture : capture tools checkout = .ok snapshot)
    (hclone : FreshClone tools checkout clone) (hrows : WellPlaced rows)
    (h : ∀ repo ∈ REPOS, ∃ info, inventory tools (withRows clone rows) repo = .ok info ∧
      ∀ name ∈ kept tools checkout repo, name ∈ info.files.map Prod.fst) :
    Visible tools checkout clone rows.view := by
  intro repo hrepo name hname
  obtain ⟨info, hinfo, hfiles⟩ := h repo hrepo
  rcases mem_lsFiles.1 (listed_of_inventory hinfo (hfiles name hname)) with hindexed | hothers
  · exact Or.inl (mem_headFiles_of_row ((indexed_clone hclone hrepo).1 hindexed)
      (mem_kept.1 hname).2.1)
  · obtain ⟨-, howned, hignored, -⟩ := (mem_others_clone hcapture hclone hrows hrepo).1 hothers
    refine Or.inr ⟨howned, ?_⟩
    rwa [ignored_below] at hignored

theorem Visible.owned (hcheckout : IsCheckout checkout)
    (hcapture : capture tools checkout = .ok snapshot) {tree : WorkView}
    (h : Visible tools checkout clone tree) : OwnedFiles tools checkout := by
  intro repo hrepo name hname
  rcases h repo hrepo name hname with hhead | ⟨howned, -⟩
  · exact (owned_headFile hcheckout hcapture hrepo hhead).2
  · exact howned

/-! ## The tree that is left -/

/-- No directory of the clone stands where a file was captured. -/
def FreeOfDirectories (tools : Tools) (checkout clone : Checkout) : Prop :=
  ∀ target ∈ keptPaths tools checkout, clone.rows.view target ≠ some .directory

theorem overlay_file {path : Path} (h : path ∈ keptPaths tools checkout) :
    overlay tools checkout clone path = some (payloadFile checkout path) := by
  rw [overlay, if_pos h]

theorem overlay_above {path target : Path} (hclosed : Closed checkout.rows.view)
    (htarget : target ∈ keptPaths tools checkout) (habove : Above path target) :
    overlay tools checkout clone path = some .directory := by
  rw [overlay, if_neg fun hpath => kept_apart hclosed hpath htarget habove,
    if_pos ⟨target, htarget, habove⟩]

theorem overlay_directory (hfree : FreeOfDirectories tools checkout clone) {path : Path}
    (h : clone.rows.view path = some .directory) :
    overlay tools checkout clone path = some .directory := by
  rw [overlay, if_neg fun hpath => hfree path hpath h, if_pos h, ite_self]

/-- What is there is a captured file or a directory. -/
theorem overlay_cases {path : Path} {node : WorkNode}
    (h : overlay tools checkout clone path = some node) :
    path ∈ keptPaths tools checkout ∧ node = payloadFile checkout path ∨
      node = .directory ∧ ((∃ target ∈ keptPaths tools checkout, Above path target) ∨
        clone.rows.view path = some .directory) := by
  rw [overlay] at h
  split_ifs at h with hpath habove hdir
  · exact Or.inl ⟨hpath, (Option.some.inj h).symm⟩
  · exact Or.inr ⟨(Option.some.inj h).symm, Or.inl habove⟩
  · exact Or.inr ⟨(Option.some.inj h).symm, Or.inr hdir⟩

theorem closed_overlay (hclosed : Closed checkout.rows.view) (hclone : Closed clone.rows.view)
    (hfree : FreeOfDirectories tools checkout clone) : Closed (overlay tools checkout clone) := by
  have hdropLast : ∀ path : Path, path ≠ [] → Above path.dropLast path := fun path hne =>
    (mem_inits_of_dropLast hne _).1 (List.mem_inits _ _ |>.2 List.prefix_rfl)
  refine ⟨fun path node hne hnode => ?_, fun path node hnode => ?_⟩
  · have habove := hdropLast path hne
    rcases overlay_cases hnode with ⟨hpath, -⟩ | ⟨-, ⟨target, htarget, hway⟩ | hdir⟩
    · exact overlay_above hclosed hpath habove
    · refine overlay_above hclosed htarget ⟨habove.1.trans hway.1, fun hsame => ?_⟩
      have hle := hway.1.length_le
      rw [← hsame, List.length_dropLast] at hle
      have hpos := List.length_pos_of_ne_nil hne
      omega
    · exact overlay_directory hfree (hclone.parent path _ hne hdir)
  · rcases overlay_cases hnode with ⟨hpath, -⟩ | ⟨-, ⟨target, htarget, hway⟩ | hdir⟩
    · exact plain_of_kept hclosed hpath
    · exact plain_of_prefix (plain_of_kept hclosed htarget) hway.1
    · exact hclone.plain path _ hdir

theorem overlay_not_link (path : Path) (link : String) :
    overlay tools checkout clone path ≠ some (.symlink link) := by
  intro hlink
  rcases overlay_cases hlink with ⟨-, hfile⟩ | ⟨hdir, -⟩
  · obtain ⟨mode, bytes, hfile'⟩ := payloadFile_file checkout path
    rw [hfile'] at hfile
    cases hfile
  · cases hdir

/-- The files that are there are the captured ones. -/
theorem kept_of_overlay {path : Path} {mode : Nat} {bytes : List UInt8}
    (h : overlay tools checkout clone path = some (.file mode bytes)) :
    path ∈ keptPaths tools checkout ∧ payloadFile checkout path = .file mode bytes := by
  rcases overlay_cases h with ⟨hpath, hfile⟩ | ⟨hdir, -⟩
  · exact ⟨hpath, hfile.symm⟩
  · cases hdir

theorem not_link_of_headFile {rows : List GitRow} (h : IsGitTree rows)
    (hname : name ∈ headFiles rows) : name ∉ linkNames rows := by
  intro hlink
  obtain ⟨row, hrow, rfl⟩ := List.mem_map.1 hname
  obtain ⟨link, hmem, hsame⟩ := List.mem_map.1 hlink
  have hrows := List.inj_on_of_nodup_map h.nodup (List.mem_filter.1 hmem).1
    (List.mem_filter.1 hrow).1 hsame
  have hfile := (List.mem_filter.1 hrow).2
  rw [← hrows, (List.mem_filter.1 hmem).2] at hfile
  cases hfile

/-- Where the clone can be captured again, no file is above or below one of HEAD. -/
theorem apartFromHead_of_inventory (hcheckout : IsCheckout checkout)
    (hcapture : capture tools checkout = .ok snapshot) (hclone : FreshClone tools checkout clone)
    (hfree : FreeOfDirectories tools checkout clone)
    (hview : rows.view = overlay tools checkout clone)
    (h : ∀ repo ∈ REPOS, ∃ info, inventory tools (withRows clone rows) repo = .ok info) :
    ApartFromHead tools checkout := by
  intro repo hrepo name hname name' hname'
  have hpath : baseOf repo ++ split name ∈ keptPaths tools checkout :=
    mem_keptPaths.2 ⟨repo, hrepo, name, hname, rfl⟩
  have hbelow : ∀ {path path' : Path}, Above path path' →
      Above (baseOf repo ++ path) (baseOf repo ++ path') := fun habove =>
    ⟨(List.prefix_append_right_inj _).2 habove.1, fun hsame =>
      habove.2 (List.append_cancel_left hsame)⟩
  refine ⟨fun habove => ?_, fun habove => ?_⟩
  · obtain ⟨mode, bytes, hfile⟩ := headFile_view hcapture hclone hrepo hname'
    exact hfree _ hpath (hclone.closed.above hfile (hbelow habove).1 (hbelow habove).2)
  · obtain ⟨info, hinfo⟩ := h repo hrepo
    have hdir : (withRows clone rows).rows.view (baseOf repo ++ split name') =
        some .directory := by
      rw [withRows, hview]
      exact overlay_above hcheckout.closed hpath (hbelow habove)
    have hclosed : Closed (withRows clone rows).rows.view := by
      rw [withRows, hview]
      exact closed_overlay hcheckout.closed hclone.closed hfree
    have htree : ((withRows clone rows).repository repo).tree = (checkout.repository repo).tree :=
      hclone.tree repo hrepo
    obtain ⟨row, hrow, hrow'⟩ := List.mem_map.1 hname'
    have hlisted : name' ∈ lsFiles tools ((withRows clone rows).repository repo)
        ((withRows clone rows).rows.below (baseOf repo)) := by
      refine mem_lsFiles.2 (Or.inl ((indexed_clone hclone hrepo).2 ?_))
      exact List.mem_map.2 ⟨row, (List.mem_filter.1 hrow).1, hrow'⟩
    refine (headFile_of_listed hclosed hinfo hlisted ?_ ?_).2 hdir
    · rw [htree]
      exact not_link_of_headFile (hcheckout.trees repo hrepo) hname'
    · intro hkept
      obtain ⟨-, -, mode, bytes, hfile⟩ := mem_kept.1 hkept
      rw [hdir] at hfile
      cases hfile

/-! ## The same inventory -/

theorem mem_kept_of_path (howned : OwnedFiles tools checkout) (hrepo : repo ∈ REPOS)
    (hpath : baseOf repo ++ split name ∈ keptPaths tools checkout)
    (hown : Owned repo (baseOf repo ++ split name)) : name ∈ kept tools checkout repo := by
  obtain ⟨repo', hrepo', hown', name', hname', hsame⟩ := kept_owned howned hpath
  obtain rfl := hown.unique hrepo hrepo' hown' (by rw [hsame]; simp [split_ne_nil])
  rwa [split_injective (List.append_cancel_left hsame)]

theorem modeText_permissions (mode : Nat) :
    modeText (permissions (modeText mode)) = modeText mode := by
  have hmode : modeText mode = "100644" ∨ modeText mode = "100755" := by
    rw [modeText]
    split_ifs
    · exact Or.inl rfl
    · exact Or.inr rfl
  rcases hmode with hmode | hmode
  · rw [hmode]
    decide
  · rw [hmode]
    decide

theorem measuredAt_overlay (hrepo : repo ∈ REPOS) (hname : name ∈ kept tools checkout repo) :
    measuredAt tools (overlay tools checkout clone) (baseOf repo) name =
      measuredAt tools checkout.rows.view (baseOf repo) name := by
  obtain ⟨-, -, mode, bytes, hview⟩ := mem_kept.1 hname
  rw [measuredAt, overlay_file (mem_keptPaths.2 ⟨repo, hrepo, name, hname, rfl⟩),
    payloadFile_of_view hview, measuredAt, hview]
  simp [measure, modeText_permissions]

theorem mem_lsFiles_restored (hcheckout : IsCheckout checkout)
    (hcapture : capture tools checkout = .ok snapshot) (hclone : FreshClone tools checkout clone)
    (hrows : WellPlaced rows) (hview : rows.view = overlay tools checkout clone)
    (hvisible : Visible tools checkout clone (overlay tools checkout clone))
    (hrepo : repo ∈ REPOS) :
    name ∈ lsFiles tools (clone.repository repo) (rows.below (baseOf repo)) ↔
      name ∈ (checkout.repository repo).tree.map GitRow.name ∨ name ∈ kept tools checkout repo := by
  rw [mem_lsFiles, indexed_clone hclone hrepo]
  constructor
  · rintro (hrow | hothers)
    · exact Or.inl hrow
    · obtain ⟨⟨node, hnode, hfile⟩, howned, -, -⟩ :=
        (mem_others_clone hcapture hclone hrows hrepo).1 hothers
      rw [hview] at hnode
      rcases overlay_cases hnode with ⟨hpath, -⟩ | ⟨rfl, -⟩
      · exact Or.inr (mem_kept_of_path (hvisible.owned hcheckout hcapture) hrepo hpath howned)
      · simp [WorkNode.isFileOrLink] at hfile
  · rintro (hrow | hname)
    · exact Or.inl hrow
    · by_cases hrow : name ∈ (checkout.repository repo).tree.map GitRow.name
      · exact Or.inl hrow
      · rcases hvisible repo hrepo name hname with hhead | ⟨howned, hignored⟩
        · obtain ⟨row, hmem, rfl⟩ := List.mem_map.1 hhead
          exact absurd (List.mem_map_of_mem (List.mem_filter.1 hmem).1) hrow
        · refine Or.inr ((mem_others_clone hcapture hclone hrows hrepo).2 ⟨?_, howned, ?_, ?_⟩)
          · obtain ⟨mode, bytes, hfile⟩ := payloadFile_file checkout (baseOf repo ++ split name)
            refine ⟨.file mode bytes, ?_, rfl⟩
            rw [hview, overlay_file (mem_keptPaths.2 ⟨repo, hrepo, name, hname, rfl⟩), hfile]
          · rw [ignored_below, hview]
            exact hignored
          · rwa [← Bool.not_eq_true, indexed_clone hclone hrepo]

/-- A file of HEAD that was not captured is gone. -/
theorem overlay_of_headFile (hcheckout : IsCheckout checkout)
    (hcapture : capture tools checkout = .ok snapshot) (hclone : FreshClone tools checkout clone)
    (howned : OwnedFiles tools checkout) (hapart : ApartFromHead tools checkout)
    (hrepo : repo ∈ REPOS) (hname : name ∈ headFiles (checkout.repository repo).tree)
    (hgone : name ∉ kept tools checkout repo) :
    overlay tools checkout clone (baseOf repo ++ split name) = none := by
  have hown := (owned_headFile hcheckout hcapture hrepo hname).2
  rw [overlay, if_neg fun hpath => hgone (mem_kept_of_path howned hrepo hpath hown), if_neg, if_neg]
  · obtain ⟨mode, bytes, hfile⟩ := headFile_view hcapture hclone hrepo hname
    rw [hfile]
    simp
  · rintro ⟨target, htarget, habove⟩
    exact headFile_apart_kept hcheckout hcapture hclone howned hapart htarget hrepo hname habove

/-- The inventory of a repository comes out the same. -/
theorem inventory_restored (hcheckout : IsCheckout checkout)
    (hcapture : capture tools checkout = .ok snapshot) (hclone : FreshClone tools checkout clone)
    (hrows : WellPlaced rows) (hview : rows.view = overlay tools checkout clone)
    (hfree : FreeOfDirectories tools checkout clone)
    (hvisible : Visible tools checkout clone (overlay tools checkout clone))
    (hapart : ApartFromHead tools checkout) (hrepo : repo ∈ REPOS) {info : Inventory}
    (h : inventory tools checkout repo = .ok info) :
    inventory tools (withRows clone rows) repo = .ok info := by
  obtain ⟨original, links, hentries, rfl, hnames⟩ := inventory_eq_ok hcheckout.closed h
  have howned := hvisible.owned hcheckout hcapture
  have htree : ((withRows clone rows).repository repo).tree = (checkout.repository repo).tree :=
    hclone.tree repo hrepo
  have hclosed : Closed (withRows clone rows).rows.view := by
    rw [withRows, hview]
    exact closed_overlay hcheckout.closed hclone.closed hfree
  have hkept : ∀ {name}, name ∈ kept tools checkout repo →
      name ∈ listedNames tools checkout repo links := fun hname =>
    mem_listedNames.2 ⟨(mem_kept.1 hname).1, (map_fst_links hentries).symm ▸ (mem_kept.1 hname).2.1⟩
  have hlist : ∀ name, name ∈ lsFiles tools (clone.repository repo) (rows.below (baseOf repo)) ↔
      name ∈ (checkout.repository repo).tree.map GitRow.name ∨ name ∈ kept tools checkout repo :=
    fun _ => mem_lsFiles_restored hcheckout hcapture hclone hrows hview hvisible hrepo
  have hrelisted : ∀ {name}, name ∈ listedNames tools (withRows clone rows) repo links ↔
      name ∈ headFiles (checkout.repository repo).tree ∨ name ∈ kept tools checkout repo := by
    intro name
    rw [mem_listedNames, map_fst_links hentries]
    refine Iff.trans (and_congr_left' (hlist name)) ?_
    constructor
    · rintro ⟨hrow | hname, hlink⟩
      · exact Or.inl (mem_headFiles_of_row hrow hlink)
      · exact Or.inr hname
    · rintro (hhead | hname)
      · obtain ⟨row, hrow, hsame⟩ := List.mem_map.1 hhead
        exact ⟨Or.inl (List.mem_map.2 ⟨row, (List.mem_filter.1 hrow).1, hsame⟩),
          not_link_of_headFile (hcheckout.trees repo hrepo) hhead⟩
      · exact ⟨Or.inr hname, (mem_kept.1 hname).2.1⟩
  have hmeasure : ∀ name ∈ listedNames tools (withRows clone rows) repo links,
      measureFile tools (withRows clone rows) (baseOf repo) original name =
        .ok (measuredAt tools (withRows clone rows).rows.view (baseOf repo) name) := by
    intro name hname
    have hplain : Plain (baseOf repo) :=
      hcheckout.closed.plain _ _ (hcheckout.bases repo hrepo)
    have hlinks : ∀ path target, (withRows clone rows).rows.view path ≠ some (.symlink target) := by
      rw [withRows, hview]
      exact overlay_not_link
    by_cases hthere : name ∈ kept tools checkout repo
    · refine measureFile_of_view hclosed hlinks (hnames name (hkept hthere)).1 hplain (Or.inl ?_)
      rw [withRows, hview, measuredAt_overlay hrepo hthere, measuredAt_isSome]
      exact (mem_kept.1 hthere).2.2
    · have hhead := (hrelisted.1 hname).resolve_right hthere
      refine measureFile_of_view hclosed hlinks (owned_headFile hcheckout hcapture hrepo hhead).1
        hplain (Or.inr ⟨?_, (lookup_isSome_blobs hentries).2 hhead⟩)
      rw [withRows, hview]
      exact overlay_of_headFile hcheckout hcapture hclone howned hapart hrepo hhead hthere
  have hfiles : (listedNames tools (withRows clone rows) repo links).filterMap
        (measuredAt tools (withRows clone rows).rows.view (baseOf repo)) =
      (listedNames tools checkout repo links).filterMap
        (measuredAt tools checkout.rows.view (baseOf repo)) := by
    refine filterMap_eq_of_sorted (fun _ _ => measuredAt_name) (fun _ _ => measuredAt_name)
      listedNames_pairwise listedNames_pairwise fun name file => ?_
    rw [withRows, hview]
    by_cases hthere : name ∈ kept tools checkout repo
    · rw [measuredAt_overlay hrepo hthere]
      exact and_congr_left' (iff_of_true (hrelisted.2 (Or.inr hthere)) (hkept hthere))
    · refine iff_of_false ?_ ?_
      · rintro ⟨hname, hfile⟩
        obtain ⟨mode, bytes, hnode⟩ := measuredAt_isSome.1 (Option.isSome_of_mem hfile)
        rw [overlay_of_headFile hcheckout hcapture hclone howned hapart hrepo
          ((hrelisted.1 hname).resolve_right hthere) hthere] at hnode
        cases hnode
      · rintro ⟨hname, hfile⟩
        obtain ⟨hlisted, hlink⟩ := mem_listedNames.1 hname
        exact hthere (mem_kept.2 ⟨hlisted, (map_fst_links hentries) ▸ hlink,
          measuredAt_isSome.1 (Option.isSome_of_mem hfile)⟩)
  rw [inventory_of_view (htree ▸ hentries) hmeasure, hfiles, inventoryOf, inventoryOf]
  have hhead : ((withRows clone rows).repository repo).head = (checkout.repository repo).head :=
    hclone.head repo hrepo
  rw [hhead]

end Recapture

end CkbSail.Scripts.SourceSnapshot
