import CkbSail.Scripts.Proofs.SnapshotLayout

/-!
# The loop of `restore`

Where no captured file is in the way of a file of HEAD, the captured files of a repository
can be laid over fresh clones, and the clones of the others stay clean until their turn.
-/

namespace CkbSail.Scripts.SourceSnapshot

open PythonStd GitCheckout
open FixedInputs (Stage raised raised_eq_ok stage_bind_eq_ok)

/-- The captured files of a repository are in no submodule of it. -/
def OwnedFiles (tools : Tools) (checkout : Checkout) : Prop :=
  ∀ repo ∈ REPOS, ∀ name ∈ kept tools checkout repo, Owned repo (baseOf repo ++ split name)

/-- No captured file is above or below a file of HEAD. -/
def ApartFromHead (tools : Tools) (checkout : Checkout) : Prop :=
  ∀ repo ∈ REPOS, ∀ name ∈ kept tools checkout repo,
    ∀ name' ∈ headFiles (checkout.repository repo).tree,
      ¬Above (split name) (split name') ∧ ¬Above (split name') (split name)

instance (tools : Tools) (checkout : Checkout) : Decidable (ApartFromHead tools checkout) :=
  inferInstanceAs (Decidable (∀ repo ∈ REPOS, ∀ name ∈ kept tools checkout repo,
    ∀ name' ∈ headFiles (checkout.repository repo).tree, _ ∧ _))

theorem plain_of_prefix {path path' : Path} (h : Plain path') (hpath : path <+: path') :
    Plain path :=
  h.sublist fun _ hpart => hpath.subset hpart

theorem WellPlaced.restored {files : Path → WorkNode} {captured removed : List Path}
    {rows rows' : WorkRows} (h : WellPlaced rows)
    (hrestored : Restored files captured removed rows rows')
    (hcaptured : ∀ target ∈ captured, Plain target) : WellPlaced rows' := by
  refine ⟨hrestored.distinct h.distinct, fun path node hnode => ?_,
    fun repo hrepo => hrestored.directory (h.bases repo hrepo)⟩
  rw [hrestored.view] at hnode
  split_ifs at hnode with hmem habove
  · exact hcaptured path hmem
  · obtain ⟨target, htarget, hway⟩ := habove
    exact plain_of_prefix (hcaptured target htarget) hway.1
  · exact h.plain path node hnode

section Progress

variable {tools : Tools} {checkout clone : Checkout} {snapshot : Snapshot} {payload : WorkRows}

/-! ## Clones -/

/-- Directories lead to a repository. -/
theorem view_above_base {rows : WorkRows} (hclosed : Closed rows.view) {repo : String}
    (hbase : rows.view (baseOf repo) = some .directory) {path : Path}
    (hpath : path <+: baseOf repo) : rows.view path = some .directory := by
  by_cases hsame : path = baseOf repo
  · rw [hsame, hbase]
  · exact hclosed.above hbase hpath hsame

/-- Two repositories do not own the same path. -/
theorem Owned.unique {repo repo' : String} {path : Path} (hrepo : repo ∈ REPOS)
    (hrepo' : repo' ∈ REPOS) (h : Owned repo path) (h' : Owned repo' path)
    (hne : path ≠ baseOf repo') : repo = repo' := by
  refine (h.above hrepo hrepo' h' List.prefix_rfl).resolve_right fun hbase => ?_
  exact hne (hbase.2.eq_of_length_le h'.1.length_le)

/-- No path below a submodule belongs to another repository. -/
theorem Owned.not_below {repo sub : String} {path : Path} (hrepo : repo ∈ REPOS)
    (hsub : sub ∈ REPOS.tail) (hne : repo ≠ sub) (h : Owned repo path) : ¬baseOf sub <+: path := by
  intro hbelow
  by_cases hroot : repo = "."
  · exact h.2 hroot sub hsub hbelow
  · exact hne (eq_of_bases (mem_tail_of_ne hrepo hroot) hsub h.1 hbelow)

theorem FreshClone.not_link (hcapture : capture tools checkout = .ok snapshot)
    (hclone : FreshClone tools checkout clone) (path : Path) (link : String) :
    clone.rows.view path ≠ some (.symlink link) := by
  intro hlink
  rcases hclone.only path _ hlink with ⟨repo, hrepo, name, hname, rfl⟩ | ⟨hdir, -⟩
  · obtain ⟨mode, bytes, hfile⟩ := headFile_view hcapture hclone hrepo hname
    rw [hlink] at hfile
    cases hfile
  · cases hdir

theorem FreshClone.wellPlaced (hclone : FreshClone tools checkout clone) : WellPlaced clone.rows :=
  ⟨hclone.distinct, hclone.closed.plain, hclone.bases⟩

/-- A clone that was not written to is clean. -/
theorem clean_of_clone (hcheckout : IsCheckout checkout)
    (hcapture : capture tools checkout = .ok snapshot) (hclone : FreshClone tools checkout clone)
    {repo : String} (hrepo : repo ∈ REPOS) {rows : WorkRows} (hrows : WellPlaced rows)
    (hsame : ∀ path, baseOf repo <+: path → rows.view path = clone.rows.view path) :
    clean tools (clone.repository repo) (rows.below (baseOf repo)) = true := by
  have hothers : others tools (clone.repository repo) (rows.below (baseOf repo)) = [] := by
    refine List.eq_nil_iff_forall_not_mem.2 fun name hname => ?_
    obtain ⟨⟨node, hview, hfile⟩, howned, -, hnew⟩ :=
      (mem_others_clone hcapture hclone hrows hrepo).1 hname
    rw [hsame _ (List.prefix_append _ _)] at hview
    rcases hclone.only _ node hview with ⟨repo', hrepo', name', hname', hpath⟩ | ⟨rfl, -⟩
    · have howned' := (owned_headFile hcheckout hcapture hrepo' hname').2
      rw [← hpath] at howned'
      obtain rfl := howned.unique hrepo hrepo' howned' (by rw [hpath]; simp [split_ne_nil])
      obtain rfl := split_injective (List.append_cancel_left hpath)
      obtain ⟨row, hrow, rfl⟩ := List.mem_map.1 hname'
      rw [(indexed_clone hclone hrepo).2 (List.mem_map_of_mem (List.mem_filter.1 hrow).1)] at hnew
      cases hnew
    · simp [WorkNode.isFileOrLink] at hfile
  rw [clean, Bool.and_eq_true, Bool.and_eq_true, hothers, hclone.index repo hrepo,
    hclone.tree repo hrepo]
  refine ⟨⟨by simp, List.all_eq_true.2 fun row hrow => ?_⟩, rfl⟩
  by_cases hlink : isGitlink row = true
  · rw [isGitlink, Bool.and_eq_true, decide_eq_true_eq, decide_eq_true_eq] at hlink
    simp [unchanged, hlink.2]
  · have hclean := hclone.files repo hrepo row hrow (by simpa using hlink)
    rw [unchanged, view_below] at hclean ⊢
    rwa [hsame _ (List.prefix_append _ _)]

/-! ## Captured files over a clone -/

/-- A captured file is not on the way to a repository. -/
theorem kept_not_above_base (hcheckout : IsCheckout checkout) {path : Path}
    (hpath : path ∈ keptPaths tools checkout) {repo : String} (hrepo : repo ∈ REPOS) :
    ¬path <+: baseOf repo := by
  intro hbegins
  obtain ⟨-, mode, bytes, hfile⟩ := kept_view hpath
  rw [view_above_base hcheckout.closed (hcheckout.bases repo hrepo) hbegins] at hfile
  cases hfile

theorem plain_of_kept (hclosed : Closed checkout.rows.view) {path : Path}
    (hpath : path ∈ keptPaths tools checkout) : Plain path := by
  obtain ⟨-, mode, bytes, hview⟩ := kept_view hpath
  exact hclosed.plain path _ hview

theorem kept_owned (howned : OwnedFiles tools checkout) {path : Path}
    (hpath : path ∈ keptPaths tools checkout) :
    ∃ repo ∈ REPOS, Owned repo path ∧ ∃ name ∈ kept tools checkout repo,
      path = baseOf repo ++ split name := by
  obtain ⟨repo, hrepo, name, hname, rfl⟩ := mem_keptPaths.1 hpath
  exact ⟨repo, hrepo, howned repo hrepo name hname, name, hname, rfl⟩

/-- No captured file is in the way of a file that a clone holds. -/
theorem kept_apart_headFile (hcheckout : IsCheckout checkout)
    (hcapture : capture tools checkout = .ok snapshot) (howned : OwnedFiles tools checkout)
    (hapart : ApartFromHead tools checkout) {path : Path} (hpath : path ∈ keptPaths tools checkout)
    {repo : String} (hrepo : repo ∈ REPOS) {name : String}
    (hname : name ∈ headFiles (checkout.repository repo).tree) :
    ¬Above path (baseOf repo ++ split name) := by
  intro habove
  obtain ⟨repo', hrepo', hpath', name', hname', rfl⟩ := kept_owned howned hpath
  have hhead := (owned_headFile hcheckout hcapture hrepo hname).2
  rcases hpath'.above hrepo' hrepo hhead habove.1 with rfl | ⟨-, hbase⟩
  · refine (hapart repo' hrepo' name' hname' name hname).1 ⟨?_, fun hsame => habove.2 ?_⟩
    · exact (List.prefix_append_right_inj _).1 habove.1
    · rw [hsame]
  · exact kept_not_above_base hcheckout hpath hrepo hbase

/-- No file of a clone is in the way of a captured one. -/
theorem headFile_apart_kept (hcheckout : IsCheckout checkout)
    (hcapture : capture tools checkout = .ok snapshot) (hclone : FreshClone tools checkout clone)
    (howned : OwnedFiles tools checkout) (hapart : ApartFromHead tools checkout) {path : Path}
    (hpath : path ∈ keptPaths tools checkout) {repo : String} (hrepo : repo ∈ REPOS) {name : String}
    (hname : name ∈ headFiles (checkout.repository repo).tree) :
    ¬Above (baseOf repo ++ split name) path := by
  intro habove
  obtain ⟨repo', hrepo', hpath', name', hname', rfl⟩ := kept_owned howned hpath
  have hhead := (owned_headFile hcheckout hcapture hrepo hname).2
  rcases hhead.above hrepo hrepo' hpath' habove.1 with rfl | ⟨-, hbase⟩
  · refine (hapart repo hrepo name' hname' name hname).2 ⟨?_, fun hsame => habove.2 ?_⟩
    · exact (List.prefix_append_right_inj _).1 habove.1
    · rw [hsame]
  · obtain ⟨mode, bytes, hfile⟩ := headFile_view hcapture hclone hrepo hname
    rw [view_above_base hclone.closed (hclone.bases repo' hrepo') hbase] at hfile
    cases hfile

theorem ready_clone (hcheckout : IsCheckout checkout)
    (hcapture : capture tools checkout = .ok snapshot) (hclone : FreshClone tools checkout clone)
    (howned : OwnedFiles tools checkout) (hapart : ApartFromHead tools checkout) :
    Ready (keptPaths tools checkout) clone.rows := by
  refine ⟨fun target htarget place habove => ?_, fun target htarget => ?_,
    fun target htarget target' htarget' => kept_apart hcheckout.closed htarget htarget'⟩
  · cases hnode : clone.rows.view place with
    | none => exact Or.inl rfl
    | some node =>
        rcases hclone.only place node hnode with ⟨repo, hrepo, name, hname, rfl⟩ | ⟨rfl, -⟩
        · exact absurd habove (headFile_apart_kept hcheckout hcapture hclone howned hapart
            htarget hrepo hname)
        · exact Or.inr rfl
  · cases hnode : clone.rows.view target with
    | none => exact Or.inl rfl
    | some node =>
        rcases hclone.only target node hnode with ⟨repo, hrepo, name, hname, rfl⟩ |
          ⟨-, repo, hrepo, hbase | ⟨name, hname, habove⟩⟩
        · obtain ⟨mode, bytes, hfile⟩ := headFile_view hcapture hclone hrepo hname
          rw [hfile] at hnode
          exact Or.inr ⟨mode, bytes, hnode.symm⟩
        · exact absurd hbase (kept_not_above_base hcheckout htarget hrepo)
        · exact absurd habove (kept_apart_headFile hcheckout hcapture howned hapart htarget
            hrepo hname)

/-! ## One repository after the other -/

/-- It can still be done after some files have been taken out and some laid. -/
theorem Ready.restored {files : Path → WorkNode}
    (hfiles : ∀ path, ∃ mode bytes, files path = .file mode bytes)
    {targets targets' done gone : List Path} {rows rows' : WorkRows} (h : Ready targets rows)
    (hrestored : Restored files done gone rows rows') (hdone : ∀ path ∈ done, path ∈ targets)
    (htargets : ∀ path ∈ targets', path ∈ targets) : Ready targets' rows' := by
  refine ⟨fun target htarget place habove => ?_, fun target htarget => ?_,
    fun target htarget target' htarget' =>
      h.apart target (htargets target htarget) target' (htargets target' htarget')⟩
  · have hplace : place ∉ done := fun hplace =>
      h.apart place (hdone place hplace) target (htargets target htarget) habove
    rw [hrestored.view, if_neg hplace]
    split_ifs
    · exact Or.inr rfl
    · exact Or.inl rfl
    · exact h.parents target (htargets target htarget) place habove
  · have hbetween : ¬∃ other ∈ done, Above target other := fun ⟨other, hother, habove⟩ =>
      h.apart target (htargets target htarget) other (hdone other hother) habove
    rw [hrestored.view, if_neg hbetween]
    split_ifs
    · obtain ⟨mode, bytes, hfile⟩ := hfiles target
      exact Or.inr ⟨mode, bytes, by rw [hfile]⟩
    · exact Or.inl rfl
    · exact h.writable target (htargets target htarget)

theorem capturedIn_kept (hcheckout : IsCheckout checkout)
    (hcapture : capture tools checkout = .ok snapshot) {item : String × Inventory}
    (hitem : item ∈ snapshot.repositories) {path : Path} (hpath : path ∈ capturedIn item) :
    path ∈ keptPaths tools checkout := by
  rw [← mem_capturedPaths_iff hcheckout hcapture]
  exact List.mem_flatMap.2 ⟨item, hitem, hpath⟩

/-- What is done to a repository is not done in a submodule that is another one. -/
theorem not_below_of_item (hcheckout : IsCheckout checkout)
    (hcapture : capture tools checkout = .ok snapshot) (hclone : FreshClone tools checkout clone)
    (howned : OwnedFiles tools checkout) {item : String × Inventory}
    (hitem : item ∈ snapshot.repositories) {sub : String} (hsub : sub ∈ REPOS.tail)
    (hne : item.1 ≠ sub) {path : Path} (hbelow : baseOf sub <+: path) :
    path ∉ capturedIn item ∧ (¬∃ target ∈ capturedIn item, Above path target) ∧
      path ∉ removedIn clone item := by
  obtain ⟨hrepo, hinfo⟩ := inventory_of_mem hcapture hitem
  have hcaptured : ∀ target ∈ capturedIn item, ¬baseOf sub <+: target := by
    intro target htarget
    obtain ⟨file, hfile, rfl⟩ := List.mem_map.1 htarget
    have hname := (mem_files_iff hcheckout.closed hinfo).1 (List.mem_map_of_mem hfile)
    exact (howned item.1 hrepo file.1 hname).not_below hrepo hsub hne
  refine ⟨fun hpath => hcaptured path hpath hbelow, ?_, fun hpath => ?_⟩
  · rintro ⟨target, htarget, habove⟩
    exact hcaptured target htarget (hbelow.trans habove.1)
  · obtain ⟨name, hname, rfl⟩ := List.mem_map.1 hpath
    have hhead := (List.mem_filter.1 hname).1
    rw [hclone.tree item.1 hrepo] at hhead
    exact (owned_headFile hcheckout hcapture hrepo hhead).2.not_below hrepo hsub hne hbelow

theorem restored_not_link {done gone : List Path} (hcapture : capture tools checkout = .ok snapshot)
    (hclone : FreshClone tools checkout clone) {rows : WorkRows}
    (h : Restored (payloadFile checkout) done gone clone.rows rows) (path : Path) (link : String) :
    rows.view path ≠ some (.symlink link) := by
  rw [h.view]
  split_ifs
  · obtain ⟨mode, bytes, hfile⟩ := payloadFile_file checkout path
    rw [hfile]
    simp
  · simp
  · simp
  · exact hclone.not_link hcapture path link

/-- The files of a repository are laid over a clone in which it was not written to. -/
theorem exists_restoreRepository (hcheckout : IsCheckout checkout)
    (hcapture : capture tools checkout = .ok snapshot) (hclone : FreshClone tools checkout clone)
    (howned : OwnedFiles tools checkout) (hapart : ApartFromHead tools checkout)
    (hpayload : ∀ path ∈ keptPaths tools checkout,
      payload.view path = some (payloadFile checkout path))
    (hlinks : ∀ path link, payload.view path ≠ some (.symlink link))
    {item : String × Inventory} (hitem : item ∈ snapshot.repositories) {done gone : List Path}
    {rows : WorkRows} (hrestored : Restored (payloadFile checkout) done gone clone.rows rows)
    (hdone : ∀ path ∈ done, path ∈ keptPaths tools checkout)
    (hremoved : ∀ path ∈ removedIn clone item,
      path ∉ done ∧ ¬∃ target ∈ done, Above path target)
    (hsame : ∀ path, baseOf item.1 <+: path → rows.view path = clone.rows.view path) :
    ∃ rows', restoreRepository tools clone payload item rows = .ok rows' := by
  obtain ⟨hrepo, hinfo⟩ := inventory_of_mem hcapture hitem
  obtain ⟨original, links, hentries⟩ := entries_of_capture hcapture hrepo
  have hhead : item.2.head = (checkout.repository item.1).head := by
    obtain ⟨_, _, -, hshape, -⟩ := inventory_eq_ok hcheckout.closed hinfo
    rw [hshape]
    rfl
  have htree := hclone.tree item.1 hrepo
  -- what is taken out is in the clone
  let names := (headFiles (clone.repository item.1).tree).filter fun name =>
    !(item.2.files.map Prod.fst).contains name
  have hnames : ∀ name ∈ names, name ∈ headFiles (checkout.repository item.1).tree := by
    intro name hname
    rw [← htree]
    exact (List.mem_filter.1 hname).1
  have hnodup : names.Nodup := by
    have hall := (hcheckout.trees item.1 hrepo).nodup
    rw [← htree] at hall
    exact (hall.sublist (List.filter_sublist.map _)).filter _
  obtain ⟨next, hnext⟩ := @exists_removeFile (baseOf item.1) names rows hnodup
    (fun name hname => (owned_headFile hcheckout hcapture hrepo (hnames name hname)).1)
    (restored_not_link hcapture hclone hrestored) fun name hname => by
      rw [hsame _ (List.prefix_append _ _)]
      exact headFile_view hcapture hclone hrepo (hnames name hname)
  obtain ⟨hdistinct, hgone, hview⟩ := overFiles_removeFile hnext
  have hnext' : Restored (payloadFile checkout) (done ++ []) (gone ++ removedIn clone item)
      clone.rows next := by
    refine hrestored.append (payloadFile_ne checkout) (.of_laid hdistinct (fun path hpath => ?_)
      hview (.nil _)) hremoved
    obtain ⟨name, hname, rfl⟩ := List.mem_map.1 hpath
    exact hgone name hname
  have hready : Ready (capturedIn item) next :=
    (ready_clone hcheckout hcapture hclone howned hapart).restored (payloadFile_file checkout)
      hnext' (by simpa using hdone) fun path => capturedIn_kept hcheckout hcapture hitem
  have hfiles : ∀ file ∈ item.2.files, Captured tools checkout (baseOf item.1) file ∧
      payload.view (baseOf item.1 ++ split file.1) =
        some (payloadFile checkout (baseOf item.1 ++ split file.1)) := by
    intro file hfile
    refine ⟨captured_file hcheckout hcapture hitem hfile, hpayload _ ?_⟩
    exact capturedIn_kept hcheckout hcapture hitem (List.mem_map.2 ⟨file, hfile, rfl⟩)
  rw [capturedIn, List.map_eq_flatMap] at hready
  obtain ⟨last, hlast⟩ : ∃ last, overFiles (restoreFile tools payload (baseOf item.1))
      item.2.files next = .ok last :=
    exists_overFiles (payloadFile_file checkout)
      (fun file hfile _ _ => laid_restoreFile (hfiles file hfile).1 (hfiles file hfile).2)
      (fun file hfile _ => exists_restoreFile (hfiles file hfile).1 (hfiles file hfile).2 hlinks)
      hready
  refine ⟨last, ?_⟩
  rw [restoreRepository, stage_bind_eq_ok]
  refine ⟨(), raised_eq_ok.2 ?_, ?_⟩
  · obtain ⟨halternates, hshared⟩ := hclone.independent item.1 hrepo
    rw [independent, halternates, hshared]
    rfl
  rw [stage_bind_eq_ok]
  refine ⟨(), raised_eq_ok.2 (PythonStd.require_eq_ok.2 (decide_eq_true ?_)), ?_⟩
  · rw [hclone.head item.1 hrepo, hhead]
  rw [stage_bind_eq_ok]
  refine ⟨(), raised_eq_ok.2 (PythonStd.require_eq_ok.2 ?_), ?_⟩
  · refine clean_of_clone hcheckout hcapture hclone hrepo
      (hclone.wellPlaced.restored hrestored fun path hpath => ?_) hsame
    exact plain_of_kept hcheckout.closed (hdone path hpath)
  rw [stage_bind_eq_ok]
  refine ⟨(original, links), raised_eq_ok.2 (htree ▸ hentries), ?_⟩
  rw [stage_bind_eq_ok]
  refine ⟨next, ?_, hlast⟩
  rw [map_fst_blobs hentries, ← htree]
  exact hnext

/-- A submodule follows, of another name. -/
def Follows (item item' : String × Inventory) : Prop :=
  item'.1 ∈ REPOS.tail ∧ item.1 ≠ item'.1

theorem repositories_follow (hcapture : capture tools checkout = .ok snapshot) :
    snapshot.repositories.Pairwise Follows := by
  obtain ⟨root, ckb, sail, baseline, -, -, -, -, -, rfl⟩ := capture_eq_ok.1 hcapture
  simp [snapshotOf, Follows, REPOS]

theorem repositories_apart (hcheckout : IsCheckout checkout)
    (hcapture : capture tools checkout = .ok snapshot) (hclone : FreshClone tools checkout clone)
    (howned : OwnedFiles tools checkout) : snapshot.repositories.Pairwise fun item item' =>
      ∀ path ∈ removedIn clone item', path ∉ capturedIn item ∧
        ¬∃ target ∈ capturedIn item, Above path target := by
  refine (repositories_follow hcapture).imp_of_mem fun hitem _ hfollows path hpath => ?_
  obtain ⟨name, -, rfl⟩ := List.mem_map.1 hpath
  obtain ⟨hcaptured, habove, -⟩ := not_below_of_item hcheckout hcapture hclone howned hitem
    hfollows.1 hfollows.2 (List.prefix_append _ _)
  exact ⟨hcaptured, habove⟩

theorem exists_restoreRepositories (hcheckout : IsCheckout checkout)
    (hcapture : capture tools checkout = .ok snapshot) (hclone : FreshClone tools checkout clone)
    (howned : OwnedFiles tools checkout) (hapart : ApartFromHead tools checkout)
    (hpayload : ∀ path ∈ keptPaths tools checkout,
      payload.view path = some (payloadFile checkout path))
    (hlinks : ∀ path link, payload.view path ≠ some (.symlink link))
    {items : List (String × Inventory)} (hitems : ∀ item ∈ items, item ∈ snapshot.repositories)
    (hfollow : items.Pairwise Follows) {done gone : List Path} {rows : WorkRows}
    (hrestored : Restored (payloadFile checkout) done gone clone.rows rows)
    (hdone : ∀ path ∈ done, path ∈ keptPaths tools checkout)
    (hlater : ∀ item ∈ items, ∀ path, baseOf item.1 <+: path →
      (path ∉ done ∧ ¬∃ target ∈ done, Above path target) ∧
        rows.view path = clone.rows.view path) :
    ∃ rows', overFiles (restoreRepository tools clone payload) items rows = .ok rows' := by
  induction items generalizing done gone rows with
  | nil => exact ⟨rows, rfl⟩
  | cons item items ih =>
      rw [List.forall_mem_cons] at hitems hlater
      rw [List.pairwise_cons] at hfollow
      obtain ⟨next, hnext⟩ := exists_restoreRepository hcheckout hcapture hclone howned hapart
        hpayload hlinks hitems.1 hrestored hdone (fun path hpath => by
          obtain ⟨name, -, rfl⟩ := List.mem_map.1 hpath
          exact (hlater.1 _ (List.prefix_append _ _)).1) fun path hpath => (hlater.1 path hpath).2
      have hstep := restored_repository
        (fun file hfile => captured_file hcheckout hcapture hitems.1 hfile)
        (fun path hpath => hpayload path (capturedIn_kept hcheckout hcapture hitems.1 hpath)) hnext
      have hboth := hrestored.append (payloadFile_ne checkout) hstep fun path hpath => by
        obtain ⟨name, -, rfl⟩ := List.mem_map.1 hpath
        exact (hlater.1 _ (List.prefix_append _ _)).1
      obtain ⟨last, hlast⟩ := ih hitems.2 hfollow.2 hboth
        (fun path hpath => (List.mem_append.1 hpath).elim (hdone path)
          (capturedIn_kept hcheckout hcapture hitems.1))
        fun item' hitem' path hbelow => by
          obtain ⟨hcaptured, habove, hremoved⟩ := not_below_of_item hcheckout hcapture hclone
            howned hitems.1 (hfollow.1 item' hitem').1 (hfollow.1 item' hitem').2 hbelow
          obtain ⟨⟨hfree, hnone⟩, hview⟩ := hlater.2 item' hitem' path hbelow
          refine ⟨⟨?_, ?_⟩, ?_⟩
          · exact fun hpath => (List.mem_append.1 hpath).elim hfree hcaptured
          · rintro ⟨target, htarget, hway⟩
            rcases List.mem_append.1 htarget with htarget | htarget
            · exact hnone ⟨target, htarget, hway⟩
            · exact habove ⟨target, htarget, hway⟩
          · rw [hstep.view, if_neg hcaptured, if_neg habove, if_neg hremoved, hview]
      exact ⟨last, by rw [overFiles, stage_bind_eq_ok]; exact ⟨next, hnext, hlast⟩⟩

/-- The loop goes through over a fresh clone. -/
theorem exists_restored (hcheckout : IsCheckout checkout)
    (hcapture : capture tools checkout = .ok snapshot) (hclone : FreshClone tools checkout clone)
    (howned : OwnedFiles tools checkout) (hapart : ApartFromHead tools checkout)
    (hpayload : ∀ path ∈ keptPaths tools checkout,
      payload.view path = some (payloadFile checkout path))
    (hlinks : ∀ path link, payload.view path ≠ some (.symlink link)) :
    ∃ rows, overFiles (restoreRepository tools clone payload) snapshot.repositories clone.rows =
      .ok rows :=
  exists_restoreRepositories hcheckout hcapture hclone howned hapart hpayload hlinks
    (fun _ hitem => hitem) (repositories_follow hcapture) (.nil _) (by simp) (by simp)

end Progress

end CkbSail.Scripts.SourceSnapshot
