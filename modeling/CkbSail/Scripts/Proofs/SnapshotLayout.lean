import CkbSail.Scripts.Proofs.SnapshotClone

/-!
# What export and restore leave

The payload of a captured checkout holds its files.  Laid over fresh clones it leaves the
captured files in the directories that are there or that they need, and nothing else.
-/

namespace CkbSail.Scripts.SourceSnapshot

open PythonStd GitCheckout
open CkbSourceBaseline (modeText)
open FixedInputs (Stage raised raised_eq_ok stage_bind_eq_ok)

def capturedIn (item : String × Inventory) : List Path :=
  item.2.files.map fun file => baseOf item.1 ++ split file.1

def capturedPaths (snapshot : Snapshot) : List Path := snapshot.repositories.flatMap capturedIn

/-- Where captured files stand, as the checkout says. -/
def keptPaths (tools : Tools) (checkout : Checkout) : List Path :=
  REPOS.flatMap fun repo => (kept tools checkout repo).map fun name => baseOf repo ++ split name

/-- The captured files, in directories of the clone and in those that they need. -/
def overlay (tools : Tools) (checkout clone : Checkout) : WorkView := fun path =>
  if path ∈ keptPaths tools checkout then some (payloadFile checkout path)
  else if ∃ target ∈ keptPaths tools checkout, Above path target then some .directory
  else if clone.rows.view path = some .directory then some .directory else none

theorem mem_capturedPaths {snapshot : Snapshot} {path : Path} :
    path ∈ capturedPaths snapshot ↔ ∃ item ∈ snapshot.repositories, ∃ file ∈ item.2.files,
      path = baseOf item.1 ++ split file.1 := by
  simp [capturedPaths, capturedIn, eq_comm]

section Captured

variable {tools : Tools} {checkout clone : Checkout} {snapshot : Snapshot} {payload : WorkRows}

theorem captured_file (hcheckout : IsCheckout checkout)
    (hcapture : capture tools checkout = .ok snapshot) {item : String × Inventory}
    (hitem : item ∈ snapshot.repositories) {file : String × FileRow} (hfile : file ∈ item.2.files) :
    Captured tools checkout (baseOf item.1) file :=
  captured_of_mem hcheckout.closed (inventory_of_mem hcapture hitem).2 hfile

theorem item_of_mem (hcapture : capture tools checkout = .ok snapshot) {repo : String}
    (hrepo : repo ∈ REPOS) : ∃ info, (repo, info) ∈ snapshot.repositories := by
  obtain ⟨root, ckb, sail, baseline, -, -, -, -, -, rfl⟩ := capture_eq_ok.1 hcapture
  rcases mem_REPOS.1 hrepo with rfl | rfl | rfl
  · exact ⟨root, by simp [snapshotOf]⟩
  · exact ⟨ckb, by simp [snapshotOf]⟩
  · exact ⟨sail, by simp [snapshotOf]⟩

theorem mem_keptPaths {path : Path} : path ∈ keptPaths tools checkout ↔
    ∃ repo ∈ REPOS, ∃ name ∈ kept tools checkout repo, path = baseOf repo ++ split name := by
  simp [keptPaths, eq_comm]

theorem mem_capturedPaths_iff (hcheckout : IsCheckout checkout)
    (hcapture : capture tools checkout = .ok snapshot) {path : Path} :
    path ∈ capturedPaths snapshot ↔ path ∈ keptPaths tools checkout := by
  rw [mem_capturedPaths, mem_keptPaths]
  constructor
  · rintro ⟨item, hitem, file, hfile, rfl⟩
    obtain ⟨hrepo, hinfo⟩ := inventory_of_mem hcapture hitem
    exact ⟨item.1, hrepo, file.1,
      (mem_files_iff hcheckout.closed hinfo).1 (List.mem_map_of_mem hfile), rfl⟩
  · rintro ⟨repo, hrepo, name, hname, rfl⟩
    obtain ⟨info, hitem⟩ := item_of_mem hcapture hrepo
    obtain ⟨file, hfile, rfl⟩ := List.mem_map.1
      ((mem_files_iff hcheckout.closed (inventory_of_mem hcapture hitem).2).2 hname)
    exact ⟨(repo, info), hitem, file, hfile, rfl⟩

theorem kept_view {path : Path} (hpath : path ∈ keptPaths tools checkout) :
    path ≠ [] ∧ ∃ mode bytes, checkout.rows.view path = some (.file mode bytes) := by
  obtain ⟨repo, -, name, hname, rfl⟩ := mem_keptPaths.1 hpath
  exact ⟨target_ne_nil _ _, (mem_kept.1 hname).2.2⟩

/-- No captured file is in the way of another. -/
theorem kept_apart (hclosed : Closed checkout.rows.view) {path path' : Path}
    (hpath : path ∈ keptPaths tools checkout) (hpath' : path' ∈ keptPaths tools checkout) :
    ¬Above path path' := by
  intro habove
  obtain ⟨-, mode, bytes, hview⟩ := kept_view hpath
  obtain ⟨-, _, _, hview'⟩ := kept_view hpath'
  rw [hclosed.above hview' habove.1 habove.2] at hview
  cases hview

/-! ## Export -/

theorem same_self (snapshot : Snapshot) : snapshot.same snapshot = true := by
  simp [Snapshot.same, Json.eq_self]

theorem exists_exportFiles (hcheckout : IsCheckout checkout)
    (hcapture : capture tools checkout = .ok snapshot) :
    ∃ payload, exportFiles tools checkout snapshot = .ok payload ∧
      (∀ path ∈ capturedPaths snapshot, payload.view path = some (payloadFile checkout path)) ∧
      ∀ path link, payload.view path ≠ some (.symlink link) := by
  have hfiles : ∀ path, payloadFile checkout path ≠ .directory := payloadFile_ne checkout
  have hlaid : ∀ item ∈ snapshot.repositories, ∀ rows rows',
      overFiles (exportFile tools checkout (baseOf item.1)) item.2.files rows = .ok rows' →
        Laid (payloadFile checkout) (capturedIn item) rows rows' := by
    intro item hitem rows rows' h
    rw [capturedIn, List.map_eq_flatMap]
    exact laid_overFiles hfiles (fun file hfile _ _ =>
      laid_exportFile (captured_file hcheckout hcapture hitem hfile)) h
  have hruns : ∀ item ∈ snapshot.repositories, ∀ rows, Ready (capturedIn item) rows →
      ∃ rows', overFiles (exportFile tools checkout (baseOf item.1)) item.2.files rows =
        .ok rows' := by
    intro item hitem rows hready
    rw [capturedIn, List.map_eq_flatMap] at hready
    exact exists_overFiles (payloadFile_file checkout) (fun file hfile _ _ =>
      laid_exportFile (captured_file hcheckout hcapture hitem hfile)) (fun file hfile _ =>
        exists_exportFile hcheckout.closed (captured_file hcheckout hcapture hitem hfile)) hready
  have hempty : ∀ path, WorkRows.view [([], .directory)] path =
      if path = [] then some .directory else none := by
    intro path
    rw [WorkRows.view, ProofSupport.lookup_row]
    rfl
  have hkept : ∀ path ∈ capturedPaths snapshot, path ∈ keptPaths tools checkout :=
    fun path => (mem_capturedPaths_iff hcheckout hcapture).1
  have hready : Ready (capturedPaths snapshot) [([], .directory)] := by
    refine ⟨fun target _ place _ => ?_, fun target htarget => ?_,
      fun target htarget target' htarget' =>
        kept_apart hcheckout.closed (hkept target htarget) (hkept target' htarget')⟩
    · rw [hempty]
      split_ifs
      · exact Or.inr rfl
      · exact Or.inl rfl
    · rw [hempty, if_neg (kept_view (hkept target htarget)).1]
      exact Or.inl rfl
  obtain ⟨payload, hpayload⟩ := exists_overFiles (payloadFile_file checkout) hlaid hruns hready
  have hview := (laid_overFiles hfiles hlaid hpayload).view
  refine ⟨payload, ?_, fun path hpath => ?_, fun path link => ?_⟩
  · rw [exportFiles, stage_bind_eq_ok]
    refine ⟨snapshot, hcapture, ?_⟩
    rw [stage_bind_eq_ok]
    refine ⟨(), raised_eq_ok.2 (PythonStd.require_eq_ok.2 (same_self snapshot)), ?_⟩
    rw [stage_bind_eq_ok]
    refine ⟨payload, hpayload, ?_⟩
    rw [stage_bind_eq_ok]
    refine ⟨snapshot, hcapture, ?_⟩
    rw [stage_bind_eq_ok]
    exact ⟨(), raised_eq_ok.2 (PythonStd.require_eq_ok.2 (same_self snapshot)), rfl⟩
  · rw [hview]
    exact if_pos hpath
  · rw [hview]
    split_ifs
    · obtain ⟨mode, bytes, hfile⟩ := payloadFile_file checkout path
      rw [hfile]
      simp
    · simp
    · rw [hempty]
      split_ifs
      · simp
      · simp

/-! ## Restore -/

/-- The files of HEAD that are taken out. -/
def removedIn (clone : Checkout) (item : String × Inventory) : List Path :=
  ((headFiles (clone.repository item.1).tree).filter fun name =>
    !(item.2.files.map Prod.fst).contains name).map fun name => baseOf item.1 ++ split name

theorem restored_repository {item : String × Inventory} {rows rows' : WorkRows}
    (hcaptured : ∀ file ∈ item.2.files, Captured tools checkout (baseOf item.1) file)
    (hpayload : ∀ path ∈ capturedIn item, payload.view path = some (payloadFile checkout path))
    (h : restoreRepository tools clone payload item rows = .ok rows') :
    Restored (payloadFile checkout) (capturedIn item) (removedIn clone item) rows rows' := by
  rw [restoreRepository, stage_bind_eq_ok] at h
  obtain ⟨-, -, h⟩ := h
  rw [stage_bind_eq_ok] at h
  obtain ⟨-, -, h⟩ := h
  rw [stage_bind_eq_ok] at h
  obtain ⟨-, -, h⟩ := h
  rw [stage_bind_eq_ok] at h
  obtain ⟨⟨original, links⟩, hentries, h⟩ := h
  rw [stage_bind_eq_ok] at h
  obtain ⟨next, hnext, h⟩ := h
  rw [map_fst_blobs (raised_eq_ok.1 hentries)] at hnext
  obtain ⟨hdistinct, hgone, hview⟩ := overFiles_removeFile hnext
  have hlaid : Laid (payloadFile checkout) (capturedIn item) next rows' := by
    rw [capturedIn, List.map_eq_flatMap]
    refine laid_overFiles (payloadFile_ne checkout) (fun file hfile _ _ => ?_) h
    exact laid_restoreFile (hcaptured file hfile)
      (hpayload _ (List.mem_map.2 ⟨file, hfile, rfl⟩))
  refine .of_laid hdistinct (fun path hpath => ?_) hview hlaid
  obtain ⟨name, hname, rfl⟩ := List.mem_map.1 hpath
  exact hgone name hname

theorem restored_repositories {items : List (String × Inventory)} {rows rows' : WorkRows}
    (hcaptured : ∀ item ∈ items, ∀ file ∈ item.2.files,
      Captured tools checkout (baseOf item.1) file)
    (hpayload : ∀ item ∈ items, ∀ path ∈ capturedIn item,
      payload.view path = some (payloadFile checkout path))
    (hapart : items.Pairwise fun item item' => ∀ path ∈ removedIn clone item',
      path ∉ capturedIn item ∧ ¬∃ target ∈ capturedIn item, Above path target)
    (h : overFiles (restoreRepository tools clone payload) items rows = .ok rows') :
    Restored (payloadFile checkout) (items.flatMap capturedIn) (items.flatMap (removedIn clone))
      rows rows' := by
  induction items generalizing rows with
  | nil =>
      cases h
      exact .nil _
  | cons item items ih =>
      rw [overFiles, stage_bind_eq_ok] at h
      obtain ⟨next, hnext, h⟩ := h
      rw [List.forall_mem_cons] at hcaptured hpayload
      rw [List.pairwise_cons] at hapart
      rw [List.flatMap_cons, List.flatMap_cons]
      refine (restored_repository hcaptured.1 hpayload.1 hnext).append (payloadFile_ne checkout)
        (ih hcaptured.2 hpayload.2 hapart.2 h) fun path hpath => ?_
      obtain ⟨item', hitem', hpath⟩ := List.mem_flatMap.1 hpath
      exact hapart.1 item' hitem' path hpath

/-- A file of HEAD stands in the clone. -/
theorem headFile_view (hcapture : capture tools checkout = .ok snapshot)
    (hclone : FreshClone tools checkout clone) {repo : String} (hrepo : repo ∈ REPOS)
    {name : String} (hname : name ∈ headFiles (checkout.repository repo).tree) :
    ∃ mode bytes, clone.rows.view (baseOf repo ++ split name) = some (.file mode bytes) := by
  obtain ⟨original, links, hentries⟩ := entries_of_capture hcapture hrepo
  obtain ⟨row, hrow, rfl⟩ := List.mem_map.1 hname
  obtain ⟨hmem, hblob⟩ := List.mem_filter.1 hrow
  have hlink : isGitlink row = false := by simpa using hblob
  have hkind := ((entries_eq_ok hentries).1 row hmem).2
  rw [hlink] at hkind
  obtain ⟨hkind, hmode⟩ := hkind.resolve_left Bool.false_ne_true
  have hsame := hclone.files repo hrepo row hmem hlink
  rw [unchanged, hkind, view_below] at hsame
  rcases hnode : clone.rows.view (baseOf repo ++ split row.name) with _ | _ | ⟨mode, bytes⟩ | _ | _
  · simp [hnode] at hsame
  · simp [hnode] at hsame
  · exact ⟨mode, bytes, rfl⟩
  · rcases hmode with hmode | hmode <;> simp [hnode, hmode] at hsame
  · simp [hnode] at hsame

/-- What was not captured of HEAD is taken out, so that the captured files and directories
are left. -/
theorem view_of_restored (hcheckout : IsCheckout checkout)
    (hcapture : capture tools checkout = .ok snapshot)
    (hclone : FreshClone tools checkout clone) {rows : WorkRows}
    (h : Restored (payloadFile checkout) (capturedPaths snapshot)
      (snapshot.repositories.flatMap (removedIn clone)) clone.rows rows) :
    rows.view = overlay tools checkout clone := by
  funext path
  rw [h.view, overlay]
  simp only [mem_capturedPaths_iff hcheckout hcapture]
  by_cases hcaptured : path ∈ keptPaths tools checkout
  · rw [if_pos hcaptured, if_pos hcaptured]
  rw [if_neg hcaptured, if_neg hcaptured]
  refine if_congr Iff.rfl rfl ?_
  split_ifs with hremoved hdir hdir
  · obtain ⟨mode, bytes, hfile⟩ := h.gone path hremoved
    rw [hdir] at hfile
    cases hfile
  · rfl
  · exact hdir
  · cases hnode : clone.rows.view path with
    | none => rfl
    | some node =>
        exfalso
        rcases hclone.only path node hnode with ⟨repo, hrepo, name, hname, rfl⟩ | ⟨rfl, -⟩
        · obtain ⟨info, hitem⟩ := item_of_mem hcapture hrepo
          by_cases hthere : name ∈ info.files.map Prod.fst
          · obtain ⟨file, hfile, rfl⟩ := List.mem_map.1 hthere
            refine hcaptured ((mem_capturedPaths_iff hcheckout hcapture).1 ?_)
            exact mem_capturedPaths.2 ⟨(repo, info), hitem, file, hfile, rfl⟩
          · refine hremoved (List.mem_flatMap.2 ⟨(repo, info), hitem, List.mem_map.2
              ⟨name, List.mem_filter.2 ⟨?_, by simpa using hthere⟩, rfl⟩⟩)
            rwa [hclone.tree repo hrepo]
        · exact hdir hnode

end Captured

end CkbSail.Scripts.SourceSnapshot
