import CkbSail.Scripts.Proofs.SnapshotFiles

/-!
# What an inventory lists

The inventory of a repository has a row for each listed file that is there, in the order of
the names.  It depends on nothing but these files and on HEAD.
-/

namespace CkbSail.Scripts.SourceSnapshot

open PythonStd GitCheckout
open CkbSourceBaseline (sortedNames mem_sortedNames)
open FixedInputs (Stage raised raised_eq_ok stage_bind_eq_ok)

/-! ## Orders of names -/

section Sorted

variable {names names' : List String}

theorem sortedNames_pairwise (hnodup : names.Nodup) : (sortedNames names).Pairwise (· < ·) := by
  have hne : (sortedNames names).Pairwise (· ≠ ·) :=
    (List.perm_insertionSort _ _).nodup_iff.2 hnodup
  exact (List.pairwise_insertionSort (· ≤ ·) names).imp₂ (fun _ _ => lt_of_le_of_ne) hne

/-- Files kept from two ordered lists are the same when the same are kept. -/
theorem filterMap_eq_of_sorted {f f' : String → Option Measured}
    (hf : ∀ name file, f name = some file → file.name = name)
    (hf' : ∀ name file, f' name = some file → file.name = name)
    (hsorted : names.Pairwise (· < ·)) (hsorted' : names'.Pairwise (· < ·))
    (h : ∀ name file, name ∈ names ∧ f name = some file ↔ name ∈ names' ∧ f' name = some file) :
    names.filterMap f = names'.filterMap f' := by
  have hpairs : ∀ {names : List String} {f : String → Option Measured},
      (∀ name file, f name = some file → file.name = name) → names.Pairwise (· < ·) →
      (names.filterMap f).Pairwise fun file file' => file.name < file'.name := by
    intro names f hf hsorted
    refine hsorted.filterMap f fun name name' hlt file hfile file' hfile' => ?_
    rwa [hf name file hfile, hf name' file' hfile']
  have hnodup : ∀ {files : List Measured},
      files.Pairwise (fun file file' => file.name < file'.name) → files.Nodup := by
    intro files hfiles
    refine hfiles.imp fun hlt hsame => ?_
    rw [hsame] at hlt
    exact lt_irrefl _ hlt
  have hleft := hpairs hf hsorted
  have hright := hpairs hf' hsorted'
  have hperm : (names.filterMap f).Perm (names'.filterMap f') := by
    rw [List.perm_ext_iff_of_nodup (hnodup hleft) (hnodup hright)]
    intro file
    rw [List.mem_filterMap, List.mem_filterMap]
    exact exists_congr fun name => h name file
  refine hperm.eq_of_pairwise (fun file file' _ _ hlt hlt' => ?_) hleft hright
  exact absurd (hlt.trans hlt') (lt_irrefl _)

end Sorted

/-! ## What git lists -/

section Listed

variable {tools : Tools} {repository : Repository} {rows : WorkRows} {name : String}

theorem mem_lsFiles : name ∈ lsFiles tools repository rows ↔
    indexed repository name = true ∨ name ∈ others tools repository rows := by
  rw [lsFiles, List.mem_append]
  refine or_congr_left ?_
  simp [indexed]

end Listed

/-! ## Inventories -/

section Inventories

variable (tools : Tools) (checkout : Checkout) (repo : String)

/-- The names the loop runs over. -/
def listedNames (links : List (String × String)) : List String :=
  sortedNames ((lsFiles tools (checkout.repository repo)
    (checkout.rows.below (baseOf repo))).dedup.filter fun name =>
      !(links.map Prod.fst).contains name)

def inventoryOf (original : List (String × BlobRow)) (links : List (String × String))
    (files : List Measured) : Inventory where
  head := (checkout.repository repo).head
  gitlinks := links
  files := files.map fun file => (file.name, file.row)
  changesFromHead := files.filterMap (changeOf original) ++ deletions original files

variable {tools checkout repo} {original : List (String × BlobRow)} {info : Inventory}
  {links : List (String × String)}

theorem mem_listedNames {name : String} : name ∈ listedNames tools checkout repo links ↔
    name ∈ lsFiles tools (checkout.repository repo) (checkout.rows.below (baseOf repo)) ∧
      name ∉ links.map Prod.fst := by
  rw [listedNames, mem_sortedNames, List.mem_filter, List.mem_dedup]
  simp

theorem listedNames_pairwise : (listedNames tools checkout repo links).Pairwise (· < ·) :=
  sortedNames_pairwise ((List.nodup_dedup _).filter _)

theorem inventory_eq_ok (hclosed : Closed checkout.rows.view)
    (h : inventory tools checkout repo = .ok info) : ∃ original links,
      entries (checkout.repository repo).tree = .ok (original, links) ∧
      info = inventoryOf checkout repo original links ((listedNames tools checkout repo
        links).filterMap (measuredAt tools checkout.rows.view (baseOf repo))) ∧
      ∀ name ∈ listedNames tools checkout repo links, SourceName name ∧
        (measuredAt tools checkout.rows.view (baseOf repo) name = none →
          (original.lookup name).isSome = true ∧
            checkout.rows.view (baseOf repo ++ split name) ≠ some .directory) := by
  rw [inventory, stage_bind_eq_ok] at h
  obtain ⟨⟨original, links⟩, hentries, h⟩ := h
  rw [stage_bind_eq_ok] at h
  obtain ⟨files, hfiles, h⟩ := h
  obtain rfl := Except.ok.inj h
  obtain ⟨rfl, hnames⟩ := measureFiles_eq_ok hclosed hfiles
  exact ⟨original, links, raised_eq_ok.1 hentries, rfl, hnames⟩

/-- In every tree the files of an inventory are listed. -/
theorem listed_of_inventory (h : inventory tools checkout repo = .ok info) {name : String}
    (hname : name ∈ info.files.map Prod.fst) :
    name ∈ lsFiles tools (checkout.repository repo) (checkout.rows.below (baseOf repo)) := by
  rw [inventory, stage_bind_eq_ok] at h
  obtain ⟨⟨original, links⟩, -, h⟩ := h
  rw [stage_bind_eq_ok] at h
  obtain ⟨files, hfiles, h⟩ := h
  obtain rfl := Except.ok.inj h
  rw [List.map_map] at hname
  obtain ⟨file, hfile, rfl⟩ := List.mem_map.1 hname
  exact (mem_listedNames.1 (name_of_measureFiles hfiles hfile)).1

theorem inventory_of_view
    (hentries : entries (checkout.repository repo).tree = .ok (original, links))
    (h : ∀ name ∈ listedNames tools checkout repo links,
      measureFile tools checkout (baseOf repo) original name =
        .ok (measuredAt tools checkout.rows.view (baseOf repo) name)) :
    inventory tools checkout repo = .ok (inventoryOf checkout repo original links
      ((listedNames tools checkout repo links).filterMap
        (measuredAt tools checkout.rows.view (baseOf repo)))) := by
  rw [inventory, stage_bind_eq_ok]
  refine ⟨(original, links), raised_eq_ok.2 hentries, ?_⟩
  rw [stage_bind_eq_ok]
  exact ⟨_, measureFiles_of_view h, rfl⟩

end Inventories

end CkbSail.Scripts.SourceSnapshot
