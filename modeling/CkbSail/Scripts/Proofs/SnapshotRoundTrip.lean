import CkbSail.PythonStd.Text
import CkbSail.Scripts.Proofs.CkbSourceBaseline
import CkbSail.Scripts.Proofs.SnapshotRecapture

/-!
# The round trip of a source snapshot

A captured checkout is exported and restored onto fresh clones, and captured again.
-/

namespace CkbSail.Scripts.SourceSnapshot

open PythonStd GitCheckout
open CkbSourceBaseline (MANIFEST REPOSITORY Records Reads Record readBytes)
open FixedInputs (Stage raised raised_eq_ok stage_bind_eq_ok)

/-- Export and restore go through, and the restored checkout is captured as before. -/
def RoundTrip (tools : Tools) (checkout clone : Checkout) (snapshot : Snapshot) : Prop :=
  ∃ payload restored again, exportFiles tools checkout snapshot = .ok payload ∧
    restore tools clone payload snapshot = .ok restored ∧
    capture tools restored = .ok again ∧ again.same snapshot = true

/-- No captured file is above or below one of HEAD, and the clone does not ignore those that
are new.  The manifest and the files of the upstream commit are captured, and what the
manifest records is read from the captured files. -/
structure Restorable (tools : Tools) (checkout clone : Checkout) : Prop where
  apart : ApartFromHead tools checkout
  visible : Visible tools checkout clone (overlay tools checkout clone)
  upstream : ∀ name ∈ headFiles (checkout.repository REPOSITORY).tree,
    name ∈ kept tools checkout REPOSITORY
  manifest : MANIFEST ∈ kept tools checkout "."
  inputs : ∀ bytes manifest record,
    readBytes checkout.rows.view checkout.outside MANIFEST = .ok bytes →
    tools.loads bytes = .ok manifest →
    Records manifest (checkout.repository REPOSITORY).head record →
    Reads tools (overlay tools checkout clone) clone.outside record

section RoundTrip

variable {tools : Tools} {checkout clone : Checkout} {snapshot : Snapshot} {rows : WorkRows}

/-! ## The baseline of a restored checkout -/

theorem repository_mem : REPOSITORY ∈ REPOS := by simp [REPOS, REPOSITORY]

theorem plain_base (hcheckout : IsCheckout checkout) {repo : String} (hrepo : repo ∈ REPOS) :
    Plain (baseOf repo) :=
  hcheckout.closed.plain _ _ (hcheckout.bases repo hrepo)

theorem sourceName_of_kept (hcheckout : IsCheckout checkout)
    (hcapture : capture tools checkout = .ok snapshot) {repo name : String} (hrepo : repo ∈ REPOS)
    (hname : name ∈ kept tools checkout repo) : SourceName name := by
  obtain ⟨info, hitem⟩ := item_of_mem hcapture hrepo
  obtain ⟨file, hfile, rfl⟩ := List.mem_map.1
    ((mem_files_iff hcheckout.closed (inventory_of_mem hcapture hitem).2).2 hname)
  exact (captured_file hcheckout hcapture hitem hfile).source

/-- The manifest belongs to the root. -/
theorem owned_manifest : Owned "." (baseOf "." ++ split MANIFEST) := by
  refine ⟨List.prefix_append _ _, fun _ sub hsub hbegins => ?_⟩
  have hsplit : baseOf "." ++ split MANIFEST =
      ["proof", "lean", "extraction", "ckb-source-baseline.json"] := by decide
  rw [hsplit] at hbegins
  simp only [REPOS, List.tail_cons, List.mem_cons, List.not_mem_nil, or_false] at hsub
  rcases hsub with rfl | rfl
  · rw [baseOf_ckb] at hbegins
    simp at hbegins
  · rw [baseOf_sail] at hbegins
    simp at hbegins

/-- A captured file of the root is read again. -/
theorem readBytes_overlay (hcheckout : IsCheckout checkout)
    (hcapture : capture tools checkout = .ok snapshot) (hclone : FreshClone tools checkout clone)
    (hfree : FreeOfDirectories tools checkout clone) {name : String}
    (hname : name ∈ kept tools checkout ".") :
    readBytes (overlay tools checkout clone) clone.outside name =
      readBytes checkout.rows.view checkout.outside name := by
  have hroot : "." ∈ REPOS := by simp [REPOS]
  have hsource := sourceName_of_kept hcheckout hcapture hroot hname
  obtain ⟨-, -, mode, bytes, hview⟩ := mem_kept.1 hname
  have hover := @overlay_file tools checkout clone _
    (mem_keptPaths.2 ⟨".", hroot, name, hname, rfl⟩)
  rw [payloadFile_of_view hview] at hover
  rw [baseOf_root, List.nil_append] at hview hover
  rw [CkbSourceBaseline.readBytes_of_view hcheckout.closed hsource hview,
    CkbSourceBaseline.readBytes_of_view (closed_overlay hcheckout.closed hclone.closed hfree)
      hsource hover]

theorem hashRow_restored (hcheckout : IsCheckout checkout)
    (hcapture : capture tools checkout = .ok snapshot) (hclone : FreshClone tools checkout clone)
    (hview : rows.view = overlay tools checkout clone)
    (hfree : FreeOfDirectories tools checkout clone) {name : String}
    (hname : name ∈ kept tools checkout REPOSITORY) :
    CkbSourceBaseline.hashRow tools (withRows clone rows) name =
      CkbSourceBaseline.hashRow tools checkout name := by
  have hsource := sourceName_of_kept hcheckout hcapture repository_mem hname
  obtain ⟨-, -, mode, bytes, hfile⟩ := mem_kept.1 hname
  have hclosed : Closed (withRows clone rows).rows.view := by
    rw [withRows, hview]
    exact closed_overlay hcheckout.closed hclone.closed hfree
  have hover : (withRows clone rows).rows.view (baseOf REPOSITORY ++ split name) =
      some (.file (permissions (CkbSourceBaseline.modeText mode)) bytes) := by
    rw [withRows, hview, overlay_file (mem_keptPaths.2 ⟨_, repository_mem, name, hname, rfl⟩),
      payloadFile_of_view hfile]
  rw [CkbSourceBaseline.hashRow_of_view hclosed hsource hover,
    CkbSourceBaseline.hashRow_of_view hcheckout.closed hsource hfile,
    CkbSourceBaseline.sourceRow, CkbSourceBaseline.sourceRow, modeText_permissions]

/-- Beside the files of the upstream commit git lists the captured files. -/
theorem kept_of_new (hcheckout : IsCheckout checkout)
    (hcapture : capture tools checkout = .ok snapshot) {repo name : String} (hrepo : repo ∈ REPOS)
    (hvisible : name ∈ lsFiles tools (checkout.repository repo) (checkout.rows.below (baseOf repo)))
    (hnew : name ∉ (checkout.repository repo).tree.map GitRow.name) :
    name ∈ kept tools checkout repo := by
  have hrow : ∀ rows : List GitRow, rows.Sublist (checkout.repository repo).tree →
      name ∉ rows.map GitRow.name := fun rows hrows hname => hnew ((hrows.map _).subset hname)
  by_contra hgone
  obtain ⟨info, hitem⟩ := item_of_mem hcapture hrepo
  exact hrow _ List.filter_sublist (headFile_of_listed hcheckout.closed
    (inventory_of_mem hcapture hitem).2 hvisible (hrow _ List.filter_sublist) hgone).1

theorem tree_restored (hcheckout : IsCheckout checkout)
    (hcapture : capture tools checkout = .ok snapshot) (hclone : FreshClone tools checkout clone)
    (hrows : WellPlaced rows) (hview : rows.view = overlay tools checkout clone)
    (hfree : FreeOfDirectories tools checkout clone)
    (hvisible : Visible tools checkout clone (overlay tools checkout clone))
    (hupstream : ∀ name ∈ headFiles (checkout.repository REPOSITORY).tree,
      name ∈ kept tools checkout REPOSITORY) {added : Json} {hash : String}
    (h : CkbSourceBaseline.tree tools checkout added = .ok hash) :
    CkbSourceBaseline.tree tools (withRows clone rows) added = .ok hash := by
  obtain ⟨upstream, items, names, hashes, hcollect, hset, hitems, hnames, hhashes, hhash⟩ :=
    CkbSourceBaseline.tree_eq_ok.1 h
  obtain ⟨rfl, hblobs⟩ := CkbSourceBaseline.upstreamNames hcollect
  have htree : ((withRows clone rows).repository REPOSITORY).tree =
      (checkout.repository REPOSITORY).tree := hclone.tree _ repository_mem
  have hlist : ∀ name, name ∈ lsFiles tools ((withRows clone rows).repository REPOSITORY)
        ((withRows clone rows).rows.below (baseOf REPOSITORY)) ↔
      name ∈ (checkout.repository REPOSITORY).tree.map GitRow.name ∨
        name ∈ kept tools checkout REPOSITORY := fun _ =>
    @mem_lsFiles_restored tools checkout clone snapshot rows _ _ hcheckout hcapture hclone hrows
      hview hvisible repository_mem
  have hnew : ∀ name, (name ∈ (lsFiles tools (checkout.repository REPOSITORY)
          (checkout.rows.below (baseOf REPOSITORY))).filter fun name =>
        !((checkout.repository REPOSITORY).tree.map GitRow.name).contains name) ↔
      name ∈ kept tools checkout REPOSITORY ∧
        name ∉ (checkout.repository REPOSITORY).tree.map GitRow.name := by
    intro name
    rw [List.mem_filter, Bool.not_eq_true', List.contains_eq_mem, decide_eq_false_iff_not]
    exact and_congr_left fun hfresh =>
      ⟨fun hmem => kept_of_new hcheckout hcapture repository_mem hmem hfresh,
        fun hmem => (mem_kept.1 hmem).1⟩
  have hheadFiles : ∀ name ∈ (checkout.repository REPOSITORY).tree.map GitRow.name,
      name ∈ headFiles (checkout.repository REPOSITORY).tree := by
    intro name hname
    refine mem_headFiles_of_row hname fun hlink => ?_
    obtain ⟨row, hrow, -⟩ := List.mem_map.1 hlink
    obtain ⟨hmem, hgitlink⟩ := List.mem_filter.1 hrow
    rw [isGitlink, hblobs row hmem] at hgitlink
    simp at hgitlink
  refine CkbSourceBaseline.tree_eq_ok.2 ⟨_, items, names, hashes, htree ▸ hcollect, ?_, hitems,
    hnames, ?_, hhash⟩
  · rw [← hset]
    refine CkbSourceBaseline.setEq_congr fun name => ?_
    rw [hnew, List.mem_filter, hlist, Bool.not_eq_true', List.contains_eq_mem,
      decide_eq_false_iff_not]
    exact and_congr_left fun hfresh => or_iff_right hfresh
  · rw [← hhashes]
    refine CkbSourceBaseline.hashRows_congr fun name hname => ?_
    refine hashRow_restored hcheckout hcapture hclone hview hfree ?_
    obtain ⟨additions, hadditions, rfl⟩ := CkbSourceBaseline.addNames_eq_ok hnames
    rw [CkbSourceBaseline.mem_sortedNames, List.mem_append] at hname
    rcases hname with hname | hname
    · exact hupstream name (hheadFiles name hname)
    · refine ((hnew name).1 (CkbSourceBaseline.mem_of_setEq hset hitems ?_)).1
      rw [hadditions]
      exact List.mem_map_of_mem hname

/-! ## Both directions -/

theorem roundTrip_of_restorable (hcheckout : IsCheckout checkout)
    (hcapture : capture tools checkout = .ok snapshot) (hclone : FreshClone tools checkout clone)
    (h : Restorable tools checkout clone) : RoundTrip tools checkout clone snapshot := by
  have howned := h.visible.owned hcheckout hcapture
  have hkept : ∀ path, path ∈ capturedPaths snapshot ↔ path ∈ keptPaths tools checkout :=
    fun _ => mem_capturedPaths_iff hcheckout hcapture
  obtain ⟨payload, hexport, hpayload, hlinks⟩ := exists_exportFiles hcheckout hcapture
  simp only [hkept] at hpayload
  obtain ⟨rows, hloop⟩ := exists_restored hcheckout hcapture hclone howned h.apart hpayload hlinks
  have hrestored := restored_repositories
    (fun item hitem file hfile => captured_file hcheckout hcapture hitem hfile)
    (fun item hitem path hpath => hpayload path (capturedIn_kept hcheckout hcapture hitem hpath))
    (repositories_apart hcheckout hcapture hclone howned) hloop
  have hview := view_of_restored hcheckout hcapture hclone hrestored
  have hrows := wellPlaced_restored hcheckout hcapture hpayload (fun _ hitem => hitem)
    hclone.wellPlaced hloop
  have hfree : FreeOfDirectories tools checkout clone := fun target htarget =>
    hrestored.free target ((hkept target).2 htarget)
  have hagain : capture tools (withRows clone rows) = .ok snapshot := by
    obtain ⟨root, ckb, sail, baseline, hroot, hckb, hsail, hpinned, hcheck, hsnapshot⟩ :=
      capture_eq_ok.1 hcapture
    have hsame : ∀ {repo info}, repo ∈ REPOS → inventory tools checkout repo = .ok info →
        inventory tools (withRows clone rows) repo = .ok info := fun hrepo hinfo =>
      inventory_restored hcheckout hcapture hclone hrows hview hfree h.visible h.apart hrepo hinfo
    refine capture_eq_ok.2 ⟨root, ckb, sail, baseline, hsame (by simp [REPOS]) hroot,
      hsame (by simp [REPOS]) hckb, hsame (by simp [REPOS]) hsail, hpinned, ?_, hsnapshot⟩
    refine CkbSourceBaseline.check_of_reads hcheck (hclone.head _ repository_mem) ?_
      (fun added hash => tree_restored hcheckout hcapture hclone hrows hview hfree h.visible
        h.upstream) ?_
    · rw [withRows, hview]
      exact readBytes_overlay hcheckout hcapture hclone hfree h.manifest
    · rw [withRows, hview]
      exact h.inputs
  refine ⟨payload, withRows clone rows, snapshot, hexport, ?_, hagain, same_self snapshot⟩
  rw [restore, stage_bind_eq_ok]
  refine ⟨rows, hloop, ?_⟩
  dsimp only
  rw [stage_bind_eq_ok]
  refine ⟨snapshot, hagain, ?_⟩
  rw [stage_bind_eq_ok]
  exact ⟨(), raised_eq_ok.2 (PythonStd.require_eq_ok.2 (same_self snapshot)), rfl⟩

/-- A restored checkout is a clone in which the loop went through, captured as before. -/
theorem rows_of_restore {payload : WorkRows} {restored : Checkout}
    (h : restore tools clone payload snapshot = .ok restored) :
    ∃ rows now, overFiles (restoreRepository tools clone payload) snapshot.repositories clone.rows =
        .ok rows ∧ capture tools (withRows clone rows) = .ok now ∧ now.same snapshot = true := by
  rw [restore, stage_bind_eq_ok] at h
  obtain ⟨rows, hloop, h⟩ := h
  dsimp only at h
  rw [stage_bind_eq_ok] at h
  obtain ⟨now, hnow, h⟩ := h
  rw [stage_bind_eq_ok] at h
  obtain ⟨u, hsame, -⟩ := h
  exact ⟨rows, now, hloop, hnow, PythonStd.require_eq_ok.1 (raised_eq_ok.1 hsame)⟩

/-- Two captures that are the same have the same inventories. -/
theorem inventories_of_same {checkout' : Checkout} {now : Snapshot}
    (hcapture : capture tools checkout = .ok snapshot)
    (hnow : capture tools checkout' = .ok now) (hsame : now.same snapshot = true) {repo : String}
    (hrepo : repo ∈ REPOS) : ∃ info, inventory tools checkout repo = .ok info ∧
      inventory tools checkout' repo = .ok info := by
  have hrepositories : now.repositories = snapshot.repositories := by
    rw [Snapshot.same, Bool.and_eq_true, Bool.and_eq_true, decide_eq_true_eq] at hsame
    exact hsame.1.1
  obtain ⟨info, hitem⟩ := item_of_mem hcapture hrepo
  exact ⟨info, (inventory_of_mem hcapture hitem).2,
    (inventory_of_mem hnow (hrepositories ▸ hitem)).2⟩

theorem restorable_of_roundTrip (hcheckout : IsCheckout checkout)
    (hcapture : capture tools checkout = .ok snapshot) (hclone : FreshClone tools checkout clone)
    (h : RoundTrip tools checkout clone snapshot) : Restorable tools checkout clone := by
  have hkept : ∀ path, path ∈ capturedPaths snapshot ↔ path ∈ keptPaths tools checkout :=
    fun _ => mem_capturedPaths_iff hcheckout hcapture
  obtain ⟨payload, restored, again, hexport, hrestore, -, -⟩ := h
  obtain ⟨payload', hexport', hpayload, -⟩ := exists_exportFiles hcheckout hcapture
  obtain rfl := Except.ok.inj (hexport.symm.trans hexport')
  simp only [hkept] at hpayload
  obtain ⟨rows, now, hloop, hnow, hsame⟩ := rows_of_restore hrestore
  have hrows := wellPlaced_restored hcheckout hcapture hpayload (fun _ hitem => hitem)
    hclone.wellPlaced hloop
  have hinventories : ∀ repo ∈ REPOS, ∃ info, inventory tools (withRows clone rows) repo =
      .ok info ∧ ∀ name ∈ kept tools checkout repo, name ∈ info.files.map Prod.fst := by
    intro repo hrepo
    obtain ⟨info, hinfo, hinfo'⟩ := inventories_of_same hcapture hnow hsame hrepo
    exact ⟨info, hinfo', fun name => (mem_files_iff hcheckout.closed hinfo).2⟩
  -- the files are listed again, whatever was laid
  have hvisible := visible_of_inventory hcapture hclone hrows hinventories
  have howned := hvisible.owned hcheckout hcapture
  have hrestored := restored_repositories
    (fun item hitem file hfile => captured_file hcheckout hcapture hitem hfile)
    (fun item hitem path hpath => hpayload path (capturedIn_kept hcheckout hcapture hitem hpath))
    (repositories_apart hcheckout hcapture hclone howned) hloop
  have hview := view_of_restored hcheckout hcapture hclone hrestored
  have hfree : FreeOfDirectories tools checkout clone := fun target htarget =>
    hrestored.free target ((hkept target).2 htarget)
  have hclosed := closed_overlay hcheckout.closed hclone.closed hfree
  have htree : ((withRows clone rows).repository REPOSITORY).tree =
      (checkout.repository REPOSITORY).tree := hclone.tree _ repository_mem
  have hhead : ((withRows clone rows).repository REPOSITORY).head =
      (checkout.repository REPOSITORY).head := hclone.head _ repository_mem
  rw [hview] at hvisible
  obtain ⟨_, _, _, baseline, -, -, -, -, hcheck, -⟩ := capture_eq_ok.1 hnow
  obtain ⟨bytes, manifest, record, hash, hbytes, hloads, hrecords, hreads, hhash, -, -⟩ :=
    CkbSourceBaseline.check_eq_ok.1 hcheck
  rw [withRows, hview] at hbytes hreads
  have hmanifest : MANIFEST ∈ kept tools checkout "." := by
    obtain ⟨mode, hfile⟩ := CkbSourceBaseline.view_of_readBytes hclosed overlay_not_link
      CkbSourceBaseline.sourceName_MANIFEST hbytes
    refine mem_kept_of_path howned (by simp [REPOS]) ?_ owned_manifest
    rw [baseOf_root, List.nil_append]
    exact (kept_of_overlay hfile).1
  refine ⟨?_, hvisible, fun name hname => ?_, hmanifest,
    fun bytes' manifest' record' hbytes' hloads' hrecords' => ?_⟩
  · refine apartFromHead_of_inventory hcheckout hcapture hclone hfree hview fun repo hrepo => ?_
    obtain ⟨info, hinfo, -⟩ := hinventories repo hrepo
    exact ⟨info, hinfo⟩
  · obtain ⟨upstream, items, names, hashes, hcollect, -, -, hnames, hhashes, -⟩ :=
      CkbSourceBaseline.tree_eq_ok.1 hhash
    obtain ⟨rfl, -⟩ := CkbSourceBaseline.upstreamNames hcollect
    obtain ⟨additions, -, rfl⟩ := CkbSourceBaseline.addNames_eq_ok hnames
    obtain ⟨hsource, howned'⟩ := owned_headFile hcheckout hcapture repository_mem hname
    obtain ⟨row, hrow, hrow'⟩ := List.mem_map.1 hname
    obtain ⟨hashed, hhashed⟩ := CkbSourceBaseline.exists_hashRow hhashes
      (CkbSourceBaseline.mem_sortedNames.2 (List.mem_append_left additions
        (htree ▸ List.mem_map.2 ⟨row, (List.mem_filter.1 hrow).1, hrow'⟩)))
    obtain ⟨mode, bytes', hfile⟩ := CkbSourceBaseline.view_of_hashRow
      (by rw [withRows, hview]; exact hclosed) (by rw [withRows, hview]; exact overlay_not_link)
      hsource (plain_base hcheckout repository_mem) hhashed
    rw [withRows, hview] at hfile
    exact mem_kept_of_path howned repository_mem (kept_of_overlay hfile).1 howned'
  · have hsame' := readBytes_overlay hcheckout hcapture hclone hfree hmanifest
    obtain rfl := Except.ok.inj (hbytes.symm.trans (hsame'.trans hbytes'))
    obtain rfl := Except.ok.inj (hloads.symm.trans hloads')
    rw [hhead] at hrecords
    obtain rfl := hrecords.unique hrecords'
    exact hreads

end RoundTrip

/-! ## Three repositories with a patch -/

/-- `json.dumps(text)`. -/
def quoted (text : String) : List Char := '\"' :: (text.toList.flatMap escapeChar ++ ['\"'])

mutual

/-- `json.dumps(value, sort_keys=True, separators=(",", ":"))`, of a value without floats. -/
def compact : Json → List Char
  | .null => "null".toList
  | .bool value => (if value then "true" else "false").toList
  | .int value => (toString value).toList
  | .float _ => []
  | .str text => quoted text
  | .arr items => '[' :: ((compactItems items).intersperse [',']).flatten ++ [']']
  | .obj fields =>
      '\x7b' :: ((((compactFields fields).insertionSort fun row row' => row.1 ≤ row'.1).map
        fun row => quoted row.1 ++ ':' :: row.2).intersperse [',']).flatten ++ ['\x7d']
termination_by structural value => value

def compactItems : List Json → List (List Char)
  | [] => []
  | item :: items => compact item :: compactItems items
termination_by structural items => items

def compactFields : List (String × Json) → List (String × List Char)
  | [] => []
  | field :: fields => compactField field :: compactFields fields
termination_by structural fields => fields

def compactField : String × Json → String × List Char
  | (key, value) => (key, compact value)
termination_by structural field => field

end

/-- The bytes of a text of ASCII characters. -/
def asciiBytes (text : List Char) : List UInt8 := text.map fun c => c.toNat.toUInt8

def ROOT_HEAD : String := "1111111111111111111111111111111111111111"

def CKB_HEAD : String := "2222222222222222222222222222222222222222"

def SAIL_HEAD : String := "3333333333333333333333333333333333333333"

def upstreamSource : List UInt8 := asciiBytes "0\n".toList

def patchedSource : List UInt8 := asciiBytes "1\n".toList

def patchText : List UInt8 :=
  asciiBytes "--- a/lib.rs\n+++ b/lib.rs\n@@ -1 +1 @@\n-0\n+1\n".toList

def SOURCE_SHA256 : String := "4355a46b19d348dc2f57c046f8ef63d4538ebb936000f3c9ee954a27460dd865"

def PATCH_SHA256 : String := "1be6d30c5b0cc1d83ab399a6a5e8d72d97aa82b275f6d23eae01d5d75a99160d"

def TREE_SHA256 : String := "bcfdf0e86c38a97bd57d86c76e6e03e52a01dcf247dc252341da15c6a76c2b6c"

def patchRecord : Record where
  commit := .str CKB_HEAD
  patch := "fix.patch"
  patchSha256 := .str PATCH_SHA256
  inputs := [("deps/ckb-vm/lib.rs", .str SOURCE_SHA256)]
  added := .arr []
  treeSha256 := .str TREE_SHA256
  baselineId := .str "reviewed"

def patchManifest : Json :=
  .obj [("added_files", .arr []), ("baseline_id", .str "reviewed"),
    ("extraction_inputs", .obj [("deps/ckb-vm/lib.rs", .str SOURCE_SHA256)]),
    ("patch", .str "fix.patch"), ("patch_sha256", .str PATCH_SHA256), ("schema_version", .int 1),
    ("source_tree_sha256", .str TREE_SHA256), ("upstream_commit", .str CKB_HEAD)]

def manifestText : List UInt8 := asciiBytes (compact patchManifest)

/-- What the source tree of the submodule is hashed as. -/
def treeText : List UInt8 :=
  asciiBytes (compact (.obj [("lib.rs",
    .obj [("mode", .str "100644"), ("sha256", .str SOURCE_SHA256)])]))

def blobText (bytes : List UInt8) : List UInt8 :=
  (s!"blob {bytes.length}").toUTF8.toList ++ 0 :: bytes

/-- SHA-1 of the blobs of these files. -/
def blobDigest (text : List UInt8) : String :=
  if text = blobText [] then "e69de29bb2d1d6434b8b29ae775ad8c2e48c5391"
  else if text = blobText upstreamSource then "573541ac9702dd3969c9bc859d2b91ec1f7e6e56"
  else if text = blobText patchedSource then "d00491fd7e5bb6fa28c517a0bb32b8b506539d4d"
  else if text = blobText patchText then "af2ad52ae723065d55a4120c0ea3bd272145ac17"
  else "7add2c95b13e2588acdde5bf566bd6f0d6ed4700"

/-- SHA-256 of these files and of a snapshot. -/
def digestOf (snapshotSha256 : String) (bytes : List UInt8) : String :=
  if bytes = [] then "e3b0c44298fc1c149afbf4c8996fb92427ae41e4649b934ca495991b7852b855"
  else if bytes = upstreamSource then
    "9a271f2a916b0b6ee6cecb2426f0b3206ef074578be55d9bc94f6f3fe3ab86aa"
  else if bytes = patchedSource then SOURCE_SHA256
  else if bytes = patchText then PATCH_SHA256
  else if bytes = treeText then TREE_SHA256
  else if bytes = manifestText then
    "2210f05bd26dbb456315d96ae730141ab038fe255609ac3174318baa30e9aca5"
  else snapshotSha256

/-- Nothing is ignored. -/
def patchTools (snapshotSha256 : String) : Tools where
  sha1 := blobDigest
  sha256 := digestOf snapshotSha256
  canonical := fun value => asciiBytes (compact value)
  loads := fun bytes => if bytes = manifestText then .ok patchManifest else .error .valueError
  ignores := fun _ _ _ => false
  reverseApplies := fun tree bytes =>
    bytes = patchText && filesIn tree ["lib.rs"] = some patchedSource
  newMode := 0o644

def fileRow (name : String) (bytes : List UInt8) : GitRow :=
  ⟨"100644", "blob", blobDigest (blobText bytes), name⟩

def linkRow (name head : String) : GitRow := ⟨"160000", "commit", head, name⟩

def patchHead (repo : String) : String :=
  if repo = "." then ROOT_HEAD else if repo = "deps/ckb-vm" then CKB_HEAD else SAIL_HEAD

/-- The rows of HEAD. -/
def patchTree (repo : String) : List GitRow :=
  if repo = "." then
    [linkRow "deps/ckb-vm" CKB_HEAD, linkRow "deps/sail-riscv" SAIL_HEAD,
      fileRow "fix.patch" patchText, fileRow "notes" [], fileRow MANIFEST manifestText]
  else if repo = "deps/ckb-vm" then [fileRow "lib.rs" upstreamSource]
  else [fileRow "LICENSE" []]

/-- The repositories, with this index in the root. -/
def patchRepository (index : List GitRow) (repo : String) : Repository where
  head := patchHead repo
  tree := patchTree repo
  index := if repo = "." then index else patchTree repo
  nested := if repo = "." then REPOS.tail.map baseOf else []
  excludes := ""
  alternates := false
  sharedObjects := false

def patchRows (source : List UInt8) (patchMode : Nat) (others : WorkRows) : WorkRows :=
  [([], .directory), (["deps"], .directory), (["deps", "ckb-vm"], .directory),
    (["deps", "ckb-vm", "lib.rs"], .file 0o644 source), (["deps", "sail-riscv"], .directory),
    (["deps", "sail-riscv", "LICENSE"], .file 0o644 []),
    (["fix.patch"], .file patchMode patchText), (["proof"], .directory),
    (["proof", "lean"], .directory), (["proof", "lean", "extraction"], .directory),
    (["proof", "lean", "extraction", "ckb-source-baseline.json"],
      .file 0o644 manifestText)] ++ others

def patchCheckout (index : List GitRow) (rows : WorkRows) : Checkout where
  rows := rows
  outside := ⟨fun _ => none, fun _ => none⟩
  repository := patchRepository index

def patchClone : Checkout :=
  patchCheckout (patchTree ".") (patchRows upstreamSource 0o644 [(["notes"], .file 0o644 [])])

theorem isGitTree_patch {repo : String} (hrepo : repo ∈ REPOS) : IsGitTree (patchTree repo) := by
  rcases mem_REPOS.1 hrepo with rfl | rfl | rfl
  · exact ⟨by decide +kernel, by decide +kernel⟩
  · exact ⟨by decide +kernel, by decide +kernel⟩
  · exact ⟨by decide +kernel, by decide +kernel⟩

theorem isCheckout_patch {index : List GitRow} {rows : WorkRows} (hdistinct : rows.Distinct)
    (hparent : ∀ row ∈ rows, row.1 ≠ [] → rows.view row.1.dropLast = some .directory)
    (hplain : ∀ row ∈ rows, Plain row.1)
    (hbases : ∀ repo ∈ REPOS, rows.view (baseOf repo) = some .directory) :
    IsCheckout (patchCheckout index rows) :=
  ⟨hdistinct, closed_of_rows hdistinct hparent hplain, hbases, fun _ => isGitTree_patch⟩

theorem isCheckout_clone : IsCheckout patchClone :=
  isCheckout_patch (by decide +kernel) (by decide +kernel) (by decide +kernel) (by decide +kernel)

theorem freshClone_patch (snapshotSha256 : String) (index : List GitRow) (rows : WorkRows) :
    FreshClone (patchTools snapshotSha256) (patchCheckout index rows) patchClone where
  head := fun _ _ => rfl
  tree := fun _ _ => rfl
  index := by
    intro repo hrepo
    rcases mem_REPOS.1 hrepo with rfl | rfl | rfl <;> rfl
  independent := fun _ _ => ⟨rfl, rfl⟩
  nested := by
    intro repo hrepo place
    rcases mem_REPOS.1 hrepo with rfl | rfl | rfl
    · simp [patchClone, patchCheckout, patchRepository, REPOS]
    · simp [patchClone, patchCheckout, patchRepository]
    · simp [patchClone, patchCheckout, patchRepository]
  distinct := isCheckout_clone.distinct
  closed := isCheckout_clone.closed
  bases := isCheckout_clone.bases
  files := by
    -- the digest of the snapshot is not asked for
    have hclean : ∀ repo ∈ REPOS, ∀ row ∈ patchTree repo, isGitlink row = false →
        unchanged (patchTools "") (patchClone.rows.below (baseOf repo)) row = true := by
      decide +kernel
    exact hclean
  only := by
    have hrows : ∀ row ∈ patchClone.rows, (∃ repo ∈ REPOS, ∃ name ∈ headFiles (patchTree repo),
          row.1 = baseOf repo ++ split name) ∨
        row.2 = .directory ∧ ∃ repo ∈ REPOS, row.1 <+: baseOf repo ∨
          ∃ name ∈ headFiles (patchTree repo), Above row.1 (baseOf repo ++ split name) := by
      decide +kernel
    exact fun path node hnode => hrows _ ((mem_iff_view isCheckout_clone.distinct).2 hnode)

/-- `notes` is deleted, `more/note` is new, the patch is executable and applied. -/
def editedCheckout : Checkout :=
  patchCheckout (patchTree ".") (patchRows patchedSource 0o755
    [(["more"], .directory), (["more", "note"], .file 0o755 [])])

def editedTools : Tools :=
  patchTools "25fc23c0b15f030636b3105f3d56a7d859b76c336b49b35e2397107211ee0d75"

/-- `notes/a` stands in the index and in the working tree, where HEAD has the file `notes`. -/
def movedCheckout : Checkout :=
  patchCheckout [linkRow "deps/ckb-vm" CKB_HEAD, linkRow "deps/sail-riscv" SAIL_HEAD,
      fileRow "fix.patch" patchText, fileRow "notes/a" [], fileRow MANIFEST manifestText]
    (patchRows patchedSource 0o644 [(["notes"], .directory), (["notes", "a"], .file 0o644 [])])

def movedTools : Tools :=
  patchTools "84a9534c41cf2dfafb40b16e9ddcdb1538fa4a4c8ebc5eb4d17e8e3d851050e7"

/-- The changes of each repository. -/
def Snapshot.operations (snapshot : Snapshot) : List (List (String × String)) :=
  snapshot.repositories.map fun repository =>
    repository.2.changesFromHead.map fun change => (change.1, change.2.operation)

theorem exists_of_toOption {α β γ : Type} {value : Except α β} {f : β → γ} {c : γ}
    (h : value.toOption.map f = some c) : ∃ b, value = .ok b ∧ f b = c := by
  cases value with
  | error => cases h
  | ok b => exact ⟨b, rfl, Option.some.inj h⟩

theorem capture_edited : ∃ snapshot, capture editedTools editedCheckout = .ok snapshot ∧
    snapshot.operations = [[("fix.patch", "modified"), ("more/note", "added"),
      ("notes", "deleted")], [("lib.rs", "modified")], []] :=
  exists_of_toOption (by decide +kernel)

theorem capture_moved : ∃ snapshot, capture movedTools movedCheckout = .ok snapshot ∧
    snapshot.operations = [[("notes/a", "added"), ("notes", "deleted")],
      [("lib.rs", "modified")], []] :=
  exists_of_toOption (by decide +kernel)

theorem isCheckout_edited : IsCheckout editedCheckout :=
  isCheckout_patch (by decide +kernel) (by decide +kernel) (by decide +kernel) (by decide +kernel)

theorem isCheckout_moved : IsCheckout movedCheckout :=
  isCheckout_patch (by decide +kernel) (by decide +kernel) (by decide +kernel) (by decide +kernel)

theorem records_patch : Records patchManifest CKB_HEAD patchRecord where
  version := ⟨.int 1, rfl, Json.eq_self _⟩
  commit := rfl
  head := Json.eq_self _
  patch := rfl
  patchSha256 := rfl
  inputs := ⟨_, rfl, rfl⟩
  added := rfl
  treeSha256 := rfl
  baselineId := rfl

theorem restorable_edited : Restorable editedTools editedCheckout patchClone where
  apart := by decide +kernel
  visible := by decide +kernel
  upstream := by decide +kernel
  manifest := by decide +kernel
  inputs := by
    intro bytes manifest record hbytes hloads hrecords
    have hsplit : split MANIFEST =
        ["proof", "lean", "extraction", "ckb-source-baseline.json"] := by decide
    have hview : editedCheckout.rows.view (split MANIFEST) = some (.file 0o644 manifestText) := by
      rw [hsplit]
      rfl
    have hread : readBytes editedCheckout.rows.view editedCheckout.outside MANIFEST =
        .ok manifestText :=
      CkbSourceBaseline.readBytes_of_view isCheckout_edited.closed
        CkbSourceBaseline.sourceName_MANIFEST hview
    have hload : editedTools.loads manifestText = .ok patchManifest := by
      simp only [editedTools, patchTools, if_true]
    obtain rfl := Except.ok.inj (hread.symm.trans hbytes)
    obtain rfl := Except.ok.inj (hload.symm.trans hloads)
    obtain rfl := records_patch.unique hrecords
    refine ⟨⟨patchText, by rfl, by decide +kernel, by decide +kernel⟩, fun input hinput => ?_⟩
    obtain rfl := List.mem_singleton.1 hinput
    exact ⟨patchedSource, by rfl, by decide +kernel⟩

/-- A captured checkout makes the round trip if and only if it is restorable. -/
theorem roundTrip_iff {tools : Tools} {checkout clone : Checkout} {snapshot : Snapshot}
    (hcheckout : IsCheckout checkout)
    (hcapture : capture tools checkout = .ok snapshot) (hclone : FreshClone tools checkout clone) :
    RoundTrip tools checkout clone snapshot ↔ Restorable tools checkout clone :=
  ⟨restorable_of_roundTrip hcheckout hcapture hclone,
    roundTrip_of_restorable hcheckout hcapture hclone⟩

/-- Restored onto a fresh clone, `notes` is a directory where the index of the clone has a
file. -/
theorem not_roundTrip_moved : IsCheckout movedCheckout ∧
    FreshClone movedTools movedCheckout patchClone ∧
    ∃ snapshot, capture movedTools movedCheckout = .ok snapshot ∧
      snapshot.operations = [[("notes/a", "added"), ("notes", "deleted")],
        [("lib.rs", "modified")], []] ∧
      ¬RoundTrip movedTools movedCheckout patchClone snapshot := by
  obtain ⟨snapshot, hcapture, hoperations⟩ := capture_moved
  have hclone : FreshClone movedTools movedCheckout patchClone := freshClone_patch _ _ _
  refine ⟨isCheckout_moved, hclone, snapshot, hcapture, hoperations, fun h => ?_⟩
  have happart : ¬ApartFromHead movedTools movedCheckout := by decide +kernel
  exact happart (restorable_of_roundTrip isCheckout_moved hcapture hclone h).apart

/-- Files that are added, deleted, modified and made executable make the round trip. -/
theorem roundTrip_iff_edited : ∃ snapshot, capture editedTools editedCheckout = .ok snapshot ∧
    snapshot.operations = [[("fix.patch", "modified"), ("more/note", "added"),
      ("notes", "deleted")], [("lib.rs", "modified")], []] ∧
    RoundTrip editedTools editedCheckout patchClone snapshot := by
  obtain ⟨snapshot, hcapture, hoperations⟩ := capture_edited
  refine ⟨snapshot, hcapture, hoperations, ?_⟩
  exact (roundTrip_iff isCheckout_edited hcapture (freshClone_patch _ _ _)).2 restorable_edited

end CkbSail.Scripts.SourceSnapshot
