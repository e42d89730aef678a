import CkbSail.Scripts.Proofs.SourceCapsule

/-!
# A new capsule is accepted

The files `create` gathers, the manifest it writes of them and the archive of both pass
the inspection, whatever order of keys the two JSON texts are read back in.
-/

namespace CkbSail.Scripts.SourceCapsule

open PythonStd ReleaseCommon ProofSupport
open FixedInputs (Stage StageError raised noneRaised raised_eq_ok stage_bind_eq_ok)

/-! ## Names of payloads -/

theorem safeName_append_slash {start name : String} (hstart : SafeName start)
    (hname : SafeName name) : SafeName (start ++ "/" ++ name) := by
  constructor
  · intro c hc
    rw [String.toList_append, String.toList_append, List.mem_append, List.mem_append] at hc
    rcases hc with (hc | hc) | hc
    · exact hstart.characters c hc
    · obtain rfl : c = '/' := by simpa using hc
      decide
    · exact hname.characters c hc
  · intro part hpart
    rw [split_append_slash, List.mem_append] at hpart
    rcases hpart with hpart | hpart
    · exact hstart.components part hpart
    · exact hname.components part hpart

/-- The directory of the payloads of a repository. -/
theorem exists_payloadName {repository : String} (h : repository ∈ REPOSITORIES) :
    ∃ directory, SafeName directory ∧ ∀ name,
      payloadName repository name = directory ++ "/" ++ name := by
  have hpayload : SafeName "payload" := ⟨by simp [FORBIDDEN], by decide +kernel⟩
  have hnames : REPOSITORIES = [".", "deps/ckb-vm", "deps/sail-riscv"] := by decide
  rw [hnames] at h
  simp only [List.mem_cons, List.not_mem_nil, or_false] at h
  rcases h with rfl | rfl | rfl
  · exact ⟨"payload", hpayload, fun name => rfl⟩
  · exact ⟨"payload" ++ "/" ++ "deps/ckb-vm", safeName_append_slash hpayload
      ⟨by simp [FORBIDDEN], by decide +kernel⟩, fun name => rfl⟩
  · exact ⟨"payload" ++ "/" ++ "deps/sail-riscv", safeName_append_slash hpayload
      ⟨by simp [FORBIDDEN], by decide +kernel⟩, fun name => rfl⟩

theorem safeName_payload {repository name : String} (hrepository : repository ∈ REPOSITORIES)
    (hname : name = "." ∨ SafeName name)
    (hposix : asPosix (payloadName repository name) = payloadName repository name) :
    safeName (payloadName repository name) = .ok (payloadName repository name) := by
  obtain ⟨directory, hdirectory, hpayload⟩ := exists_payloadName hrepository
  rw [hpayload] at hposix ⊢
  refine safeName_eq_ok.2 ⟨rfl, Or.inr (safeName_append_slash hdirectory ?_)⟩
  rcases hname with rfl | hname
  · exfalso
    have hne : directory ++ "/" ++ "." ≠ "." := by
      intro hsame
      have hlength := congrArg (fun text => text.toList.length) hsame
      simp at hlength
    have hparts := split_of_asPosix hposix hne
    have hmem : "." ∈ split (directory ++ "/" ++ ".") := by
      rw [split_append_slash]
      exact List.mem_append_right _ (by decide)
    rw [hparts, parts, List.mem_filter] at hmem
    simp at hmem
  · exact hname

theorem payloadName_ne_manifest (repository name : String) :
    payloadName repository name ≠ "MANIFEST.json" := by
  intro h
  have hhead := congrArg (fun text => text.toList.head?) h
  simp [payloadName, String.toList_append] at hhead

/-! ## What is gathered -/

/-- A JSON text that can be read back from an archive. -/
structure Readable (loads : List UInt8 → Stage Json) (jsonBytes : Json → List UInt8)
    (value : Json) : Prop where
  reads : ∃ read, loads (jsonBytes value) = .ok read ∧ value.dumpsEq read = true
  nonempty : jsonBytes value ≠ []
  length_le : (jsonBytes value).length ≤ 16 * 1024 ^ 2

/-- The files below the directory of a new capsule: the snapshot, the bundles and every
file of the snapshot with the bytes and the mode recorded of it. -/
structure CapsuleFiles (jsonBytes : Json → List UInt8) (sha256 : List UInt8 → String)
    (snapshot : Json) (files : List (String × Source)) : Prop where
  nodup : (files.map Prod.fst).Nodup
  regular : ∀ file ∈ files, regular file.2.toFileContents = .ok ()
  posix : ∀ file ∈ files, asPosix file.1 = file.1
  source : ∃ source, ("source-snapshot.json", source) ∈ files ∧
    source.bytes = jsonBytes snapshot ∧ source.mode &&& 0o777 = 0o644
  bundles : ∀ name ∈ BUNDLES.map Prod.snd, ∃ source, (name, source) ∈ files ∧
    source.mode &&& 0o777 = 0o644
  payload : ∀ repository name row, SnapshotFile snapshot repository name row →
    ∃ source, (payloadName repository name, source) ∈ files ∧
      Records row source.bytes.length (sha256 source.bytes) (source.mode &&& 0o777 : Nat)
  only : ∀ file ∈ files, file.1 = "source-snapshot.json" ∨ file.1 ∈ BUNDLES.map Prod.snd ∨
    ∃ repository name row, SnapshotFile snapshot repository name row ∧
      file.1 = payloadName repository name

section Files

variable {jsonBytes : Json → List UInt8} {canonical : Json → List UInt8}
  {sha256 : List UInt8 → String} {snapshot : Json} {files : List (String × Source)}
  {candidate : String}

theorem CapsuleFiles.unique (h : CapsuleFiles jsonBytes sha256 snapshot files) {name : String}
    {source source' : Source} (hmem : (name, source) ∈ files) (hmem' : (name, source') ∈ files) :
    source = source' := by
  have hlookup := (lookup_eq_some_iff_mem h.nodup).2 hmem
  rw [(lookup_eq_some_iff_mem h.nodup).2 hmem'] at hlookup
  exact (Option.some.inj hlookup).symm

theorem CapsuleFiles.mode (h : CapsuleFiles jsonBytes sha256 snapshot files) {name : String}
    {source : Source} (hmem : (name, source) ∈ files) :
    ((source.mode &&& 0o777 : Nat) : Int) = 0o644 ∨
      ((source.mode &&& 0o777 : Nat) : Int) = 0o755 := by
  rcases h.only _ hmem with rfl | hbundle | ⟨repository, file, row, hrow, rfl⟩
  · obtain ⟨source', hmem', -, hmode⟩ := h.source
    rw [h.unique hmem hmem', hmode]
    exact Or.inl rfl
  · obtain ⟨source', hmem', hmode⟩ := h.bundles _ hbundle
    rw [h.unique hmem hmem', hmode]
    exact Or.inl rfl
  · obtain ⟨source', hmem', hrecords⟩ := h.payload repository file row hrow
    rw [h.unique hmem hmem']
    exact hrecords.mode.imp And.right And.right

theorem repository_of_snapshotFile (hvalid : ValidSnapshot canonical sha256 snapshot candidate)
    {repository name : String} {row : Json} (h : SnapshotFile snapshot repository name row) :
    repository ∈ REPOSITORIES ∧ ValidFile (name, row) := by
  obtain ⟨repositories, info, files, hrepositories, hinfo, hfiles, hrow⟩ := h
  obtain ⟨_, hvalue, hvalid⟩ := hvalid.repositories
  rw [hrepositories] at hvalue
  cases hvalue
  obtain ⟨_, hrows, -, hall⟩ := (hvalid.each repository info hinfo).files
  rw [hfiles] at hrows
  cases hrows
  exact ⟨Json.mem_of_getItem_of_hasKeys hvalid.keys hinfo, hall name row hrow⟩

theorem CapsuleFiles.safe (h : CapsuleFiles jsonBytes sha256 snapshot files)
    (hvalid : ValidSnapshot canonical sha256 snapshot candidate) {file : String × Source}
    (hmem : file ∈ files) : safeName file.1 = .ok file.1 := by
  have hplain : ∀ name, SafeName name → safeName name = .ok name := fun name hname =>
    safeName_eq_ok.2 ⟨rfl, Or.inr hname⟩
  rcases h.only file hmem with hname | hname | ⟨repository, name, row, hrow, hname⟩
  · rw [hname]
    exact hplain _ ⟨by simp [FORBIDDEN], by decide +kernel⟩
  · have hnames : BUNDLES.map Prod.snd = ["root.bundle", "ckb.bundle", "sail.bundle"] := rfl
    rw [hnames] at hname
    simp only [List.mem_cons, List.not_mem_nil, or_false] at hname
    rcases hname with hname | hname | hname
    all_goals
      rw [hname]
      exact hplain _ ⟨by simp [FORBIDDEN], by decide +kernel⟩
  · have hposix := h.posix file hmem
    obtain ⟨hrepository, hfile⟩ := repository_of_snapshotFile hvalid hrow
    rw [hname] at hposix ⊢
    exact safeName_payload hrepository hfile.safe hposix

theorem CapsuleFiles.manifest_notMem (h : CapsuleFiles jsonBytes sha256 snapshot files) :
    "MANIFEST.json" ∉ files.map Prod.fst := by
  intro hmem
  obtain ⟨file, hfile, hname⟩ := List.mem_map.1 hmem
  rcases h.only file hfile with hsnapshot | hbundle | ⟨repository, name, row, -, hpayload⟩
  · rw [hsnapshot] at hname
    exact absurd hname (by decide)
  · rw [hname] at hbundle
    exact absurd hbundle (by decide)
  · exact payloadName_ne_manifest repository name (hpayload.symm.trans hname)

theorem lookup_memberEntry (h : CapsuleFiles jsonBytes sha256 snapshot files) {name : String}
    {row : Json} :
    Json.lookup name ((sortedItems files).map (memberEntry sha256)) = some row ↔
      ∃ source, (name, source) ∈ files ∧
        row = fileRow source.bytes.length (sha256 source.bytes) (source.mode &&& 0o777 : Nat) := by
  have hkeys : (((sortedItems files).map (memberEntry sha256)).map Prod.fst).Nodup := by
    rw [List.map_map]
    exact ((perm_sortedItems files).map Prod.fst).nodup_iff.2 h.nodup
  rw [Json.lookup, lookup_eq_some_iff_mem hkeys, List.mem_map]
  constructor
  · rintro ⟨⟨name', source⟩, hfile, hsame⟩
    obtain ⟨rfl, rfl⟩ := Prod.mk.inj hsame
    exact ⟨source, mem_sortedItems.1 hfile, rfl⟩
  · rintro ⟨source, hfile, rfl⟩
    exact ⟨(name, source), mem_sortedItems.2 hfile, rfl⟩

end Files

/-! ## The archive -/

section Archive

variable {sha256 : List UInt8 → String} {items : List Content}

/-- The archive of some contents. -/
def archiveOf (items : List Content) : Archive := stored (items.map Content.member)

theorem mem_archiveOf {item : Member} :
    item ∈ (archiveOf items).members ↔ ∃ content ∈ items, content.member.stored = item := by
  simp [archiveOf, stored]

theorem map_name_archiveOf : (archiveOf items).members.map Member.name = items.map Prod.fst := by
  rw [archiveOf, stored, List.map_map, List.map_map]
  rfl

theorem regularMembers_archiveOf :
    regularMembers (archiveOf items).members = (archiveOf items).members := by
  refine List.filter_eq_self.2 fun item hitem => ?_
  obtain ⟨content, -, rfl⟩ := mem_archiveOf.1 hitem
  rfl

theorem tarInventory_archiveOf (hne : items ≠ [])
    (hsafe : ∀ content ∈ items, safeName content.1 = .ok content.1)
    (hnodup : (items.map Prod.fst).Nodup) :
    tarInventory sha256 (archiveOf items) = .ok (items.map (Content.row sha256), []) := by
  have hread : readMembers sha256 (archiveOf items).members ⟨[], [], []⟩ =
      .ok ⟨items.map (Content.row sha256), [], (items.map Prod.fst).reverse⟩ := by
    rw [archiveOf, stored, List.map_map, readMembers_contents hsafe hnodup (by simp)]
    simp
  rw [tarInventory, hread]
  simp [archiveOf, stored, SailModelTransaction.require, hne, bind, Except.bind, pure, Except.pure]

/-- With every key once a key picks one item. -/
theorem filter_eq_singleton {α : Type} {f : α → String} {xs : List α} {x : α}
    (hnodup : (xs.map f).Nodup) (hmem : x ∈ xs) :
    xs.filter (fun y => f y = f x) = [x] := by
  induction xs with
  | nil => cases hmem
  | cons y xs ih =>
      rw [List.map_cons, List.nodup_cons] at hnodup
      rcases List.mem_cons.1 hmem with rfl | hmem
      · rw [List.filter_cons_of_pos (by simp)]
        congr 1
        refine List.filter_eq_nil_iff.2 fun z hz => ?_
        rw [decide_eq_true_eq]
        exact fun hsame => hnodup.1 (hsame ▸ List.mem_map_of_mem hz)
      · rw [List.filter_cons_of_neg, ih hnodup.2 hmem]
        rw [decide_eq_true_eq]
        exact fun hsame => hnodup.1 (hsame ▸ List.mem_map_of_mem hmem)

theorem archiveMemberBytes_archiveOf (hnodup : (items.map Prod.fst).Nodup) {content : Content}
    (hmem : content ∈ items) (hne : content.2.1 ≠ []) (hle : content.2.1.length ≤ 16 * 1024 ^ 2) :
    archiveMemberBytes (archiveOf items) content.1 = .ok content.2.1 := by
  have hmember : content.member.stored ∈ (archiveOf items).members :=
    mem_archiveOf.2 ⟨content, hmem, rfl⟩
  have hpos := List.length_pos_iff.2 hne
  refine archiveMemberBytes_eq_ok.2 ⟨rfl, rfl, content.member.stored,
    filter_eq_singleton (map_name_archiveOf ▸ hnodup) hmember, ⟨rfl, ?_, ?_⟩, rfl,
    bytes_member content⟩
  · exact Int.natCast_pos.2 hpos
  · exact Int.ofNat_le.2 hle

end Archive

/-! ## The manifest -/

section Manifest

variable {sha256 : List UInt8 → String} {canonical : Json → List UInt8} {snapshot : Json}
  {candidate : String} {files : List (String × Source)}

theorem bundleEntry_eq_ok {repositories : Json} {bundle : String × String} {entry : String × Json}
    (hrepositories : snapshot.getItem "repositories" = .ok repositories) :
    bundleEntry snapshot bundle = .ok entry ↔ ∃ head, headOf repositories bundle.1 = .ok head ∧
      entry = (bundle.1, .obj [("path", .str bundle.2), ("head", head)]) := by
  simp only [bundleEntry, Py.bind_eq_ok, hrepositories, Except.ok.injEq, exists_eq_left',
    Py.pure_eq_ok, eq_comm (b := entry)]

theorem lookup_bundles {repositories : Json}
    (hrepositories : snapshot.getItem "repositories" = .ok repositories)
    {items : List (String × String)} {entries : List (String × Json)}
    (h : List.Forall₂ (fun bundle entry => bundleEntry snapshot bundle = .ok entry) items entries)
    {name path : String} (hname : items.lookup name = some path) :
    ∃ head, headOf repositories name = .ok head ∧
      Json.lookup name entries = some (.obj [("path", .str path), ("head", head)]) := by
  induction h with
  | nil => cases hname
  | cons hentry _ ih =>
      obtain ⟨head, hhead, rfl⟩ := (bundleEntry_eq_ok hrepositories).1 hentry
      rw [Json.lookup_cons]
      rw [lookup_row] at hname
      split_ifs at hname ⊢ with hsame
      · subst hsame
        cases hname
        exact ⟨head, hhead, rfl⟩
      · exact ih hname

theorem exists_collect {α β : Type} (f : α → Py β) (items : List α)
    (h : ∀ item ∈ items, ∃ b, f item = .ok b) : ∃ results, Py.collect f items = .ok results := by
  induction items with
  | nil => exact ⟨[], rfl⟩
  | cons item items ih =>
      obtain ⟨b, hb⟩ := h item List.mem_cons_self
      obtain ⟨bs, hbs⟩ := ih fun other hother => h other (List.mem_cons_of_mem _ hother)
      exact ⟨b :: bs, by rw [Py.collect, hb, hbs]⟩

theorem exists_headOf {repositories : Json} (h : ValidRepositories candidate repositories)
    {name : String} (hname : name ∈ REPOSITORIES) :
    ∃ info head, repositories.getItem name = .ok info ∧ info.getItem "head" = .ok (.str head) ∧
      headOf repositories name = .ok (.str head) := by
  obtain ⟨info, hinfo⟩ := Json.exists_getItem_of_hasKeys h.keys hname
  obtain ⟨head, hhead, -⟩ := (h.each name info hinfo).head
  exact ⟨info, head, hinfo, hhead, headOf_eq_ok.2 ⟨info, hinfo, hhead⟩⟩

theorem exists_capsuleManifest (h : ValidSnapshot canonical sha256 snapshot candidate)
    (files : List (String × Source)) :
    ∃ manifest, capsuleManifest sha256 candidate snapshot files = .ok manifest := by
  obtain ⟨digest, -, hdigest⟩ := h.digest
  obtain ⟨repositories, hrepositories, hvalid⟩ := h.repositories
  obtain ⟨bundles, hbundles⟩ := exists_collect (bundleEntry snapshot) BUNDLES
    fun bundle hbundle => by
      obtain ⟨_, head, -, -, hhead⟩ := exists_headOf hvalid
        (List.mem_map_of_mem (f := Prod.fst) hbundle)
      exact ⟨_, (bundleEntry_eq_ok hrepositories).2 ⟨_, hhead, rfl⟩⟩
  exact ⟨_, Py.bind_eq_ok.2 ⟨_, hdigest, Py.bind_eq_ok.2 ⟨bundles, hbundles, rfl⟩⟩⟩

/-- What is found in a manifest read back from its text. -/
structure ReadManifest (sha256 : List UInt8 → String) (candidate : String) (repositories : Json)
    (digest : String) (files : List (String × Source)) (manifest : Json) : Prop where
  keys : manifest.hasKeys
    ["schema_version", "kind", "candidate", "source_snapshot_sha256", "bundles", "members"] = true
  schema : manifest.getItem "schema_version" = .ok (.int 1)
  kind : manifest.getItem "kind" = .ok (.str "source-capsule-v1")
  candidate : manifest.getItem "candidate" = .ok (.str candidate)
  digest : manifest.getItem "source_snapshot_sha256" = .ok (.str digest)
  bundles : ∃ bundles, manifest.getItem "bundles" = .ok bundles ∧ ∀ name path,
    BUNDLES.lookup name = some path → ∃ head bundle, headOf repositories name = .ok (.str head) ∧
      bundles.getItem name = .ok bundle ∧
        bundle.eq (.obj [("path", .str path), ("head", .str head)]) = true
  members : ∃ members, manifest.getItem "members" = .ok (.obj members) ∧
    (∀ name source, (name, source) ∈ files → ∃ row, Json.lookup name members = some row ∧
      (fileRow source.bytes.length (sha256 source.bytes)
        (source.mode &&& 0o777 : Nat)).dumpsEq row = true) ∧
    ∀ name, (Json.lookup name members).isSome = true → name ∈ files.map Prod.fst

theorem mem_repositories_of_lookup {name path : String} (h : BUNDLES.lookup name = some path) :
    name ∈ REPOSITORIES := by
  have hnodup : (BUNDLES.map Prod.fst).Nodup := by decide
  have hmem := (lookup_eq_some_iff_mem hnodup).1 h
  exact List.mem_map_of_mem (f := Prod.fst) hmem

theorem readManifest_of_dumpsEq {jsonBytes : Json → List UInt8} {manifest read : Json}
    (hvalid : ValidSnapshot canonical sha256 snapshot candidate)
    (hfiles : CapsuleFiles jsonBytes sha256 snapshot files)
    (h : capsuleManifest sha256 candidate snapshot files = .ok manifest)
    (hsame : manifest.dumpsEq read = true) :
    ∃ digest repositories, snapshot.getItem "snapshot_sha256" = .ok (.str digest) ∧
      snapshot.getItem "repositories" = .ok repositories ∧
      ReadManifest sha256 candidate repositories digest files read := by
  obtain ⟨digest, -, hdigest⟩ := hvalid.digest
  obtain ⟨repositories, hrepositories, hvalidRepositories⟩ := hvalid.repositories
  simp only [capsuleManifest, Py.bind_eq_ok, hdigest, Except.ok.injEq, exists_eq_left',
    Py.pure_eq_ok, Py.collect_eq_ok] at h
  obtain ⟨bundles, hbundles, rfl⟩ := h
  refine ⟨digest, repositories, hdigest, hrepositories, Json.hasKeys_of_dumpsEq hsame rfl,
    getItem_int_of_dumpsEq hsame rfl, getItem_str_of_dumpsEq hsame rfl,
    getItem_str_of_dumpsEq hsame rfl, getItem_str_of_dumpsEq hsame rfl, ?_, ?_⟩
  · obtain ⟨bundles', hbundles', hbundlesSame⟩ :=
      Json.getItem_of_dumpsEq hsame (show Json.getItem "bundles" _ = .ok (.obj bundles) from rfl)
    refine ⟨bundles', hbundles', fun name path hname => ?_⟩
    obtain ⟨head, hhead, hbundle⟩ := lookup_bundles hrepositories hbundles hname
    obtain ⟨_, text, -, -, htext⟩ :=
      exists_headOf hvalidRepositories (mem_repositories_of_lookup hname)
    rw [htext] at hhead
    cases hhead
    obtain ⟨bundle, hbundle', hbundleSame⟩ :=
      Json.getItem_of_dumpsEq hbundlesSame (Json.getItem_obj_eq_ok.2 hbundle)
    refine ⟨text, bundle, htext, hbundle', Json.eq_of_dumpsEq_atoms (fun key item hitem => ?_)
      hbundleSame⟩
    exact Or.inr (texts_pair hitem)
  · obtain ⟨value, hmembers, hmembersSame⟩ := Json.getItem_of_dumpsEq hsame
      (show Json.getItem "members" _ = .ok (.obj ((sortedItems files).map (memberEntry sha256)))
        from rfl)
    obtain ⟨members, rfl, -⟩ := Json.obj_dumpsEq_iff.1 hmembersSame
    refine ⟨members, hmembers, fun name source hsource => ?_, fun name hname => ?_⟩
    · obtain ⟨row, hrow, hrowSame⟩ := Json.getItem_of_dumpsEq hmembersSame
        (Json.getItem_obj_eq_ok.2 ((lookup_memberEntry hfiles).2 ⟨source, hsource, rfl⟩))
      exact ⟨row, Json.getItem_obj_eq_ok.1 hrow, hrowSame⟩
    · obtain ⟨row, hrow⟩ := Option.isSome_iff_exists.1 hname
      obtain ⟨item, hitem, -⟩ := lookup_of_dumpsEq hmembersSame hrow
      obtain ⟨source, hsource, -⟩ := (lookup_memberEntry hfiles).1 hitem
      exact List.mem_map_of_mem (f := Prod.fst) hsource

theorem memberRow_of_dumpsEq {size : Nat} {digest : String} {mode : Int} {row : Json}
    (h : (fileRow size digest mode).dumpsEq row = true) (hmode : mode = 0o644 ∨ mode = 0o755) :
    MemberRow row ⟨size, digest⟩ mode :=
  ⟨Json.hasKeys_of_dumpsEq h rfl, ⟨.int size, getItem_int_of_dumpsEq h rfl, rfl⟩,
    getItem_str_of_dumpsEq h rfl, ⟨.int mode, getItem_int_of_dumpsEq h rfl, rfl⟩, hmode⟩

theorem eq_fileRow_of_dumpsEq {size mode : Int} {digest : String} {row : Json}
    (h : (fileRow size digest mode).dumpsEq row = true) :
    row.eq (fileRow size digest mode) = true := by
  refine Json.eq_of_dumpsEq_atoms (fun key item hitem => ?_) h
  simp only [Json.lookup_cons, Json.lookup_nil] at hitem
  split_ifs at hitem
  · exact Or.inl ⟨size, (Option.some.inj hitem).symm⟩
  · exact Or.inr ⟨digest, (Option.some.inj hitem).symm⟩
  · exact Or.inl ⟨mode, (Option.some.inj hitem).symm⟩

end Manifest

/-! ## The inspection of a new capsule -/

section Complete

variable {loads : List UInt8 → Stage Json} {jsonBytes canonical : Json → List UInt8}
  {sha256 : List UInt8 → String} {snapshot : Json} {candidate : String}
  {files : List (String × Source)} {manifest : Json}

/-- What the archive holds: the files and the manifest. -/
def capsuleContents (jsonBytes : Json → List UInt8) (files : List (String × Source))
    (manifest : Json) : List Content :=
  packed files [("MANIFEST.json", jsonBytes manifest)]

theorem mem_capsuleContents {content : Content} :
    content ∈ capsuleContents jsonBytes files manifest ↔
      (∃ file ∈ files, ofFile file = content) ∨
        content = ("MANIFEST.json", jsonBytes manifest, 0o644) := by
  rw [capsuleContents, perm_packed.mem_iff, contents, List.mem_append, List.mem_map]
  simp [ofExtra]

theorem mem_names_capsuleContents {name : String} :
    name ∈ (capsuleContents jsonBytes files manifest).map Prod.fst ↔
      name ∈ files.map Prod.fst ∨ name = "MANIFEST.json" := by
  simp only [List.mem_map, mem_capsuleContents]
  constructor
  · rintro ⟨content, ⟨file, hfile, rfl⟩ | rfl, rfl⟩
    · exact Or.inl ⟨file, hfile, rfl⟩
    · exact Or.inr rfl
  · rintro (⟨file, hfile, rfl⟩ | rfl)
    · exact ⟨ofFile file, Or.inl ⟨file, hfile, rfl⟩, rfl⟩
    · exact ⟨_, Or.inr rfl, rfl⟩

theorem CapsuleFiles.nodup_contents (h : CapsuleFiles jsonBytes sha256 snapshot files)
    (manifest : Json) :
    ((capsuleContents jsonBytes files manifest).map Prod.fst).Nodup := by
  have hperm : ((capsuleContents jsonBytes files manifest).map Prod.fst).Perm
      ((contents files [("MANIFEST.json", jsonBytes manifest)]).map Prod.fst) :=
    perm_packed.map Prod.fst
  rw [hperm.nodup_iff, contents, List.map_append, List.map_map, List.nodup_append]
  refine ⟨h.nodup, List.nodup_singleton _, fun name hname other hother => ?_⟩
  obtain rfl : other = "MANIFEST.json" := by simpa [ofExtra] using hother
  rintro rfl
  exact h.manifest_notMem hname

theorem CapsuleFiles.safe_contents (h : CapsuleFiles jsonBytes sha256 snapshot files)
    (hvalid : ValidSnapshot canonical sha256 snapshot candidate) {content : Content}
    (hmem : content ∈ capsuleContents jsonBytes files manifest) :
    safeName content.1 = .ok content.1 := by
  rcases mem_capsuleContents.1 hmem with ⟨file, hfile, rfl⟩ | rfl
  · exact h.safe hvalid hfile
  · have hname : SafeName "MANIFEST.json" := ⟨by simp [FORBIDDEN], by decide +kernel⟩
    exact safeName_eq_ok.2 ⟨rfl, Or.inr hname⟩

/-- A row read back for a file agrees with the archive. -/
theorem checkMember_of_content (h : CapsuleFiles jsonBytes sha256 snapshot files) {name : String}
    {source : Source} (hsource : (name, source) ∈ files) {row : Json}
    (hrow : (fileRow source.bytes.length (sha256 source.bytes)
      (source.mode &&& 0o777 : Nat)).dumpsEq row = true) :
    checkMember ((capsuleContents jsonBytes files manifest).map (Content.row sha256))
      ((regularMembers (archiveOf (capsuleContents jsonBytes files manifest)).members).reverse.map
        fun item => (item.name, item.mode)) (name, row) = .ok () := by
  have hcontent : ofFile (name, source) ∈ capsuleContents jsonBytes files manifest :=
    mem_capsuleContents.2 (Or.inl ⟨_, hsource, rfl⟩)
  have hnodup := h.nodup_contents manifest
  refine checkMember_eq_ok.2 ⟨⟨source.bytes.length, sha256 source.bytes⟩,
    (source.mode &&& 0o777 : Nat), ?_, ?_, memberRow_of_dumpsEq hrow (h.mode hsource)⟩
  · refine (lookup_eq_some_iff_mem ?_).2 (List.mem_map_of_mem hcontent)
    rw [List.map_map]
    exact hnodup
  · refine (lookup_modes ?_).2 ⟨(ofFile (name, source)).member.stored, ?_, rfl, rfl⟩
    · rw [regularMembers_archiveOf, map_name_archiveOf]
      exact hnodup
    · rw [regularMembers_archiveOf]
      exact mem_archiveOf.2 ⟨_, hcontent, rfl⟩

/-- A file of the snapshot as it is read back. -/
theorem snapshotFile_of_dumpsEq {read : Json}
    (hvalid : ValidSnapshot canonical sha256 snapshot candidate)
    (hsame : snapshot.dumpsEq read = true) {repository name : String} {row : Json}
    (h : SnapshotFile read repository name row) :
    ∃ row', SnapshotFile snapshot repository name row' ∧ row'.dumpsEq row = true := by
  obtain ⟨repositories, info, files, hrepositories, hinfo, hfiles, hrow⟩ := h
  obtain ⟨repositories', hrepositories', hvalid'⟩ := hvalid.repositories
  obtain ⟨repositories'', hread, hrepositoriesSame⟩ := Json.getItem_of_dumpsEq hsame hrepositories'
  rw [hrepositories] at hread
  cases hread
  obtain ⟨info', hinfo', hinfoSame⟩ :=
    getItem_back_of_dumpsEq hrepositoriesSame ⟨_, hvalid'.keys⟩ hinfo
  have hkeys := (hvalid'.each repository info' hinfo').keys
  obtain ⟨value, hvalue, hfilesSame⟩ := getItem_back_of_dumpsEq hinfoSame ⟨_, hkeys⟩ hfiles
  obtain ⟨rows, hrows, -⟩ := (hvalid'.each repository info' hinfo').files
  rw [hvalue] at hrows
  cases hrows
  obtain ⟨row', hrow', hrowSame⟩ := lookup_of_dumpsEq hfilesSame hrow
  exact ⟨row', ⟨repositories', info', rows, hrepositories', hinfo', hvalue, hrow'⟩, hrowSame⟩

theorem exists_snapshotFile_of_dumpsEq {read : Json} (hsame : snapshot.dumpsEq read = true)
    {repository name : String} {row : Json} (h : SnapshotFile snapshot repository name row) :
    ∃ row', SnapshotFile read repository name row' := by
  obtain ⟨repositories, info, files, hrepositories, hinfo, hfiles, hrow⟩ := h
  obtain ⟨repositories', hrepositories', hsame⟩ := Json.getItem_of_dumpsEq hsame hrepositories
  obtain ⟨info', hinfo', hsame⟩ := Json.getItem_of_dumpsEq hsame hinfo
  obtain ⟨value, hvalue, hsame⟩ := Json.getItem_of_dumpsEq hsame hfiles
  obtain ⟨files', rfl, -⟩ := Json.obj_dumpsEq_iff.1 hsame
  obtain ⟨row', hrow', -⟩ := Json.getItem_of_dumpsEq hsame (Json.getItem_obj_eq_ok.2 hrow)
  exact ⟨row', repositories', info', files', hrepositories', hinfo', hvalue,
    Json.getItem_obj_eq_ok.1 hrow'⟩

theorem Records.of_dumpsEq {row read : Json} {size mode : Int} {digest : String}
    (h : Records row size digest mode) (hsame : row.dumpsEq read = true) :
    Records read size digest mode :=
  ⟨getItem_int_of_dumpsEq hsame h.size, getItem_str_of_dumpsEq hsame h.sha256,
    h.mode.imp (And.imp_left (getItem_str_of_dumpsEq hsame))
      (And.imp_left (getItem_str_of_dumpsEq hsame))⟩

/-- The names and rows the inspection looks for are those of the manifest. -/
theorem exists_expected {repositories read snapshotRead : Json} {digest : String}
    {members : List (String × Json)}
    (hvalid : ValidSnapshot canonical sha256 snapshot candidate)
    (hfiles : CapsuleFiles jsonBytes sha256 snapshot files)
    (hrepositories : snapshot.getItem "repositories" = .ok repositories)
    (hread : ReadManifest sha256 candidate repositories digest files read)
    (hmembers : read.getItem "members" = .ok (.obj members))
    (hsame : snapshot.dumpsEq snapshotRead = true)
    (hvalidRead : ValidSnapshot canonical sha256 snapshotRead candidate) :
    ∃ fields expected, snapshotRead.getItem "repositories" = .ok (.obj fields) ∧
      Py.loop (checkBundle read (.obj members)) (Json.bindings fields)
        ("source-snapshot.json" :: BUNDLES.map Prod.snd) = .ok expected ∧
      (Json.obj members).hasKeys expected = true := by
  obtain ⟨_, hvalue, hall, honly⟩ := hread.members
  rw [hmembers] at hvalue
  cases hvalue
  obtain ⟨bundles, hbundles, hbundle⟩ := hread.bundles
  obtain ⟨value, hvalue, hvalidRepositories⟩ := hvalidRead.repositories
  obtain ⟨fields, rfl, -⟩ := Json.hasKeys_iff.1 hvalidRepositories.keys
  obtain ⟨_, hvalue', hrepositoriesSame⟩ := Json.getItem_of_dumpsEq hsame hrepositories
  rw [hvalue] at hvalue'
  cases hvalue'
  have hpayload : ∀ repository name row, SnapshotFile snapshotRead repository name row →
      PayloadMatches members repository name row := by
    intro repository name row hrow
    obtain ⟨row', hrow', hrowSame⟩ := snapshotFile_of_dumpsEq hvalid hsame hrow
    obtain ⟨source, hsource, hrecords⟩ := hfiles.payload repository name row' hrow'
    obtain ⟨recorded, hrecorded, hrecordedSame⟩ := hall _ source hsource
    exact ⟨_, _, _, recorded, hrecords.of_dumpsEq hrowSame, hrecorded,
      eq_fileRow_of_dumpsEq hrecordedSame⟩
  have hrepository : ∀ name info, (name, info) ∈ Json.bindings fields →
      ValidRepository (name, info) ∧ BundleMatches read name info := by
    intro name info hinfo
    have hitem := Json.getItem_obj_eq_ok.2 (Json.mem_bindings.1 hinfo)
    have hname := Json.mem_of_getItem_of_hasKeys hvalidRepositories.keys hitem
    obtain ⟨path, hpath⟩ : ∃ path, BUNDLES.lookup name = some path := by
      obtain ⟨bundle, hbundle, rfl⟩ := List.mem_map.1 hname
      exact ⟨bundle.2, (lookup_eq_some_iff_mem (by decide)).2 hbundle⟩
    obtain ⟨head, bundle, hhead, hbundleItem, heq⟩ := hbundle name path hpath
    obtain ⟨info', hinfo', hinfoHead⟩ := headOf_eq_ok.1 (headOf_of_dumpsEq hrepositoriesSame hhead)
    rw [hitem] at hinfo'
    cases hinfo'
    exact ⟨hvalidRepositories.each name info hitem, bundles, bundle, path, _, hbundles, hbundleItem,
      hpath, hinfoHead, heq⟩
  obtain ⟨expected, hexpected⟩ := exists_loop (checkBundle read (.obj members))
    (Json.bindings fields) (fun repository hmem names => by
      obtain ⟨name, info⟩ := repository
      obtain ⟨hvalidRepository, hmatches⟩ := hrepository name info hmem
      obtain ⟨rows, hrows, -⟩ := hvalidRepository.files
      exact checkBundle_total hmatches hrows (fun file row hrow => hpayload name file row
        ⟨_, info, rows, hvalue, Json.getItem_obj_eq_ok.2 (Json.mem_bindings.1 hmem), hrows, hrow⟩)
        names) ("source-snapshot.json" :: BUNDLES.map Prod.snd)
  obtain ⟨-, hnames⟩ := loop_names (P := fun _ => True) (Q := PayloadOf)
    (fun repository hmem names final hfinal => by
      obtain ⟨name, info⟩ := repository
      obtain ⟨hvalidRepository, -⟩ := hrepository name info hmem
      obtain ⟨rows, hrows, -⟩ := hvalidRepository.files
      exact ⟨trivial, (checkBundle_sound hvalidRepository hrows hfinal).2⟩) hexpected
  refine ⟨fields, expected, hvalue, hexpected, Json.hasKeys_iff.2 ⟨members, rfl, fun name => ?_⟩⟩
  have hmember : (Json.lookup name members).isSome = true ↔ name ∈ files.map Prod.fst := by
    refine ⟨honly name, fun hmem => ?_⟩
    obtain ⟨⟨name, source⟩, hsource, rfl⟩ := List.mem_map.1 hmem
    obtain ⟨row, hrow, -⟩ := hall name source hsource
    exact Option.isSome_iff_exists.2 ⟨row, hrow⟩
  rw [hmember, hnames, List.mem_cons, or_assoc]
  constructor
  · intro hmem
    obtain ⟨file, hfile, rfl⟩ := List.mem_map.1 hmem
    refine (hfiles.only file hfile).imp_right (Or.imp_right ?_)
    rintro ⟨repository, name, row, hrow, hname⟩
    obtain ⟨row', repositories', info, rows, hrepositories', hinfo, hrows, hrow'⟩ :=
      exists_snapshotFile_of_dumpsEq hsame hrow
    rw [hvalue] at hrepositories'
    cases hrepositories'
    exact ⟨(repository, info), Json.mem_bindings.2 (Json.getItem_obj_eq_ok.1 hinfo), rows, name,
      row', hrows, hrow', hname⟩
  · rintro (rfl | hbundleName | ⟨⟨repository, info⟩, hmem, rows, file, row, hrows, hrow, rfl⟩)
    · obtain ⟨source, hsource, -⟩ := hfiles.source
      exact List.mem_map_of_mem (f := Prod.fst) hsource
    · obtain ⟨source, hsource, -⟩ := hfiles.bundles name hbundleName
      exact List.mem_map_of_mem (f := Prod.fst) hsource
    · obtain ⟨row', hrow', -⟩ := snapshotFile_of_dumpsEq hvalid hsame
        ⟨_, info, rows, hvalue, Json.getItem_obj_eq_ok.2 (Json.mem_bindings.1 hmem), hrows, hrow⟩
      obtain ⟨source, hsource, -⟩ := hfiles.payload repository file row' hrow'
      exact List.mem_map_of_mem (f := Prod.fst) hsource

/-- The archive of a new capsule is accepted, with the snapshot that went into it. -/
theorem inspect_archiveOf {file : FileContents}
    (hcanonical : ∀ left right : Json, left.dumpsEq right = true → canonical left = canonical right)
    (hvalid : ValidSnapshot canonical sha256 snapshot candidate)
    (hfiles : CapsuleFiles jsonBytes sha256 snapshot files)
    (hmanifest : capsuleManifest sha256 candidate snapshot files = .ok manifest)
    (hreadable : Readable loads jsonBytes snapshot)
    (hreadableManifest : Readable loads jsonBytes manifest) (hfile : regular file = .ok ()) :
    ∃ read rows, inspect loads canonical sha256 file
        (archiveOf (capsuleContents jsonBytes files manifest)) candidate none = .ok (read, rows) ∧
      snapshot.dumpsEq read = true := by
  obtain ⟨manifestRead, hloadsManifest, hmanifestSame⟩ := hreadableManifest.reads
  obtain ⟨read, hloads, hsame⟩ := hreadable.reads
  have hvalidRead := hvalid.of_dumpsEq hcanonical hsame
  obtain ⟨digest, repositories, hdigest, hrepositories, hread⟩ :=
    readManifest_of_dumpsEq hvalid hfiles hmanifest hmanifestSame
  obtain ⟨members, hmembers, hall, honly⟩ := hread.members
  obtain ⟨fields, expected, hrepositoriesRead, hexpected, hkeys⟩ :=
    exists_expected hvalid hfiles hrepositories hread hmembers hsame hvalidRead
  have hrows : ∀ row ∈ Json.bindings members, ∃ source, (row.1, source) ∈ files ∧
      (fileRow source.bytes.length (sha256 source.bytes)
        (source.mode &&& 0o777 : Nat)).dumpsEq row.2 = true := by
    rintro ⟨name, row⟩ hrow
    rw [Json.mem_bindings] at hrow
    obtain ⟨⟨name, source⟩, hsource, rfl⟩ := List.mem_map.1 (honly name (by rw [hrow]; rfl))
    obtain ⟨row', hrow', hrowSame⟩ := hall name source hsource
    rw [hrow] at hrow'
    cases hrow'
    exact ⟨source, hsource, hrowSame⟩
  have hnodup := hfiles.nodup_contents manifest
  have hmanifestBytes : archiveMemberBytes
      (archiveOf (capsuleContents jsonBytes files manifest)) "MANIFEST.json" =
        .ok (jsonBytes manifest) :=
    archiveMemberBytes_archiveOf hnodup (mem_capsuleContents.2 (Or.inr rfl))
      hreadableManifest.nonempty hreadableManifest.length_le
  have hsnapshotBytes : archiveMemberBytes
      (archiveOf (capsuleContents jsonBytes files manifest)) "source-snapshot.json" =
        .ok (jsonBytes snapshot) := by
    obtain ⟨source, hsource, hbytes, -⟩ := hfiles.source
    have hbytesOf := archiveMemberBytes_archiveOf hnodup
      (mem_capsuleContents.2 (Or.inl ⟨_, hsource, rfl⟩)) (by
        rw [ofFile, hbytes]
        exact hreadable.nonempty) (by
        rw [ofFile, hbytes]
        exact hreadable.length_le)
    rw [ofFile, hbytes] at hbytesOf
    exact hbytesOf
  have hne : capsuleContents jsonBytes files manifest ≠ [] :=
    List.ne_nil_of_mem (mem_capsuleContents.2 (Or.inr rfl))
  have hsafe : ∀ content ∈ capsuleContents jsonBytes files manifest,
      safeName content.1 = .ok content.1 := fun content hmem => hfiles.safe_contents hvalid hmem
  have hlisting : tarInventory sha256 (archiveOf (capsuleContents jsonBytes files manifest)) =
      .ok ((capsuleContents jsonBytes files manifest).map (Content.row sha256), []) :=
    tarInventory_archiveOf hne hsafe hnodup
  obtain ⟨result, hresult⟩ := exists_collect
    (fun row : String × Json => (sizeAndDigest row.2).map (row.1, ·))
    (Json.bindings members) fun row hrow => by
      obtain ⟨source, -, hrowSame⟩ := hrows row hrow
      have hsize : row.2.getItem "size" = .ok (.int source.bytes.length) :=
        getItem_int_of_dumpsEq hrowSame rfl
      have hdigest : row.2.getItem "sha256" = .ok (.str (sha256 source.bytes)) :=
        getItem_str_of_dumpsEq hrowSame rfl
      exact ⟨_, map_eq_ok.2 ⟨_, Py.bind_eq_ok.2 ⟨_, hsize, Py.bind_eq_ok.2 ⟨_, hdigest, rfl⟩⟩, rfl⟩⟩
  refine ⟨read, result, ?_, hsame⟩
  have hidentity : capsuleIdentity manifestRead candidate = .ok true := by
    rw [capsuleIdentity, hread.schema, hread.kind, hread.candidate]
    simp [Py.conj, Py.and, Except.map]
  have hinventory : sameMembers ((capsuleContents jsonBytes files manifest).map
      (Content.row sha256)) (.obj members) = true := by
    refine sameMembers_iff.2 ⟨members, rfl, fun name => ?_⟩
    rw [List.map_map]
    have hnames : name ∈ (capsuleContents jsonBytes files manifest).map Prod.fst ↔
        name ∈ files.map Prod.fst ∨ name = "MANIFEST.json" := mem_names_capsuleContents
    refine hnames.trans (or_comm.trans (or_congr_right ?_))
    refine ⟨fun hmem => ?_, honly name⟩
    obtain ⟨⟨name, source⟩, hsource, rfl⟩ := List.mem_map.1 hmem
    obtain ⟨row, hrow, -⟩ := hall name source hsource
    exact Option.isSome_iff_exists.2 ⟨row, hrow⟩
  have hmatches : snapshotMatches read manifestRead none = .ok true := by
    rw [snapshotMatches, getItem_str_of_dumpsEq hsame hdigest, hread.digest]
    simp [bind, Except.bind, pure, Except.pure]
  simp only [inspect, stage_bind_eq_ok, raised_eq_ok, mapError_eq_ok, fields_eq_ok,
    requirePy_eq_ok, PythonStd.require_eq_ok, Py.forEach_eq_ok, validateSnapshot_eq_ok,
    memberModes_eq_ok, except_pure_eq_ok]
  refine ⟨(), hfile, _, hmanifestBytes, manifestRead, hloadsManifest, (), hread.keys, (), hidentity,
    _, hlisting, _, hmembers, (), hinventory, _, ⟨rfl, rfl, rfl⟩, _, hsnapshotBytes, read, hloads,
    read, ⟨rfl, hvalidRead⟩, _, rfl, (), ?_, (), hmatches, _, hrepositoriesRead, _, rfl, expected,
    hexpected, (), hkeys, result, hresult, rfl⟩
  rintro ⟨name, row⟩ hrow
  obtain ⟨source, hsource, hrowSame⟩ := hrows _ hrow
  exact checkMember_of_content hfiles hsource hrowSame

theorem CapsuleFiles.writeTarGz (h : CapsuleFiles jsonBytes sha256 snapshot files)
    (hvalid : ValidSnapshot canonical sha256 snapshot candidate) (manifest : Json) :
    ∃ members, writeTarGz files [("MANIFEST.json", jsonBytes manifest)] [] = .ok members ∧
      stored members = archiveOf (capsuleContents jsonBytes files manifest) := by
  refine ⟨_, writeTarGz_of_safe h.regular fun content hmem => ?_, rfl⟩
  have hcontent : content ∈ capsuleContents jsonBytes files manifest := perm_packed.mem_iff.2 hmem
  exact h.safe_contents hvalid hcontent

end Complete

end CkbSail.Scripts.SourceCapsule
