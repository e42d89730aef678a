import CkbSail.Scripts.Proofs.CapsuleRoundTrip

/-!
# Inspection is sound and complete

Both directions, and the capsule of a snapshot with one file in each repository.
-/

namespace CkbSail.Scripts.SourceCapsule

open PythonStd ReleaseCommon
open FixedInputs (Stage)

/-- An inspection that accepts has found the capsule of a valid snapshot of the candidate,
and nothing else; and it accepts what is written for a valid snapshot whose files are all
there.  `canonical` and `jsonBytes` are two texts of a value, and `loads` reads the second:
the first forgets the order of the keys. -/
theorem inspect_sound_complete (loads : List UInt8 → Stage Json)
    (jsonBytes canonical : Json → List UInt8) (sha256 : List UInt8 → String)
    (hcanonical : ∀ left right : Json, left.dumpsEq right = true →
      canonical left = canonical right) :
    (∀ file archive candidate expectedSnapshot snapshot rows,
      inspect loads canonical sha256 file archive candidate expectedSnapshot =
          .ok (snapshot, rows) →
        IsCapsule loads canonical sha256 archive candidate snapshot) ∧
      ∀ file candidate snapshot files, regular file = .ok () →
        validateSnapshot canonical sha256 snapshot candidate = .ok snapshot →
        CapsuleFiles jsonBytes sha256 snapshot files → Readable loads jsonBytes snapshot →
        ∃ manifest, capsuleManifest sha256 candidate snapshot files = .ok manifest ∧
          (Readable loads jsonBytes manifest → ∃ members read rows,
            writeTarGz files [("MANIFEST.json", jsonBytes manifest)] [] = .ok members ∧
            inspect loads canonical sha256 file (stored members) candidate none =
              .ok (read, rows) ∧ snapshot.dumpsEq read = true) := by
  refine ⟨fun _ _ _ _ _ _ h => inspect_sound h, fun file candidate snapshot files hfile haccepted
    hfiles hreadable => ?_⟩
  have hvalid := (validateSnapshot_eq_ok.1 haccepted).2
  obtain ⟨manifest, hmanifest⟩ := exists_capsuleManifest hvalid files
  refine ⟨manifest, hmanifest, fun hreadableManifest => ?_⟩
  obtain ⟨members, hmembers, hstored⟩ := hfiles.writeTarGz hvalid manifest
  obtain ⟨read, rows, hinspect, hsame⟩ := inspect_archiveOf hcanonical hvalid hfiles hmanifest
    hreadable hreadableManifest hfile
  exact ⟨members, read, rows, hmembers, hstored ▸ hinspect, hsame⟩

/-! ## A capsule of three licences -/

/-- The bytes of a text in pieces of at most 100 characters. -/
def ascii (pieces : List String) : List UInt8 :=
  pieces.flatMap fun piece => (piece.toList.take 100).map fun c => c.toNat.toUInt8

theorem ascii_cons (piece : String) (pieces : List String) : ascii (piece :: pieces) =
    (piece.toList.take 100).map (fun c => c.toNat.toUInt8) ++ ascii pieces :=
  List.flatMap_cons

theorem length_ascii_le (pieces : List String) :
    (ascii pieces).length ≤ 100 * pieces.length := by
  induction pieces with
  | nil => exact Nat.le_refl 0
  | cons piece pieces ih =>
      rw [ascii_cons, List.length_append, List.length_map, List.length_take, List.length_cons]
      omega

theorem ascii_cons_ne_nil {piece : String} (h : piece.toList ≠ []) (pieces : List String) :
    ascii (piece :: pieces) ≠ [] := by
  intro hnil
  rw [ascii_cons, List.append_eq_nil_iff, List.map_eq_nil_iff, List.take_eq_nil_iff] at hnil
  rcases hnil.1 with hzero | hnil
  · cases hzero
  · exact h hnil

/-- `canonical` of the snapshot without its digest. -/
def bodyText : List UInt8 :=
  ascii ["\x7b",
    "\"ckb_source_baseline\":null,\"identity_kind\":\"HEAD-plus-byte-inventoried-working-tree",
    "-not-a-commit\",\"ignored_build_and_evidence_files_included\":false,\"repositories\":",
    "\x7b\".\":\x7b\"changes_from_head\":\x7b\x7d,\"files\":\x7b\"LICENSE\":\x7b\"mode\":\"10",
    "0644\",\"sha256\":\"e3b0c44298fc1c149afbf4c8996fb92427ae41e4649b934ca495991b7852b855\",",
    "\"size\":0\x7d\x7d,\"gitlinks\":\x7b\"deps/ckb-vm\":\"2222222222222222222222222222222222",
    "222222\",\"deps/sail-riscv\":\"3333333333333333333333333333333333333333\"\x7d,\"head\":",
    "\"1111111111111111111111111111111111111111\"\x7d,\"deps/ckb-vm\":\x7b\"changes_from_head",
    "\":\x7b\x7d,\"files\":\x7b\"LICENSE\":\x7b\"mode\":\"100644\",\"sha256\":\"e3b0c44298fc1",
    "c149afbf4c8996fb92427ae41e4649b934ca495991b7852b855\",\"size\":0\x7d\x7d,\"gitlinks\":",
    "\x7b\x7d,\"head\":\"2222222222222222222222222222222222222222\"\x7d,\"deps/sail-riscv\":",
    "\x7b\"changes_from_head\":\x7b\x7d,\"files\":\x7b\"LICENSE\":\x7b\"mode\":\"100644\",\"s",
    "ha256\":\"e3b0c44298fc1c149afbf4c8996fb92427ae41e4649b934ca495991b7852b855\",\"size\":0",
    "\x7d\x7d,\"gitlinks\":\x7b\x7d,\"head\":\"3333333333333333333333333333333333333333\"\x7d",
    "\x7d,\"schema_version\":1,\"semantic_review_claimed\":false\x7d"]

/-- `json_bytes` of the snapshot. -/
def snapshotText : List UInt8 :=
  ascii ["\x7b\n  \"c",
    "kb_source_baseline\": null,\n  \"identity_kind\": \"HEAD-plus-byte-inventoried-working-t",
    "ree-not-a-commit\",\n  \"ignored_build_and_evidence_files_included\": false,\n  \"reposi",
    "tories\": \x7b\n    \".\": \x7b\n      \"changes_from_head\": \x7b\x7d,\n      \"files\"",
    ": \x7b\n        \"LICENSE\": \x7b\n          \"mode\": \"100644\",\n          \"sha256\"",
    ": \"e3b0c44298fc1c149afbf4c8996fb92427ae41e4649b934ca495991b7852b855\",\n          \"siz",
    "e\": 0\n        \x7d\n      \x7d,\n      \"gitlinks\": \x7b\n        \"deps/ckb-vm\": \"",
    "2222222222222222222222222222222222222222\",\n        \"deps/sail-riscv\": \"333333333333",
    "3333333333333333333333333333\"\n      \x7d,\n      \"head\": \"1111111111111111111111111",
    "111111111111111\"\n    \x7d,\n    \"deps/ckb-vm\": \x7b\n      \"changes_from_head\": ",
    "\x7b\x7d,\n      \"files\": \x7b\n        \"LICENSE\": \x7b\n          \"mode\": \"10064",
    "4\",\n          \"sha256\": \"e3b0c44298fc1c149afbf4c8996fb92427ae41e4649b934ca495991b78",
    "52b855\",\n          \"size\": 0\n        \x7d\n      \x7d,\n      \"gitlinks\": \x7b",
    "\x7d,\n      \"head\": \"2222222222222222222222222222222222222222\"\n    \x7d,\n    \"de",
    "ps/sail-riscv\": \x7b\n      \"changes_from_head\": \x7b\x7d,\n      \"files\": \x7b\n  ",
    "      \"LICENSE\": \x7b\n          \"mode\": \"100644\",\n          \"sha256\": \"e3b0c4",
    "4298fc1c149afbf4c8996fb92427ae41e4649b934ca495991b7852b855\",\n          \"size\": 0\n  ",
    "      \x7d\n      \x7d,\n      \"gitlinks\": \x7b\x7d,\n      \"head\": \"33333333333333",
    "33333333333333333333333333\"\n    \x7d\n  \x7d,\n  \"schema_version\": 1,\n  \"semantic_",
    "review_claimed\": false,\n  \"snapshot_sha256\": \"0a467d9d049276e6566f40c82333b75b7ea82",
    "932da3efb0ce2d031186bcda824\"\n\x7d\n"]

/-- `json_bytes` of the manifest. -/
def manifestText : List UInt8 :=
  ascii ["\x7b\n  \"b",
    "undles\": \x7b\n    \".\": \x7b\n      \"head\": \"1111111111111111111111111111111111111",
    "111\",\n      \"path\": \"root.bundle\"\n    \x7d,\n    \"deps/ckb-vm\": \x7b\n      \"h",
    "ead\": \"2222222222222222222222222222222222222222\",\n      \"path\": \"ckb.bundle\"\n  ",
    "  \x7d,\n    \"deps/sail-riscv\": \x7b\n      \"head\": \"333333333333333333333333333333",
    "3333333333\",\n      \"path\": \"sail.bundle\"\n    \x7d\n  \x7d,\n  \"candidate\": \"11",
    "11111111111111111111111111111111111111\",\n  \"kind\": \"source-capsule-v1\",\n  \"membe",
    "rs\": \x7b\n    \"ckb.bundle\": \x7b\n      \"mode\": 420,\n      \"sha256\": \"e3b0c442",
    "98fc1c149afbf4c8996fb92427ae41e4649b934ca495991b7852b855\",\n      \"size\": 0\n    \x7d",
    ",\n    \"payload/LICENSE\": \x7b\n      \"mode\": 420,\n      \"sha256\": \"e3b0c44298fc",
    "1c149afbf4c8996fb92427ae41e4649b934ca495991b7852b855\",\n      \"size\": 0\n    \x7d,\n ",
    "   \"payload/deps/ckb-vm/LICENSE\": \x7b\n      \"mode\": 420,\n      \"sha256\": \"e3b0",
    "c44298fc1c149afbf4c8996fb92427ae41e4649b934ca495991b7852b855\",\n      \"size\": 0\n    ",
    "\x7d,\n    \"payload/deps/sail-riscv/LICENSE\": \x7b\n      \"mode\": 420,\n      \"sha2",
    "56\": \"e3b0c44298fc1c149afbf4c8996fb92427ae41e4649b934ca495991b7852b855\",\n      \"siz",
    "e\": 0\n    \x7d,\n    \"root.bundle\": \x7b\n      \"mode\": 420,\n      \"sha256\": \"",
    "e3b0c44298fc1c149afbf4c8996fb92427ae41e4649b934ca495991b7852b855\",\n      \"size\": 0\n",
    "    \x7d,\n    \"sail.bundle\": \x7b\n      \"mode\": 420,\n      \"sha256\": \"e3b0c442",
    "98fc1c149afbf4c8996fb92427ae41e4649b934ca495991b7852b855\",\n      \"size\": 0\n    \x7d",
    ",\n    \"source-snapshot.json\": \x7b\n      \"mode\": 420,\n      \"sha256\": \"49423b8",
    "5ec45ed0a3da158c213d1bb9df0e6363b847506cffd7457fbc54edfa0\",\n      \"size\": 1466\n    ",
    "\x7d\n  \x7d,\n  \"schema_version\": 1,\n  \"source_snapshot_sha256\": \"0a467d9d049276e",
    "6566f40c82333b75b7ea82932da3efb0ce2d031186bcda824\"\n\x7d\n"]

def EMPTY_SHA256 : String := "e3b0c44298fc1c149afbf4c8996fb92427ae41e4649b934ca495991b7852b855"

def BODY_SHA256 : String := "0a467d9d049276e6566f40c82333b75b7ea82932da3efb0ce2d031186bcda824"

/-- SHA-256 of the empty file and of these texts. -/
def digestOf (bytes : List UInt8) : String :=
  if bytes = [] then EMPTY_SHA256
  else if bytes = bodyText then BODY_SHA256
  else if bytes = snapshotText then
    "49423b85ec45ed0a3da158c213d1bb9df0e6363b847506cffd7457fbc54edfa0"
  else "39d34f6ac2b93a8ba328a3472afebd18087c83f4876fa72f75721456eb6483ef"

def ROOT_HEAD : String := "1111111111111111111111111111111111111111"

def CKB_HEAD : String := "2222222222222222222222222222222222222222"

def SAIL_HEAD : String := "3333333333333333333333333333333333333333"

def licenseRow : Json :=
  .obj [("mode", .str "100644"), ("sha256", .str EMPTY_SHA256), ("size", .int 0)]

def licenseRepository (links : List (String × Json)) (head : String) : Json :=
  .obj [("changes_from_head", .obj []), ("files", .obj [("LICENSE", licenseRow)]),
    ("gitlinks", .obj links), ("head", .str head)]

def licenseLinks : List (String × Json) :=
  [("deps/ckb-vm", .str CKB_HEAD), ("deps/sail-riscv", .str SAIL_HEAD)]

def licenseRepositories : List (String × Json) :=
  [(".", licenseRepository licenseLinks ROOT_HEAD),
    ("deps/ckb-vm", licenseRepository [] CKB_HEAD),
    ("deps/sail-riscv", licenseRepository [] SAIL_HEAD)]

/-- An empty licence in each repository, as committed. -/
def licenseSnapshot : Json :=
  .obj [("ckb_source_baseline", .null), ("identity_kind", .str IDENTITY_KIND),
    ("ignored_build_and_evidence_files_included", .bool false),
    ("repositories", .obj licenseRepositories), ("schema_version", .int 1),
    ("semantic_review_claimed", .bool false), ("snapshot_sha256", .str BODY_SHA256)]

def licenseSource (path : String) (bytes : List UInt8) : Source where
  path := path
  linked := false
  isFile := true
  mode := 0o100644
  bytes := bytes
  mtime := 0
  uid := 0
  gid := 0
  uname := ""
  gname := ""

def licenseFiles : List (String × Source) :=
  ("source-snapshot.json", licenseSource "source-snapshot.json" snapshotText) ::
    ["root.bundle", "ckb.bundle", "sail.bundle", "payload/LICENSE", "payload/deps/ckb-vm/LICENSE",
      "payload/deps/sail-riscv/LICENSE"].map fun name => (name, licenseSource name [])

def licenseManifest : Json :=
  ((capsuleManifest digestOf ROOT_HEAD licenseSnapshot licenseFiles).toOption).getD .null

def licenseCanonical (value : Json) : List UInt8 :=
  if value.truthy then bodyText else ascii ["null"]

def licenseJsonBytes (value : Json) : List UInt8 :=
  if value.hasKeys
    ["schema_version", "kind", "candidate", "source_snapshot_sha256", "bundles", "members"]
  then manifestText else snapshotText

def licenseLoads (bytes : List UInt8) : Stage Json :=
  if bytes = manifestText then .ok licenseManifest
  else if bytes = snapshotText then .ok licenseSnapshot
  else .error (.python .valueError)

theorem validFile_license : ValidFile ("LICENSE", licenseRow) where
  safe := Or.inr ⟨by simp [FORBIDDEN], by decide +kernel⟩
  outsideGit := by decide +kernel
  mode := ⟨"100644", rfl, Or.inl rfl⟩
  size := ⟨0, rfl⟩
  sha256 := ⟨EMPTY_SHA256, rfl, by simp [FixedInputs.sha256Matches, EMPTY_SHA256]⟩

theorem validRepository_license {name head : String} {links : List (String × Json)}
    (hhead : isOid head = true) (hlinks : name ≠ "." → links = []) :
    ValidRepository (name, licenseRepository links head) where
  keys := rfl
  head := ⟨head, rfl, hhead⟩
  unnested := fun hname => ⟨.obj links, rfl, by rw [hlinks hname]; rfl⟩
  files := by
    refine ⟨[("LICENSE", licenseRow)], rfl, rfl, fun file row hrow => ?_⟩
    rw [Json.lookup_cons] at hrow
    split_ifs at hrow with hfile
    · subst hfile
      cases hrow
      exact validFile_license
    · cases hrow

theorem validRepositories_license : ValidRepositories ROOT_HEAD (.obj licenseRepositories) where
  keys := by decide +kernel
  oid := by simp [isOid, ROOT_HEAD]
  head := rfl
  gitlinks := ⟨_, licenseLinks, CKB_HEAD, SAIL_HEAD, rfl, rfl, rfl, rfl, fun _ => rfl⟩
  each := by
    intro name info hinfo
    rw [Json.getItem_obj_eq_ok, licenseRepositories, Json.lookup_cons, Json.lookup_cons,
      Json.lookup_cons] at hinfo
    split_ifs at hinfo with hroot hckb hsail
    · cases hinfo
      exact validRepository_license (by simp [isOid, ROOT_HEAD]) fun hname => absurd hroot hname
    · cases hinfo
      exact validRepository_license (by simp [isOid, CKB_HEAD]) fun _ => rfl
    · cases hinfo
      exact validRepository_license (by simp [isOid, SAIL_HEAD]) fun _ => rfl
    · cases hinfo
  sail := ⟨_, .obj [], rfl, rfl, rfl⟩

theorem bodyText_ne_nil : bodyText ≠ [] := ascii_cons_ne_nil (by simp) _

theorem validSnapshot_license :
    ValidSnapshot licenseCanonical digestOf licenseSnapshot ROOT_HEAD where
  keys := by decide +kernel
  schema := ⟨.int 1, rfl, rfl⟩
  kind := rfl
  ignored := rfl
  review := rfl
  digest := by
    refine ⟨BODY_SHA256, ?_, rfl⟩
    have hdigest : digestOf bodyText = BODY_SHA256 := by
      rw [digestOf, if_neg bodyText_ne_nil, if_pos rfl]
    rw [← hdigest]
    rfl
  repositories := ⟨_, rfl, validRepositories_license⟩

theorem snapshotFile_license {repository name : String} {row : Json}
    (h : SnapshotFile licenseSnapshot repository name row) :
    repository ∈ REPOSITORIES ∧ name = "LICENSE" ∧ row = licenseRow := by
  have hrepository := (repository_of_snapshotFile validSnapshot_license h).1
  obtain ⟨_, info, files, hrepositories, hinfo, hfiles, hrow⟩ := h
  cases hrepositories
  have hinfoFiles : files = [("LICENSE", licenseRow)] := by
    rw [Json.getItem_obj_eq_ok, licenseRepositories, Json.lookup_cons, Json.lookup_cons,
      Json.lookup_cons] at hinfo
    split_ifs at hinfo
    all_goals
      cases hinfo
    all_goals
      cases hfiles
      rfl
  rw [hinfoFiles, Json.lookup_cons] at hrow
  split_ifs at hrow with hname
  · exact ⟨hrepository, hname, (Option.some.inj hrow).symm⟩
  · cases hrow

theorem mode_licenseSource (path : String) (bytes : List UInt8) :
    (licenseSource path bytes).mode &&& 0o777 = 0o644 := by simp [licenseSource]

theorem mem_licenseFiles {name : String}
    (h : name ∈ ["root.bundle", "ckb.bundle", "sail.bundle", "payload/LICENSE",
      "payload/deps/ckb-vm/LICENSE", "payload/deps/sail-riscv/LICENSE"]) :
    (name, licenseSource name []) ∈ licenseFiles :=
  List.mem_cons_of_mem _ (List.mem_map_of_mem h)

theorem capsuleFiles_license :
    CapsuleFiles licenseJsonBytes digestOf licenseSnapshot licenseFiles where
  nodup := by decide +kernel
  regular := by
    intro file hfile
    simp only [licenseFiles, List.map_cons, List.map_nil, List.mem_cons, List.not_mem_nil,
      or_false] at hfile
    rcases hfile with rfl | rfl | rfl | rfl | rfl | rfl | rfl <;> rfl
  posix := by
    have hnames : ∀ name ∈ licenseFiles.map Prod.fst, asPosix name = name := by decide +kernel
    exact fun file hfile => hnames _ (List.mem_map_of_mem hfile)
  source := ⟨_, List.mem_cons_self, rfl, rfl⟩
  bundles := fun name hname => ⟨_, mem_licenseFiles (List.mem_append_left
    ["payload/LICENSE", "payload/deps/ckb-vm/LICENSE", "payload/deps/sail-riscv/LICENSE"] hname),
    mode_licenseSource name []⟩
  payload := by
    intro repository name row hrow
    obtain ⟨hrepository, rfl, rfl⟩ := snapshotFile_license hrow
    refine ⟨licenseSource (payloadName repository "LICENSE") [], mem_licenseFiles ?_, rfl, rfl,
      Or.inl ⟨rfl, congrArg Nat.cast (mode_licenseSource _ [])⟩⟩
    have hnames : ∀ repository ∈ REPOSITORIES, payloadName repository "LICENSE" ∈
        ["root.bundle", "ckb.bundle", "sail.bundle", "payload/LICENSE",
          "payload/deps/ckb-vm/LICENSE", "payload/deps/sail-riscv/LICENSE"] := by decide +kernel
    exact hnames repository hrepository
  only := by
    intro file hfile
    rcases List.mem_cons.1 hfile with rfl | hfile
    · exact Or.inl rfl
    · obtain ⟨name, hname, rfl⟩ := List.mem_map.1 hfile
      have hrow : ∀ repository info, (Json.obj licenseRepositories).getItem repository = .ok info →
          info.getItem "files" = .ok (.obj [("LICENSE", licenseRow)]) →
          SnapshotFile licenseSnapshot repository "LICENSE" licenseRow :=
        fun repository info hinfo hfiles => ⟨_, info, _, rfl, hinfo, hfiles, rfl⟩
      simp only [List.mem_cons, List.not_mem_nil, or_false] at hname
      rcases hname with rfl | rfl | rfl | rfl | rfl | rfl
      · exact Or.inr (Or.inl List.mem_cons_self)
      · exact Or.inr (Or.inl (List.mem_cons_of_mem _ List.mem_cons_self))
      · exact Or.inr (Or.inl (List.mem_cons_of_mem _ (List.mem_cons_of_mem _ List.mem_cons_self)))
      · exact Or.inr (Or.inr ⟨".", "LICENSE", _, hrow _ _ rfl rfl, rfl⟩)
      · exact Or.inr (Or.inr ⟨"deps/ckb-vm", "LICENSE", _, hrow _ _ rfl rfl, rfl⟩)
      · exact Or.inr (Or.inr ⟨"deps/sail-riscv", "LICENSE", _, hrow _ _ rfl rfl, rfl⟩)

theorem snapshotText_ne_manifestText : snapshotText ≠ manifestText := by
  intro hsame
  rw [snapshotText, manifestText, ascii_cons, ascii_cons] at hsame
  have hfirst := (List.append_inj hsame (by simp)).1
  simp at hfirst

theorem readable_licenseSnapshot : Readable licenseLoads licenseJsonBytes licenseSnapshot where
  reads := by
    refine ⟨licenseSnapshot, ?_, Json.dumpsEq_self _⟩
    show licenseLoads snapshotText = _
    rw [licenseLoads, if_neg snapshotText_ne_manifestText, if_pos rfl]
  nonempty := by
    exact ascii_cons_ne_nil (by simp) _
  length_le := by
    refine (length_ascii_le _).trans ?_
    simp only [List.length_cons, List.length_nil]
    decide

theorem jsonBytes_licenseManifest
    (h : capsuleManifest digestOf ROOT_HEAD licenseSnapshot licenseFiles = .ok licenseManifest) :
    licenseJsonBytes licenseManifest = manifestText := by
  obtain ⟨digest, -, h⟩ := Py.bind_eq_ok.1 h
  obtain ⟨bundles, -, h⟩ := Py.bind_eq_ok.1 h
  rw [← Except.ok.inj h]
  rfl

theorem readable_licenseManifest
    (h : capsuleManifest digestOf ROOT_HEAD licenseSnapshot licenseFiles = .ok licenseManifest) :
    Readable licenseLoads licenseJsonBytes licenseManifest := by
  have htext := jsonBytes_licenseManifest h
  refine ⟨⟨licenseManifest, ?_, Json.dumpsEq_self _⟩, ?_, ?_⟩
  · rw [htext, licenseLoads, if_pos rfl]
  · rw [htext]
    exact ascii_cons_ne_nil (by simp) _
  · rw [htext]
    refine (length_ascii_le _).trans ?_
    simp only [List.length_cons, List.length_nil]
    decide

theorem licenseCanonical_congr (left right : Json) (h : left.dumpsEq right = true) :
    licenseCanonical left = licenseCanonical right := by
  rw [licenseCanonical, licenseCanonical, Json.truthy_of_dumpsEq h]

/-- The capsule of three licences is accepted and is what it should be. -/
theorem inspect_sound_complete_licenses : ∃ members read rows,
    writeTarGz licenseFiles [("MANIFEST.json", manifestText)] [] = .ok members ∧
      inspect licenseLoads licenseCanonical digestOf
        (licenseSource "source-capsule.tar.gz" []).toFileContents (stored members) ROOT_HEAD none =
          .ok (read, rows) ∧
      IsCapsule licenseLoads licenseCanonical digestOf (stored members) ROOT_HEAD read := by
  have hboth := inspect_sound_complete licenseLoads licenseJsonBytes licenseCanonical digestOf
    licenseCanonical_congr
  obtain ⟨manifest, hmanifest, hbuilt⟩ :=
    hboth.2 (licenseSource "source-capsule.tar.gz" []).toFileContents ROOT_HEAD licenseSnapshot
      licenseFiles rfl (validateSnapshot_eq_ok.2 ⟨rfl, validSnapshot_license⟩) capsuleFiles_license
      readable_licenseSnapshot
  obtain rfl : licenseManifest = manifest := by
    rw [licenseManifest, hmanifest]
    rfl
  obtain ⟨members, read, rows, hmembers, hinspect, -⟩ :=
    hbuilt (readable_licenseManifest hmanifest)
  rw [jsonBytes_licenseManifest hmanifest] at hmembers
  exact ⟨members, read, rows, hmembers, hinspect, hboth.1 _ _ _ _ _ _ hinspect⟩

end CkbSail.Scripts.SourceCapsule
