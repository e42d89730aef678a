import CkbSail.PythonStd.Dict
import CkbSail.Scripts.FixedInputs

/-!
# Source capsules

A capsule is an archive of one candidate: a manifest, the snapshot of the sources, a
bundle for each repository and a copy of every file of the snapshot.  `inspect` compares
the members of the archive with the manifest, and both with the snapshot.
-/

namespace CkbSail.Scripts.SourceCapsule

open PythonStd ReleaseCommon
open FixedInputs (Stage StageError raised noneRaised safe sha256Matches)

/-- The repositories and the names of their bundles. -/
def BUNDLES : List (String × String) :=
  [(".", "root.bundle"), ("deps/ckb-vm", "ckb.bundle"), ("deps/sail-riscv", "sail.bundle")]

def REPOSITORIES : List String := BUNDLES.map Prod.fst

def SUBMODULES : List String := REPOSITORIES.filter fun name => name ≠ "."

def IDENTITY_KIND : String := "HEAD-plus-byte-inventoried-working-tree-not-a-commit"

/-- `common.fields(value, expected, label)`. -/
def fields (value : Json) (expected : List String) (label : String) : Py Unit :=
  PythonStd.require (value.hasKeys expected) (label ++ " fields")

/-- `GIT_OID.fullmatch(text)`. -/
def isOid (text : String) : Bool :=
  text.toList.length = 40 && text.toList.all fun c => ('0' ≤ c && c ≤ '9') || ('a' ≤ c && c ≤ 'f')

def oidMatches : Json → Py Bool
  | .str text => .ok (isOid text)
  | _ => .error .typeError

/-- `{k: v for k, v in value.items() if k != key}`. -/
def without (key : String) : Json → Py Json
  | .obj fields => .ok (.obj (fields.filter fun binding => binding.1 ≠ key))
  | _ => .error .attributeError

/-! ## The snapshot -/

section Validate

-- `source.canonical` and the digest of its text
variable (canonical : Json → List UInt8) (sha256 : List UInt8 → String)

def snapshotScope (snapshot : Json) : Py Bool :=
  Py.conj [(snapshot.getItem "schema_version").map (·.eq (.int 1)),
    (snapshot.getItem "identity_kind").map (·.eq (.str IDENTITY_KIND)),
    (snapshot.getItem "ignored_build_and_evidence_files_included").map (·.isBool false),
    (snapshot.getItem "semantic_review_claimed").map (·.isBool false)]

/-- `row["mode"] in ("100644", "100755")`. -/
def gitMode (mode : Json) : Bool := mode.eq (.str "100644") || mode.eq (.str "100755")

def checkFile (file : String × Json) : Py Unit := do
  let _ ← safe file.1
  requirePy (Py.conj [.ok (!(parts file.1).contains ".git"),
    (file.2.getItem "mode").map gitMode, (file.2.getItem "size").map Json.isInt,
    file.2.getItem "sha256" >>= sha256Matches]) ("source file identity: " ++ file.1)

def checkRepository (repository : String × Json) : Py Unit := do
  let info := repository.2
  fields info ["head", "gitlinks", "files", "changes_from_head"]
    ("source repository " ++ repository.1)
  requirePy (Py.conj [info.getItem "head" >>= oidMatches,
    if repository.1 = "." then .ok true else (info.getItem "gitlinks").map (!·.truthy),
    (info.getItem "files").map Json.truthy]) ("source repository head/nesting: " ++ repository.1)
  let files ← info.getItem "files"
  let rows ← files.items
  Py.forEach checkFile rows

def headOf (repositories : Json) (name : String) : Py Json := do
  let info ← repositories.getItem name
  info.getItem "head"

/-- `{name: repos[name]["head"] for name in BUNDLES if name != "."}`. -/
def submoduleHeads (repositories : Json) : Py (List (String × Json)) :=
  Py.collect (fun name => (headOf repositories name).map (name, ·)) SUBMODULES

def selfDigest (snapshot : Json) : Py String :=
  (without "snapshot_sha256" snapshot).map fun body => sha256 (canonical body)

def validateSnapshot (snapshot : Json) (candidate : String) : Py Json := do
  fields snapshot ["schema_version", "identity_kind", "repositories", "ckb_source_baseline",
    "ignored_build_and_evidence_files_included", "semantic_review_claimed", "snapshot_sha256"]
    "source snapshot"
  requirePy (snapshotScope snapshot) "source snapshot scope"
  let digest ← selfDigest canonical sha256 snapshot
  let recorded ← snapshot.getItem "snapshot_sha256"
  PythonStd.require ((Json.str digest).eq recorded) "source snapshot self-digest differs"
  let repositories ← snapshot.getItem "repositories"
  fields repositories REPOSITORIES "source repository inventory"
  requirePy (Py.and (.ok (isOid candidate))
    ((headOf repositories ".").map (·.eq (.str candidate)))) "source capsule candidate differs"
  let root ← repositories.getItem "."
  let gitlinks ← root.getItem "gitlinks"
  let heads ← submoduleHeads repositories
  PythonStd.require (gitlinks.eq (.obj heads)) "gitlinks differ"
  let rows ← repositories.items
  Py.forEach checkRepository rows
  let sail ← repositories.getItem "deps/sail-riscv"
  let changes ← sail.getItem "changes_from_head"
  PythonStd.require (!changes.truthy) "unreviewed Sail overlay"
  pure snapshot

end Validate

/-! ## Members of the archive -/

/-- The bytes of the only member of a name, of at most 16 MiB. -/
def archiveMemberBytes (archive : Archive) (name : String) : Stage (List UInt8) := do
  noneRaised archive.openFault
  noneRaised archive.stop
  match archive.members.filter fun item => item.name = name with
  | [item] =>
      if item.type = .regular && 0 < item.size && item.size ≤ 16 * 1024 ^ 2 then do
        noneRaised item.content.stop
        pure item.content.bytes
      else .error (.python (.runtimeError
        ("archive member missing/ambiguous/oversized: " ++ name)))
  | _ => .error (.python (.runtimeError
      ("archive member missing/ambiguous/oversized: " ++ name)))

/-- The modes of the regular members; the last member of a name counts. -/
def memberModes (archive : Archive) : Stage (List (String × Int)) := do
  noneRaised archive.openFault
  noneRaised archive.stop
  pure ((archive.members.filter fun item => item.type = .regular).reverse.map
    fun item => (item.name, item.mode))

def Row.toJson (row : Row) : Json := .obj [("size", .int row.size), ("sha256", .str row.sha256)]

/-- `value[key]`, for a dictionary that is not JSON. -/
def getKey {α : Type} (key : String) (rows : List (String × α)) : Py α :=
  match rows.lookup key with
  | some a => .ok a
  | none => .error .keyError

/-- `{k: row[k] for k in ("size", "sha256")}`. -/
def sizeAndDigest (row : Json) : Py Json := do
  let size ← row.getItem "size"
  let digest ← row.getItem "sha256"
  pure (.obj [("size", size), ("sha256", digest)])

/-- `modes[name] == row["mode"] in (0o644, 0o755)`. -/
def modeMatches (modes : List (String × Int)) (name : String) (row : Json) : Py Bool := do
  let mode ← getKey name modes
  let recorded ← row.getItem "mode"
  pure ((Json.int mode).eq recorded && (recorded.eq (.int 0o644) || recorded.eq (.int 0o755)))

def checkMember (files : Inventory) (modes : List (String × Int)) (member : String × Json) :
    Py Unit := do
  fields member.2 ["size", "sha256", "mode"] ("capsule member " ++ member.1)
  requirePy (Py.and (do
      let file ← getKey member.1 files
      let recorded ← sizeAndDigest member.2
      pure ((Row.toJson file).eq recorded))
    (modeMatches modes member.1 member.2)) ("capsule member bytes/mode differ: " ++ member.1)

/-! ## The inspection -/

def capsuleIdentity (manifest : Json) (candidate : String) : Py Bool :=
  Py.conj [(manifest.getItem "schema_version").map (·.eq (.int 1)),
    (manifest.getItem "kind").map (·.eq (.str "source-capsule-v1")),
    (manifest.getItem "candidate").map (·.eq (.str candidate))]

/-- `type(members) is dict and set(files) == set(members) | {"MANIFEST.json"}`. -/
def sameMembers (files : Inventory) : Json → Bool
  | .obj members =>
      (files.map Prod.fst).all (fun name => ("MANIFEST.json" :: Json.keys members).contains name) &&
        ("MANIFEST.json" :: Json.keys members).all (files.map Prod.fst).contains
  | _ => false

def payloadName (repository name : String) : String :=
  "payload/" ++ (if repository ≠ "." then repository ++ "/" else "") ++ name

/-- `int(text, 8)`, for a text of octal digits. -/
def octal : Json → Py Nat
  | .str text =>
      if text ≠ "" && text.toList.all fun c => '0' ≤ c && c ≤ '7' then
        .ok (text.toList.foldl (fun value c => value * 8 + (c.toNat - '0'.toNat)) 0)
      else .error .valueError
  | _ => .error .typeError

/-- The row the manifest must hold for a file of the snapshot. -/
def payloadRow (row : Json) : Py Json := do
  let size ← row.getItem "size"
  let digest ← row.getItem "sha256"
  let mode ← row.getItem "mode" >>= octal
  pure (.obj [("size", size), ("sha256", digest), ("mode", .int (mode &&& 0o777 : Nat))])

/-- One file of the snapshot, with the names expected so far. -/
def checkPayload (members : Json) (repository : String) (file : String × Json)
    (expected : List String) : Py (List String) := do
  let payload := payloadName repository file.1
  let recorded ← members.get payload
  let row ← payloadRow file.2
  PythonStd.require (recorded.eq row) ("payload differs from snapshot: " ++ file.1)
  pure (payload :: expected)

/-- One repository of the snapshot, with the names expected so far. -/
def checkBundle (manifest members : Json) (repository : String × Json) (expected : List String) :
    Py (List String) := do
  let bundles ← manifest.getItem "bundles"
  let bundle ← bundles.getItem repository.1
  let path ← getKey repository.1 BUNDLES
  let head ← repository.2.getItem "head"
  PythonStd.require (bundle.eq (.obj [("path", .str path), ("head", head)]))
    "bundle binding differs"
  let files ← repository.2.getItem "files"
  let rows ← files.items
  Py.loop (checkPayload members repository.1) rows expected

/-- `snapshot["snapshot_sha256"] == manifest["source_snapshot_sha256"] and
(expected_snapshot is None or snapshot == expected_snapshot)`. -/
def snapshotMatches (snapshot manifest : Json) (expectedSnapshot : Option Json) : Py Bool := do
  let digest ← snapshot.getItem "snapshot_sha256"
  let recorded ← manifest.getItem "source_snapshot_sha256"
  pure (digest.eq recorded && expectedSnapshot.all fun expected => snapshot.eq expected)

section Inspect

-- `json.loads`, `source.canonical` and the digest of bytes
variable (loads : List UInt8 → Stage Json) (canonical : Json → List UInt8)
  (sha256 : List UInt8 → String)

/-- The snapshot of a capsule, and its members but for the modes. -/
def inspect (file : FileContents) (archive : Archive) (candidate : String)
    (expectedSnapshot : Option Json) : Stage (Json × List (String × Json)) := do
  (regular file).mapError .os
  let manifestBytes ← archiveMemberBytes archive "MANIFEST.json"
  let manifest ← loads manifestBytes
  raised (fields manifest
    ["schema_version", "kind", "candidate", "source_snapshot_sha256", "bundles", "members"]
    "capsule manifest")
  raised (requirePy (capsuleIdentity manifest candidate) "source capsule identity")
  let listing ← (tarInventory sha256 archive).mapError .os
  let members ← raised (manifest.getItem "members")
  raised (PythonStd.require (sameMembers listing.1 members) "capsule member inventory differs")
  let modes ← memberModes archive
  let snapshotBytes ← archiveMemberBytes archive "source-snapshot.json"
  let value ← loads snapshotBytes
  let snapshot ← raised (validateSnapshot canonical sha256 value candidate)
  let rows ← raised members.items
  raised (Py.forEach (checkMember listing.1 modes) rows)
  raised (requirePy (snapshotMatches snapshot manifest expectedSnapshot) "capsule snapshot differs")
  let repositories ← raised (snapshot.getItem "repositories")
  let repositoryRows ← raised repositories.items
  let expected ← raised (Py.loop (checkBundle manifest members) repositoryRows
    ("source-snapshot.json" :: BUNDLES.map Prod.snd))
  raised (PythonStd.require (members.hasKeys expected) "extra/missing payload or bundle")
  let result ← raised (Py.collect (fun row => (sizeAndDigest row.2).map (row.1, ·)) rows)
  pure (snapshot, result)

end Inspect

/-! ## The manifest of a new capsule -/

section Create

variable (sha256 : List UInt8 → String)

/-- `{"size": p.stat().st_size, "sha256": sha(p), "mode": p.stat().st_mode & 0o777}`. -/
def memberEntry (file : String × Source) : String × Json :=
  (file.1, .obj [("size", .int file.2.bytes.length), ("sha256", .str (sha256 file.2.bytes)),
    ("mode", .int (file.2.mode &&& 0o777 : Nat))])

def bundleEntry (snapshot : Json) (bundle : String × String) : Py (String × Json) := do
  let repositories ← snapshot.getItem "repositories"
  let head ← headOf repositories bundle.1
  pure (bundle.1, .obj [("path", .str bundle.2), ("head", head)])

/-- What `create` writes as the manifest of the files it has gathered. -/
def capsuleManifest (candidate : String) (snapshot : Json) (files : List (String × Source)) :
    Py Json := do
  let digest ← snapshot.getItem "snapshot_sha256"
  let bundles ← Py.collect (bundleEntry snapshot) BUNDLES
  pure (.obj [("schema_version", .int 1), ("kind", .str "source-capsule-v1"),
    ("candidate", .str candidate), ("source_snapshot_sha256", digest), ("bundles", .obj bundles),
    ("members", .obj ((sortedItems files).map (memberEntry sha256)))])

end Create

end CkbSail.Scripts.SourceCapsule
