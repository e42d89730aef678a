import CkbSail.ProofSupport.Dictionary
import CkbSail.ProofSupport.ExactRun
import CkbSail.Scripts.Proofs.Archive
import CkbSail.Scripts.Proofs.InventoryRows
import CkbSail.Scripts.Proofs.Snapshot

/-!
# What an accepted capsule holds

The inventory of the archive, the manifest and the snapshot are read one after the
other; `inspect_sound` puts together what each comparison says about the members.
-/

namespace CkbSail.Scripts.SourceCapsule

open PythonStd ReleaseCommon ProofSupport
open FixedInputs (Stage StageError raised noneRaised raised_eq_ok stage_bind_eq_ok)

/-! ## The members of an archive -/

def regularMembers (items : List Member) : List Member :=
  items.filter fun item => item.type = .regular

theorem mem_regularMembers {items : List Member} {item : Member} :
    item ∈ regularMembers items ↔ item ∈ items ∧ item.type = .regular := by
  rw [regularMembers, List.mem_filter, decide_eq_true_eq]

/-- The row an inventory has for a member. -/
def rowOf (sha256 : List UInt8 → String) (item : Member) : String × Row :=
  (item.name, ⟨item.content.bytes.length, sha256 item.content.bytes⟩)

/-- What a listing says about the members it was made from. -/
structure Listed (sha256 : List UInt8 → String) (items : List Member) (files : Inventory) :
    Prop where
  kinds : ∀ item ∈ items, item.type = .regular ∨ item.type = .directory
  complete : ∀ item ∈ regularMembers items, (item.content.bytes.length : Int) = item.size
  nodup : (items.map Member.entryName).Nodup
  files : files = (regularMembers items).map (rowOf sha256)

section Members

variable {sha256 : List UInt8 → String} {items : List Member} {files : Inventory}

theorem entryName_of_regular {item : Member} (h : item.type = .regular) :
    item.entryName = item.name := by
  simp [Member.entryName, h]

theorem readMember_eq_ok {item : Member} {listing listing' : Listing}
    (h : readMember sha256 item listing = .ok listing') :
    item.entryName ∉ listing.seen ∧ listing'.seen = item.entryName :: listing.seen ∧
      (item.type = .directory ∧ listing'.files = listing.files ∨
        item.type = .regular ∧ (item.content.bytes.length : Int) = item.size ∧
          listing'.files = listing.files ++ [rowOf sha256 item]) := by
  rw [readMember] at h
  obtain ⟨name, hsafe, h⟩ := except_bind_eq_ok.1 h
  obtain rfl := (safeName_eq_ok.1 hsafe).1
  obtain ⟨u, hfresh, h⟩ := except_bind_eq_ok.1 h
  rw [SailModelTransaction.require_eq_ok, Bool.and_eq_true, Bool.not_eq_true', Bool.not_eq_true',
    List.contains_eq_mem, decide_eq_false_iff_not] at hfresh
  dsimp only at h
  split_ifs at h with hdirectory
  · cases h
    exact ⟨hfresh.2, rfl, Or.inl ⟨hdirectory, rfl⟩⟩
  · obtain ⟨u', hregular, h⟩ := except_bind_eq_ok.1 h
    rw [SailModelTransaction.require_eq_ok, Bool.and_eq_true, decide_eq_true_eq] at hregular
    cases hstop : item.content.stop with
    | some e => simp [hstop, throw, throwThe, MonadExceptOf.throw, bind, Except.bind] at h
    | none =>
        simp only [hstop] at h
        obtain ⟨u'', hsize, h⟩ := except_bind_eq_ok.1 h
        rw [SailModelTransaction.require_eq_ok, decide_eq_true_eq] at hsize
        cases h
        refine ⟨hfresh.2, rfl, Or.inr ⟨hregular.1, hsize, ?_⟩⟩
        rw [rowOf, ← entryName_of_regular hregular.1]

theorem readMembers_eq_ok {listing final : Listing}
    (h : readMembers sha256 items listing = .ok final) :
    ∃ files, final.files = listing.files ++ files ∧ Listed sha256 items files ∧
      ∀ item ∈ items, item.entryName ∉ listing.seen := by
  induction items generalizing listing with
  | nil =>
      cases h
      exact ⟨[], (List.append_nil _).symm, ⟨by simp, by simp [regularMembers], List.nodup_nil, rfl⟩,
        by simp⟩
  | cons item items ih =>
      rw [readMembers] at h
      obtain ⟨next, hnext, h⟩ := except_bind_eq_ok.1 h
      obtain ⟨hfresh, hseen, hkind⟩ := readMember_eq_ok hnext
      obtain ⟨files, hfiles, hlisted, hall⟩ := ih h
      rw [hseen] at hall
      have hnodup : ((item :: items).map Member.entryName).Nodup := by
        rw [List.map_cons, List.nodup_cons]
        refine ⟨fun hmem => ?_, hlisted.nodup⟩
        obtain ⟨other, hother, hsame⟩ := List.mem_map.1 hmem
        exact hall other hother (hsame ▸ List.mem_cons_self)
      have hunseen : ∀ other ∈ item :: items, other.entryName ∉ listing.seen := by
        intro other hother
        rcases List.mem_cons.1 hother with rfl | hother
        · exact hfresh
        · exact fun hmem => hall other hother (List.mem_cons_of_mem _ hmem)
      rcases hkind with ⟨hdirectory, hsame⟩ | ⟨hregular, hsize, hadded⟩
      · have hrest : regularMembers (item :: items) = regularMembers items :=
          List.filter_cons_of_neg (by simp [hdirectory])
        refine ⟨files, hsame ▸ hfiles, ⟨?_, ?_, hnodup, ?_⟩, hunseen⟩
        · exact List.forall_mem_cons.2 ⟨Or.inr hdirectory, hlisted.kinds⟩
        · rw [hrest]
          exact hlisted.complete
        · rw [hrest]
          exact hlisted.files
      · have hrest : regularMembers (item :: items) = item :: regularMembers items :=
          List.filter_cons_of_pos (by simp [hregular])
        refine ⟨rowOf sha256 item :: files, ?_, ⟨?_, ?_, hnodup, ?_⟩, hunseen⟩
        · rw [hfiles, hadded, List.append_assoc, List.singleton_append]
        · exact List.forall_mem_cons.2 ⟨Or.inl hregular, hlisted.kinds⟩
        · rw [hrest]
          exact List.forall_mem_cons.2 ⟨hsize, hlisted.complete⟩
        · rw [hrest, List.map_cons, ← hlisted.files]

theorem listed_of_tarInventory {archive : Archive} {directories : List String}
    (h : tarInventory sha256 archive = .ok (files, directories)) :
    Listed sha256 archive.members files := by
  rw [tarInventory] at h
  cases hfault : archive.openFault with
  | some e => simp [hfault, throw, throwThe, MonadExceptOf.throw, bind, Except.bind] at h
  | none =>
      simp only [hfault] at h
      obtain ⟨final, hfinal, h⟩ := except_bind_eq_ok.1 h
      obtain ⟨read, hread, hlisted, -⟩ := readMembers_eq_ok hfinal
      cases hstop : archive.stop with
      | some e => simp [hstop, throw, throwThe, MonadExceptOf.throw, bind, Except.bind] at h
      | none =>
          simp only [hstop] at h
          obtain ⟨_, -, h⟩ := except_bind_eq_ok.1 h
          cases h
          rw [hread, List.nil_append]
          exact hlisted

theorem Listed.names_nodup (h : Listed sha256 items files) :
    ((regularMembers items).map Member.name).Nodup := by
  have hnames : (regularMembers items).map Member.name =
      (regularMembers items).map Member.entryName :=
    List.map_congr_left fun item hitem => (entryName_of_regular (mem_regularMembers.1 hitem).2).symm
  rw [hnames]
  exact h.nodup.sublist (List.filter_sublist.map _)

theorem Listed.map_fst (h : Listed sha256 items files) :
    files.map Prod.fst = (regularMembers items).map Member.name := by
  rw [h.files, List.map_map]
  rfl

theorem Listed.lookup (h : Listed sha256 items files) {name : String} {row : Row}
    (hrow : files.lookup name = some row) :
    ∃ item ∈ regularMembers items, item.name = name ∧
      row = ⟨item.content.bytes.length, sha256 item.content.bytes⟩ := by
  have hnodup : (files.map Prod.fst).Nodup := h.map_fst ▸ h.names_nodup
  rw [lookup_eq_some_iff_mem hnodup, h.files, List.mem_map] at hrow
  obtain ⟨item, hitem, hsame⟩ := hrow
  obtain ⟨rfl, rfl⟩ := Prod.mk.inj hsame
  exact ⟨item, hitem, rfl, rfl⟩

theorem noneRaised_eq_ok {fault : Option Exn} {u : Unit} :
    noneRaised fault = .ok u ↔ fault = none := by
  cases fault <;> simp [noneRaised]

theorem mapError_eq_ok {ε ε' α : Type} {x : Except ε α} {f : ε → ε'} {a : α} :
    x.mapError f = .ok a ↔ x = .ok a := by
  cases x <;> simp [Except.mapError]

theorem memberModes_eq_ok {archive : Archive} {modes : List (String × Int)} :
    memberModes archive = .ok modes ↔ archive.openFault = none ∧ archive.stop = none ∧
      modes = (regularMembers archive.members).reverse.map fun item => (item.name, item.mode) := by
  simp only [memberModes, stage_bind_eq_ok, noneRaised_eq_ok, exists_const, except_pure_eq_ok]
  exact and_congr_right fun _ => and_congr_right fun _ => eq_comm

theorem lookup_modes {name : String} {mode : Int}
    (hnodup : ((regularMembers items).map Member.name).Nodup) :
    ((regularMembers items).reverse.map fun item => (item.name, item.mode)).lookup name =
        some mode ↔ ∃ item ∈ regularMembers items, item.name = name ∧ item.mode = mode := by
  have hkeys : (((regularMembers items).reverse.map fun item =>
      (item.name, item.mode)).map Prod.fst).Nodup := by
    rw [List.map_map, List.map_reverse, List.nodup_reverse]
    exact hnodup
  rw [lookup_eq_some_iff_mem hkeys, List.mem_map]
  simp only [List.mem_reverse, Prod.mk.injEq]

theorem archiveMemberBytes_eq_ok {archive : Archive} {name : String} {bytes : List UInt8} :
    archiveMemberBytes archive name = .ok bytes ↔ archive.openFault = none ∧
      archive.stop = none ∧ ∃ item, (archive.members.filter fun item => item.name = name) = [item] ∧
        (item.type = .regular ∧ 0 < item.size ∧ item.size ≤ 16 * 1024 ^ 2) ∧
          item.content.stop = none ∧ item.content.bytes = bytes := by
  simp only [archiveMemberBytes, stage_bind_eq_ok, noneRaised_eq_ok, exists_const]
  refine and_congr_right fun _ => and_congr_right fun _ => ?_
  generalize List.filter _ archive.members = found
  rcases found with _ | ⟨item, _ | ⟨other, rest⟩⟩
  · simp
  · simp only [List.cons.injEq, and_true, exists_eq_left']
    by_cases hfine : item.type = .regular ∧ 0 < item.size ∧ item.size ≤ 16 * 1024 ^ 2
    · rw [if_pos (by simpa [and_assoc] using hfine)]
      simp only [stage_bind_eq_ok, noneRaised_eq_ok, exists_const, except_pure_eq_ok]
      exact (and_iff_right hfine).symm
    · rw [if_neg (by simpa [and_assoc] using hfine)]
      simp only [reduceCtorEq, false_iff, not_and]
      exact fun hkind => absurd hkind hfine
  · simp

end Members

/-! ## The rows of the manifest -/

theorem getKey_eq_ok {α : Type} {key : String} {rows : List (String × α)} {a : α} :
    getKey key rows = .ok a ↔ rows.lookup key = some a := by
  unfold getKey
  cases rows.lookup key <;> simp

/-- A row of the manifest that agrees with the archive. -/
structure MemberRow (row : Json) (file : Row) (bits : Int) : Prop where
  keys : row.hasKeys ["size", "sha256", "mode"] = true
  size : ∃ size, row.getItem "size" = .ok size ∧ size.number? = some (.finite (file.size : Int))
  sha256 : row.getItem "sha256" = .ok (.str file.sha256)
  mode : ∃ recorded, row.getItem "mode" = .ok recorded ∧ recorded.number? = some (.finite bits)
  plain : bits = 0o644 ∨ bits = 0o755

theorem toJson_eq_iff {file : Row} {size digest : Json} :
    (Row.toJson file).eq (.obj [("size", size), ("sha256", digest)]) = true ↔
      size.number? = some (.finite (file.size : Int)) ∧ digest = .str file.sha256 := by
  rw [← Json.str_eq_iff, ← FixedInputs.int_eq_iff (i := (file.size : Int))]
  rw [Row.toJson, Json.obj_eq_obj_iff]
  constructor
  · intro h
    have hsize := h "size"
    have hdigest := h "sha256"
    simp only [Json.lookup_cons] at hsize hdigest
    exact ⟨by simpa using hsize, by simpa using hdigest⟩
  · rintro ⟨hsize, hdigest⟩ key
    simp only [Json.lookup_cons]
    split_ifs
    · exact Option.Rel.some hsize
    · exact Option.Rel.some hdigest
    · exact Option.Rel.none

theorem mode_eq_iff {mode : Int} {recorded : Json} :
    ((Json.int mode).eq recorded && (recorded.eq (.int 0o644) || recorded.eq (.int 0o755))) = true ↔
      recorded.number? = some (.finite mode) ∧ (mode = 0o644 ∨ mode = 0o755) := by
  rw [Bool.and_eq_true, Bool.or_eq_true, FixedInputs.int_eq_iff, Json.eq_int_iff, Json.eq_int_iff]
  refine and_congr_right fun h => ?_
  rw [h, Option.some.injEq, Option.some.injEq, Json.Number.finite.injEq, Json.Number.finite.injEq,
    Int.cast_inj, Int.cast_inj]

theorem checkMember_eq_ok {files : Inventory} {modes : List (String × Int)} {name : String}
    {row : Json} {u : Unit} :
    checkMember files modes (name, row) = .ok u ↔ ∃ file mode, files.lookup name = some file ∧
      modes.lookup name = some mode ∧ MemberRow row file mode := by
  simp only [checkMember, Py.bind_eq_ok, fields_eq_ok, requirePy_eq_ok, Py.and_eq_true,
    modeMatches, sizeAndDigest, Py.pure_eq_ok, getKey_eq_ok]
  constructor
  · rintro ⟨_, hkeys, ⟨file, hfile, _, ⟨size, hsize, digest, hdigest, rfl⟩, heq⟩, mode, hmode,
      recorded, hrecorded, hfine⟩
    obtain ⟨hnumber, rfl⟩ := toJson_eq_iff.1 heq
    obtain ⟨hmodeNumber, hplain⟩ := mode_eq_iff.1 hfine
    exact ⟨file, mode, hfile, hmode, hkeys, ⟨size, hsize, hnumber⟩, hdigest,
      ⟨recorded, hrecorded, hmodeNumber⟩, hplain⟩
  · rintro ⟨file, mode, hfile, hmode, hkeys, ⟨size, hsize, hnumber⟩, hdigest,
      ⟨recorded, hrecorded, hmodeNumber⟩, hplain⟩
    exact ⟨(), hkeys, ⟨file, hfile, _, ⟨size, hsize, _, hdigest, rfl⟩,
      toJson_eq_iff.2 ⟨hnumber, rfl⟩⟩, mode, hmode, recorded, hrecorded,
      mode_eq_iff.2 ⟨hmodeNumber, hplain⟩⟩

/-! ## The files of the snapshot -/

/-- A file of the snapshot and what is recorded of it. -/
def SnapshotFile (snapshot : Json) (repository name : String) (row : Json) : Prop :=
  ∃ repositories info files, snapshot.getItem "repositories" = .ok repositories ∧
    repositories.getItem repository = .ok info ∧ info.getItem "files" = .ok (.obj files) ∧
    Json.lookup name files = some row

/-- Size, digest and mode as a snapshot has them. -/
structure Records (row : Json) (size : Int) (digest : String) (mode : Int) : Prop where
  size : row.getItem "size" = .ok (.int size)
  sha256 : row.getItem "sha256" = .ok (.str digest)
  mode : row.getItem "mode" = .ok (.str "100644") ∧ mode = 0o644 ∨
    row.getItem "mode" = .ok (.str "100755") ∧ mode = 0o755

/-- The manifest row of a file. -/
def fileRow (size : Int) (digest : String) (mode : Int) : Json :=
  .obj [("size", .int size), ("sha256", .str digest), ("mode", .int mode)]

theorem ValidFile.records {file : String × Json} (h : ValidFile file) :
    ∃ size digest mode, Records file.2 size digest mode := by
  obtain ⟨size, hsize⟩ := h.size
  obtain ⟨digest, hdigest, -⟩ := h.sha256
  obtain ⟨_, hmode, rfl | rfl⟩ := h.mode
  · exact ⟨size, digest, 0o644, hsize, hdigest, Or.inl ⟨hmode, rfl⟩⟩
  · exact ⟨size, digest, 0o755, hsize, hdigest, Or.inr ⟨hmode, rfl⟩⟩

theorem Records.payloadRow {row : Json} {size mode : Int} {digest : String}
    (h : Records row size digest mode) : payloadRow row = .ok (fileRow size digest mode) := by
  rw [SourceCapsule.payloadRow, h.size, h.sha256]
  rcases h.mode with ⟨hmode, rfl⟩ | ⟨hmode, rfl⟩
  · rw [hmode]
    rfl
  · rw [hmode]
    rfl

/-- A manifest row equal to that of a file. -/
theorem MemberRow.of_eq {row : Json} {file : Row} {mode size fileMode : Int} {digest : String}
    (h : MemberRow row file mode) (heq : row.eq (fileRow size digest fileMode) = true) :
    (file.size : Int) = size ∧ file.sha256 = digest ∧ mode = fileMode := by
  obtain ⟨size', hsize, hnumber⟩ := h.size
  obtain ⟨recorded, hrecorded, hmode⟩ := h.mode
  obtain ⟨fields, rfl, -⟩ := Json.hasKeys_iff.1 h.keys
  have hdigest := h.sha256
  rw [Json.getItem_obj_eq_ok] at hsize hdigest hrecorded
  rw [fileRow, Json.obj_eq_obj_iff] at heq
  have hfirst := heq "size"
  have hsecond := heq "sha256"
  have hthird := heq "mode"
  rw [hsize] at hfirst
  rw [hdigest] at hsecond
  rw [hrecorded] at hthird
  have hsizes : size'.eq (.int size) = true := by simpa [Json.lookup_cons] using hfirst
  have hdigests : file.sha256 = digest := by simpa [Json.lookup_cons] using hsecond
  have hmodes : recorded.eq (.int fileMode) = true := by simpa [Json.lookup_cons] using hthird
  rw [Json.eq_int_iff, hnumber, Option.some.injEq, Json.Number.finite.injEq] at hsizes
  rw [Json.eq_int_iff, hmode, Option.some.injEq, Json.Number.finite.injEq, Int.cast_inj] at hmodes
  exact ⟨by exact_mod_cast hsizes, hdigests, hmodes⟩

/-! ## The names expected -/

/-- A loop whose turns each need a condition and add names. -/
theorem loop_names {α : Type} {body : α → List String → Py (List String)} {P : α → Prop}
    {Q : α → String → Prop} {items : List α}
    (hsound : ∀ item ∈ items, ∀ names final, body item names = .ok final →
      P item ∧ ∀ x, x ∈ final ↔ x ∈ names ∨ Q item x)
    {names final : List String} (h : Py.loop body items names = .ok final) :
    (∀ item ∈ items, P item) ∧ ∀ x, x ∈ final ↔ x ∈ names ∨ ∃ item ∈ items, Q item x := by
  induction items generalizing names with
  | nil =>
      cases h
      simp
  | cons item items ih =>
      obtain ⟨next, hnext, hrest⟩ := Py.loop_cons_eq_ok.1 h
      obtain ⟨hitem, hnames⟩ := hsound item List.mem_cons_self names next hnext
      obtain ⟨hall, hfinal⟩ := ih (fun other hother =>
        hsound other (List.mem_cons_of_mem _ hother)) hrest
      refine ⟨List.forall_mem_cons.2 ⟨hitem, hall⟩, fun x => ?_⟩
      rw [hfinal, hnames, or_assoc, List.exists_mem_cons_iff]

theorem exists_loop {α σ : Type} (body : α → σ → Py σ) (items : List α)
    (htotal : ∀ item ∈ items, ∀ state, ∃ final, body item state = .ok final) (state : σ) :
    ∃ final, Py.loop body items state = .ok final := by
  induction items generalizing state with
  | nil => exact ⟨state, rfl⟩
  | cons item items ih =>
      obtain ⟨next, hnext⟩ := htotal item List.mem_cons_self state
      obtain ⟨final, hfinal⟩ := ih (fun other hother =>
        htotal other (List.mem_cons_of_mem _ hother)) next
      exact ⟨final, Py.loop_cons_eq_ok.2 ⟨next, hnext, hfinal⟩⟩

theorem checkPayload_eq_ok {members : List (String × Json)} {repository name : String} {row : Json}
    {names final : List String} {size mode : Int} {digest : String}
    (hrow : Records row size digest mode) :
    checkPayload (.obj members) repository (name, row) names = .ok final ↔
      (∃ recorded, Json.lookup (payloadName repository name) members = some recorded ∧
        recorded.eq (fileRow size digest mode) = true) ∧
        final = payloadName repository name :: names := by
  simp only [checkPayload, Py.bind_eq_ok, Json.get, Except.ok.injEq, exists_eq_left',
    hrow.payloadRow, PythonStd.require_eq_ok, exists_const, Py.pure_eq_ok, eq_comm (b := final)]
  refine and_congr_left fun _ => ?_
  cases Json.lookup (payloadName repository name) members with
  | none => simp [Json.eq, Json.eqBy, fileRow, Json.looseAtom, Json.number?]
  | some recorded => simp

/-- The manifest has the bundle of a repository at its head. -/
def BundleMatches (manifest : Json) (repository : String) (info : Json) : Prop :=
  ∃ bundles bundle path head, manifest.getItem "bundles" = .ok bundles ∧
    bundles.getItem repository = .ok bundle ∧ BUNDLES.lookup repository = some path ∧
    info.getItem "head" = .ok head ∧ bundle.eq (.obj [("path", .str path), ("head", head)]) = true

/-- The manifest has the payload of a file. -/
def PayloadMatches (members : List (String × Json)) (repository name : String) (row : Json) :
    Prop :=
  ∃ size digest mode recorded, Records row size digest mode ∧
    Json.lookup (payloadName repository name) members = some recorded ∧
    recorded.eq (fileRow size digest mode) = true

/-- A name of a payload of the repository. -/
def PayloadOf (repository : String × Json) (payload : String) : Prop :=
  ∃ files name row, repository.2.getItem "files" = .ok (.obj files) ∧
    Json.lookup name files = some row ∧ payload = payloadName repository.1 name

section Bundle

variable {manifest info : Json} {members files : List (String × Json)} {repository : String}

theorem checkBundle_sound (hvalid : ValidRepository (repository, info))
    (hfiles : info.getItem "files" = .ok (.obj files)) {names final : List String}
    (h : checkBundle manifest (.obj members) (repository, info) names = .ok final) :
    (BundleMatches manifest repository info ∧
      ∀ name row, Json.lookup name files = some row → PayloadMatches members repository name row) ∧
      ∀ x, x ∈ final ↔ x ∈ names ∨ PayloadOf (repository, info) x := by
  obtain ⟨_, hrows, -, hall⟩ := hvalid.files
  rw [hfiles] at hrows
  cases hrows
  simp only [checkBundle, Py.bind_eq_ok, PythonStd.require_eq_ok, getKey_eq_ok, hfiles,
    Except.ok.injEq, exists_eq_left', Json.items] at h
  obtain ⟨bundles, hbundles, bundle, hbundle, path, hpath, head, hhead, _, heq, h⟩ := h
  have hloop := loop_names (P := fun file : String × Json =>
      PayloadMatches members repository file.1 file.2)
    (Q := fun file x => x = payloadName repository file.1) (fun file hfile names final hfinal => by
      obtain ⟨name, row⟩ := file
      obtain ⟨size, digest, mode, hrow⟩ := (hall name row (Json.mem_bindings.1 hfile)).records
      obtain ⟨⟨recorded, hrecorded, hsame⟩, rfl⟩ := (checkPayload_eq_ok hrow).1 hfinal
      refine ⟨⟨size, digest, mode, recorded, hrow, hrecorded, hsame⟩, fun x => ?_⟩
      rw [List.mem_cons, or_comm]) h
  refine ⟨⟨⟨bundles, bundle, path, head, hbundles, hbundle, hpath, hhead, heq⟩,
    fun name row hrow => hloop.1 _ (Json.mem_bindings.2 hrow)⟩, fun x => ?_⟩
  rw [hloop.2]
  refine or_congr_right ⟨?_, ?_⟩
  · rintro ⟨file, hfile, rfl⟩
    exact ⟨files, file.1, file.2, hfiles, Json.mem_bindings.1 hfile, rfl⟩
  · rintro ⟨files', name, row, hfiles', hrow, rfl⟩
    rw [hfiles] at hfiles'
    cases hfiles'
    exact ⟨(name, row), Json.mem_bindings.2 hrow, rfl⟩

theorem checkBundle_total (hbundle : BundleMatches manifest repository info)
    (hfiles : info.getItem "files" = .ok (.obj files))
    (hall : ∀ name row, Json.lookup name files = some row →
      PayloadMatches members repository name row) (names : List String) :
    ∃ final, checkBundle manifest (.obj members) (repository, info) names = .ok final := by
  obtain ⟨bundles, bundle, path, head, hbundles, hbundle, hpath, hhead, heq⟩ := hbundle
  obtain ⟨final, hfinal⟩ := exists_loop (checkPayload (.obj members) repository)
    (Json.bindings files) (fun file hfile names => by
      obtain ⟨name, row⟩ := file
      obtain ⟨size, digest, mode, recorded, hrow, hrecorded, hsame⟩ :=
        hall name row (Json.mem_bindings.1 hfile)
      exact ⟨_, (checkPayload_eq_ok hrow).2 ⟨⟨recorded, hrecorded, hsame⟩, rfl⟩⟩) names
  refine ⟨final, ?_⟩
  simp only [checkBundle, Py.bind_eq_ok, PythonStd.require_eq_ok, getKey_eq_ok, hfiles,
    Except.ok.injEq, exists_eq_left', Json.items]
  exact ⟨bundles, hbundles, bundle, hbundle, path, hpath, head, hhead, (), heq, hfinal⟩

end Bundle

/-! ## The inspection -/

section Inspect

variable {loads : List UInt8 → Stage Json} {canonical : Json → List UInt8}
  {sha256 : List UInt8 → String} {file : FileContents} {archive : Archive} {candidate : String}
  {expectedSnapshot : Option Json} {snapshot : Json} {rows : List (String × Json)}

/-- The archive is the capsule of a valid snapshot: besides directories it has the
manifest, the snapshot, the bundles and the payload of every file, and nothing else. -/
structure IsCapsule (loads : List UInt8 → Stage Json) (canonical : Json → List UInt8)
    (sha256 : List UInt8 → String) (archive : Archive) (candidate : String) (snapshot : Json) :
    Prop where
  valid : ValidSnapshot canonical sha256 snapshot candidate
  source : ∃ item ∈ regularMembers archive.members, item.name = "source-snapshot.json" ∧
    loads item.content.bytes = .ok snapshot
  kinds : ∀ item ∈ archive.members, item.type = .regular ∨ item.type = .directory
  nodup : ((regularMembers archive.members).map Member.name).Nodup
  names : ∀ name, name ∈ (regularMembers archive.members).map Member.name ↔
    name = "MANIFEST.json" ∨ name = "source-snapshot.json" ∨ name ∈ BUNDLES.map Prod.snd ∨
      ∃ repository file row, SnapshotFile snapshot repository file row ∧
        name = payloadName repository file
  payload : ∀ repository name row, SnapshotFile snapshot repository name row →
    ∃ item ∈ regularMembers archive.members, item.name = payloadName repository name ∧
      (item.content.bytes.length : Int) = item.size ∧
      Records row item.size (sha256 item.content.bytes) item.mode

theorem snapshotFile_iff {repositories : Json}
    (hrepositories : snapshot.getItem "repositories" = .ok repositories)
    {repository name : String} {row : Json} :
    SnapshotFile snapshot repository name row ↔ ∃ info files,
      repositories.getItem repository = .ok info ∧ info.getItem "files" = .ok (.obj files) ∧
        Json.lookup name files = some row := by
  constructor
  · rintro ⟨repositories', info, files, hrepositories', hinfo, hfiles, hrow⟩
    rw [hrepositories] at hrepositories'
    cases hrepositories'
    exact ⟨info, files, hinfo, hfiles, hrow⟩
  · rintro ⟨info, files, hinfo, hfiles, hrow⟩
    exact ⟨repositories, info, files, hrepositories, hinfo, hfiles, hrow⟩

theorem sameMembers_iff {files : Inventory} {members : Json} :
    sameMembers files members = true ↔ ∃ fields, members = .obj fields ∧
      ∀ name, name ∈ files.map Prod.fst ↔
        name = "MANIFEST.json" ∨ (Json.lookup name fields).isSome = true := by
  cases members with
  | obj fields =>
      simp only [sameMembers, Bool.and_eq_true, List.all_eq_true, List.contains_iff_mem,
        List.mem_cons, Json.mem_keys_iff, Json.obj.injEq, exists_eq_left']
      exact ⟨fun h name => ⟨h.1 name, h.2 name⟩, fun h => ⟨fun name => (h name).1,
        fun name => (h name).2⟩⟩
  | _ => simp [sameMembers]

theorem inspect_sound
    (h : inspect loads canonical sha256 file archive candidate expectedSnapshot =
      .ok (snapshot, rows)) :
    IsCapsule loads canonical sha256 archive candidate snapshot := by
  simp only [inspect, stage_bind_eq_ok, raised_eq_ok, mapError_eq_ok, fields_eq_ok,
    requirePy_eq_ok, PythonStd.require_eq_ok, Py.forEach_eq_ok, validateSnapshot_eq_ok,
    memberModes_eq_ok, archiveMemberBytes_eq_ok, except_pure_eq_ok, Prod.mk.injEq] at h
  obtain ⟨_, -, manifestBytes, -, manifest, -, _, -, _, -, ⟨files, directories⟩, hlisting, members,
    -, _, hsame, modes, ⟨-, -, hmodes⟩, snapshotBytes, hsnapshot, value, hvalue, snapshot',
    ⟨rfl, hvalid⟩, rows', hrows, _, hmembers, _, -, repositories, hrepositories, bundleRows,
    hbundleRows, expected, hexpected, _, hkeys, result, -, rfl, rfl⟩ := h
  have hlisted := listed_of_tarInventory hlisting
  obtain ⟨fields, rfl, hnames⟩ := sameMembers_iff.1 hsame
  obtain ⟨_, hfields, rfl⟩ := Json.items_eq_ok.1 hrows
  cases hfields
  obtain ⟨repositoryFields, rfl, rfl⟩ := Json.items_eq_ok.1 hbundleRows
  dsimp only at hnames hmembers
  have heach : ∀ name info, Json.lookup name repositoryFields = some info →
      ValidRepository (name, info) := by
    obtain ⟨_, hvalue, hvalid⟩ := hvalid.repositories
    rw [hrepositories] at hvalue
    cases hvalue
    exact fun name info hinfo => hvalid.each name info (Json.getItem_obj_eq_ok.2 hinfo)
  obtain ⟨hpayloads, hnamesExpected⟩ := loop_names
    (P := fun repository : String × Json => ∀ files name row,
      repository.2.getItem "files" = .ok (.obj files) → Json.lookup name files = some row →
        PayloadMatches fields repository.1 name row)
    (Q := PayloadOf) (fun repository hrepository names final hfinal => by
      obtain ⟨name, info⟩ := repository
      have hvalid := heach name info (Json.mem_bindings.1 hrepository)
      obtain ⟨files, hfiles, -⟩ := hvalid.files
      obtain ⟨⟨-, hall⟩, hmem⟩ := checkBundle_sound hvalid hfiles hfinal
      refine ⟨fun files' file row hfiles' hrow => ?_, hmem⟩
      rw [hfiles] at hfiles'
      cases hfiles'
      exact hall file row hrow) hexpected
  obtain ⟨_, hfields, hkeys⟩ := Json.hasKeys_iff.1 hkeys
  cases hfields
  refine ⟨hvalid, ?_, hlisted.kinds, hlisted.names_nodup, fun name => ?_,
    fun repository name row hrow => ?_⟩
  · obtain ⟨-, -, item, hitem, hregular, -, rfl⟩ := hsnapshot
    have hmem : item ∈ archive.members.filter fun item => item.name = "source-snapshot.json" :=
      hitem ▸ List.mem_singleton_self item
    rw [List.mem_filter, decide_eq_true_eq] at hmem
    exact ⟨item, mem_regularMembers.2 ⟨hmem.1, hregular.1⟩, hmem.2, hvalue⟩
  · rw [← hlisted.map_fst, hnames, hkeys, hnamesExpected, List.mem_cons, or_assoc]
    refine or_congr_right (or_congr_right (or_congr_right ⟨?_, ?_⟩))
    · rintro ⟨repository, hrepository, files, file, row, hfiles, hrow, rfl⟩
      exact ⟨repository.1, file, row, (snapshotFile_iff hrepositories).2 ⟨repository.2, files,
        Json.getItem_obj_eq_ok.2 (Json.mem_bindings.1 hrepository), hfiles, hrow⟩, rfl⟩
    · rintro ⟨repository, file, row, hrow, rfl⟩
      obtain ⟨info, files, hinfo, hfiles, hlookup⟩ := (snapshotFile_iff hrepositories).1 hrow
      exact ⟨(repository, info), Json.mem_bindings.2 (Json.getItem_obj_eq_ok.1 hinfo), files, file,
        row, hfiles, hlookup, rfl⟩
  · obtain ⟨info, files', hinfo, hfiles, hlookup⟩ := (snapshotFile_iff hrepositories).1 hrow
    obtain ⟨size, digest, mode, recorded, hrecords, hrecorded, heq⟩ := hpayloads (repository, info)
      (Json.mem_bindings.2 (Json.getItem_obj_eq_ok.1 hinfo)) files' name row hfiles hlookup
    obtain ⟨listedRow, bits, hlistedRow, hbits, hmember⟩ := checkMember_eq_ok.1
      (hmembers _ (Json.mem_bindings.2 hrecorded))
    obtain ⟨hsize, rfl, rfl⟩ := hmember.of_eq heq
    obtain ⟨item, hitem, hname, rfl⟩ := hlisted.lookup hlistedRow
    rw [hmodes, lookup_modes hlisted.names_nodup] at hbits
    obtain ⟨other, hother, hotherName, rfl⟩ := hbits
    obtain rfl : item = other := List.inj_on_of_nodup_map hlisted.names_nodup hitem hother
      (hname.trans hotherName.symm)
    have hcomplete := hlisted.complete item hitem
    obtain rfl : size = item.size := hsize.symm.trans hcomplete
    exact ⟨item, hitem, hname, hcomplete, hrecords⟩

end Inspect

end CkbSail.Scripts.SourceCapsule
