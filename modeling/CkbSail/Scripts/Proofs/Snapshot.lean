import CkbSail.Scripts.Proofs.FixedInputs
import CkbSail.Scripts.SourceCapsule

/-!
# What a snapshot has to record

`validateSnapshot_eq_ok` states the accepted snapshots by what is found at each key, and
another order of the keys changes nothing.
-/

namespace CkbSail.Scripts.SourceCapsule

open PythonStd ReleaseCommon
open FixedInputs (safe sha256Matches)

/-! ## Accepted snapshots -/

structure ValidFile (file : String × Json) : Prop where
  safe : file.1 = "." ∨ SafeName file.1
  outsideGit : ".git" ∉ parts file.1
  mode : ∃ mode, file.2.getItem "mode" = .ok (.str mode) ∧ (mode = "100644" ∨ mode = "100755")
  size : ∃ size, file.2.getItem "size" = .ok (.int size)
  sha256 : ∃ digest, file.2.getItem "sha256" = .ok (.str digest) ∧
    sha256Matches (.str digest) = .ok true

structure ValidRepository (repository : String × Json) : Prop where
  keys : repository.2.hasKeys ["head", "gitlinks", "files", "changes_from_head"] = true
  head : ∃ head, repository.2.getItem "head" = .ok (.str head) ∧ isOid head = true
  unnested : repository.1 ≠ "." →
    ∃ links, repository.2.getItem "gitlinks" = .ok links ∧ links.truthy = false
  files : ∃ rows, repository.2.getItem "files" = .ok (.obj rows) ∧
    (Json.obj rows).truthy = true ∧ ∀ name row, Json.lookup name rows = some row →
      ValidFile (name, row)

/-- The links of the root are the heads of the submodules. -/
def Linked (repositories : Json) : Prop :=
  ∃ root links ckb sail, repositories.getItem "." = .ok root ∧
    root.getItem "gitlinks" = .ok (.obj links) ∧
    headOf repositories "deps/ckb-vm" = .ok (.str ckb) ∧
    headOf repositories "deps/sail-riscv" = .ok (.str sail) ∧
    ∀ key, Json.lookup key links =
      Json.lookup key [("deps/ckb-vm", .str ckb), ("deps/sail-riscv", .str sail)]

structure ValidRepositories (candidate : String) (repositories : Json) : Prop where
  keys : repositories.hasKeys REPOSITORIES = true
  oid : isOid candidate = true
  head : headOf repositories "." = .ok (.str candidate)
  gitlinks : Linked repositories
  each : ∀ name info, repositories.getItem name = .ok info → ValidRepository (name, info)
  sail : ∃ info changes, repositories.getItem "deps/sail-riscv" = .ok info ∧
    info.getItem "changes_from_head" = .ok changes ∧ changes.truthy = false

structure ValidSnapshot (canonical : Json → List UInt8) (sha256 : List UInt8 → String)
    (snapshot : Json) (candidate : String) : Prop where
  keys : snapshot.hasKeys ["schema_version", "identity_kind", "repositories",
    "ckb_source_baseline", "ignored_build_and_evidence_files_included",
    "semantic_review_claimed", "snapshot_sha256"] = true
  schema : ∃ version, snapshot.getItem "schema_version" = .ok version ∧
    version.number? = some (.finite 1)
  kind : snapshot.getItem "identity_kind" = .ok (.str IDENTITY_KIND)
  ignored : snapshot.getItem "ignored_build_and_evidence_files_included" = .ok (.bool false)
  review : snapshot.getItem "semantic_review_claimed" = .ok (.bool false)
  digest : ∃ digest, selfDigest canonical sha256 snapshot = .ok digest ∧
    snapshot.getItem "snapshot_sha256" = .ok (.str digest)
  repositories : ∃ repositories, snapshot.getItem "repositories" = .ok repositories ∧
    ValidRepositories candidate repositories

theorem map_eq_ok {α β : Type} {x : Py α} {f : α → β} {b : β} :
    x.map f = .ok b ↔ ∃ a, x = .ok a ∧ f a = b := by
  cases x <;> simp [Except.map]

theorem fields_eq_ok {value : Json} {expected : List String} {label : String} {u : Unit} :
    fields value expected label = .ok u ↔ value.hasKeys expected = true :=
  PythonStd.require_eq_ok

theorem gitMode_iff {mode : Json} : gitMode mode = true ↔
    ∃ text, mode = .str text ∧ (text = "100644" ∨ text = "100755") := by
  rw [gitMode, Bool.or_eq_true, Json.eq_str_iff, Json.eq_str_iff]
  constructor
  · rintro (rfl | rfl)
    · exact ⟨_, rfl, Or.inl rfl⟩
    · exact ⟨_, rfl, Or.inr rfl⟩
  · rintro ⟨text, rfl, rfl | rfl⟩
    · exact Or.inl rfl
    · exact Or.inr rfl

theorem isInt_iff {value : Json} : value.isInt = true ↔ ∃ i, value = .int i := by
  cases value <;> simp [Json.isInt]

theorem checkFile_eq_ok {file : String × Json} {u : Unit} :
    checkFile file = .ok u ↔ ValidFile file := by
  have hsafe : (∃ name, safe file.1 = .ok name) ↔ file.1 = "." ∨ SafeName file.1 := by
    simp [FixedInputs.safe_eq_ok]
  simp only [checkFile, Py.bind_eq_ok, requirePy_eq_ok, Py.conj_eq_true, List.mem_cons,
    List.not_mem_nil, or_false, forall_eq_or_imp, forall_eq, map_eq_ok, Except.ok.injEq,
    Bool.not_eq_true', exists_and_right, hsafe]
  constructor
  · rintro ⟨h, hgit, ⟨mode, hmode, hfine⟩, ⟨size, hsize, hint⟩, digest, hdigest, hmatch⟩
    obtain ⟨text, rfl, htext⟩ := gitMode_iff.1 hfine
    obtain ⟨i, rfl⟩ := isInt_iff.1 hint
    obtain ⟨text', rfl⟩ : ∃ text, digest = .str text := by
      cases digest with
      | str text => exact ⟨text, rfl⟩
      | _ => cases hmatch
    exact ⟨h, by simpa using hgit, ⟨text, hmode, htext⟩, ⟨i, hsize⟩, ⟨text', hdigest, hmatch⟩⟩
  · rintro ⟨h, hgit, ⟨text, hmode, htext⟩, ⟨i, hsize⟩, ⟨text', hdigest, hmatch⟩⟩
    exact ⟨h, by simpa using hgit, ⟨_, hmode, gitMode_iff.2 ⟨text, rfl, htext⟩⟩,
      ⟨_, hsize, rfl⟩, _, hdigest, hmatch⟩

theorem checkRepository_eq_ok {repository : String × Json} {u : Unit} :
    checkRepository repository = .ok u ↔ ValidRepository repository := by
  have hunnested : ((if repository.1 = "." then .ok true
        else (repository.2.getItem "gitlinks").map (!·.truthy)) : Py Bool) = .ok true ↔
      (repository.1 ≠ "." →
        ∃ links, repository.2.getItem "gitlinks" = .ok links ∧ links.truthy = false) := by
    by_cases hroot : repository.1 = "."
    · simp [hroot]
    · simp [hroot, map_eq_ok]
  simp only [checkRepository, Py.bind_eq_ok, fields_eq_ok, requirePy_eq_ok, Py.conj_eq_true,
    List.mem_cons, List.not_mem_nil, or_false, forall_eq_or_imp, forall_eq, map_eq_ok, hunnested,
    Py.forEach_eq_ok, checkFile_eq_ok, Json.items_eq_ok]
  constructor
  · rintro ⟨_, hkeys, _, ⟨⟨head, hhead, hoid⟩, hnested, value, hvalue, htruthy⟩, files, hfiles,
      rows, ⟨fields, rfl, rfl⟩, hrows⟩
    obtain ⟨text, rfl⟩ : ∃ text, head = .str text := by
      cases head with
      | str text => exact ⟨text, rfl⟩
      | _ => cases hoid
    rw [hvalue] at hfiles
    cases hfiles
    exact ⟨hkeys, ⟨text, hhead, Except.ok.inj hoid⟩, hnested, fields, hvalue, htruthy,
      fun name row hrow => hrows _ (Json.mem_bindings.2 hrow)⟩
  · rintro ⟨hkeys, ⟨text, hhead, hoid⟩, hnested, fields, hfiles, htruthy, hrows⟩
    refine ⟨(), hkeys, (), ⟨⟨_, hhead, congrArg Except.ok hoid⟩, hnested, _, hfiles, htruthy⟩, _,
      hfiles, _, ⟨fields, rfl, rfl⟩, ?_⟩
    rintro ⟨name, row⟩ hrow
    exact hrows name row (Json.mem_bindings.1 hrow)

theorem headOf_eq_ok {repositories head : Json} {name : String} :
    headOf repositories name = .ok head ↔
      ∃ info, repositories.getItem name = .ok info ∧ info.getItem "head" = .ok head :=
  Py.bind_eq_ok

theorem submoduleHeads_eq_ok {repositories : Json} {heads : List (String × Json)} :
    submoduleHeads repositories = .ok heads ↔ ∃ ckb sail,
      headOf repositories "deps/ckb-vm" = .ok ckb ∧
        headOf repositories "deps/sail-riscv" = .ok sail ∧
          heads = [("deps/ckb-vm", ckb), ("deps/sail-riscv", sail)] := by
  have hnames : SUBMODULES = ["deps/ckb-vm", "deps/sail-riscv"] := by decide
  rw [submoduleHeads, hnames, Py.collect_eq_ok]
  simp only [List.forall₂_cons_left_iff, List.forall₂_nil_left_iff, map_eq_ok]
  constructor
  · rintro ⟨_, _, ⟨ckb, hckb, rfl⟩, ⟨_, _, ⟨sail, hsail, rfl⟩, rfl, rfl⟩, rfl⟩
    exact ⟨ckb, sail, hckb, hsail, rfl⟩
  · rintro ⟨ckb, sail, hckb, hsail, rfl⟩
    exact ⟨_, _, ⟨ckb, hckb, rfl⟩, ⟨_, _, ⟨sail, hsail, rfl⟩, rfl, rfl⟩, rfl⟩

/-- A value equal to a dictionary of texts binds the same texts. -/
theorem eq_texts_iff {value : Json} {texts : List (String × Json)}
    (htexts : ∀ key item, Json.lookup key texts = some item → ∃ text, item = .str text) :
    value.eq (.obj texts) = true ↔
      ∃ fields, value = .obj fields ∧ ∀ key, Json.lookup key fields = Json.lookup key texts := by
  cases value with
  | obj fields =>
      simp only [Json.eq, Json.eqBy_obj_iff, Json.obj.injEq, exists_eq_left']
      refine forall_congr' fun key => ?_
      cases htext : Json.lookup key texts with
      | none => cases Json.lookup key fields <;> simp
      | some item =>
          obtain ⟨text, rfl⟩ := htexts key item htext
          cases hfield : Json.lookup key fields with
          | none => simp
          | some value =>
              simp only [Option.some.injEq]
              exact Json.eq_str_iff
  | _ => simp [Json.eq, Json.eqBy, Json.looseAtom, Json.number?]

theorem texts_pair {first second key : String} {ckb sail : String} {item : Json}
    (h : Json.lookup key [(first, .str ckb), (second, .str sail)] = some item) :
    ∃ text, item = .str text := by
  rw [Json.lookup_cons, Json.lookup_cons] at h
  split_ifs at h
  · exact ⟨ckb, (Option.some.inj h).symm⟩
  · exact ⟨sail, (Option.some.inj h).symm⟩
  · cases h

theorem repositories_eq_ok {repositories : Json} {candidate : String} :
    (repositories.hasKeys REPOSITORIES = true ∧
      (isOid candidate = true ∧ headOf repositories "." = .ok (.str candidate)) ∧
      (∃ root, repositories.getItem "." = .ok root ∧ ∃ links, root.getItem "gitlinks" = .ok links ∧
        ∃ heads, submoduleHeads repositories = .ok heads ∧ links.eq (.obj heads) = true) ∧
      (∃ rows, repositories.items = .ok rows ∧ ∀ row ∈ rows, checkRepository row = .ok ()) ∧
      ∃ info, repositories.getItem "deps/sail-riscv" = .ok info ∧
        ∃ changes, info.getItem "changes_from_head" = .ok changes ∧ changes.truthy = false) ↔
      ValidRepositories candidate repositories := by
  simp only [Json.items_eq_ok, checkRepository_eq_ok, submoduleHeads_eq_ok]
  constructor
  · rintro ⟨hkeys, ⟨hoid, hhead⟩, ⟨root, hroot, links, hlinks, _, ⟨ckb, sail, hckb, hsail, rfl⟩,
      heq⟩, ⟨_, ⟨fields, rfl, rfl⟩, hrows⟩, info, hinfo, changes, hchanges, hfalse⟩
    have heach : ∀ name info, (Json.obj fields).getItem name = .ok info →
        ValidRepository (name, info) := fun name info hitem =>
      hrows _ (Json.mem_bindings.2 (Json.getItem_obj_eq_ok.1 hitem))
    have htext : ∀ name head, headOf (.obj fields) name = .ok head → ∃ text, head = .str text := by
      intro name head hhead
      obtain ⟨info, hinfo, hitem⟩ := headOf_eq_ok.1 hhead
      obtain ⟨text, htext, -⟩ := (heach name info hinfo).head
      rw [htext] at hitem
      exact ⟨text, (Except.ok.inj hitem).symm⟩
    obtain ⟨ckb, rfl⟩ := htext _ _ hckb
    obtain ⟨sail, rfl⟩ := htext _ _ hsail
    obtain ⟨links, rfl, hsame⟩ := (eq_texts_iff fun _ _ => texts_pair).1 heq
    exact ⟨hkeys, hoid, hhead, ⟨root, links, ckb, sail, hroot, hlinks, hckb, hsail, hsame⟩, heach,
      info, changes, hinfo, hchanges, hfalse⟩
  · rintro ⟨hkeys, hoid, hhead, ⟨root, links, ckb, sail, hroot, hlinks, hckb, hsail, hsame⟩, heach,
      info, changes, hinfo, hchanges, hfalse⟩
    obtain ⟨fields, rfl, -⟩ := Json.hasKeys_iff.1 hkeys
    refine ⟨hkeys, ⟨hoid, hhead⟩, ⟨root, hroot, _, hlinks, _, ⟨_, _, hckb, hsail, rfl⟩,
      (eq_texts_iff fun _ _ => texts_pair).2 ⟨links, rfl, hsame⟩⟩, ⟨_, ⟨fields, rfl, rfl⟩, ?_⟩,
      info, hinfo, changes, hchanges, hfalse⟩
    rintro ⟨name, info⟩ hrow
    exact heach name info (Json.getItem_obj_eq_ok.2 (Json.mem_bindings.1 hrow))

theorem isBool_iff {value : Json} {b : Bool} : value.isBool b = true ↔ value = .bool b := by
  cases value <;> simp [Json.isBool]

section Accepted

variable {canonical : Json → List UInt8} {sha256 : List UInt8 → String} {snapshot : Json}
  {candidate : String}

/-- Exactly the valid snapshots are accepted. -/
theorem validateSnapshot_eq_ok {value : Json} :
    validateSnapshot canonical sha256 snapshot candidate = .ok value ↔
      value = snapshot ∧ ValidSnapshot canonical sha256 snapshot candidate := by
  simp only [validateSnapshot, Py.bind_eq_ok, Py.pure_eq_ok, fields_eq_ok, requirePy_eq_ok,
    PythonStd.require_eq_ok, snapshotScope, Py.conj_eq_true, Py.and_eq_true, List.mem_cons,
    List.not_mem_nil, or_false, forall_eq_or_imp, forall_eq, map_eq_ok, Json.eq_int_iff,
    Json.eq_str_iff, Json.str_eq_iff, isBool_iff, exists_eq_right, Except.ok.injEq,
    Bool.not_eq_true', Py.forEach_eq_ok]
  constructor
  · rintro ⟨_, hkeys, _, ⟨⟨version, hversion, hone⟩, hkind, hignored, hreview⟩, digest, hdigest,
      recorded, hrecorded, _, rfl, repositories, hrepositories, _, hnames, _, ⟨hoid, hhead⟩, root,
      hroot, links, hlinks, heads, hheads, _, heq, rows, hrows, _, hall, sail, hsail, changes,
      hchanges, _, hfalse, rfl⟩
    exact ⟨rfl, hkeys, ⟨version, hversion, hone⟩, hkind, hignored, hreview,
      ⟨digest, hdigest, hrecorded⟩, repositories, hrepositories, repositories_eq_ok.1
        ⟨hnames, ⟨hoid, hhead⟩, ⟨root, hroot, links, hlinks, heads, hheads, heq⟩,
          ⟨rows, hrows, hall⟩, sail, hsail, changes, hchanges, hfalse⟩⟩
  · rintro ⟨rfl, hkeys, ⟨version, hversion, hone⟩, hkind, hignored, hreview,
      ⟨digest, hdigest, hrecorded⟩, repositories, hrepositories, hvalid⟩
    obtain ⟨hnames, ⟨hoid, hhead⟩, ⟨root, hroot, links, hlinks, heads, hheads, heq⟩,
      ⟨rows, hrows, hall⟩, sail, hsail, changes, hchanges, hfalse⟩ := repositories_eq_ok.2 hvalid
    exact ⟨(), hkeys, (), ⟨⟨version, hversion, hone⟩, hkind, hignored, hreview⟩, digest, hdigest,
      _, hrecorded, (), rfl, repositories, hrepositories, (), hnames, (), ⟨hoid, hhead⟩, root,
      hroot, links, hlinks, heads, hheads, (), heq, rows, hrows, (), hall, sail, hsail, changes,
      hchanges, (), hfalse, rfl⟩

/-! ## Another order of the keys -/

theorem getItem_str_of_dumpsEq {value other : Json} {key text : String}
    (h : value.dumpsEq other = true) (hitem : value.getItem key = .ok (.str text)) :
    other.getItem key = .ok (.str text) := by
  obtain ⟨item, hother, hsame⟩ := Json.getItem_of_dumpsEq h hitem
  rw [Json.str_dumpsEq_iff.1 hsame] at hother
  exact hother

theorem getItem_int_of_dumpsEq {value other : Json} {key : String} {i : Int}
    (h : value.dumpsEq other = true) (hitem : value.getItem key = .ok (.int i)) :
    other.getItem key = .ok (.int i) := by
  obtain ⟨item, hother, hsame⟩ := Json.getItem_of_dumpsEq h hitem
  rw [Json.int_dumpsEq_iff.1 hsame] at hother
  exact hother

theorem getItem_bool_of_dumpsEq {value other : Json} {key : String} {b : Bool}
    (h : value.dumpsEq other = true) (hitem : value.getItem key = .ok (.bool b)) :
    other.getItem key = .ok (.bool b) := by
  obtain ⟨item, hother, hsame⟩ := Json.getItem_of_dumpsEq h hitem
  rw [Json.bool_dumpsEq_iff.1 hsame] at hother
  exact hother

theorem lookup_of_dumpsEq {fields others : List (String × Json)}
    (h : (Json.obj fields).dumpsEq (.obj others) = true) {key : String} {other : Json}
    (hother : Json.lookup key others = some other) :
    ∃ item, Json.lookup key fields = some item ∧ item.dumpsEq other = true := by
  obtain ⟨_, hothers, hrel⟩ := Json.obj_dumpsEq_iff.1 h
  cases hothers
  have hkey := hrel key
  rw [hother] at hkey
  cases hitem : Json.lookup key fields with
  | none =>
      rw [hitem] at hkey
      cases hkey
  | some item =>
      rw [hitem] at hkey
      cases hkey with
      | some hsame => exact ⟨item, rfl, hsame⟩

theorem getItem_back_of_dumpsEq {value other item : Json} {key : String}
    (h : value.dumpsEq other = true) (hkeys : ∃ names, value.hasKeys names = true)
    (hitem : other.getItem key = .ok item) :
    ∃ item', value.getItem key = .ok item' ∧ item'.dumpsEq item = true := by
  obtain ⟨names, hnames⟩ := hkeys
  obtain ⟨fields, rfl, -⟩ := Json.hasKeys_iff.1 hnames
  obtain ⟨others, rfl, -⟩ := Json.obj_dumpsEq_iff.1 h
  obtain ⟨item', hitem', hsame⟩ := lookup_of_dumpsEq h (Json.getItem_obj_eq_ok.1 hitem)
  exact ⟨item', Json.getItem_obj_eq_ok.2 hitem', hsame⟩

theorem ValidFile.of_dumpsEq {name : String} {row other : Json} (h : ValidFile (name, row))
    (hsame : row.dumpsEq other = true) : ValidFile (name, other) := by
  obtain ⟨mode, hmode, hfine⟩ := h.mode
  obtain ⟨size, hsize⟩ := h.size
  obtain ⟨digest, hdigest, hmatches⟩ := h.sha256
  exact ⟨h.safe, h.outsideGit, ⟨mode, getItem_str_of_dumpsEq hsame hmode, hfine⟩,
    ⟨size, getItem_int_of_dumpsEq hsame hsize⟩,
    digest, getItem_str_of_dumpsEq hsame hdigest, hmatches⟩

theorem ValidRepository.of_dumpsEq {name : String} {info other : Json}
    (h : ValidRepository (name, info)) (hsame : info.dumpsEq other = true) :
    ValidRepository (name, other) := by
  obtain ⟨head, hhead, hoid⟩ := h.head
  obtain ⟨rows, hrows, htruthy, hall⟩ := h.files
  obtain ⟨files, hfiles, hfilesSame⟩ := Json.getItem_of_dumpsEq hsame hrows
  obtain ⟨others, rfl, -⟩ := Json.obj_dumpsEq_iff.1 hfilesSame
  refine ⟨Json.hasKeys_of_dumpsEq hsame h.keys, ⟨head, getItem_str_of_dumpsEq hsame hhead, hoid⟩,
    fun hname => ?_, others, hfiles, ?_, fun file row hrow => ?_⟩
  · obtain ⟨links, hlinks, hfalse⟩ := h.unnested hname
    obtain ⟨links', hlinks', hlinksSame⟩ := Json.getItem_of_dumpsEq hsame hlinks
    exact ⟨links', hlinks', Json.truthy_of_dumpsEq hlinksSame ▸ hfalse⟩
  · exact Json.truthy_of_dumpsEq hfilesSame ▸ htruthy
  · obtain ⟨row', hrow', hrowSame⟩ := lookup_of_dumpsEq hfilesSame hrow
    exact (hall file row' hrow').of_dumpsEq hrowSame

theorem headOf_of_dumpsEq {repositories other : Json} {name head : String}
    (hsame : repositories.dumpsEq other = true)
    (h : headOf repositories name = .ok (.str head)) : headOf other name = .ok (.str head) := by
  obtain ⟨info, hinfo, hhead⟩ := headOf_eq_ok.1 h
  obtain ⟨info', hinfo', hinfoSame⟩ := Json.getItem_of_dumpsEq hsame hinfo
  exact headOf_eq_ok.2 ⟨info', hinfo', getItem_str_of_dumpsEq hinfoSame hhead⟩

theorem Linked.of_dumpsEq {repositories other : Json} (h : Linked repositories)
    (hsame : repositories.dumpsEq other = true) : Linked other := by
  obtain ⟨root, links, ckb, sail, hroot, hlinks, hckb, hsail, hall⟩ := h
  obtain ⟨root', hroot', hrootSame⟩ := Json.getItem_of_dumpsEq hsame hroot
  obtain ⟨value, hlinks', hlinksSame⟩ := Json.getItem_of_dumpsEq hrootSame hlinks
  obtain ⟨links', rfl, hrel⟩ := Json.obj_dumpsEq_iff.1 hlinksSame
  refine ⟨root', links', ckb, sail, hroot', hlinks', headOf_of_dumpsEq hsame hckb,
    headOf_of_dumpsEq hsame hsail, fun key => ?_⟩
  have hkey := hrel key
  rw [hall key] at hkey
  cases hleft : Json.lookup key [("deps/ckb-vm", Json.str ckb), ("deps/sail-riscv", .str sail)] with
  | none =>
      rw [hleft] at hkey
      cases hright : Json.lookup key links' with
      | none => rfl
      | some item =>
          rw [hright] at hkey
          cases hkey
  | some item =>
      obtain ⟨text, rfl⟩ := texts_pair hleft
      rw [hleft] at hkey
      cases hright : Json.lookup key links' with
      | none =>
          rw [hright] at hkey
          cases hkey
      | some item' =>
          rw [hright] at hkey
          cases hkey with
          | some htext => rw [Json.str_dumpsEq_iff.1 htext]

theorem ValidRepositories.of_dumpsEq {repositories other : Json}
    (h : ValidRepositories candidate repositories) (hsame : repositories.dumpsEq other = true) :
    ValidRepositories candidate other := by
  refine ⟨Json.hasKeys_of_dumpsEq hsame h.keys, h.oid, headOf_of_dumpsEq hsame h.head,
    h.gitlinks.of_dumpsEq hsame, fun name info hinfo => ?_, ?_⟩
  · obtain ⟨info', hinfo', hinfoSame⟩ := getItem_back_of_dumpsEq hsame ⟨_, h.keys⟩ hinfo
    exact (h.each name info' hinfo').of_dumpsEq hinfoSame
  · obtain ⟨info, changes, hinfo, hchanges, hfalse⟩ := h.sail
    obtain ⟨info', hinfo', hinfoSame⟩ := Json.getItem_of_dumpsEq hsame hinfo
    obtain ⟨changes', hchanges', hchangesSame⟩ := Json.getItem_of_dumpsEq hinfoSame hchanges
    exact ⟨info', changes', hinfo', hchanges', Json.truthy_of_dumpsEq hchangesSame ▸ hfalse⟩

theorem number_of_dumpsEq {value other : Json} (h : value.dumpsEq other = true) :
    value.number? = other.number? := by
  cases value <;> cases other <;>
    simp_all [Json.dumpsEq, Json.eqBy, Json.strictAtom, Json.number?]

theorem lookup_filter_ne (removed key : String) (fields : List (String × Json)) :
    Json.lookup key (fields.filter fun binding => binding.1 ≠ removed) =
      if key = removed then none else Json.lookup key fields := by
  induction fields with
  | nil => simp
  | cons binding fields ih =>
      obtain ⟨name, value⟩ := binding
      by_cases hname : name = removed
      · rw [List.filter_cons_of_neg (by simpa using hname), ih, Json.lookup_cons]
        by_cases hkey : key = removed
        · simp [hkey]
        · rw [if_neg hkey, if_neg hkey, if_neg (fun hsame => hkey (hsame.trans hname))]
      · rw [List.filter_cons_of_pos (by simpa using hname), Json.lookup_cons, ih, Json.lookup_cons]
        by_cases hkey : key = name
        · rw [if_pos hkey, if_pos hkey, if_neg (fun hsame => hname (hkey.symm.trans hsame))]
        · rw [if_neg hkey, if_neg hkey]

theorem selfDigest_of_dumpsEq {other : Json} {digest : String}
    (hcanonical : ∀ left right : Json, left.dumpsEq right = true → canonical left = canonical right)
    (hsame : snapshot.dumpsEq other = true)
    (h : selfDigest canonical sha256 snapshot = .ok digest) :
    selfDigest canonical sha256 other = .ok digest := by
  obtain ⟨body, hbody, rfl⟩ := map_eq_ok.1 h
  cases snapshot with
  | obj fields =>
      obtain ⟨others, rfl, hrel⟩ := Json.obj_dumpsEq_iff.1 hsame
      cases hbody
      refine map_eq_ok.2 ⟨_, rfl, congrArg sha256 (hcanonical _ _ ?_).symm⟩
      refine Json.obj_dumpsEq_iff.2 ⟨_, rfl, fun key => ?_⟩
      rw [lookup_filter_ne, lookup_filter_ne]
      split_ifs
      · exact Option.Rel.none
      · exact hrel key
  | _ => cases hbody

theorem ValidSnapshot.of_dumpsEq {other : Json}
    (hcanonical : ∀ left right : Json, left.dumpsEq right = true → canonical left = canonical right)
    (h : ValidSnapshot canonical sha256 snapshot candidate)
    (hsame : snapshot.dumpsEq other = true) :
    ValidSnapshot canonical sha256 other candidate := by
  obtain ⟨version, hversion, hone⟩ := h.schema
  obtain ⟨version', hversion', hversionSame⟩ := Json.getItem_of_dumpsEq hsame hversion
  obtain ⟨digest, hdigest, hrecorded⟩ := h.digest
  obtain ⟨repositories, hrepositories, hvalid⟩ := h.repositories
  obtain ⟨repositories', hrepositories', hrepositoriesSame⟩ :=
    Json.getItem_of_dumpsEq hsame hrepositories
  exact ⟨Json.hasKeys_of_dumpsEq hsame h.keys,
    ⟨version', hversion', number_of_dumpsEq hversionSame ▸ hone⟩,
    getItem_str_of_dumpsEq hsame h.kind, getItem_bool_of_dumpsEq hsame h.ignored,
    getItem_bool_of_dumpsEq hsame h.review,
    ⟨digest, selfDigest_of_dumpsEq hcanonical hsame hdigest,
      getItem_str_of_dumpsEq hsame hrecorded⟩,
    repositories', hrepositories', hvalid.of_dumpsEq hrepositoriesSame⟩

end Accepted

end CkbSail.Scripts.SourceCapsule
