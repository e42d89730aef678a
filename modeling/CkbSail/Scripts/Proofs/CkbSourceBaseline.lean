import CkbSail.Scripts.Proofs.SnapshotFiles

/-!
# What the baseline check reads

The check reads the manifest, the patch, the inputs of the extraction and the sources of the
submodule.  What it returns is determined by the manifest.
-/

namespace CkbSail.Scripts.CkbSourceBaseline

open PythonStd GitCheckout
open FixedInputs (Stage raised raised_eq_ok stage_bind_eq_ok)
open SourceSnapshot (SourceName)

/-! ## The manifest -/

/-- What a manifest records. -/
structure Record where
  commit : Json
  patch : String
  patchSha256 : Json
  inputs : List (String × Json)
  added : Json
  treeSha256 : Json
  baselineId : Json

/-- The manifest has these values, for this upstream commit. -/
structure Records (manifest : Json) (head : String) (record : Record) : Prop where
  version : ∃ version, manifest.getItem "schema_version" = .ok version ∧
    version.eq (.int 1) = true
  commit : manifest.getItem "upstream_commit" = .ok record.commit
  head : (Json.str head).eq record.commit = true
  patch : manifest.getItem "patch" = .ok (.str record.patch)
  patchSha256 : manifest.getItem "patch_sha256" = .ok record.patchSha256
  inputs : ∃ inputs, manifest.getItem "extraction_inputs" = .ok inputs ∧
    inputs.items = .ok record.inputs
  added : manifest.getItem "added_files" = .ok record.added
  treeSha256 : manifest.getItem "source_tree_sha256" = .ok record.treeSha256
  baselineId : manifest.getItem "baseline_id" = .ok record.baselineId

/-- The patch and the inputs are read from a root as they are recorded, and the patch
applies in reverse to the submodule in it. -/
structure Reads (tools : Tools) (root : WorkView) (outside : Outside) (record : Record) : Prop where
  patch : ∃ bytes, readBytes root outside record.patch = .ok bytes ∧
    (Json.str (tools.sha256 bytes)).eq record.patchSha256 = true ∧
    tools.reverseApplies (fun path => root (baseOf REPOSITORY ++ path)) bytes = true
  inputs : ∀ input ∈ record.inputs, ∃ bytes, readBytes root outside input.1 = .ok bytes ∧
    (Json.str (tools.sha256 bytes)).eq input.2 = true

def Record.result (tools : Tools) (manifestBytes : List UInt8) (record : Record) : Json :=
  .obj [("baseline_id", record.baselineId), ("upstream_commit", record.commit),
    ("patch_sha256", record.patchSha256), ("source_tree_sha256", record.treeSha256),
    ("manifest_sha256", .str (tools.sha256 manifestBytes)),
    ("identity_kind", .str "verified-source-checkout-not-binary-attestation")]

section Check

variable {tools : Tools} {checkout : Checkout} {root : WorkView} {outside : Outside}

theorem Records.unique {manifest : Json} {head : String} {record record' : Record}
    (h : Records manifest head record) (h' : Records manifest head record') : record = record' := by
  obtain ⟨commit, patch, patchSha256, inputs, added, treeSha256, baselineId⟩ := record
  obtain ⟨commit', patch', patchSha256', inputs', added', treeSha256', baselineId'⟩ := record'
  obtain ⟨value, hvalue, hinputs⟩ := h.inputs
  obtain ⟨value', hvalue', hinputs'⟩ := h'.inputs
  obtain rfl := Except.ok.inj (hvalue.symm.trans hvalue')
  obtain rfl : inputs = inputs' := Except.ok.inj (hinputs.symm.trans hinputs')
  obtain rfl : commit = commit' := Except.ok.inj (h.commit.symm.trans h'.commit)
  obtain rfl : patch = patch' := Json.str.inj (Except.ok.inj (h.patch.symm.trans h'.patch))
  obtain rfl : patchSha256 = patchSha256' :=
    Except.ok.inj (h.patchSha256.symm.trans h'.patchSha256)
  obtain rfl : added = added' := Except.ok.inj (h.added.symm.trans h'.added)
  obtain rfl : treeSha256 = treeSha256' := Except.ok.inj (h.treeSha256.symm.trans h'.treeSha256)
  obtain rfl : baselineId = baselineId' := Except.ok.inj (h.baselineId.symm.trans h'.baselineId)
  rfl

theorem requireSame_eq_ok {actual expected : Json} {label : String} {u : Unit} :
    requireSame actual expected label = .ok u ↔ actual.eq expected = true := by
  rw [requireSame, PythonStd.require_eq_ok]

theorem nameOf_eq_ok {value : Json} {name : String} :
    nameOf value = .ok name ↔ value = .str name := by
  cases value <;> simp [nameOf]

theorem checkInputs_eq_ok {inputs : List (String × Json)} {u : Unit} :
    checkInputs tools root outside inputs = .ok u ↔
      ∀ input ∈ inputs, ∃ bytes, readBytes root outside input.1 = .ok bytes ∧
        (Json.str (tools.sha256 bytes)).eq input.2 = true := by
  induction inputs with
  | nil => simp [checkInputs]
  | cons input inputs ih =>
      rw [checkInputs, stage_bind_eq_ok, List.forall_mem_cons, ← ih]
      simp only [checkInput, stage_bind_eq_ok, raised_eq_ok, requireSame_eq_ok, exists_const]

theorem check_eq_ok {result : Json} : check tools checkout = .ok result ↔
    ∃ bytes manifest record hash,
      readBytes checkout.rows.view checkout.outside MANIFEST = .ok bytes ∧
      tools.loads bytes = .ok manifest ∧
      Records manifest (checkout.repository REPOSITORY).head record ∧
      Reads tools checkout.rows.view checkout.outside record ∧
      tree tools checkout record.added = .ok hash ∧
      (Json.str hash).eq record.treeSha256 = true ∧ result = record.result tools bytes := by
  have hbelow : (checkout.rows.below (baseOf REPOSITORY)).view =
      fun path => checkout.rows.view (baseOf REPOSITORY ++ path) := funext fun _ => view_below _
  simp only [check, stage_bind_eq_ok, raised_eq_ok, requireSame_eq_ok, exists_const,
    Py.bind_eq_ok, nameOf_eq_ok, checkInputs_eq_ok, hbelow]
  constructor
  · rintro ⟨bytes, hbytes, manifest, hmanifest, version, hversion, hone, commit, hcommit, hhead,
      patch, ⟨_, hpatch, rfl⟩, patchBytes, hpatchBytes, patchSha256, hpatchSha256, hsha, inputs,
      ⟨value, hvalue, hinputs⟩, hread, added, hadded, hash, hhash, treeSha256, htree, hsame, h⟩
    split_ifs at h with hreverse
    rw [stage_bind_eq_ok] at h
    obtain ⟨baselineId, hid, h⟩ := h
    have hresult := (Except.ok.inj h).symm
    exact ⟨bytes, manifest, ⟨commit, patch, patchSha256, inputs, added, treeSha256, baselineId⟩,
      hash, hbytes, hmanifest, ⟨⟨version, hversion, hone⟩, hcommit, hhead, hpatch, hpatchSha256,
        ⟨value, hvalue, hinputs⟩, hadded, htree, raised_eq_ok.1 hid⟩,
      ⟨⟨patchBytes, hpatchBytes, hsha, by simpa using hreverse⟩, hread⟩, hhash, hsame, hresult⟩
  · rintro ⟨bytes, manifest, record, hash, hbytes, hmanifest, hrecords, hreads, hhash, hsame, rfl⟩
    obtain ⟨version, hversion, hone⟩ := hrecords.version
    obtain ⟨value, hvalue, hinputs⟩ := hrecords.inputs
    obtain ⟨patchBytes, hpatchBytes, hsha, hreverse⟩ := hreads.patch
    refine ⟨bytes, hbytes, manifest, hmanifest, version, hversion, hone, record.commit,
      hrecords.commit, hrecords.head, record.patch, ⟨_, hrecords.patch, rfl⟩, patchBytes,
      hpatchBytes, record.patchSha256, hrecords.patchSha256, hsha, record.inputs,
      ⟨value, hvalue, hinputs⟩, hreads.inputs, record.added, hrecords.added, hash, hhash,
      record.treeSha256, hrecords.treeSha256, hsame, ?_⟩
    rw [if_neg (by simp [hreverse]), stage_bind_eq_ok]
    exact ⟨record.baselineId, raised_eq_ok.2 hrecords.baselineId, rfl⟩

/-- Two roots in which the manifest and the sources are the same pass alike when the other
inputs can be read. -/
theorem check_of_reads {checkout' : Checkout} {result : Json}
    (h : check tools checkout = .ok result)
    (hhead : (checkout'.repository REPOSITORY).head = (checkout.repository REPOSITORY).head)
    (hmanifest : readBytes checkout'.rows.view checkout'.outside MANIFEST =
      readBytes checkout.rows.view checkout.outside MANIFEST)
    (htree : ∀ added hash, tree tools checkout added = .ok hash →
      tree tools checkout' added = .ok hash)
    (hreads : ∀ bytes manifest record,
      readBytes checkout.rows.view checkout.outside MANIFEST = .ok bytes →
      tools.loads bytes = .ok manifest →
      Records manifest (checkout.repository REPOSITORY).head record →
      Reads tools checkout'.rows.view checkout'.outside record) :
    check tools checkout' = .ok result := by
  obtain ⟨bytes, manifest, record, hash, hbytes, hloads, hrecords, -, hhash, hsame, rfl⟩ :=
    check_eq_ok.1 h
  exact check_eq_ok.2 ⟨bytes, manifest, record, hash, hmanifest.trans hbytes, hloads,
    hhead ▸ hrecords, hreads bytes manifest record hbytes hloads hrecords,
    htree record.added hash hhash, hsame, rfl⟩

/-! ## Files of the root -/

/-- A file that stands at its name is read. -/
theorem readBytes_of_view (hclosed : Closed root) {name : String} (hname : SourceName name)
    {mode : Nat} {bytes : List UInt8} (h : root (split name) = some (.file mode bytes)) :
    readBytes root outside name = .ok bytes := by
  rw [readBytes]
  simp only [hname.relative, Bool.false_eq_true, if_false]
  rw [hname.parts_eq, findNode_of_view hclosed h (split_ne_nil name) (by simp)]
  rfl

/-- Without links what is read stands at its name. -/
theorem view_of_readBytes (hclosed : Closed root)
    (hlinks : ∀ path target, root path ≠ some (.symlink target)) {name : String}
    (hname : SourceName name) {bytes : List UInt8} (h : readBytes root outside name = .ok bytes) :
    ∃ mode, root (split name) = some (.file mode bytes) := by
  rw [readBytes] at h
  simp only [hname.relative, Bool.false_eq_true, if_false] at h
  rw [hname.parts_eq, findNode_eq hclosed hlinks hname.plain (split_ne_nil name)] at h
  rcases hnode : root (split name) with _ | _ | ⟨mode, bytes'⟩ | _ | _
  all_goals simp only [hnode, WorkNode.readBytes, reduceCtorEq, Except.ok.injEq] at h
  exact ⟨mode, h ▸ rfl⟩

theorem sourceName_MANIFEST : SourceName MANIFEST := by
  have hsplit : split MANIFEST =
      ["proof", "lean", "extraction", "ckb-source-baseline.json"] := by decide
  refine ⟨by decide, ?_, ?_⟩
  · rw [hsplit]
    simp [Ordinary]
  · rw [hsplit]
    decide

/-! ## The source tree -/

/-- The row of a source that is a file. -/
def sourceRow (tools : Tools) (name : String) (mode : Nat) (bytes : List UInt8) : String × Json :=
  (name, .obj [("mode", .str (modeText mode)), ("sha256", .str (tools.sha256 bytes))])

theorem hashRow_of_view (hclosed : Closed checkout.rows.view) {name : String}
    (hname : SourceName name) {mode : Nat} {bytes : List UInt8}
    (h : checkout.rows.view (baseOf REPOSITORY ++ split name) = some (.file mode bytes)) :
    hashRow tools checkout name = .ok (sourceRow tools name mode bytes) := by
  have hfind : ∀ last, findNode checkout.rows.view checkout.outside last
      (baseOf REPOSITORY ++ split name) = some (.file mode bytes) := fun last =>
    findNode_of_view hclosed h (by simp [split_ne_nil]) (by simp)
  rw [hashRow]
  simp only [hname.parts_eq, hfind]
  rfl

theorem view_of_hashRow (hclosed : Closed checkout.rows.view)
    (hlinks : ∀ path target, checkout.rows.view path ≠ some (.symlink target)) {name : String}
    (hname : SourceName name) (hbase : Plain (baseOf REPOSITORY)) {row : String × Json}
    (h : hashRow tools checkout name = .ok row) : ∃ mode bytes,
      checkout.rows.view (baseOf REPOSITORY ++ split name) = some (.file mode bytes) := by
  rw [hashRow] at h
  simp only [hname.parts_eq, findNode_eq hclosed hlinks (hname.below hbase)
    (show baseOf REPOSITORY ++ split name ≠ [] by simp [split_ne_nil])] at h
  rw [stage_bind_eq_ok] at h
  obtain ⟨-, -, h⟩ := h
  rcases hnode : checkout.rows.view (baseOf REPOSITORY ++ split name) with _ | _ | ⟨mode, bytes⟩ |
    _ | _
  all_goals simp only [hnode, reduceCtorEq] at h
  exact ⟨mode, bytes, rfl⟩

theorem hashRows_congr {checkout' : Checkout} {names : List String} (h : ∀ name ∈ names,
    hashRow tools checkout' name = hashRow tools checkout name) :
    hashRows tools checkout' names = hashRows tools checkout names := by
  induction names with
  | nil => rfl
  | cons name names ih =>
      rw [List.forall_mem_cons] at h
      rw [hashRows, hashRows, h.1, ih h.2]

theorem exists_hashRow {names : List String} {rows : List (String × Json)}
    (h : hashRows tools checkout names = .ok rows) {name : String} (hname : name ∈ names) :
    ∃ row, hashRow tools checkout name = .ok row := by
  induction names generalizing rows with
  | nil => cases hname
  | cons other names ih =>
      rw [hashRows, stage_bind_eq_ok] at h
      obtain ⟨row, hrow, h⟩ := h
      rw [stage_bind_eq_ok] at h
      obtain ⟨rest, hrest, -⟩ := h
      rcases List.mem_cons.1 hname with rfl | hname
      · exact ⟨row, hrow⟩
      · exact ih hrest hname

theorem addNames_eq_ok {items : List Json} {names all : List String}
    (h : addNames items names = .ok all) :
    ∃ added, items = added.map Json.str ∧ all = names ++ added := by
  induction items generalizing names with
  | nil =>
      cases h
      exact ⟨[], rfl, by simp⟩
  | cons item items ih =>
      cases item with
      | str name =>
          rw [addNames, Py.bind_eq_ok] at h
          obtain ⟨-, -, h⟩ := h
          obtain ⟨added, rfl, rfl⟩ := ih h
          exact ⟨name :: added, rfl, by simp⟩
      | _ => cases h

theorem upstreamNames {rows : List GitRow} {names : List String}
    (h : Py.collect upstreamName rows = .ok names) :
    names = rows.map GitRow.name ∧ ∀ row ∈ rows, row.kind = "blob" := by
  rw [Py.collect_eq_ok] at h
  induction h with
  | nil => exact ⟨rfl, by simp⟩
  | cons hrow _ ih =>
      rw [upstreamName, Py.bind_eq_ok] at hrow
      obtain ⟨u, hkind, hrow⟩ := hrow
      rw [PythonStd.require_eq_ok, Bool.and_eq_true, decide_eq_true_eq] at hkind
      obtain rfl := Py.pure_eq_ok.1 hrow
      obtain ⟨rfl, hrows⟩ := ih
      exact ⟨rfl, List.forall_mem_cons.2 ⟨hkind.1, hrows⟩⟩

/-- Names that are listed in another order, or more than once, are the same set. -/
theorem setEq_congr {value : Json} {names names' : List String}
    (h : ∀ name, name ∈ names ↔ name ∈ names') : value.setEq names = value.setEq names' := by
  have hitems : ∀ items : List Json, Json.itemsEq items names = Json.itemsEq items names' := by
    intro items
    have hany : ∀ item : Json, (names.any fun name => item.eq (.str name)) =
        names'.any fun name => item.eq (.str name) := by
      intro item
      rw [Bool.eq_iff_iff, List.any_eq_true, List.any_eq_true]
      exact exists_congr fun name => and_congr_left' (h name)
    have hall : (names.all fun name => items.any fun item => item.eq (.str name)) =
        names'.all fun name => items.any fun item => item.eq (.str name) := by
      rw [Bool.eq_iff_iff, List.all_eq_true, List.all_eq_true]
      exact forall_congr' fun name => imp_congr_left (h name)
    simp only [Json.itemsEq, hany, hall]
  simp only [Json.setEq, hitems]

theorem mem_of_setEq {value : Json} {names : List String} {items : List Json} {name : String}
    (h : value.setEq names = .ok true) (hitems : value.iter = .ok items)
    (hname : Json.str name ∈ items) : name ∈ names := by
  rw [Json.setEq, hitems] at h
  simp only [bind, Except.bind, Json.itemsEq] at h
  split_ifs at h
  rw [Except.ok.injEq, Bool.and_eq_true, List.all_eq_true] at h
  obtain ⟨name', hname', hsame⟩ := List.any_eq_true.1 (h.1 _ hname)
  obtain rfl := Json.str.inj (Json.str_eq_iff.1 hsame)
  exact hname'

theorem tree_eq_ok {added : Json} {hash : String} : tree tools checkout added = .ok hash ↔
    ∃ upstream items names hashes,
      Py.collect upstreamName (checkout.repository REPOSITORY).tree = .ok upstream ∧
      added.setEq ((lsFiles tools (checkout.repository REPOSITORY)
        (checkout.rows.below (baseOf REPOSITORY))).filter fun name => !upstream.contains name) =
          .ok true ∧
      added.iter = .ok items ∧ addNames items upstream = .ok names ∧
      hashRows tools checkout (sortedNames names) = .ok hashes ∧
      tools.sha256 (tools.canonical (.obj hashes)) = hash := by
  simp only [tree, stage_bind_eq_ok, raised_eq_ok, requirePy_eq_ok, exists_const]
  constructor
  · rintro ⟨upstream, hupstream, hset, items, hitems, names, hnames, hashes, hhashes, h⟩
    exact ⟨upstream, items, names, hashes, hupstream, hset, hitems, hnames, hhashes,
      Except.ok.inj h⟩
  · rintro ⟨upstream, items, names, hashes, hupstream, hset, hitems, hnames, hhashes, rfl⟩
    exact ⟨upstream, hupstream, hset, items, hitems, names, hnames, hashes, hhashes, rfl⟩

end Check

end CkbSail.Scripts.CkbSourceBaseline
