import CkbSail.Scripts.Proofs.FixedInputs
import CkbSail.Scripts.SourceSnapshot

/-!
# What an inventory measures

On a tree in which everything stands in a directory `regular` finds what stands at the
name, and the loop over the listed names keeps those at which a file stands.
-/

namespace CkbSail.Scripts.SourceSnapshot

open PythonStd GitCheckout
open CkbSourceBaseline (modeText)
open FixedInputs (Stage raised raised_eq_ok stage_bind_eq_ok)

/-! ## Names -/

/-- A name that `safe` accepts. -/
structure SourceName (name : String) : Prop where
  relative : isAbsolute name = false
  ordinary : ∀ part ∈ split name, Ordinary part
  outsideGit : ".git" ∉ split name

theorem safe_eq_ok {name name' : String} :
    safe name = .ok name' ↔ name' = name ∧ SourceName name := by
  have hsource : (name ≠ "" ∧ isAbsolute name = false ∧
      ∀ part ∈ split name, part ∉ ["", ".", "..", ".git"]) ↔ SourceName name := by
    constructor
    · rintro ⟨-, hrelative, hparts⟩
      refine ⟨hrelative, fun part hpart hbad => hparts part hpart ?_, fun hgit => ?_⟩
      · simp only [List.mem_cons, List.not_mem_nil, or_false] at hbad ⊢
        tauto
      · exact hparts _ hgit (by simp)
    · intro h
      refine ⟨?_, h.relative, fun part hpart hbad => ?_⟩
      · rintro rfl
        exact h.ordinary "" (by decide) (by simp)
      · have hordinary := h.ordinary part hpart
        simp only [Ordinary, List.mem_cons, List.not_mem_nil, or_false, not_or] at hordinary hbad
        rcases hbad with hbad | hbad | hbad | rfl
        · exact hordinary.1 hbad
        · exact hordinary.2.1 hbad
        · exact hordinary.2.2 hbad
        · exact h.outsideGit hpart
  rw [safe, Py.bind_eq_ok]
  simp only [PythonStd.require_eq_ok, Py.pure_eq_ok]
  rw [← hsource]
  simp only [Bool.and_eq_true, decide_eq_true_eq, Bool.not_eq_true', List.all_eq_true,
    List.contains_eq_mem, decide_eq_false_iff_not, exists_const, and_assoc]
  constructor
  · rintro ⟨hne, hrelative, hparts, rfl⟩
    exact ⟨rfl, hne, hrelative, hparts⟩
  · rintro ⟨rfl, hne, hrelative, hparts⟩
    exact ⟨hne, hrelative, hparts, rfl⟩

namespace SourceName

variable {name : String}

theorem plain (h : SourceName name) : Plain (split name) :=
  ⟨h.ordinary, fun _ hpart => slash_notMem_of_mem_split hpart⟩

theorem below (h : SourceName name) {base : Path} (hbase : Plain base) :
    Plain (base ++ split name) := by
  refine ⟨fun part hpart => ?_, fun part hpart => ?_⟩
  · exact (List.mem_append.1 hpart).elim (hbase.ordinary part) (h.ordinary part)
  · exact (List.mem_append.1 hpart).elim (hbase.slash part) (h.plain.slash part)

theorem parts_eq (h : SourceName name) : parts name = split name := by
  rw [parts, List.filter_eq_self]
  intro part hpart
  have hordinary := h.ordinary part hpart
  simp only [Ordinary, List.mem_cons, List.not_mem_nil, or_false, not_or] at hordinary
  simp [hordinary.1, hordinary.2.1]

end SourceName

/-! ## Files -/

section Regular

variable {rows : WorkRows} {base : Path} {name : String} {mode : Nat} {bytes : List UInt8}

theorem regular_file {found : Nat × List UInt8} (h : regular rows base name = .ok found) :
    SourceName name ∧ rows.view (base ++ split name) = some (.file found.1 found.2) := by
  rw [regular, stage_bind_eq_ok] at h
  obtain ⟨name', hsafe, h⟩ := h
  obtain ⟨rfl, hsource⟩ := safe_eq_ok.1 (raised_eq_ok.1 hsafe)
  rw [stage_bind_eq_ok] at h
  obtain ⟨-, -, h⟩ := h
  refine ⟨hsource, ?_⟩
  rcases hnode : rows.view (base ++ split name') with _ | _ | ⟨mode, bytes⟩ | _ | _
  all_goals simp only [hnode] at h
  all_goals cases h
  rfl

theorem regular_of_file (hsource : SourceName name)
    (hfronts : ∀ front, front <+: split name → front ≠ [] → ∀ target,
      rows.view (base ++ front) ≠ some (.symlink target))
    (hfile : rows.view (base ++ split name) = some (.file mode bytes)) :
    regular rows base name = .ok (mode, bytes) := by
  have hlinks : ((split name).inits.tail.any fun front =>
      WorkNode.isLink (rows.view (base ++ front))) = false := by
    rw [List.any_eq_false]
    intro front hfront
    obtain ⟨hbegins, hne⟩ := mem_inits_tail.1 hfront
    have hlink := hfronts front hbegins hne
    rcases hnode : rows.view (base ++ front) with _ | _ | _ | target | _
    all_goals simp [WorkNode.isLink]
    exact hlink target hnode
  rw [regular, stage_bind_eq_ok]
  refine ⟨name, raised_eq_ok.2 (safe_eq_ok.2 ⟨rfl, hsource⟩), ?_⟩
  simp only [hlinks, hfile]
  rfl

/-- In a tree in which everything stands in a directory no link leads to a file. -/
theorem regular_eq_ok (hclosed : Closed rows.view) {found : Nat × List UInt8} :
    regular rows base name = .ok found ↔
      SourceName name ∧ rows.view (base ++ split name) = some (.file found.1 found.2) := by
  refine ⟨regular_file, fun ⟨hsource, hfile⟩ => regular_of_file hsource ?_ hfile⟩
  intro front hfront _ target hlink
  by_cases hsame : front = split name
  · rw [hsame, hfile] at hlink
    cases hlink
  · have habove := hclosed.above hfile (List.prefix_append_right_inj base |>.2 hfront)
      (fun h => hsame (List.append_cancel_left h))
    rw [habove] at hlink
    cases hlink

end Regular

/-! ## The rows of HEAD -/

/-- The names of the files of HEAD. -/
def headFiles (rows : List GitRow) : List String :=
  (rows.filter fun row => !isGitlink row).map GitRow.name

section Entries

variable {rows : List GitRow} {blobs : List (String × BlobRow)} {links : List (String × String)}

theorem entries_eq_ok (h : entries rows = .ok (blobs, links)) :
    (∀ row ∈ rows, SourceName row.name ∧ (isGitlink row = true ∨
        row.kind = "blob" ∧ (row.mode = "100644" ∨ row.mode = "100755"))) ∧
      blobs = (rows.filter fun row => !isGitlink row).map
        (fun row => (row.name, ⟨row.mode, row.oid⟩)) ∧
      links = (rows.filter isGitlink).map fun row => (row.name, row.oid) := by
  induction rows generalizing blobs links with
  | nil =>
      cases h
      exact ⟨by simp, rfl, rfl⟩
  | cons row rows ih =>
      rw [entries, Py.bind_eq_ok] at h
      obtain ⟨name, hsafe, h⟩ := h
      obtain ⟨rfl, hsource⟩ := safe_eq_ok.1 hsafe
      by_cases hlink : isGitlink row = true
      · rw [if_pos hlink, Py.bind_eq_ok] at h
        obtain ⟨⟨blobs', links'⟩, hrest, h⟩ := h
        obtain ⟨hrows, rfl, rfl⟩ := ih hrest
        obtain ⟨rfl, rfl⟩ := Prod.mk.inj (Py.pure_eq_ok.1 h)
        refine ⟨List.forall_mem_cons.2 ⟨⟨hsource, Or.inl hlink⟩, hrows⟩, ?_, ?_⟩
        · rw [List.filter_cons_of_neg (by simp [hlink])]
        · rw [List.filter_cons_of_pos hlink, List.map_cons]
      · rw [if_neg hlink, Py.bind_eq_ok] at h
        obtain ⟨u, hkind, h⟩ := h
        rw [PythonStd.require_eq_ok, Bool.and_eq_true, Bool.or_eq_true, decide_eq_true_eq,
          decide_eq_true_eq, decide_eq_true_eq] at hkind
        rw [Py.bind_eq_ok] at h
        obtain ⟨⟨blobs', links'⟩, hrest, h⟩ := h
        obtain ⟨hrows, rfl, rfl⟩ := ih hrest
        obtain ⟨rfl, rfl⟩ := Prod.mk.inj (Py.pure_eq_ok.1 h)
        refine ⟨List.forall_mem_cons.2 ⟨⟨hsource, Or.inr hkind⟩, hrows⟩, ?_, ?_⟩
        · rw [List.filter_cons_of_pos (by simp [hlink]), List.map_cons]
        · rw [List.filter_cons_of_neg hlink]

theorem map_fst_blobs (h : entries rows = .ok (blobs, links)) :
    blobs.map Prod.fst = headFiles rows := by
  rw [(entries_eq_ok h).2.1, List.map_map]
  rfl

theorem lookup_isSome_blobs (h : entries rows = .ok (blobs, links)) {name : String} :
    (blobs.lookup name).isSome = true ↔ name ∈ headFiles rows := by
  rw [← map_fst_blobs h, Option.isSome_iff_ne_none, Ne, List.lookup_eq_none_iff]
  constructor
  · intro hname
    by_contra hfree
    refine hname fun row hrow => ?_
    have hne : name ≠ row.1 := by
      rintro rfl
      exact hfree (List.mem_map_of_mem hrow)
    simpa using hne
  · rintro hname hfree
    obtain ⟨row, hrow, rfl⟩ := List.mem_map.1 hname
    simpa using hfree row hrow

end Entries

/-! ## The loop over the listed names -/

/-- What is measured at a name in a tree. -/
def measuredAt (tools : Tools) (tree : WorkView) (base : Path) (name : String) :
    Option Measured :=
  match tree (base ++ split name) with
  | some (.file mode bytes) => some (measure tools name mode bytes)
  | _ => none

section Measure

variable {tools : Tools} {checkout : Checkout} {base : Path}
  {original : List (String × BlobRow)} {name : String}

theorem measuredAt_name {tree : WorkView} {file : Measured}
    (h : measuredAt tools tree base name = some file) : file.name = name := by
  rw [measuredAt] at h
  split at h
  · obtain rfl := Option.some.inj h
    rfl
  · cases h

theorem measuredAt_isSome {tree : WorkView} :
    (measuredAt tools tree base name).isSome = true ↔
      ∃ mode bytes, tree (base ++ split name) = some (.file mode bytes) := by
  rw [measuredAt]
  split
  · rename_i mode bytes hnode
    exact iff_of_true rfl ⟨mode, bytes, hnode⟩
  · rename_i hnode
    exact iff_of_false (by simp) fun ⟨mode, bytes, h⟩ => hnode mode bytes h

theorem measureFile_eq_ok (hclosed : Closed checkout.rows.view) {found : Option Measured}
    (h : measureFile tools checkout base original name = .ok found) :
    SourceName name ∧ found = measuredAt tools checkout.rows.view base name ∧
      (found = none → (original.lookup name).isSome = true ∧
        checkout.rows.view (base ++ split name) ≠ some .directory) := by
  rw [measureFile, stage_bind_eq_ok] at h
  obtain ⟨name', hsafe, h⟩ := h
  obtain ⟨rfl, hsource⟩ := safe_eq_ok.1 (raised_eq_ok.1 hsafe)
  refine ⟨hsource, ?_⟩
  simp only [hsource.parts_eq] at h
  split at h
  · rename_i hgone
    rw [stage_bind_eq_ok] at h
    obtain ⟨u, hknown, h⟩ := h
    obtain rfl := Except.ok.inj h
    -- what stands there would be found
    have hfound : ∀ node, checkout.rows.view (base ++ split name') = some node →
        ∃ target, node = .symlink target := by
      intro node hnode
      by_contra hlink
      push Not at hlink
      rw [findNode_of_view hclosed hnode (by simp [split_ne_nil]) hlink] at hgone
      simp at hgone
    refine ⟨?_, fun _ => ⟨PythonStd.require_eq_ok.1 (raised_eq_ok.1 hknown), fun hdir => ?_⟩⟩
    · rw [eq_comm, ← Option.not_isSome_iff_eq_none, measuredAt_isSome]
      rintro ⟨mode, bytes, hfile⟩
      obtain ⟨target, htarget⟩ := hfound _ hfile
      cases htarget
    · obtain ⟨target, htarget⟩ := hfound _ hdir
      cases htarget
  · rw [stage_bind_eq_ok] at h
    obtain ⟨⟨mode, bytes⟩, hregular, h⟩ := h
    obtain rfl := Except.ok.inj h
    rw [measuredAt, (regular_file hregular).2]
    exact ⟨rfl, fun hnone => by cases hnone⟩

/-- Without links every listed name is measured that is free and known, or a file. -/
theorem measureFile_of_view (hclosed : Closed checkout.rows.view)
    (hlinks : ∀ path target, checkout.rows.view path ≠ some (.symlink target))
    (hsource : SourceName name) (hbase : Plain base)
    (hnode : (measuredAt tools checkout.rows.view base name).isSome = true ∨
      checkout.rows.view (base ++ split name) = none ∧ (original.lookup name).isSome = true) :
    measureFile tools checkout base original name =
      .ok (measuredAt tools checkout.rows.view base name) := by
  have hfind : ∀ last, findNode checkout.rows.view checkout.outside last (base ++ split name) =
      checkout.rows.view (base ++ split name) :=
    fun last => findNode_eq hclosed hlinks (hsource.below hbase) (by simp [split_ne_nil])
  rw [measureFile, stage_bind_eq_ok]
  refine ⟨name, raised_eq_ok.2 (safe_eq_ok.2 ⟨rfl, hsource⟩), ?_⟩
  simp only [hsource.parts_eq, hfind]
  rcases hnode with hfile | ⟨hfree, hknown⟩
  · obtain ⟨mode, bytes, hfile⟩ := measuredAt_isSome.1 hfile
    rw [hfile]
    simp only [Option.isNone_some, Bool.false_and, Bool.false_eq_true, if_false]
    rw [stage_bind_eq_ok]
    refine ⟨(mode, bytes), (regular_eq_ok hclosed).2 ⟨hsource, hfile⟩, ?_⟩
    rw [measuredAt, hfile]
    rfl
  · rw [hfree, if_pos (by simp [WorkNode.isLink]), measuredAt, hfree]
    simp [hknown, PythonStd.require, raised, bind, Except.bind, pure, Except.pure]

theorem measureFiles_eq_ok (hclosed : Closed checkout.rows.view) {names : List String}
    {files : List Measured} (h : measureFiles tools checkout base original names = .ok files) :
    files = names.filterMap (measuredAt tools checkout.rows.view base) ∧
      ∀ name ∈ names, SourceName name ∧
        (measuredAt tools checkout.rows.view base name = none →
          (original.lookup name).isSome = true ∧
            checkout.rows.view (base ++ split name) ≠ some .directory) := by
  induction names generalizing files with
  | nil =>
      cases h
      exact ⟨rfl, by simp⟩
  | cons name names ih =>
      rw [measureFiles, stage_bind_eq_ok] at h
      obtain ⟨found, hfound, h⟩ := h
      rw [stage_bind_eq_ok] at h
      obtain ⟨rest, hrest, h⟩ := h
      obtain rfl := Except.ok.inj h
      obtain ⟨hsource, rfl, hknown⟩ := measureFile_eq_ok hclosed hfound
      obtain ⟨rfl, hnames⟩ := ih hrest
      refine ⟨?_, List.forall_mem_cons.2 ⟨⟨hsource, hknown⟩, hnames⟩⟩
      rw [List.filterMap_cons]
      cases measuredAt tools checkout.rows.view base name <;> rfl

theorem name_of_measureFile {file : Measured}
    (h : measureFile tools checkout base original name = .ok (some file)) : file.name = name := by
  rw [measureFile, stage_bind_eq_ok] at h
  obtain ⟨name', hsafe, h⟩ := h
  obtain ⟨rfl, -⟩ := safe_eq_ok.1 (raised_eq_ok.1 hsafe)
  simp only at h
  split_ifs at h
  · rw [stage_bind_eq_ok] at h
    obtain ⟨-, -, h⟩ := h
    cases h
  · rw [stage_bind_eq_ok] at h
    obtain ⟨found, -, h⟩ := h
    obtain rfl := Option.some.inj (Except.ok.inj h)
    rfl

theorem name_of_measureFiles {names : List String} {files : List Measured}
    (h : measureFiles tools checkout base original names = .ok files) {file : Measured}
    (hfile : file ∈ files) : file.name ∈ names := by
  induction names generalizing files with
  | nil =>
      cases h
      cases hfile
  | cons name names ih =>
      rw [measureFiles, stage_bind_eq_ok] at h
      obtain ⟨found, hfound, h⟩ := h
      rw [stage_bind_eq_ok] at h
      obtain ⟨rest, hrest, h⟩ := h
      obtain rfl := Except.ok.inj h
      rcases List.mem_append.1 hfile with hfile | hfile
      · obtain rfl := Option.mem_toList.1 hfile
        rw [name_of_measureFile hfound]
        exact List.mem_cons_self
      · exact List.mem_cons_of_mem _ (ih hrest hfile)

theorem measureFiles_of_view {names : List String} (h : ∀ name ∈ names,
    measureFile tools checkout base original name =
      .ok (measuredAt tools checkout.rows.view base name)) :
    measureFiles tools checkout base original names =
      .ok (names.filterMap (measuredAt tools checkout.rows.view base)) := by
  induction names with
  | nil => rfl
  | cons name names ih =>
      rw [List.forall_mem_cons] at h
      rw [measureFiles, h.1, ih h.2, List.filterMap_cons]
      cases measuredAt tools checkout.rows.view base name <;> rfl

end Measure

end CkbSail.Scripts.SourceSnapshot
