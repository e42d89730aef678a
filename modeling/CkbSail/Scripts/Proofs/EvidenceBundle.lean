import CkbSail.PythonStd.PosixPath
import CkbSail.Scripts.EvidenceBundle
import CkbSail.Scripts.Proofs.SafeName
import CkbSail.Scripts.Proofs.WritePass

/-!
# Extraction of a bundle, all or nothing

The first loop lets through a member that lies below another one, and a target
below a file that is there already.  The second loop then stops at such a member,
when others may have been written.
-/

namespace CkbSail.Scripts.EvidenceBundle

open PythonStd ProofSupport ReleaseCommon

/-! ## Names -/

/-- The names of evidence that is not excluded. -/
structure EvidenceName (name : String) : Prop where
  safe : SafeName name
  inside : (CLEAN ++ "/").toList <+: name.toList
  included : ∀ part ∈ split name, part ∉ EXCLUDED

theorem safeMember_eq_ok {name name' : String} :
    safeMember name = .ok name' ↔ name' = name ∧ EvidenceName name := by
  have hexcluded : (!(split name).any EXCLUDED.contains) = true ↔
      ∀ part ∈ split name, part ∉ EXCLUDED := by
    simp
  simp only [safeMember, except_bind_eq_ok, except_pure_eq_ok,
    SailModelTransaction.require_eq_ok, hexcluded,
    List.isPrefixOf_iff_prefix, safeName_eq_ok]
  constructor
  · rintro ⟨_, ⟨-, hname⟩, _, hinside, _, hincluded, rfl⟩
    refine ⟨rfl, hname.resolve_left ?_, hinside, hincluded⟩
    rintro rfl
    exact absurd (List.isPrefixOf_iff_prefix.2 hinside) (by decide)
  · rintro ⟨rfl, hsafe, hinside, hincluded⟩
    exact ⟨_, ⟨rfl, Or.inr hsafe⟩, (), hinside, (), hincluded, rfl⟩

theorem parts_CLEAN : parts CLEAN = split CLEAN := by decide

/-- Evidence lies below the clean-room directory. -/
theorem EvidenceName.below {name : String} (h : EvidenceName name) :
    ∃ rest, rest ≠ [] ∧ parts name = parts CLEAN ++ rest := by
  obtain ⟨rest, hrest⟩ := h.inside
  have hname : name = CLEAN ++ "/" ++ String.ofList rest := by
    rw [← String.toList_inj, String.toList_append, String.toList_ofList, hrest]
  refine ⟨split (String.ofList rest), split_ne_nil _, ?_⟩
  rw [h.safe.parts_eq, hname, split_append_slash, parts_CLEAN]

theorem EvidenceName.plain {name : String} (h : EvidenceName name) : ".." ∉ parts name := by
  rw [h.safe.parts_eq]
  exact fun hmem => h.safe.components _ hmem (by decide)

theorem EvidenceName.nameable {name : String} (h : EvidenceName name) :
    hasNul (parts name) = false := by
  rw [h.safe.parts_eq, hasNul, List.any_eq_false]
  intro part hpart hnul
  have hmem := mem_of_mem_split hpart (List.contains_iff_mem.1 hnul)
  exact h.safe.characters _ hmem (by decide)

/-! ## The first loop -/

section Extraction

variable {host : FileHost} {tree : Tree} {destination : Path} {item : Member} {items : List Member}
  {targets : List String} {name : String}

theorem plain_target (hdestination : Resolved tree destination) (hname : EvidenceName name) :
    ".." ∉ target destination name := by
  rw [target, List.mem_append, not_or]
  exact ⟨hdestination.plain, hname.plain⟩

theorem nameable_target (hdestination : Resolved tree destination) (hname : EvidenceName name) :
    hasNul (target destination name) = false := by
  rw [target, hasNul_append, hdestination.nameable, hname.nameable]
  rfl

theorem target_ne_nil (hname : EvidenceName name) : target destination name ≠ [] := by
  rw [target]
  exact List.append_ne_nil_of_right_ne_nil _ hname.safe.parts_ne_nil

/-- What the checks let through. -/
structure Admissible (tree : Tree) (destination : Path) (item : Member) : Prop where
  evidence : EvidenceName item.name
  regular : item.type = .regular
  unlinked : item.linkname = ""
  absent : tree (target destination item.name) = none
  clear : Unlinked tree (target destination item.name)

theorem does_admitMember (hsystem : FileSystem tree) (hdestination : Resolved tree destination)
    (h : Admissible tree destination item) (hnew : item.name ∉ targets) :
    Does (admitMember destination item targets) tree (.ok (item.name :: targets)) tree := by
  have hplain := plain_target hdestination h.evidence
  obtain ⟨htaken, hparents⟩ := (vacant_iff hsystem hdestination.unlinked
    (List.prefix_append destination (parts item.name)) hplain).2 ⟨h.absent, h.clear⟩
  refine .bind_ok (.check fun _ _ => safeMember_eq_ok.2 ⟨rfl, h.evidence⟩) ?_
  refine .bind_ok (does_require (by simp [h.regular, h.unlinked])) ?_
  refine .bind_ok (does_require (by simpa using hnew)) ?_
  refine .bind_ok does_occupied ?_
  rw [target, htaken]
  refine .bind_ok (does_anyLink _) ?_
  rw [hparents]
  exact .pure

/-- Whatever is not let through ends the run, and nothing is written. -/
theorem fails_admitMember (hsystem : FileSystem tree) (hdestination : Resolved tree destination)
    (h : ¬(Admissible tree destination item ∧ item.name ∉ targets)) :
    Fails Machine.tree (admitMember destination item targets) tree := by
  cases hsafe : safeMember item.name with
  | error e => exact .first ⟨e, .check fun _ _ => hsafe⟩
  | ok name =>
      obtain ⟨rfl, hname⟩ := safeMember_eq_ok.1 hsafe
      refine .later (.check fun _ _ => hsafe) ?_
      cases hregular : (decide (item.type = .regular) && decide (item.linkname = "")) with
      | false => exact .first ⟨_, does_require_error rfl⟩
      | true =>
          refine .later (does_require rfl) ?_
          cases hseen : targets.contains item.name with
          | true => exact .first ⟨_, does_require_error rfl⟩
          | false =>
              refine .later (does_require rfl) (.later does_occupied ?_)
              cases htaken : taken tree (target destination item.name) with
              | true => exact .raise
              | false =>
                  refine .later (does_anyLink _) ?_
                  cases hparents : (parentsBelow destination (target destination item.name)).any
                    (linked tree) with
                  | true => exact .raise
                  | false =>
                      obtain ⟨habsent, hclear⟩ := (vacant_iff hsystem hdestination.unlinked
                        (List.prefix_append destination (parts item.name))
                        (plain_target hdestination hname)).1 ⟨htaken, hparents⟩
                      simp only [Bool.and_eq_true, decide_eq_true_eq] at hregular
                      refine absurd ⟨⟨hname, hregular.1, hregular.2, habsent, hclear⟩, ?_⟩ h
                      intro hmem
                      rw [List.contains_iff_mem.2 hmem] at hseen
                      cases hseen

/-- What the first loop lets through: members that are each admissible, with names of
their own that are not among the targets so far. -/
structure AllAdmissible (tree : Tree) (destination : Path) (stop : Option Exn)
    (items : List Member) (targets : List String) : Prop where
  ended : stop = none
  each : ∀ item ∈ items, Admissible tree destination item
  distinct : (items.map Member.name).Nodup
  fresh : ∀ item ∈ items, item.name ∉ targets

theorem allAdmissible_cons {stop : Option Exn} :
    AllAdmissible tree destination stop (item :: items) targets ↔
      (Admissible tree destination item ∧ item.name ∉ targets) ∧
        AllAdmissible tree destination stop items (item.name :: targets) := by
  constructor
  · rintro ⟨hended, heach, hdistinct, hfresh⟩
    obtain ⟨hitem, heach⟩ := List.forall_mem_cons.1 heach
    obtain ⟨hnew, hfresh⟩ := List.forall_mem_cons.1 hfresh
    rw [List.map_cons, List.nodup_cons] at hdistinct
    refine ⟨⟨hitem, hnew⟩, hended, heach, hdistinct.2, fun other hother hmem => ?_⟩
    rcases List.mem_cons.1 hmem with hsame | hmem
    · exact hdistinct.1 (hsame ▸ List.mem_map_of_mem hother)
    · exact hfresh other hother hmem
  · rintro ⟨⟨hitem, hnew⟩, hended, heach, hdistinct, hfresh⟩
    refine ⟨hended, List.forall_mem_cons.2 ⟨hitem, heach⟩, ?_,
      List.forall_mem_cons.2 ⟨hnew, fun other hother hmem => ?_⟩⟩
    · rw [List.map_cons, List.nodup_cons]
      refine ⟨fun hmem => ?_, hdistinct⟩
      obtain ⟨other, hother, hsame⟩ := List.mem_map.1 hmem
      exact hfresh other hother (List.mem_cons.2 (Or.inl hsame))
    · exact hfresh other hother (List.mem_cons_of_mem _ hmem)

theorem does_admitMembers {stop : Option Exn} (hsystem : FileSystem tree)
    (hdestination : Resolved tree destination)
    (h : AllAdmissible tree destination stop items targets) :
    Does (admitMembers destination stop items targets) tree
      (.ok ((items.map Member.name).reverse ++ targets)) tree := by
  induction items generalizing targets with
  | nil =>
      rw [h.ended]
      exact .pure
  | cons item items ih =>
      obtain ⟨⟨hitem, hnew⟩, hrest⟩ := allAdmissible_cons.1 h
      refine .bind_ok (does_admitMember hsystem hdestination hitem hnew) ?_
      rw [List.map_cons, List.reverse_cons, List.append_assoc]
      exact ih hrest

theorem fails_admitMembers {stop : Option Exn} (hsystem : FileSystem tree)
    (hdestination : Resolved tree destination)
    (h : ¬AllAdmissible tree destination stop items targets) :
    Fails Machine.tree (admitMembers destination stop items targets) tree := by
  induction items generalizing targets with
  | nil =>
      cases stop with
      | some e => exact .raise
      | none => exact absurd ⟨rfl, by simp, by simp, by simp⟩ h
  | cons item items ih =>
      by_cases hitem : Admissible tree destination item ∧ item.name ∉ targets
      · refine .later (does_admitMember hsystem hdestination hitem.1 hitem.2) ?_
        exact ih fun hrest => h (allAdmissible_cons.2 ⟨hitem, hrest⟩)
      · exact .first (fails_admitMember hsystem hdestination hitem)

/-! ## Extraction -/

/-- The bundles that the first loop lets through. -/
structure Admitted (tree : Tree) (destination : Path) (bundle : Bundle) (expected : String) :
    Prop where
  digest : isDigest expected = true
  same : bundle.sha256 = expected
  opened : bundle.archive.openFault = none
  members : AllAdmissible tree destination bundle.archive.stop bundle.archive.members []
  report : CLEAN ++ "/report.json" ∈ bundle.archive.members.map Member.name
  record : CLEAN ++ "/" ++ VM_RECORD ∈ bundle.archive.members.map Member.name

/-- What the second loop has to write. -/
def jobs (destination : Path) (members : List Member) : List (Path × Member) :=
  members.map fun item => (target destination item.name, item)

variable {bundle : Bundle} {expected : String}

theorem fails_extract (hsystem : FileSystem tree) (hdestination : Resolved tree destination)
    (h : ¬Admitted tree destination bundle expected) :
    Fails Machine.tree (extract host destination bundle expected) tree := by
  cases hdigest : isDigest expected with
  | false => exact .first ⟨_, does_require_error hdigest⟩
  | true =>
      refine .later (does_require hdigest) ?_
      by_cases hsame : bundle.sha256 = expected
      · refine .later (does_require (by simpa using hsame)) ?_
        cases hopened : bundle.archive.openFault with
        | some e =>
            refine .first ?_
            rw [openArchive, hopened]
            exact .raise
        | none =>
            have hopen : Does (openArchive bundle.archive) tree (.ok ()) tree := by
              rw [openArchive, hopened]
              exact .pure
            refine .later hopen ?_
            by_cases hmembers : AllAdmissible tree destination bundle.archive.stop
              bundle.archive.members []
            · refine .later (does_admitMembers hsystem hdestination hmembers)
                (.first ⟨_, does_require_error ?_⟩)
              by_contra hrequired
              rw [Bool.not_eq_false, Bool.and_eq_true, List.append_nil, List.contains_iff_mem,
                List.contains_iff_mem, List.mem_reverse, List.mem_reverse] at hrequired
              exact h ⟨hdigest, hsame, hopened, hmembers, hrequired.1, hrequired.2⟩
            · exact .first (fails_admitMembers hsystem hdestination hmembers)
      · exact .first ⟨_, does_require_error (by simpa using hsame)⟩

/-- An admitted bundle is extracted as the second loop ends. -/
theorem does_extract {result : Except Exn Unit} {tree' : Tree} (hsystem : FileSystem tree)
    (hdestination : Resolved tree destination) (h : Admitted tree destination bundle expected)
    (hwrite : Does (writeMembers host "unreadable bundle member"
      (jobs destination bundle.archive.members)) tree result tree') :
    Does (extract host destination bundle expected) tree (result.map fun _ =>
      (bundle.archive.members.map Member.name).reverse.mergeSort fun name name' =>
        decide (name ≤ name')) tree' := by
  have hopen : Does (openArchive bundle.archive) tree (.ok ()) tree := by
    rw [openArchive, h.opened]
    exact .pure
  have hsame : decide (bundle.sha256 = expected) = true := decide_eq_true h.same
  refine .bind_ok (does_require h.digest) (.bind_ok (does_require hsame) (.bind_ok hopen
    (.bind_ok (does_admitMembers hsystem hdestination h.members) (.bind_ok (does_require ?_)
      (.bind_ok hopen ?_)))))
  · rw [Bool.and_eq_true, List.append_nil, List.contains_iff_mem, List.contains_iff_mem,
      List.mem_reverse, List.mem_reverse]
    exact ⟨h.report, h.record⟩
  · rw [List.append_nil]
    cases result with
    | error e => exact .bind_error hwrite
    | ok u => exact .bind_ok hwrite (.bind_ok (does_require hsame) .pure)

/-! ## All or nothing -/

/-- Every member is written to a place of its own that was free, below the clean-room
directory, and the rest stays but for new directories on the way. -/
structure Extracted (tree tree' : Tree) (destination : Path) (members : List Member) : Prop where
  written : ∀ item ∈ members, tree' (target destination item.name) =
    some (.file 1 item.content.bytes (givenMode item.mode))
  absent : ∀ item ∈ members, tree (target destination item.name) = none
  own : members.Pairwise fun item other =>
    target destination item.name ≠ target destination other.name
  inside : ∀ item ∈ members, target destination CLEAN <+: target destination item.name
  elsewhere : ∀ place, (∀ item ∈ members, place ≠ target destination item.name) →
    tree' place = tree place ∨ (tree place = none ∧ tree' place = some .directory ∧
      ∃ item ∈ members, place <+: target destination item.name)

/-- All members are written, or no file is created or changed. -/
def AllOrNothing (tree : Tree) (destination : Path) (members : List Member)
    (run : Run Machine Exn (List String)) : Prop :=
  match run.result with
  | .ok _ => Extracted tree run.state.tree destination members
  | .error _ => Grown .directory tree run.state.tree

/-- Neither name is a part of the path of the other. -/
def Unnested (name name' : String) : Prop :=
  ¬parts name <+: parts name' ∧ ¬parts name' <+: parts name

/-- No target is below a file, neither an existing nor an extracted one. -/
def Separate (tree : Tree) (destination : Path) (members : List Member) : Prop :=
  (∀ item ∈ members, Unblocked tree (target destination item.name)) ∧
    members.Pairwise fun item other => Unnested item.name other.name

/-- Every member can be read to its end. -/
def AllRead (members : List Member) : Prop := ∀ item ∈ members, item.content.stop = none

variable {members : List Member} {stop : Option Exn}

theorem free_iff (hdestination : Resolved tree destination)
    (hitem : Admissible tree destination item) :
    (placement (target destination item.name) item).Free .directory tree ↔
      Unblocked tree (target destination item.name) := by
  have htype : item.type ≠ .directory := by
    rw [hitem.regular]
    decide
  rw [placement_free_iff (plain_target hdestination hitem.evidence) (target_ne_nil hitem.evidence)
    (nameable_target hdestination hitem.evidence) htype]
  exact and_iff_left hitem.absent

theorem apart_iff {other : Member} (hdestination : Resolved tree destination)
    (hitem : Admissible tree destination item) (hother : Admissible tree destination other) :
    (placement (target destination item.name) item).Apart
        (placement (target destination other.name) other) ↔ Unnested item.name other.name := by
  rw [placement_apart_iff (plain_target hdestination hitem.evidence) (target_ne_nil hitem.evidence)
    (plain_target hdestination hother.evidence) (target_ne_nil hother.evidence), target, target,
    List.prefix_append_right_inj, List.prefix_append_right_inj, Unnested]

theorem placements_jobs : placements (jobs destination members) =
    members.map fun item => placement (target destination item.name) item := by
  rw [placements, jobs, List.map_map]
  rfl

theorem allFree_iff (hdestination : Resolved tree destination)
    (h : AllAdmissible tree destination stop members []) :
    AllFree .directory tree (placements (jobs destination members)) ↔
      Separate tree destination members := by
  rw [placements_jobs, AllFree, Separate, List.pairwise_map, List.forall_mem_map]
  refine and_congr (forall₂_congr fun item hitem => free_iff hdestination (h.each item hitem)) ?_
  exact List.Pairwise.iff_of_mem fun hitem hother =>
    apart_iff hdestination (h.each _ hitem) (h.each _ hother)

theorem allWhole_iff :
    (∀ file ∈ placements (jobs destination members), file.whole = true) ↔ AllRead members := by
  rw [placements_jobs, List.forall_mem_map]
  exact forall₂_congr fun item _ => Option.isNone_iff_eq_none

theorem extracted_of_allFree (hdestination : Resolved tree destination)
    (h : AllAdmissible tree destination stop members [])
    (hfree : AllFree .directory tree (placements (jobs destination members))) :
    Extracted tree (writtenAll .directory tree (placements (jobs destination members)))
      destination members := by
  have hspot : ∀ item ∈ members,
      (placement (target destination item.name) item).spot = target destination item.name :=
    fun item hitem => placement_spot (plain_target hdestination (h.each item hitem).evidence)
  have hmem : ∀ item ∈ members, placement (target destination item.name) item ∈
      placements (jobs destination members) := by
    intro item hitem
    rw [placements_jobs]
    exact List.mem_map_of_mem (f := fun item : Member =>
      placement (target destination item.name) item) hitem
  refine ⟨fun item hitem => ?_, fun item hitem => (h.each item hitem).absent, ?_,
    fun item hitem => ?_, fun place hplace => ?_⟩
  · have hwritten := writtenAll_spot hfree (fun file => placements_node_ne) (hmem item hitem)
    rwa [hspot item hitem] at hwritten
  · have hunnested := ((allFree_iff hdestination h).1 hfree).2
    refine hunnested.imp fun hunnested hsame => hunnested.1 ?_
    rw [target, target] at hsame
    rw [List.append_cancel_left hsame]
  · obtain ⟨rest, -, hparts⟩ := (h.each item hitem).evidence.below
    rw [target, target, hparts, ← List.append_assoc]
    exact List.prefix_append _ _
  · have helse := @writtenAll_elsewhere _ _ Inode.directory tree
      (placements (jobs destination members)) _ place ?_
    · rcases helse with hsame | ⟨hnew, file, hfile, habove⟩
      · exact Or.inl hsame
      · rcases (hfree.1 file hfile).opened place habove with hnone | hdirectory
        · rw [placements_jobs] at hfile
          obtain ⟨item, hitem, rfl⟩ := List.mem_map.1 hfile
          have hevidence := (h.each item hitem).evidence
          rw [mem_placement_above (plain_target hdestination hevidence)
            (target_ne_nil hevidence)] at habove
          exact Or.inr ⟨hnone, hnew, item, hitem, habove.1⟩
        · exact Or.inl (hnew.trans hdirectory.symm)
    · intro file hfile
      rw [placements_jobs] at hfile
      obtain ⟨item, hitem, rfl⟩ := List.mem_map.1 hfile
      rw [hspot item hitem]
      exact hplace item hitem

theorem linkFree_jobs (hdestination : Resolved tree destination)
    (h : AllAdmissible tree destination stop members []) :
    ∀ job ∈ jobs destination members, LinkFree tree job.1 := by
  intro job hjob
  obtain ⟨item, hitem, rfl⟩ := List.mem_map.1 hjob
  have hadmissible := h.each item hitem
  exact .of_plain (plain_target hdestination hadmissible.evidence) hadmissible.clear

/-- The second loop writes all members or none exactly if all can be read, no member is
in the way of another and no file in the way of one, or if the first member fails
before it is created. -/
theorem extract_allOrNothing_iff (hhost : Obliging host) (hsystem : FileSystem tree)
    (hdestination : Resolved tree destination) {m : Machine} (hm : m.tree = tree) :
    AllOrNothing tree destination bundle.archive.members
        (extract host destination bundle expected m) ↔
      (Admitted tree destination bundle expected →
        (∃ item ∈ bundle.archive.members.head?, ¬Unblocked tree (target destination item.name)) ∨
          Separate tree destination bundle.archive.members ∧
            AllRead bundle.archive.members) := by
  by_cases hadmitted : Admitted tree destination bundle expected
  · have hmembers := hadmitted.members
    obtain ⟨result, tree', hwrite, houtcome⟩ := @does_writeMembers host _ _
      "unreadable bundle member" hhost hsystem
      (linkFree_jobs hdestination hmembers)
    obtain ⟨hresult, htree⟩ := does_extract hsystem hdestination hadmitted hwrite m hm
    rw [AllOrNothing, hresult, htree]
    have hfinished := houtcome.finished_iff fun file => placements_node_ne
    rw [allFree_iff hdestination hmembers, allWhole_iff] at hfinished
    cases result with
    | ok u =>
        have hclear := hfinished.1 rfl
        have hfree := (allFree_iff hdestination hmembers).2 hclear.1
        refine ⟨fun _ _ => Or.inr hclear, fun _ => ?_⟩
        rw [houtcome.eq_writtenAll]
        exact extracted_of_allFree hdestination hmembers hfree
    | error e =>
        have hunclear : ¬(Separate tree destination bundle.archive.members ∧
            AllRead bundle.archive.members) :=
          fun hclear => Bool.false_ne_true (hfinished.2 hclear)
        cases hlist : bundle.archive.members with
        | nil => exact absurd (hlist ▸ ⟨⟨by simp, .nil⟩, by simp [AllRead]⟩) hunclear
        | cons first rest =>
            have hfirst : Admissible tree destination first :=
              hmembers.each first (hlist ▸ List.mem_cons_self)
            rw [hlist, placements_jobs, List.map_cons] at houtcome
            rcases houtcome.grown_or_placed (placement_node_ne _ _) with ⟨hblocked, hgrown⟩ |
              ⟨hfree, node, hnode, hplaced⟩
            · rw [free_iff hdestination hfirst] at hblocked
              exact ⟨fun _ _ => Or.inl ⟨first, rfl, hblocked⟩, fun _ => hgrown⟩
            · have habsent := hfirst.absent
              rw [free_iff hdestination hfirst] at hfree
              rw [placement_spot (plain_target hdestination hfirst.evidence)] at hplaced
              constructor
              · intro hgrown
                rcases hgrown (target destination first.name) with hsame | ⟨-, hdirectory⟩
                · rw [hplaced, habsent] at hsame
                  cases hsame
                · rw [hplaced] at hdirectory
                  exact absurd (Option.some.inj hdirectory) hnode
              · intro hcondition
                rcases hcondition hadmitted with ⟨item, hitem, hblocked⟩ | hclear
                · obtain rfl : first = item := Option.some.inj hitem
                  exact absurd hfree hblocked
                · exact absurd (hlist ▸ hclear) hunclear
  · obtain ⟨e, hfails⟩ := @fails_extract host _ _ _ _ hsystem hdestination hadmitted
    obtain ⟨hresult, htree⟩ := hfails m hm
    rw [AllOrNothing, hresult, htree]
    exact ⟨fun _ h => absurd h hadmitted, fun _ => .refl tree⟩

/-- Members that can be read and are not in each other's way are extracted. -/
theorem extract_of_separate (hhost : Obliging host) (hsystem : FileSystem tree)
    (hdestination : Resolved tree destination) (h : Admitted tree destination bundle expected)
    (hclear : Separate tree destination bundle.archive.members)
    (hread : AllRead bundle.archive.members) {m : Machine} (hm : m.tree = tree) :
    (extract host destination bundle expected m).result =
        .ok ((bundle.archive.members.map Member.name).reverse.mergeSort fun name name' =>
          decide (name ≤ name')) ∧
      Extracted tree (extract host destination bundle expected m).state.tree destination
        bundle.archive.members := by
  obtain ⟨result, tree', hwrite, houtcome⟩ := @does_writeMembers host _ _
    "unreadable bundle member" hhost hsystem (linkFree_jobs hdestination h.members)
  have hfree := (allFree_iff hdestination h.members).2 hclear
  have hfinished := (houtcome.finished_iff fun file => placements_node_ne).2
    ⟨hfree, allWhole_iff.2 hread⟩
  obtain ⟨hresult, htree⟩ := does_extract hsystem hdestination h hwrite m hm
  cases result with
  | error e => cases hfinished
  | ok u =>
      rw [hresult, htree, houtcome.eq_writtenAll]
      exact ⟨rfl, extracted_of_allFree hdestination h.members hfree⟩

end Extraction

end CkbSail.Scripts.EvidenceBundle
