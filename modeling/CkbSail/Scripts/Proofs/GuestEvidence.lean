import CkbSail.ProofSupport.Dictionary
import CkbSail.Scripts.Proofs.BundleRoundTrip
import CkbSail.Scripts.Proofs.GuestNames
import Mathlib

/-!
# Extraction of the guest's evidence, all or nothing

Different names of the guest can have one target, or one target below the other.  The
first loop sees only the headers and what is on the host, so the second loop stops at
such a member, or at one that cannot be read, when others may have been written.
-/

namespace CkbSail.Scripts.GuestEvidence

open PythonStd ProofSupport ReleaseCommon

/-! ## Paths of the guest's files -/

section Paths

variable {tree : Tree} {front path place : Path}

theorem foldl_descend (start : Path) (h : ".." ∉ path) :
    path.foldl descend start = start ++ path := by
  induction path generalizing start with
  | nil => simp
  | cons name path ih =>
      rw [List.mem_cons, not_or] at h
      rw [List.foldl_cons, ih _ h.2, descend, if_neg (Ne.symm h.1)]
      simp

theorem lexical_append (hfront : ".." ∉ front) :
    lexical (front ++ path) = path.foldl descend front := by
  rw [lexical, List.foldl_append, ← lexical, lexical_of_plain hfront]

/-- The path of a guest's file stays at its directory or below it. -/
theorem GuestPath.stations (hpath : GuestPath path) (hfront : ".." ∉ front)
    (hplace : place ∈ stations (front ++ path)) : place <+: front ∨ front <+: place := by
  obtain ⟨start, hstart, rfl⟩ := mem_stations.1 hplace
  rcases List.prefix_or_prefix_of_prefix hstart (List.prefix_append front path) with habove | hbelow
  · rw [lexical_of_plain fun hmem => hfront (habove.subset hmem)]
    exact Or.inl habove
  · obtain ⟨part, rfl⟩ := hbelow
    rw [List.prefix_append_right_inj] at hstart
    rw [lexical_append hfront]
    right
    rcases hpath.steps with hplain | ⟨below, rfl, hplain⟩
    · rw [foldl_descend front fun hmem => hplain (hstart.subset hmem)]
      exact List.prefix_append _ _
    · rcases List.prefix_cons_iff.1 hstart with rfl | ⟨part, rfl, hpart⟩
      · exact List.prefix_refl _
      · rcases List.prefix_cons_iff.1 hpart with rfl | ⟨part, rfl, hbelow⟩
        · exact List.prefix_append _ _
        · have hup : ("checkout-logs" :: ".." :: part).foldl descend front =
              part.foldl descend front := by
            simp [descend]
          rw [hup, foldl_descend front fun hmem => hplain (hbelow.subset hmem)]
          exact List.prefix_append _ _

variable (hsystem : FileSystem tree) (hplain : ".." ∉ front) (hlinks : Unlinked tree front)
  (hfresh : tree front = none) (hpath : GuestPath path)

include hsystem hplain hlinks hfresh hpath

/-- Below a directory that is not there yet no link is met. -/
theorem linkFree_fresh : LinkFree tree (front ++ path) := by
  intro place hplace target htarget
  rcases hpath.stations hplain hplace with habove | ⟨rest, rfl⟩
  · exact hlinks place habove target htarget
  · by_cases hrest : rest = []
    · rw [hrest, List.append_nil, hfresh] at htarget
      cases htarget
    · have hdirectory := hsystem.below hrest (htarget ▸ Option.some_ne_none _)
      rw [hfresh] at hdirectory
      cases hdirectory

theorem settle_fresh : tree (settle tree (front ++ path)) = none := by
  have hclear := linkFree_fresh hsystem hplain hlinks hfresh hpath
  have hstation : front ∈ stations (front ++ path) :=
    mem_stations.2 ⟨front, List.prefix_append _ _, lexical_of_plain hplain⟩
  rcases settle_cases hsystem hclear with ⟨-, hpassed⟩ |
    ⟨start, name, rest, hsplit, -, hpassed, -, hsettle⟩
  · have hdirectory := hpassed front hstation
    rw [hfresh] at hdirectory
    cases hdirectory
  · -- the path stops above the directory that is missing
    have hstart : ¬front <+: start := by
      intro hstart
      have hdirectory := hpassed front
        (mem_stations.2 ⟨front, hstart, lexical_of_plain hplain⟩)
      rw [hfresh] at hdirectory
      cases hdirectory
    have hprefixes : start <+: front := by
      have hstarts : start <+: front ++ path := ⟨name :: rest, hsplit.symm⟩
      exact (List.prefix_or_prefix_of_prefix hstarts (List.prefix_append front path)).resolve_right
        hstart
    rw [hsettle, lexical_of_plain fun hmem => hplain (hprefixes.subset hmem), ← hsplit]
    refine hsystem.eq_none_below ?_ hpath.nonempty
    rw [hfresh]
    exact fun h => Option.some_ne_none _ h.symm

/-- The checks of the first loop let every file of the guest through. -/
theorem vacant_fresh : taken tree (front ++ path) = false ∧
    (parentsBelow front (front ++ path)).any (linked tree) = false := by
  have hclear := linkFree_fresh hsystem hplain hlinks hfresh hpath
  refine ⟨?_, List.any_eq_false.2 fun place hplace => ?_⟩
  · rw [taken_of_linkFree hsystem hclear, settle_fresh hsystem hplain hlinks hfresh hpath]
    rfl
  · rw [linked_of_linkFree hsystem (hclear.initial (mem_parentsBelow.1 hplace).1)]
    exact Bool.false_ne_true

end Paths

/-! ## Free targets -/

section Extraction

variable {host : FileHost} {tree : Tree} {evidenceRoot hostDir : Path} {target : Target}
  {item : Member}

/-- The directories as the launcher hands them over: both resolved, and nothing of the
guest in the second. -/
structure Prepared (tree : Tree) (evidenceRoot hostDir : Path) : Prop where
  system : FileSystem tree
  checkout : Resolved tree evidenceRoot
  launcher : Resolved tree hostDir
  fresh : tree (hostDir ++ ["guest"]) = none

/-- A target of the checkout is new, and no link is on its way. -/
def Vacant (tree : Tree) (evidenceRoot hostDir : Path) (target : Target) : Prop :=
  target.root = .evidence → tree (target.path evidenceRoot hostDir) = none ∧
    Unlinked tree (target.path evidenceRoot hostDir)

variable (hprepared : Prepared tree evidenceRoot hostDir)

include hprepared

theorem Prepared.guest_plain : ".." ∉ hostDir ++ ["guest"] := by
  rw [List.mem_append, not_or]
  exact ⟨hprepared.launcher.plain, by decide⟩

theorem Prepared.guest_unlinked : Unlinked tree (hostDir ++ ["guest"]) := by
  refine unlinked_snoc.2 ⟨hprepared.launcher.unlinked, fun link hlink => ?_⟩
  rw [hprepared.fresh] at hlink
  cases hlink

theorem evidence_plain (hsound : target.Sound) (hroot : target.root = .evidence) :
    ".." ∉ target.path evidenceRoot hostDir := by
  simp only [Target.Sound, hroot] at hsound
  simp only [Target.path, hroot, base, List.mem_append, not_or]
  exact ⟨hprepared.checkout.plain, hsound.plain⟩

theorem vacant_target_iff (hsound : target.Sound) :
    (taken tree (target.path evidenceRoot hostDir) = false ∧
      (parentsBelow (base evidenceRoot hostDir target.root)
        (target.path evidenceRoot hostDir)).any (linked tree) = false) ↔
      Vacant tree evidenceRoot hostDir target := by
  cases hroot : target.root with
  | evidence =>
      have hiff := vacant_iff hprepared.system hprepared.checkout.unlinked
        (List.prefix_append evidenceRoot (parts target.relative)) (by
          simpa only [Target.path, hroot, base] using evidence_plain hprepared hsound hroot)
      simpa only [Vacant, Target.path, hroot, base, true_imp_iff] using hiff
  | guest =>
      simp only [Target.Sound, hroot] at hsound
      have hvacant := vacant_fresh hprepared.system hprepared.guest_plain hprepared.guest_unlinked
        hprepared.fresh hsound
      simp only [Vacant, Target.path, hroot, base]
      exact ⟨fun _ h => (by cases h), fun _ => hvacant⟩

theorem linkFree_target (hsound : target.Sound) (hvacant : Vacant tree evidenceRoot hostDir target) :
    LinkFree tree (target.path evidenceRoot hostDir) := by
  cases hroot : target.root with
  | evidence => exact .of_plain (evidence_plain hprepared hsound hroot) (hvacant hroot).2
  | guest =>
      simp only [Target.Sound, hroot] at hsound
      simp only [Target.path, hroot, base]
      exact linkFree_fresh hprepared.system hprepared.guest_plain hprepared.guest_unlinked
        hprepared.fresh hsound

theorem does_admitTargets {targets : Targets} (hsound : ∀ entry ∈ targets, entry.2.Sound)
    (hvacant : ∀ entry ∈ targets, Vacant tree evidenceRoot hostDir entry.2) :
    Does (admitTargets evidenceRoot hostDir targets) tree (.ok ()) tree := by
  induction targets with
  | nil => exact .pure
  | cons entry targets ih =>
      obtain ⟨name, target⟩ := entry
      obtain ⟨hentry, hsound⟩ := List.forall_mem_cons.1 hsound
      obtain ⟨hfree, hvacant⟩ := List.forall_mem_cons.1 hvacant
      obtain ⟨htaken, hparents⟩ := (vacant_target_iff hprepared hentry).2 hfree
      refine .bind_ok does_occupied ?_
      rw [htaken]
      refine .bind_ok (does_anyLink _) ?_
      rw [hparents]
      exact ih hsound hvacant

theorem fails_admitTargets {targets : Targets} (hsound : ∀ entry ∈ targets, entry.2.Sound)
    (h : ¬∀ entry ∈ targets, Vacant tree evidenceRoot hostDir entry.2) :
    Fails Machine.tree (admitTargets evidenceRoot hostDir targets) tree := by
  induction targets with
  | nil => exact absurd (by simp) h
  | cons entry targets ih =>
      obtain ⟨name, target⟩ := entry
      obtain ⟨hentry, hsound⟩ := List.forall_mem_cons.1 hsound
      refine .later does_occupied ?_
      cases htaken : taken tree (target.path evidenceRoot hostDir) with
      | true => exact .raise
      | false =>
          refine .later (does_anyLink _) ?_
          cases hparents : (parentsBelow (base evidenceRoot hostDir target.root)
              (target.path evidenceRoot hostDir)).any (linked tree) with
          | true => exact .raise
          | false =>
              refine ih hsound fun hvacant => h (List.forall_mem_cons.2 ⟨?_, hvacant⟩)
              exact (vacant_target_iff hprepared hentry).1 ⟨htaken, hparents⟩

omit hprepared in
theorem sound_of_mem_kept {items : List Member} {entry : String × Target}
    (h : entry ∈ kept items) : entry.2.Sound := by
  obtain ⟨item, -, hkept, -⟩ := mem_kept.1 h
  exact (targetOf_eq_some (kept?_eq_some.1 hkept)).2

/-- What the first loop lets through. -/
structure Admitted (tree : Tree) (evidenceRoot hostDir : Path) (archive : Archive) : Prop where
  opened : archive.openFault = none
  accepted : Accepted archive.stop archive.members []
  nonempty : kept archive.members ≠ []
  vacant : ∀ entry ∈ kept archive.members, Vacant tree evidenceRoot hostDir entry.2
  clean : taken tree (evidenceRoot ++ parts CLEAN_ROOM_OUT) = false

variable {archive : Archive}

omit hprepared in
theorem does_openArchive (h : archive.openFault = none) :
    Does (openArchive archive) tree (.ok ()) tree := by
  rw [openArchive, h]
  exact .pure

omit hprepared in
theorem does_evidenceMembers (hopened : archive.openFault = none)
    (haccepted : Accepted archive.stop archive.members []) (hnonempty : kept archive.members ≠ []) :
    Does (evidenceMembers archive) tree (.ok (kept archive.members)) tree := by
  have hkeep : keepAll archive.stop archive.members [] = .ok (kept archive.members) :=
    (keepAll_eq_ok (by simp)).2 ⟨haccepted, rfl⟩
  refine .bind_ok (does_openArchive hopened) (.bind_ok (.check fun _ _ => hkeep)
    (.bind_ok (does_require ?_) .pure))
  simpa using hnonempty

omit hprepared in
theorem fails_evidenceMembers (h : ¬(archive.openFault = none ∧
    Accepted archive.stop archive.members [] ∧ kept archive.members ≠ [])) :
    Fails Machine.tree (evidenceMembers archive) tree := by
  cases hopened : archive.openFault with
  | some e =>
      refine .first ?_
      rw [openArchive, hopened]
      exact .raise
  | none =>
      refine .later (does_openArchive hopened) ?_
      by_cases haccepted : Accepted archive.stop archive.members []
      · have hkeep : keepAll archive.stop archive.members [] = .ok (kept archive.members) :=
          (keepAll_eq_ok (by simp)).2 ⟨haccepted, rfl⟩
        have hempty : kept archive.members = [] := by
          by_contra hnonempty
          exact h ⟨hopened, haccepted, hnonempty⟩
        refine .later (.check fun _ _ => hkeep) (.first ⟨_, does_require_error ?_⟩)
        rw [hempty]
        rfl
      · cases hkeep : keepAll archive.stop archive.members [] with
        | error e => exact .first ⟨e, .check fun _ _ => rfl⟩
        | ok targets => exact absurd ((keepAll_eq_ok (by simp)).1 hkeep).1 haccepted

theorem fails_extractEvidence (h : ¬Admitted tree evidenceRoot hostDir archive) :
    Fails Machine.tree (extractEvidence host evidenceRoot hostDir archive) tree := by
  by_cases hmembers : archive.openFault = none ∧ Accepted archive.stop archive.members [] ∧
      kept archive.members ≠ []
  · obtain ⟨hopened, haccepted, hnonempty⟩ := hmembers
    refine .later (does_evidenceMembers hopened haccepted hnonempty) ?_
    have hsound : ∀ entry ∈ kept archive.members, entry.2.Sound := fun entry => sound_of_mem_kept
    by_cases hvacant : ∀ entry ∈ kept archive.members, Vacant tree evidenceRoot hostDir entry.2
    · refine .later (does_admitTargets hprepared hsound hvacant) (.later does_occupied ?_)
      cases hclean : taken tree (evidenceRoot ++ parts CLEAN_ROOM_OUT) with
      | true => exact .raise
      | false => exact absurd ⟨hopened, haccepted, hnonempty, hvacant, hclean⟩ h
    · exact .first (fails_admitTargets hprepared hsound hvacant)
  · exact .first (fails_evidenceMembers hmembers)

/-- An admitted archive is extracted as the second loop ends. -/
theorem does_extractEvidence {result : Except Exn Unit} {tree' : Tree}
    (h : Admitted tree evidenceRoot hostDir archive)
    (hwrite : Does (writeMembers host "unreadable guest evidence member"
      (jobs evidenceRoot hostDir (kept archive.members) archive.members)) tree result tree') :
    Does (extractEvidence host evidenceRoot hostDir archive) tree (result.map fun _ =>
      ((kept archive.members).map Prod.fst).mergeSort fun name name' => decide (name ≤ name'))
      tree' := by
  refine .bind_ok (does_evidenceMembers h.opened h.accepted h.nonempty) (.bind_ok
    (does_admitTargets hprepared (fun entry => sound_of_mem_kept) h.vacant)
    (.bind_ok does_occupied ?_))
  rw [h.clean]
  refine .bind_ok (does_openArchive h.opened) ?_
  cases result with
  | error e => exact .bind_error hwrite
  | ok u => exact .bind_ok hwrite .pure

/-! ## All or nothing -/

/-- Where the path of a target leads once the directories on it are there. -/
def Target.place (evidenceRoot hostDir : Path) (target : Target) : Path :=
  lexical (target.path evidenceRoot hostDir)

/-- Below the boundary-check directory, but not in a restored root, or below the guest's
directory. -/
def Contained (evidenceRoot hostDir place : Path) : Prop :=
  (∃ top below, place = evidenceRoot ++ parts BOUNDARY_CHECK ++ top :: below ∧
    startsWithAny RESTORED_ROOT_PREFIXES top = false) ∨
  ∃ below, below ≠ [] ∧ place = hostDir ++ ["guest"] ++ below

/-- Every kept member is written to a place of its own that was free, and the rest stays
but for new directories on the way. -/
structure Extracted (tree tree' : Tree) (evidenceRoot hostDir : Path) (members : List Member) :
    Prop where
  written : ∀ item ∈ members, ∀ target ∈ kept? item, tree' (target.place evidenceRoot hostDir) =
    some (.file 1 item.content.bytes (givenMode item.mode))
  absent : ∀ item ∈ members, ∀ target ∈ kept? item, tree (target.place evidenceRoot hostDir) = none
  own : members.Pairwise fun item other => ∀ target ∈ kept? item, ∀ target' ∈ kept? other,
    target.place evidenceRoot hostDir ≠ target'.place evidenceRoot hostDir
  inside : ∀ item ∈ members, ∀ target ∈ kept? item,
    Contained evidenceRoot hostDir (target.place evidenceRoot hostDir)
  elsewhere : ∀ place, (∀ item ∈ members, ∀ target ∈ kept? item,
      place ≠ target.place evidenceRoot hostDir) →
    tree' place = tree place ∨ (tree place = none ∧ tree' place = some .directory ∧
      ∃ item ∈ members, ∃ target ∈ kept? item, place ∈ stations (target.path evidenceRoot hostDir))

/-- All kept members are written, or no file is created or changed. -/
def AllOrNothing (tree : Tree) (evidenceRoot hostDir : Path) (members : List Member)
    (run : Run Machine Exn (List String)) : Prop :=
  match run.result with
  | .ok _ => Extracted tree run.state.tree evidenceRoot hostDir members
  | .error _ => Grown .directory tree run.state.tree

/-- The file of a kept member. -/
def Target.file (evidenceRoot hostDir : Path) (target : Target) (item : Member) :
    Placement Path Inode :=
  placement (target.path evidenceRoot hostDir) item

/-- No directory has the name of a kept member.  Each kept member can be read to its end
and be written by itself, and none is in the way of another. -/
structure Separate (tree : Tree) (evidenceRoot hostDir : Path) (members : List Member) : Prop where
  files : ∀ item ∈ members, item.type = .directory → ∀ other ∈ members, kept? other ≠ none →
    other.name ≠ item.name
  read : ∀ item ∈ members, kept? item ≠ none → item.content.stop = none
  free : ∀ item ∈ members, ∀ target ∈ kept? item,
    (target.file evidenceRoot hostDir item).Free .directory tree
  apart : members.Pairwise fun item other => ∀ target ∈ kept? item, ∀ target' ∈ kept? other,
    (target.file evidenceRoot hostDir item).Apart (target'.file evidenceRoot hostDir other)

/-- The first member with the name of a kept one cannot be written. -/
def FirstBlocked (tree : Tree) (evidenceRoot hostDir : Path) (members : List Member) : Prop :=
  ∃ job ∈ (jobs evidenceRoot hostDir (kept members) members).head?,
    ¬(placement job.1 job.2).Free .directory tree

variable {members : List Member} {stop : Option Exn}

/-- The jobs of the kept members. -/
def ownJobs (evidenceRoot hostDir : Path) (members : List Member) : List (Path × Member) :=
  members.filterMap fun item =>
    (kept? item).map fun target => (target.path evidenceRoot hostDir, item)

omit hprepared

theorem lookup_kept (h : Accepted stop members []) {name : String} :
    (kept members).lookup name = some target ↔
      ∃ item ∈ members, kept? item = some target ∧ item.name = name := by
  have hdistinct : ((kept members).map Prod.fst).Nodup := h.distinct
  rw [lookup_eq_some_iff_mem hdistinct, mem_kept]

theorem regular_of_accepted (h : Accepted stop members []) (hitem : item ∈ members)
    (htype : item.type ≠ .directory) : item.type = .regular := by
  obtain ⟨target, hallows⟩ := h.allowed item hitem
  simp only [targetOf, except_bind_eq_ok, SailModelTransaction.require_eq_ok, htype, decide_false,
    Bool.or_false, decide_eq_true_eq] at hallows
  obtain ⟨-, -, -, hregular, -⟩ := hallows
  exact hregular

theorem kept?_congr {other : Member} (hname : item.name = other.name)
    (htype : item.type = other.type) : kept? item = kept? other := by
  rw [kept?, kept?, targetOf, targetOf, hname, htype]

theorem jobs_eq (h : Accepted stop members []) (hfiles : ∀ item ∈ members,
    item.type = .directory → ∀ other ∈ members, kept? other ≠ none → other.name ≠ item.name) :
    jobs evidenceRoot hostDir (kept members) members = ownJobs evidenceRoot hostDir members := by
  refine List.filterMap_congr fun item hitem => congrArg _ (Option.ext fun target => ?_)
  rw [lookup_kept h]
  constructor
  · rintro ⟨other, hother, hkept, hname⟩
    have htype : item.type ≠ .directory := by
      intro hdirectory
      exact hfiles item hitem hdirectory other hother (by simp [hkept]) hname
    have hregular := (targetOf_eq_some (kept?_eq_some.1 hkept)).1
    rw [← hkept]
    exact kept?_congr hname.symm ((regular_of_accepted h hitem htype).trans hregular.symm)
  · intro hkept
    exact ⟨item, hitem, hkept, rfl⟩

theorem placements_ownJobs : placements (ownJobs evidenceRoot hostDir members) =
    members.filterMap fun item =>
      (kept? item).map fun target => target.file evidenceRoot hostDir item := by
  rw [placements, ownJobs, List.map_filterMap]
  refine List.filterMap_congr fun item _ => ?_
  rw [Option.map_map]
  rfl

theorem mem_files {file : Placement Path Inode} :
    file ∈ placements (ownJobs evidenceRoot hostDir members) ↔
      ∃ item ∈ members, ∃ target ∈ kept? item, target.file evidenceRoot hostDir item = file := by
  rw [placements_ownJobs]
  simp [List.mem_filterMap]

theorem allFree_ownJobs_iff :
    AllFree .directory tree (placements (ownJobs evidenceRoot hostDir members)) ↔
      (∀ item ∈ members, ∀ target ∈ kept? item,
        (target.file evidenceRoot hostDir item).Free .directory tree) ∧
      members.Pairwise fun item other => ∀ target ∈ kept? item, ∀ target' ∈ kept? other,
        (target.file evidenceRoot hostDir item).Apart (target'.file evidenceRoot hostDir other) := by
  refine and_congr ⟨fun h item hitem target htarget => h _ (mem_files.2 ⟨item, hitem, target,
    htarget, rfl⟩), fun h file hfile => ?_⟩ ?_
  · obtain ⟨item, hitem, target, htarget, rfl⟩ := mem_files.1 hfile
    exact h item hitem target htarget
  · rw [placements_ownJobs, List.pairwise_filterMap]
    simp only [Option.map_eq_some_iff, forall_exists_index, and_imp, Option.mem_def,
      forall_apply_eq_imp_iff₂]

theorem allWhole_ownJobs_iff :
    (∀ file ∈ placements (ownJobs evidenceRoot hostDir members), file.whole = true) ↔
      ∀ item ∈ members, kept? item ≠ none → item.content.stop = none := by
  have hwhole : ∀ (target : Target) (item : Member),
      (target.file evidenceRoot hostDir item).whole = true ↔ item.content.stop = none :=
    fun _ _ => Option.isNone_iff_eq_none
  constructor
  · intro h item hitem hkept
    obtain ⟨target, htarget⟩ := Option.ne_none_iff_exists'.1 hkept
    exact (hwhole target item).1 (h _ (mem_files.2 ⟨item, hitem, target, htarget, rfl⟩))
  · intro h file hfile
    obtain ⟨item, hitem, target, htarget, rfl⟩ := mem_files.1 hfile
    exact (hwhole target item).2 (h item hitem (Option.ne_none_iff_exists'.2 ⟨target, htarget⟩))

/-- All jobs can be done exactly if the kept members are separate. -/
theorem separate_iff (h : Accepted stop members []) :
    (AllFree .directory tree (placements (jobs evidenceRoot hostDir (kept members) members)) ∧
        ∀ file ∈ placements (jobs evidenceRoot hostDir (kept members) members),
          file.whole = true) ↔
      Separate tree evidenceRoot hostDir members := by
  constructor
  · rintro ⟨hfree, hwhole⟩
    have hfiles : ∀ item ∈ members, item.type = .directory → ∀ other ∈ members,
        kept? other ≠ none → other.name ≠ item.name := by
      intro item hitem htype other hother hkept hname
      obtain ⟨target, htarget⟩ := Option.ne_none_iff_exists'.1 hkept
      have hlookup := (lookup_kept h).2 ⟨other, hother, htarget, hname⟩
      have hjob : (target.path evidenceRoot hostDir, item) ∈
          jobs evidenceRoot hostDir (kept members) members :=
        List.mem_filterMap.2 ⟨item, hitem, by rw [hlookup, Option.map_some]⟩
      have hwritable := (hfree.1 _ (List.mem_map_of_mem hjob)).writable
      simp [placement, htype] at hwritable
    rw [jobs_eq h hfiles] at hfree hwhole
    rw [allFree_ownJobs_iff] at hfree
    exact ⟨hfiles, allWhole_ownJobs_iff.1 hwhole, hfree.1, hfree.2⟩
  · rintro ⟨hfiles, hread, hfree, hapart⟩
    rw [jobs_eq h hfiles, allFree_ownJobs_iff, allWhole_ownJobs_iff]
    exact ⟨⟨hfree, hapart⟩, hread⟩

/-- What is written lies where evidence may lie. -/
theorem contained_of_free (hprepared : Prepared tree evidenceRoot hostDir) (hsound : target.Sound)
    (hfree : (target.file evidenceRoot hostDir item).Free .directory tree) :
    Contained evidenceRoot hostDir (target.place evidenceRoot hostDir) := by
  cases hroot : target.root with
  | evidence =>
      have hplain := evidence_plain hprepared hsound hroot
      simp only [Target.Sound, hroot] at hsound
      obtain ⟨top, below, hpath, htop⟩ := hsound.inside
      refine Or.inl ⟨top, below, ?_, htop⟩
      rw [Target.place, lexical_of_plain hplain]
      simp only [Target.path, hroot, base, hpath, List.append_assoc]
  | guest =>
      simp only [Target.Sound, hroot] at hsound
      have hplain := hprepared.guest_plain
      have hpath : target.path evidenceRoot hostDir = hostDir ++ ["guest"] ++ parts target.relative := by
        simp only [Target.path, hroot, base]
      -- the directory of the guest is on the way, so the end of the path is below it
      have hway : ∀ place, place <+: hostDir ++ ["guest"] →
          place ∈ stations (target.path evidenceRoot hostDir).dropLast := by
        intro place hplace
        rw [hpath, List.dropLast_append_of_ne_nil hsound.nonempty]
        exact mem_stations.2 ⟨place, hplace.trans (List.prefix_append _ _),
          lexical_of_plain fun hmem => hplain (hplace.subset hmem)⟩
      have hspot : ¬target.place evidenceRoot hostDir <+: hostDir ++ ["guest"] :=
        fun hplace => hfree.outside (hway _ hplace)
      have hend : target.place evidenceRoot hostDir ∈
          stations (hostDir ++ ["guest"] ++ parts target.relative) :=
        mem_stations.2 ⟨_, List.prefix_refl _, by rw [Target.place, hpath]⟩
      obtain ⟨below, hbelow⟩ := (hsound.stations hplain hend).resolve_left hspot
      refine Or.inr ⟨below, ?_, hbelow.symm⟩
      rintro rfl
      rw [List.append_nil] at hbelow
      exact hspot (hbelow ▸ List.prefix_refl _)

theorem extracted_of_separate (hprepared : Prepared tree evidenceRoot hostDir)
    (h : Separate tree evidenceRoot hostDir members) :
    Extracted tree (writtenAll .directory tree (placements (ownJobs evidenceRoot hostDir members)))
      evidenceRoot hostDir members := by
  have hfree : AllFree .directory tree (placements (ownJobs evidenceRoot hostDir members)) :=
    allFree_ownJobs_iff.2 ⟨h.free, h.apart⟩
  refine ⟨fun item hitem target htarget => ?_, fun item hitem target htarget =>
    (h.free item hitem target htarget).absent, ?_, fun item hitem target htarget => ?_,
    fun place hplace => ?_⟩
  · exact writtenAll_spot hfree (fun file => placements_node_ne)
      (mem_files.2 ⟨item, hitem, target, htarget, rfl⟩)
  · exact h.apart.imp fun happart target htarget target' htarget' =>
      (happart target htarget target' htarget').distinct
  · refine contained_of_free hprepared ?_ (h.free item hitem target htarget)
    exact (targetOf_eq_some (kept?_eq_some.1 htarget)).2
  · have helse := @writtenAll_elsewhere _ _ Inode.directory tree
      (placements (ownJobs evidenceRoot hostDir members)) _ place ?_
    · rcases helse with hsame | ⟨hnew, file, hfile, habove⟩
      · exact Or.inl hsame
      · rcases (hfree.1 file hfile).opened place habove with hnone | hdirectory
        · obtain ⟨item, hitem, target, htarget, rfl⟩ := mem_files.1 hfile
          exact Or.inr ⟨hnone, hnew, item, hitem, target, htarget,
            stations_initial (List.dropLast_prefix _) habove⟩
        · exact Or.inl (hnew.trans hdirectory.symm)
    · intro file hfile
      obtain ⟨item, hitem, target, htarget, rfl⟩ := mem_files.1 hfile
      exact hplace item hitem target htarget

theorem linkFree_jobs (hprepared : Prepared tree evidenceRoot hostDir)
    (h : Admitted tree evidenceRoot hostDir archive) :
    ∀ job ∈ jobs evidenceRoot hostDir (kept archive.members) archive.members,
      LinkFree tree job.1 := by
  intro job hjob
  obtain ⟨item, hitem, hsome⟩ := List.mem_filterMap.1 hjob
  obtain ⟨target, hlookup, rfl⟩ := Option.map_eq_some_iff.1 hsome
  have hdistinct : ((kept archive.members).map Prod.fst).Nodup := h.accepted.distinct
  have hmem := (lookup_eq_some_iff_mem hdistinct).1 hlookup
  exact linkFree_target hprepared (sound_of_mem_kept hmem) (h.vacant _ hmem)

/-- The members of an admitted archive are written in turn. -/
theorem outcome_extractEvidence (hhost : Obliging host)
    (hprepared : Prepared tree evidenceRoot hostDir)
    (hadmitted : Admitted tree evidenceRoot hostDir archive) {m : Machine} (hm : m.tree = tree) :
    ∃ finished, Outcome .directory tree
        (placements (jobs evidenceRoot hostDir (kept archive.members) archive.members)) finished
        (extractEvidence host evidenceRoot hostDir archive m).state.tree ∧
      (finished = true ↔ Separate tree evidenceRoot hostDir archive.members) ∧
      finished = (extractEvidence host evidenceRoot hostDir archive m).result.isOk := by
  obtain ⟨result, tree', hwrite, houtcome⟩ := @does_writeMembers host _ _
    "unreadable guest evidence member" hhost hprepared.system (linkFree_jobs hprepared hadmitted)
  obtain ⟨hresult, htree⟩ := does_extractEvidence hprepared hadmitted hwrite m hm
  have hfinished := houtcome.finished_iff fun file => placements_node_ne
  rw [separate_iff hadmitted.accepted] at hfinished
  refine ⟨result.isOk, htree ▸ houtcome, hfinished, ?_⟩
  rw [hresult]
  cases result <;> rfl

theorem allOrNothing_of_refused (hprepared : Prepared tree evidenceRoot hostDir)
    (h : ¬Admitted tree evidenceRoot hostDir archive) {m : Machine} (hm : m.tree = tree) :
    AllOrNothing tree evidenceRoot hostDir archive.members
      (extractEvidence host evidenceRoot hostDir archive m) := by
  obtain ⟨e, hfails⟩ := @fails_extractEvidence host _ _ _ hprepared archive h
  obtain ⟨hresult, htree⟩ := hfails m hm
  rw [AllOrNothing, hresult, htree]
  exact .refl tree

theorem allOrNothing_of_separate (hhost : Obliging host)
    (hprepared : Prepared tree evidenceRoot hostDir)
    (hadmitted : Admitted tree evidenceRoot hostDir archive)
    (h : Separate tree evidenceRoot hostDir archive.members) {m : Machine} (hm : m.tree = tree) :
    AllOrNothing tree evidenceRoot hostDir archive.members
      (extractEvidence host evidenceRoot hostDir archive m) := by
  obtain ⟨finished, houtcome, hfinished, hok⟩ :=
    outcome_extractEvidence hhost hprepared hadmitted hm
  obtain rfl := hfinished.2 h
  rw [AllOrNothing]
  cases hresult : (extractEvidence host evidenceRoot hostDir archive m).result with
  | error e =>
      rw [hresult] at hok
      cases hok
  | ok names =>
      show Extracted _ _ _ _ _
      rw [houtcome.eq_writtenAll, jobs_eq hadmitted.accepted h.files]
      exact extracted_of_separate hprepared h

/-- Unless all members can be written, the run fails behind or at the first that can be
created. -/
theorem allOrNothing_iff_firstBlocked (hhost : Obliging host)
    (hprepared : Prepared tree evidenceRoot hostDir)
    (hadmitted : Admitted tree evidenceRoot hostDir archive)
    (h : ¬Separate tree evidenceRoot hostDir archive.members) {m : Machine} (hm : m.tree = tree) :
    AllOrNothing tree evidenceRoot hostDir archive.members
        (extractEvidence host evidenceRoot hostDir archive m) ↔
      FirstBlocked tree evidenceRoot hostDir archive.members := by
  obtain ⟨finished, houtcome, hfinished, hok⟩ :=
    outcome_extractEvidence hhost hprepared hadmitted hm
  obtain rfl : finished = false := by
    rw [← Bool.not_eq_true, hfinished]
    exact h
  rw [AllOrNothing, FirstBlocked]
  cases hresult : (extractEvidence host evidenceRoot hostDir archive m).result with
  | ok names =>
      rw [hresult] at hok
      cases hok
  | error e =>
      show Grown _ _ _ ↔ _
      cases hlist : jobs evidenceRoot hostDir (kept archive.members) archive.members with
      | nil =>
          refine absurd ((separate_iff hadmitted.accepted).1 ?_) h
          rw [hlist]
          exact ⟨allFree_nil, fun _ hfile => absurd hfile List.not_mem_nil⟩
      | cons first rest =>
          rw [hlist] at houtcome
          rcases houtcome.grown_or_placed (placement_node_ne _ _) with ⟨hblocked, hgrown⟩ |
            ⟨hfree, node, hnode, hplaced⟩
          · exact ⟨fun _ => ⟨first, rfl, hblocked⟩, fun _ => hgrown⟩
          · constructor
            · intro hgrown
              rcases hgrown (placement first.1 first.2).spot with hsame | ⟨-, hdirectory⟩
              · rw [hplaced, hfree.absent] at hsame
                cases hsame
              · rw [hplaced] at hdirectory
                exact absurd (Option.some.inj hdirectory) hnode
            · rintro ⟨job, hjob, hblocked⟩
              obtain rfl : first = job := Option.some.inj hjob
              exact absurd hfree hblocked

/-- Extraction writes all kept members or none exactly if all can be read and none is in
the way of another, or if the first one to write cannot even be created. -/
theorem extractEvidence_allOrNothing_iff (hhost : Obliging host)
    (hprepared : Prepared tree evidenceRoot hostDir) {m : Machine} (hm : m.tree = tree) :
    AllOrNothing tree evidenceRoot hostDir archive.members
        (extractEvidence host evidenceRoot hostDir archive m) ↔
      (Admitted tree evidenceRoot hostDir archive →
        FirstBlocked tree evidenceRoot hostDir archive.members ∨
          Separate tree evidenceRoot hostDir archive.members) := by
  by_cases hadmitted : Admitted tree evidenceRoot hostDir archive
  · rw [forall_prop_of_true hadmitted]
    by_cases hseparate : Separate tree evidenceRoot hostDir archive.members
    · have hall := allOrNothing_of_separate hhost hprepared hadmitted hseparate hm
      exact iff_of_true hall (Or.inr hseparate)
    · rw [allOrNothing_iff_firstBlocked hhost hprepared hadmitted hseparate hm]
      exact (or_iff_left hseparate).symm
  · exact iff_of_true (allOrNothing_of_refused hprepared hadmitted hm) fun h => absurd h hadmitted

end Extraction

/-! ## Two names with one target -/

open EvidenceBundle (oneByteMember plainHost plainHost_obliging rootOnly rootOnly_of_ne
  rootOnly_fileSystem)

/-- A checkout, and the fresh directory of the launcher. -/
def launcherTree : Tree :=
  made .directory (made .directory rootOnly.tree (stations ["candidate"])) (stations ["out", "host"])

theorem launcherTree_clear (path : Path) :
    launcherTree path = none ∨ launcherTree path = some .directory := by
  unfold launcherTree made
  split_ifs
  · exact Or.inr rfl
  · exact Or.inr rfl
  · by_cases hpath : path = []
    · exact Or.inr (by rw [hpath]; rfl)
    · exact Or.inl (rootOnly_of_ne hpath)

theorem launcherTree_unlinked (path : Path) : Unlinked launcherTree path := by
  intro place _ target htarget
  rcases launcherTree_clear place with hnone | hdirectory
  · rw [hnone] at htarget
    cases htarget
  · rw [hdirectory] at htarget
    cases htarget

theorem launcherTree_prepared : Prepared launcherTree ["candidate"] ["out", "host"] where
  system := (rootOnly_fileSystem.made (by decide)).made (by decide)
  checkout := ⟨launcherTree_unlinked _, by decide, by decide⟩
  launcher := ⟨launcherTree_unlinked _, by decide, by decide⟩
  fresh := by decide

theorem admitted_launcherTree {archive : Archive} (hopened : archive.openFault = none)
    (hended : archive.stop = none)
    (hallows : ∀ item ∈ archive.members, (targetOf item).isOk = true)
    (hdistinct : ((kept archive.members).map Prod.fst).Nodup) (hnonempty : kept archive.members ≠ [])
    (hvacant : ∀ entry ∈ kept archive.members,
      launcherTree (entry.2.path ["candidate"] ["out", "host"]) = none) :
    Admitted launcherTree ["candidate"] ["out", "host"] archive := by
  have hclean : taken launcherTree (["candidate"] ++ parts CLEAN_ROOM_OUT) = false := by
    rw [taken_of_linkFree launcherTree_prepared.system
      (.of_plain (by decide) (launcherTree_unlinked _)), settle_of_plain (by decide)]
    decide
  refine ⟨hopened, ⟨hended, fun item hitem => ?_, hdistinct⟩, hnonempty,
    fun entry hentry _ => ⟨hvacant entry hentry, launcherTree_unlinked _⟩, hclean⟩
  cases htarget : targetOf item with
  | ok target => exact ⟨target, rfl⟩
  | error e =>
      have hok := hallows item hitem
      rw [htarget] at hok
      cases hok

/-- New files below the two directories, none on the way to another. -/
theorem allFree_launcherTree {jobs : List (Path × Member)}
    (hplain : ∀ path ∈ jobs.map Prod.fst, ".." ∉ path ∧ path ≠ [] ∧ hasNul path = false)
    (habsent : ∀ path ∈ jobs.map Prod.fst, launcherTree path = none)
    (hfiles : ∀ job ∈ jobs, job.2.type ≠ .directory)
    (hapart : (jobs.map Prod.fst).Pairwise fun path other => ¬path <+: other ∧ ¬other <+: path) :
    AllFree .directory launcherTree (placements jobs) := by
  refine ⟨fun file hfile => ?_, List.pairwise_map.2 ((List.pairwise_map.1 hapart).imp_of_mem
    fun {job other} hjob hother h => ?_)⟩
  · obtain ⟨job, hjob, rfl⟩ := List.mem_map.1 hfile
    obtain ⟨hup, hne, hnul⟩ := hplain _ (List.mem_map_of_mem hjob)
    exact (placement_free_iff hup hne hnul (hfiles job hjob)).2
      ⟨fun place _ _ => launcherTree_clear place, habsent _ (List.mem_map_of_mem hjob)⟩
  · obtain ⟨hup, hne, -⟩ := hplain _ (List.mem_map_of_mem hjob)
    obtain ⟨hup', hne', -⟩ := hplain _ (List.mem_map_of_mem hother)
    exact (placement_apart_iff hup hne hup' hne').2 h

/-- The logs of a checkout directory whose name ends with the dash, beside a file that
continues it. -/
def collidingLogs : Archive where
  openFault := none
  members := [WORKPLACE ++ "/clean-room-checkout-/x", WORKPLACE ++ "/clean-room-checkout-x"].map
    oneByteMember
  stop := none

def collidingTargets : Targets :=
  [(WORKPLACE ++ "/clean-room-checkout-/x", ⟨.guest, "checkout-logs//x"⟩),
    (WORKPLACE ++ "/clean-room-checkout-x", ⟨.guest, "checkout-logs/x"⟩)]

theorem kept_collidingLogs : kept collidingLogs.members = collidingTargets := by decide +kernel

theorem collidingLogs_admitted :
    Admitted launcherTree ["candidate"] ["out", "host"] collidingLogs := by
  refine admitted_launcherTree rfl rfl (by decide +kernel) ?_ ?_ ?_
  · rw [kept_collidingLogs]
    decide
  · rw [kept_collidingLogs]
    decide
  · rw [kept_collidingLogs]
    decide +kernel

/-- The place of both logs. -/
def collidingPath : Path := ["out", "host", "guest", "checkout-logs", "x"]

theorem collidingLogs_jobs :
    jobs ["candidate"] ["out", "host"] (kept collidingLogs.members) collidingLogs.members =
      collidingLogs.members.map fun item => (collidingPath, item) := by
  rw [kept_collidingLogs]
  rfl

/-- The first log is written before the second meets it at its place. -/
theorem collidingLogs_not_allOrNothing :
    ¬AllOrNothing launcherTree ["candidate"] ["out", "host"] collidingLogs.members
      (extractEvidence plainHost ["candidate"] ["out", "host"] collidingLogs ⟨launcherTree, []⟩) := by
  have hclash : ¬Separate launcherTree ["candidate"] ["out", "host"] collidingLogs.members := by
    intro hseparate
    have hfree := ((separate_iff collidingLogs_admitted.accepted).2 hseparate).1
    rw [collidingLogs_jobs] at hfree
    have hapart := hfree.2
    rw [placements, List.map_map, List.pairwise_map, collidingLogs, List.pairwise_map,
      List.pairwise_cons] at hapart
    have hsame : lexical collidingPath = lexical collidingPath := rfl
    exact (hapart.1 _ List.mem_cons_self).distinct hsame
  rw [allOrNothing_iff_firstBlocked plainHost_obliging launcherTree_prepared collidingLogs_admitted
    hclash rfl]
  rintro ⟨job, hjob, hblocked⟩
  rw [collidingLogs_jobs] at hjob
  obtain rfl := Option.some.inj hjob
  apply hblocked
  rw [placement_free_iff (by decide) (by decide) (by decide) (by decide)]
  exact ⟨fun place _ _ => launcherTree_clear place, by decide⟩

/-- A report, the exit code of the run and a log of the checkout, with a directory. -/
def smallEvidence : Archive where
  openFault := none
  members := (directoryMember (CANONICAL ++ "/" ++ CLEAN_ROOM_OUT)).stored ::
    [CANONICAL ++ "/" ++ CLEAN_ROOM_OUT ++ "/report.json", GUEST_RUN ++ "/exit-code",
      WORKPLACE ++ "/clean-room-checkout-x"].map oneByteMember
  stop := none

def smallTargets : Targets :=
  [(CANONICAL ++ "/" ++ CLEAN_ROOM_OUT ++ "/report.json",
      ⟨.evidence, "artifacts/boundary-check/clean-room/report.json"⟩),
    (GUEST_RUN ++ "/exit-code", ⟨.guest, "exit-code"⟩),
    (WORKPLACE ++ "/clean-room-checkout-x", ⟨.guest, "checkout-logs/x"⟩)]

def smallPaths : List Path :=
  [["candidate", "artifacts", "boundary-check", "clean-room", "report.json"],
    ["out", "host", "guest", "exit-code"], ["out", "host", "guest", "checkout-logs", "x"]]

theorem kept_smallEvidence : kept smallEvidence.members = smallTargets := by decide +kernel

theorem smallEvidence_admitted :
    Admitted launcherTree ["candidate"] ["out", "host"] smallEvidence := by
  refine admitted_launcherTree rfl rfl (by decide +kernel) ?_ ?_ ?_
  · rw [kept_smallEvidence]
    decide +kernel
  · rw [kept_smallEvidence]
    decide
  · rw [kept_smallEvidence]
    decide +kernel

theorem extractEvidence_allOrNothing_smallEvidence :
    Admitted launcherTree ["candidate"] ["out", "host"] smallEvidence ∧
      AllOrNothing launcherTree ["candidate"] ["out", "host"] smallEvidence.members
        (extractEvidence plainHost ["candidate"] ["out", "host"] smallEvidence
          ⟨launcherTree, []⟩) := by
  refine ⟨smallEvidence_admitted, ?_⟩
  rw [extractEvidence_allOrNothing_iff plainHost_obliging launcherTree_prepared rfl]
  intro hadmitted
  right
  have hseparate := @separate_iff launcherTree ["candidate"] ["out", "host"] _ _ hadmitted.accepted
  rw [← hseparate, kept_smallEvidence]
  have hpaths : (jobs ["candidate"] ["out", "host"] smallTargets smallEvidence.members).map
      Prod.fst = smallPaths := by decide +kernel
  have hfiles : ∀ job ∈ jobs ["candidate"] ["out", "host"] smallTargets smallEvidence.members,
      job.2.type ≠ .directory ∧ job.2.content.stop = none := by decide +kernel
  refine ⟨allFree_launcherTree ?_ ?_ (fun job hjob => (hfiles job hjob).1) ?_, fun file hfile => ?_⟩
  · rw [hpaths]
    decide
  · rw [hpaths]
    decide +kernel
  · rw [hpaths]
    decide +kernel
  · obtain ⟨job, hjob, rfl⟩ := List.mem_map.1 hfile
    exact Option.isNone_iff_eq_none.2 (hfiles job hjob).2

end CkbSail.Scripts.GuestEvidence
