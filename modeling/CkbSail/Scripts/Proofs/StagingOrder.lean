import CkbSail.Scripts.Proofs.StagingExact

/-!
# Staging is exact, in every order

The readings of an archive, and what a staging that returns has read.  With it:
staging makes one tree of a reviewed archive, however its members are ordered,
exactly if the inventory can be staged.
-/

namespace CkbSail.Scripts.FixedInputs

open PythonStd
open ReleaseCommon (SafeName)

/-- Every row has one member, which is what the row records. -/
structure Reviewed (entries : List (String × Json)) (sha256 : List UInt8 → String)
    (members : List PackageMember) : Prop extends Listed entries members where
  read : ∀ item ∈ members, item.type = .regular → item.content.stop = none
  digests : ∀ item ∈ members, ∀ entry, Recorded entries item.name entry →
    entry.Digested sha256 item

/-! ## The loops over an archive -/

section Loops

variable {entries : List (String × Json)} {sha256 : List UInt8 → String} {mode : Int}
  {item : PackageMember} {items : List PackageMember} {seen final : List String}

/-- The names of the members, each once, were put before those that were seen. -/
structure Seen (items : List PackageMember) (seen final : List String) : Prop where
  final_eq : final = (items.map fun item => item.name).reverse ++ seen
  nodup : (items.map fun item => item.name).Nodup
  fresh : ∀ item ∈ items, item.name ∉ seen

theorem Seen.nil : Seen [] seen seen := ⟨by simp, List.nodup_nil, by simp⟩

theorem seen_cons_iff :
    Seen (item :: items) seen final ↔ item.name ∉ seen ∧ Seen items (item.name :: seen) final := by
  constructor
  · intro h
    have hnodup := h.nodup
    rw [List.map_cons, List.nodup_cons] at hnodup
    refine ⟨h.fresh item List.mem_cons_self, ?_, hnodup.2, fun other hother => ?_⟩
    · rw [h.final_eq]
      simp
    · rw [List.mem_cons, not_or]
      refine ⟨fun heq => hnodup.1 ?_, h.fresh other (List.mem_cons_of_mem _ hother)⟩
      rw [← heq]
      exact List.mem_map_of_mem hother
  · rintro ⟨hitem, h⟩
    refine ⟨by rw [h.final_eq]; simp, ?_, ?_⟩
    · rw [List.map_cons, List.nodup_cons]
      refine ⟨fun hmem => ?_, h.nodup⟩
      obtain ⟨other, hother, hname⟩ := List.mem_map.1 hmem
      exact h.fresh other hother (by rw [hname]; exact List.mem_cons_self)
    · rw [List.forall_mem_cons]
      exact ⟨hitem, fun other hother hmem => h.fresh other hother (List.mem_cons_of_mem _ hmem)⟩

/-- All names of the inventory were seen, and no others. -/
theorem allSeen_iff (h : Seen items [] final) :
    allSeen entries final = true ↔ (items.map fun item => item.name).Perm (Json.keys entries) := by
  rw [h.final_eq, List.append_nil, allSeen, Bool.and_eq_true, List.all_eq_true, List.all_eq_true,
    List.perm_ext_iff_of_nodup h.nodup nodup_keys]
  simp only [List.contains_iff_mem, List.mem_reverse]
  exact ⟨fun h name => ⟨h.2 name, h.1 name⟩,
    fun h => ⟨fun name => (h name).2, fun name => (h name).1⟩⟩

/-- The row of an accepted member. -/
theorem exists_of_validateMember (hentries : Accepted entries) {name : String} {row : Json}
    (h : validateMember entries item seen = .ok (name, row)) :
    ∃ entry : Entry, name = item.name ∧ Json.lookup item.name entries = some row ∧
      row.Represents entry.fields ∧ item.name ∉ seen ∧ Unowned item ∧ entry.Matches item := by
  have hname := h
  rw [validateMember, Py.bind_eq_ok] at hname
  obtain ⟨name', hsafe, hrest⟩ := hname
  obtain ⟨rfl, -⟩ := safe_eq_ok.1 hsafe
  obtain ⟨_, hseen, hrest⟩ := Py.bind_eq_ok.1 hrest
  obtain ⟨row', hrow', -⟩ := Py.bind_eq_ok.1 hrest
  rw [Json.getItem_obj_eq_ok] at hrow'
  obtain ⟨entry, row'', hrow'', hentry⟩ := hentries.row _ (mem_keys_of_lookup hrow')
  rw [hrow'] at hrow''
  obtain rfl := Option.some.inj hrow''
  obtain ⟨hpair, -, hfresh, hunowned, hmatches⟩ := (validateMember_eq_ok hrow' hentry).1 h
  rw [Prod.mk.injEq] at hpair
  obtain ⟨rfl, rfl⟩ := hpair
  exact ⟨entry, rfl, hrow', hentry, hfresh, hunowned, hmatches⟩

/-- What the first reading requires of a member. -/
def Checked (entries : List (String × Json)) (sha256 : List UInt8 → String)
    (item : PackageMember) : Prop :=
  ∃ entry, Recorded entries item.name entry ∧ Unowned item ∧ entry.Matches item ∧
    ∀ digest bytes mode, entry = .file digest bytes mode → item.content.stop = none ∧
      sha256 item.content.bytes = digest

theorem raised_ok_bind {α β : Type} (a : α) (f : α → Stage β) : (raised (.ok a) >>= f) = f a := rfl

/-- One pass of the first reading. -/
theorem verifyMembers_cons (hentries : Accepted entries) :
    verifyMembers entries sha256 (item :: items) seen = .ok final ↔
      item.name ∉ seen ∧ Checked entries sha256 item ∧
        verifyMembers entries sha256 items (item.name :: seen) = .ok final := by
  have hstep : ∀ {row : Json} {entry : Entry}, Json.lookup item.name entries = some row →
      row.Represents entry.fields → validateMember entries item seen = .ok (item.name, row) →
      (verifyMembers entries sha256 (item :: items) seen = .ok final ↔
        (∀ digest bytes mode, entry = .file digest bytes mode → item.content.stop = none ∧
          sha256 item.content.bytes = digest) ∧
        verifyMembers entries sha256 items (item.name :: seen) = .ok final) := by
    intro row entry hrow hentry hvalid
    rw [verifyMembers, hvalid]
    simp only [raised_ok_bind, getItem_kind hentry]
    cases entry with
    | file digest bytes mode =>
        have hdigest : row.getItem "sha256" = .ok (.str digest) :=
          hentry.getItem (by simp [Entry.fields, Json.lookup_cons])
        rw [if_pos (by simp [Entry.kind]), hdigest]
        cases hstop : item.content.stop with
        | some e => simp [noneRaised, bind, Except.bind]
        | none =>
            simp only [noneRaised, raised_ok_bind, stage_ok_bind]
            by_cases hsame : sha256 item.content.bytes = digest
            · simp [hsame, require, raised, stage_ok_bind]
            · simp [hsame, require, raised, bind, Except.bind]
    | directory mode =>
        rw [if_neg (by simp [Entry.kind])]
        simp
    | symlink target =>
        rw [if_neg (by simp [Entry.kind])]
        simp
  constructor
  · intro h
    have hvalid := h
    rw [verifyMembers, stage_bind_eq_ok] at hvalid
    obtain ⟨⟨name, row⟩, hvalid, -⟩ := hvalid
    obtain ⟨entry, rfl, hrow, hentry, hfresh, hunowned, hmatches⟩ :=
      exists_of_validateMember hentries (raised_eq_ok.1 hvalid)
    obtain ⟨hcontent, hrest⟩ := (hstep hrow hentry (raised_eq_ok.1 hvalid)).1 h
    exact ⟨hfresh, ⟨entry, ⟨row, hrow, hentry⟩, hunowned, hmatches, hcontent⟩, hrest⟩
  · rintro ⟨hfresh, ⟨entry, ⟨row, hrow, hentry⟩, hunowned, hmatches, hcontent⟩, hrest⟩
    have hsafe := safe_eq_ok.2 ⟨rfl, hentries.safe _ (mem_keys_of_lookup hrow)⟩
    exact (hstep hrow hentry ((validateMember_eq_ok hrow hentry).2
      ⟨rfl, hsafe, hfresh, hunowned, hmatches⟩)).2 ⟨hcontent, hrest⟩

/-- The first reading. -/
theorem verifyMembers_eq_ok (hentries : Accepted entries) :
    verifyMembers entries sha256 items seen = .ok final ↔
      Seen items seen final ∧ ∀ item ∈ items, Checked entries sha256 item := by
  induction items generalizing seen with
  | nil =>
      rw [verifyMembers, Except.ok.injEq]
      constructor
      · rintro rfl
        exact ⟨.nil, by simp⟩
      · intro h
        rw [h.1.final_eq]
        rfl
  | cons item items ih =>
      rw [verifyMembers_cons hentries, ih, seen_cons_iff, List.forall_mem_cons]
      tauto

/-- A mode that `chmod` takes is the number it counts as. -/
theorem modeOf_of_number? {value : Json} {chosen expected : Int} (h : modeOf value = .ok chosen)
    (hnumber : value.number? = some (.finite expected)) : modeOf value = .ok expected := by
  have hchosen : value.number? = some (.finite chosen) := by
    cases value with
    | int i =>
        obtain rfl := Except.ok.inj h
        rfl
    | bool b =>
        obtain rfl := Except.ok.inj h
        cases b <;> simp [Json.number?]
    | _ => cases h
  rw [hnumber, Option.some.injEq, Json.Number.finite.injEq, Int.cast_inj] at hchosen
  rw [h, hchosen]

/-- What a pass of the loop that does not raise has found. -/
theorem acceptable_of_stageMember (hentries : Accepted entries) {s next : Staging}
    (h : stageMember entries mode item s = .ok next) :
    item.name ∉ s.seen ∧ next.seen = item.name :: s.seen ∧ Acceptable entries item := by
  rw [stageMember, stage_bind_eq_ok] at h
  obtain ⟨⟨name, row⟩, hvalid, h⟩ := h
  obtain ⟨tree, -, h⟩ := stage_bind_eq_ok.1 h
  obtain ⟨_, -, h⟩ := stage_bind_eq_ok.1 h
  obtain ⟨kind, hkind, h⟩ := stage_bind_eq_ok.1 h
  obtain ⟨entry, rfl, hrow, hentry, hfresh, hunowned, hmatches⟩ :=
    exists_of_validateMember hentries (raised_eq_ok.1 hvalid)
  rw [raised_eq_ok, getItem_kind hentry] at hkind
  obtain rfl := Except.ok.inj hkind
  cases entry with
  | symlink target =>
      rw [if_pos (by simp [Entry.kind])] at h
      obtain ⟨link, -, h⟩ := stage_bind_eq_ok.1 h
      cases h
      refine ⟨hfresh, rfl, _, ⟨row, hrow, hentry⟩, hunowned, hmatches, by simp [Entry.mode?], ?_⟩
      simp [hmatches.1]
  | directory value =>
      rw [if_neg (by simp [Entry.kind]), if_pos (by simp [Entry.kind])] at h
      obtain ⟨made, -, h⟩ := stage_bind_eq_ok.1 h
      obtain ⟨chosen, hchosen, h⟩ := stage_bind_eq_ok.1 h
      cases h
      rw [raised_eq_ok, getItem_mode hentry rfl, ok_bind] at hchosen
      refine ⟨hfresh, rfl, _, ⟨row, hrow, hentry⟩, hunowned, hmatches, ?_, by simp [hmatches.1]⟩
      rintro _ ⟨rfl⟩
      exact modeOf_of_number? hchosen hmatches.2.2.1
  | file digest bytes value =>
      rw [if_neg (by simp [Entry.kind]), if_neg (by simp [Entry.kind])] at h
      obtain ⟨made, -, h⟩ := stage_bind_eq_ok.1 h
      obtain ⟨_, hread, h⟩ := stage_bind_eq_ok.1 h
      obtain ⟨chosen, hchosen, h⟩ := stage_bind_eq_ok.1 h
      cases h
      rw [raised_eq_ok, getItem_mode hentry rfl, ok_bind] at hchosen
      refine ⟨hfresh, rfl, _, ⟨row, hrow, hentry⟩, hunowned, hmatches, ?_, fun _ => ?_⟩
      · rintro _ ⟨rfl⟩
        exact modeOf_of_number? hchosen hmatches.2.2.1
      · cases hstop : item.content.stop with
        | none => rfl
        | some e => simp [hstop, noneRaised] at hread

/-- What the loop has found when it does not raise. -/
theorem acceptable_of_stageMembers (hentries : Accepted entries) {s next : Staging}
    (h : stageMembers entries mode items s = .ok next) :
    Seen items s.seen next.seen ∧ ∀ item ∈ items, Acceptable entries item := by
  induction items generalizing s with
  | nil =>
      cases h
      exact ⟨.nil, by simp⟩
  | cons item items ih =>
      rw [stageMembers, stage_bind_eq_ok] at h
      obtain ⟨middle, hmiddle, h⟩ := h
      obtain ⟨hfresh, hseen, hitem⟩ := acceptable_of_stageMember hentries hmiddle
      obtain ⟨hrest, hitems⟩ := ih h
      rw [hseen] at hrest
      exact ⟨seen_cons_iff.2 ⟨hfresh, hrest⟩, List.forall_mem_cons.2 ⟨hitem, hitems⟩⟩

end Loops

/-! ## A whole staging -/

section Whole

variable {entries : List (String × Json)} {sha256 : List UInt8 → String} {mode : Int}
  {members : List PackageMember} {host : Host} {manifest : Json} {tree : StagedTree}

/-- Nothing around the archive is in the way: the digests are those expected, and the
host takes every name, path and link target (their lengths are limits of the host). -/
structure Host.Ready (host : Host) : Prop where
  destinationFree : host.destinationFree = true
  manifestPinned : host.manifestPinned = true
  archiveUnchanged : host.archiveUnchanged = true
  inputsUnchanged : host.inputsUnchanged = true

theorem verifyPackage_eq_ok (hentries : Accepted entries) {package : Package} :
    verifyPackage entries sha256 package = .ok () ↔ package.openFault = none ∧
      package.stop = none ∧
      (package.members.map fun item => item.name).Perm (Json.keys entries) ∧
      ∀ item ∈ package.members, Checked entries sha256 item := by
  have hfault : ∀ {fault : Option Exn} {u : Unit}, noneRaised fault = .ok u ↔ fault = none := by
    intro fault u
    cases fault <;> simp [noneRaised]
  rw [verifyPackage, stage_bind_eq_ok]
  constructor
  · rintro ⟨_, hopen, h⟩
    obtain ⟨seen, hseen, h⟩ := stage_bind_eq_ok.1 h
    obtain ⟨_, hstop, h⟩ := stage_bind_eq_ok.1 h
    rw [raised_eq_ok, require_eq_ok] at h
    obtain ⟨hseen, hchecked⟩ := (verifyMembers_eq_ok hentries).1 hseen
    exact ⟨hfault.1 hopen, hfault.1 hstop, (allSeen_iff hseen).1 h, hchecked⟩
  · rintro ⟨hopen, hstop, hnames, hchecked⟩
    have hseen : Seen package.members [] (package.members.map fun item => item.name).reverse :=
      ⟨by simp, hnames.nodup_iff.2 nodup_keys, by simp⟩
    refine ⟨(), hfault.2 hopen, stage_bind_eq_ok.2
      ⟨_, (verifyMembers_eq_ok hentries).2 ⟨hseen, hchecked⟩, stage_bind_eq_ok.2
        ⟨(), hfault.2 hstop, ?_⟩⟩⟩
    rw [raised_eq_ok, require_eq_ok]
    exact (allSeen_iff hseen).2 hnames

variable (mode) in
/-- The loop, the links and the modes of an archive that fits its inventory. -/
theorem staged_tree (hentries : Accepted entries) (hdot : "." ∉ Json.keys entries)
    (hlisted : Listed entries members) (hitems : ∀ item ∈ members, Acceptable entries item) :
    ∃ s linked, stageMembers entries mode members ⟨.empty, [], [], []⟩ = .ok s ∧
      makeLinks s.links s.tree = .ok linked ∧ ∀ path node,
        (chmodDirectories s.directories linked).node? path = some node ↔
          Holds mode members path node := by
  have hlay := hlisted.layable hentries hdot
  have hstart : Staged mode [] ⟨.empty, [], [], []⟩ :=
    ⟨by simp [StagedTree.node?_empty], by simp, rfl, rfl⟩
  obtain ⟨s, hs, hstaged⟩ := stageMembers_ok hstart (by simpa using hlay) hitems
  rw [List.nil_append] at hstaged
  obtain ⟨linked, hlinked, hholds⟩ := finish_ok hstaged hlay hlisted.staple
  exact ⟨s, linked, hs, hlinked, hholds⟩

theorem listed_of_acceptable (hnames : (members.map fun item => item.name).Perm (Json.keys entries))
    (hitems : ∀ item ∈ members, Acceptable entries item) : Listed entries members :=
  ⟨hnames, fun item hitem => (hitems item hitem).imp fun _ h => ⟨h.1, h.2.1, h.2.2.1⟩⟩

/-- What a staging that returns has read and made. -/
structure Made (entries : List (String × Json)) (host : Host) (tree : StagedTree) : Prop where
  ready : host.Ready
  named : "." ∉ Json.keys entries
  checked : Reviewed entries host.sha256 host.checked.members
  staged : Reviewed entries host.sha256 host.staged.members
  acceptable : ∀ item ∈ host.staged.members, Acceptable entries item
  holds : ∀ path node, tree.node? path = some node ↔
    Holds host.defaultMode host.staged.members path node

/-- The bytes that the first reading accepts are as many as the second has found. -/
theorem reviewed_of_checked (hnames : (members.map fun item => item.name).Perm (Json.keys entries))
    (hchecked : ∀ item ∈ members, Checked entries sha256 item) {others : List PackageMember}
    (hothers : Reviewed entries sha256 others) : Reviewed entries sha256 members where
  names := hnames
  rows item hitem := (hchecked item hitem).imp fun _ h => ⟨h.1, h.2.1, h.2.2.1⟩
  read item hitem htype := by
    obtain ⟨entry, -, -, hmatches, hcontent⟩ := hchecked item hitem
    cases entry with
    | file digest bytes mode => exact (hcontent digest bytes mode rfl).1
    | directory mode =>
        rw [hmatches.1] at htype
        cases htype
    | symlink target =>
        rw [hmatches.1] at htype
        cases htype
  digests item hitem entry hrecorded := by
    obtain ⟨entry', hrecorded', -, hmatches, hcontent⟩ := hchecked item hitem
    obtain rfl := hrecorded.unique hrecorded'
    cases entry with
    | file digest bytes mode =>
        obtain ⟨hstop, hdigest⟩ := hcontent digest bytes mode rfl
        have hmem : item.name ∈ others.map fun other => other.name := by
          rw [hothers.names.mem_iff]
          exact hrecorded.mem_keys
        obtain ⟨other, hother, hname⟩ := List.mem_map.1 hmem
        rw [← hname] at hrecorded
        obtain ⟨hlength, -⟩ := hothers.digests other hother _ hrecorded
        refine ⟨?_, hdigest⟩
        rw [item.complete hstop, hmatches.2.1, ← hlength, Int.toNat_natCast]
    | directory mode => trivial
    | symlink target => trivial

theorem made_of_stage (hload : loadManifest manifest = .ok entries)
    (h : stage host manifest = .ok tree) : Made entries host tree := by
  have hentries := accepted_of_entriesValid (loadManifest_eq_ok hload).2
  have hdot : "." ∉ Json.keys entries := by
    obtain ⟨entries', hload', hplain, hverify⟩ := stage_eq_ok h
    obtain rfl : entries' = entries := Except.ok.inj (hload'.symm.trans hload)
    intro hdot
    obtain ⟨row, hrow, hname⟩ := (layout_eq_described hplain hverify).1 "." hdot
    have hmem : row.1 ∈ tree.nodes.map Prod.fst := List.mem_map_of_mem hrow
    have hsplit := split_slashed (tree.nonempty _ hmem) (hplain _ hmem)
    rw [← hname, show split "." = ["."] from by decide] at hsplit
    exact (hplain _ hmem).ordinary "." (by rw [← hsplit]; simp) (by decide)
  rw [stage, stage_bind_eq_ok] at h
  obtain ⟨_, hfree, h⟩ := h
  obtain ⟨_, hpinned, h⟩ := stage_bind_eq_ok.1 h
  obtain ⟨entries', hload', h⟩ := stage_bind_eq_ok.1 h
  rw [raised_eq_ok, hload] at hload'
  obtain rfl := Except.ok.inj hload'
  obtain ⟨_, hverify, h⟩ := stage_bind_eq_ok.1 h
  obtain ⟨_, hunchanged, h⟩ := stage_bind_eq_ok.1 h
  obtain ⟨_, -, h⟩ := stage_bind_eq_ok.1 h
  obtain ⟨s, hs, h⟩ := stage_bind_eq_ok.1 h
  obtain ⟨_, -, h⟩ := stage_bind_eq_ok.1 h
  obtain ⟨_, hall, h⟩ := stage_bind_eq_ok.1 h
  obtain ⟨linked, hlinked, h⟩ := stage_bind_eq_ok.1 h
  obtain ⟨_, hcompared, h⟩ := stage_bind_eq_ok.1 h
  obtain ⟨_, hsame, h⟩ := stage_bind_eq_ok.1 h
  cases h
  simp only [raised_eq_ok, require_eq_ok] at hfree hpinned hunchanged hall hsame hcompared
  obtain ⟨-, -, hnames, hchecked⟩ := (verifyPackage_eq_ok hentries).1 hverify
  obtain ⟨hseen, hitems⟩ := acceptable_of_stageMembers hentries hs
  have hlisted := listed_of_acceptable ((allSeen_iff hseen).1 hall) hitems
  obtain ⟨s', linked', hs', hlinked', hholds⟩ :=
    staged_tree host.defaultMode hentries hdot hlisted hitems
  obtain rfl : s = s' := Except.ok.inj (hs.symm.trans hs')
  obtain rfl : linked = linked' := Except.ok.inj (hlinked.symm.trans hlinked')
  have hstaged : Reviewed entries host.sha256 host.staged.members := by
    refine { hlisted with read := ?_, digests := ?_ }
    · intro item hitem
      obtain ⟨entry, -, -, -, -, hread⟩ := hitems item hitem
      exact hread
    · exact (verifyStaged_iff _ hentries hlisted (hlisted.layable hentries hdot) hholds).1 hcompared
  exact ⟨⟨hfree, hpinned, hunchanged, hsame⟩, hdot, reviewed_of_checked hnames hchecked hstaged,
    hstaged, hitems, hholds⟩

/-- The inventory can be staged by root, or by another user. -/
structure Stageable (root : Bool) (entries : List (String × Json)) : Prop where
  named : "." ∉ Json.keys entries
  modes : ∀ name entry mode, Recorded entries name entry → entry.mode? = some mode →
    ∃ value, modeOf mode = .ok value
  readable : ∀ name digest bytes mode value, Recorded entries name (.file digest bytes mode) →
    modeOf mode = .ok value → root = true ∨ value / 0o400 % 2 = 1

/-- Both readings find these members. -/
def Host.reading (host : Host) (members : List PackageMember) : Host :=
  { host with checked := ⟨none, members, none⟩, staged := ⟨none, members, none⟩ }

theorem checked_of_reviewed (h : Reviewed entries sha256 members) :
    ∀ item ∈ members, Checked entries sha256 item := by
  intro item hitem
  obtain ⟨entry, hrecorded, hunowned, hmatches⟩ := h.rows item hitem
  refine ⟨entry, hrecorded, hunowned, hmatches, ?_⟩
  rintro digest bytes mode rfl
  exact ⟨h.read item hitem hmatches.1, (h.digests item hitem _ hrecorded).2⟩

theorem acceptable_of_reviewed (h : Reviewed entries sha256 members)
    (hmodes : ∀ name entry mode, Recorded entries name entry → entry.mode? = some mode →
      ∃ value, modeOf mode = .ok value) :
    ∀ item ∈ members, Acceptable entries item := by
  intro item hitem
  obtain ⟨entry, hrecorded, hunowned, hmatches⟩ := h.rows item hitem
  refine ⟨entry, hrecorded, hunowned, hmatches, fun mode hmode => ?_, h.read item hitem⟩
  obtain ⟨value, hvalue⟩ := hmodes item.name entry mode hrecorded hmode
  apply modeOf_of_number? hvalue
  cases entry with
  | file digest bytes mode' =>
      obtain rfl := Option.some.inj hmode
      exact hmatches.2.2.1
  | directory mode' =>
      obtain rfl := Option.some.inj hmode
      exact hmatches.2.2.1
  | symlink target => cases hmode

/-- A reviewed archive is staged when the modes of the inventory can be set. -/
theorem stage_of_reviewed (hload : loadManifest manifest = .ok entries) (hready : host.Ready)
    (hreviewed : Reviewed entries host.sha256 members) (hdot : "." ∉ Json.keys entries)
    (hmodes : ∀ name entry mode, Recorded entries name entry → entry.mode? = some mode →
      ∃ value, modeOf mode = .ok value) :
    ∃ tree, stage (host.reading members) manifest = .ok tree := by
  have hentries := accepted_of_entriesValid (loadManifest_eq_ok hload).2
  have hitems := acceptable_of_reviewed hreviewed hmodes
  obtain ⟨s, linked, hs, hlinked, hholds⟩ := staged_tree host.defaultMode hentries hdot
    hreviewed.toListed hitems
  have hverify : verifyPackage entries host.sha256 (host.reading members).checked = .ok () :=
    (verifyPackage_eq_ok hentries).2 ⟨rfl, rfl, hreviewed.names, checked_of_reviewed hreviewed⟩
  have hall : allSeen entries s.seen = true :=
    (allSeen_iff (acceptable_of_stageMembers hentries hs).1).2 hreviewed.names
  have hcompared := (verifyStaged_iff host.sha256 hentries hreviewed.toListed
    (hreviewed.layable hentries hdot) hholds).2 hreviewed.digests
  refine ⟨chmodDirectories s.directories linked, ?_⟩
  unfold stage
  simp only [Host.reading, hready.destinationFree, hready.manifestPinned, hready.archiveUnchanged,
    hready.inputsUnchanged, require, if_true, raised_ok_bind, hload, noneRaised, stage_ok_bind]
  simp only [Host.reading] at hverify
  rw [hverify, stage_ok_bind, hs]
  simp only [stage_ok_bind, hall, if_true, raised_ok_bind, hlinked, hcompared]
  rfl

theorem stageBy_eq_ok {root : Bool} :
    stageBy root host manifest = .ok tree ↔ stage host manifest = .ok tree ∧
      ∀ row ∈ tree.nodes, row.2.readable root = true := by
  rw [stageBy, stage_bind_eq_ok]
  constructor
  · rintro ⟨made, hmade, h⟩
    split_ifs at h with hall
    cases h
    exact ⟨hmade, List.all_eq_true.1 hall⟩
  · rintro ⟨hmade, hall⟩
    exact ⟨tree, hmade, by rw [if_pos (List.all_eq_true.2 hall)]; rfl⟩

/-- The files of a finished tree can be read when the inventory says so. -/
theorem readable_iff {root : Bool} (hlisted : Listed entries members)
    (hitems : ∀ item ∈ members, Acceptable entries item)
    (hlay : Layable members) (hholds : ∀ path node, tree.node? path = some node ↔
      Holds mode members path node) :
    (∀ row ∈ tree.nodes, row.2.readable root = true) ↔
      ∀ name digest bytes mode value, Recorded entries name (.file digest bytes mode) →
        modeOf mode = .ok value → root = true ∨ value / 0o400 % 2 = 1 := by
  constructor
  · intro h name digest bytes mode value hrecorded hvalue
    obtain ⟨item, hitem, rfl⟩ := List.mem_map.1 (hlisted.names.mem_iff.2 hrecorded.mem_keys)
    obtain ⟨entry, hrecorded', -, hmatches, hmode, -⟩ := hitems item hitem
    obtain rfl := hrecorded.unique hrecorded'
    obtain rfl := Except.ok.inj (hvalue.symm.trans (hmode mode rfl))
    have hrow : (split item.name, item.node) ∈ tree.nodes := by
      rw [← StagedTree.node?_eq_some_iff_mem, hholds, holds_of_member hlay hitem]
    simpa [PackageMember.node, hmatches.1, StagedNode.readable] using h _ hrow
  · intro h row hrow
    rcases (hholds _ _).1 (StagedTree.node?_eq_some_iff_mem.2 hrow) with
      ⟨item, hitem, -, hnode⟩ | ⟨-, -, -, hnode⟩
    · obtain ⟨entry, hrecorded, -, hmatches, hmode, -⟩ := hitems item hitem
      rw [hnode]
      cases entry with
      | file digest bytes value =>
          have hread := h _ _ _ _ _ hrecorded (hmode value rfl)
          simpa [PackageMember.node, hmatches.1, StagedNode.readable] using hread
      | directory value => simp [PackageMember.node, hmatches.1, StagedNode.readable]
      | symlink target => simp [PackageMember.node, hmatches.1, StagedNode.readable]
    · rw [hnode]
      rfl

theorem Reviewed.perm (h : Reviewed entries sha256 members) {order : List PackageMember}
    (horder : order.Perm members) : Reviewed entries sha256 order where
  names := (horder.map _).trans h.names
  rows item hitem := h.rows item (horder.mem_iff.1 hitem)
  read item hitem := h.read item (horder.mem_iff.1 hitem)
  digests item hitem := h.digests item (horder.mem_iff.1 hitem)

theorem holds_perm {order : List PackageMember} (horder : order.Perm members) (path : Path)
    (node : StagedNode) : Holds mode order path node ↔ Holds mode members path node := by
  simp only [Holds, horder.mem_iff]

/-- Staging makes one tree of a reviewed archive, whatever the order of its members,
exactly if the inventory can be staged; what it makes a tree of is reviewed. -/
theorem stages_exactly_iff (root : Bool) (hload : loadManifest manifest = .ok entries)
    (hready : host.Ready) (hreviewed : Reviewed entries host.sha256 members) :
    ((∃ nodes : Path → Option StagedNode,
        (∀ path node, nodes path = some node ↔ Holds host.defaultMode members path node) ∧
        ∀ order, order.Perm members → ∃ tree,
          stageBy root (host.reading order) manifest = .ok tree ∧ tree.node? = nodes) ∧
      ∀ (other : Host) (tree : StagedTree), stageBy root other manifest = .ok tree →
        Reviewed entries other.sha256 other.checked.members ∧
          Reviewed entries other.sha256 other.staged.members) ↔
      Stageable root entries := by
  have hrejected : ∀ (other : Host) (tree : StagedTree), stageBy root other manifest = .ok tree →
      Reviewed entries other.sha256 other.checked.members ∧
        Reviewed entries other.sha256 other.staged.members := by
    intro other tree h
    have hmade := made_of_stage hload (stageBy_eq_ok.1 h).1
    exact ⟨hmade.checked, hmade.staged⟩
  have hentries := accepted_of_entriesValid (loadManifest_eq_ok hload).2
  constructor
  · rintro ⟨⟨nodes, -, horders⟩, -⟩
    obtain ⟨tree, htree, -⟩ := horders members (List.Perm.refl members)
    obtain ⟨hstage, hread⟩ := stageBy_eq_ok.1 htree
    have hmade := made_of_stage hload hstage
    have hitems : ∀ item ∈ members, Acceptable entries item := hmade.acceptable
    refine ⟨hmade.named, ?_, ?_⟩
    · intro name entry mode hrecorded hmode
      obtain ⟨item, hitem, rfl⟩ := List.mem_map.1 (hreviewed.names.mem_iff.2 hrecorded.mem_keys)
      obtain ⟨entry', hrecorded', -, -, hset, -⟩ := hitems item hitem
      obtain rfl := hrecorded.unique hrecorded'
      exact ⟨_, hset mode hmode⟩
    · exact (readable_iff hreviewed.toListed hitems (hreviewed.layable hentries hmade.named)
        hmade.holds).1 hread
  · intro hstageable
    refine ⟨?_, hrejected⟩
    have hstaged : ∀ order, order.Perm members → ∃ tree,
        stageBy root (host.reading order) manifest = .ok tree ∧
          ∀ path node, tree.node? path = some node ↔ Holds host.defaultMode members path node := by
      intro order horder
      have horderReviewed := hreviewed.perm horder
      obtain ⟨tree, htree⟩ := stage_of_reviewed hload hready horderReviewed hstageable.named
        hstageable.modes
      have hmade := made_of_stage hload htree
      refine ⟨tree, stageBy_eq_ok.2 ⟨htree, ?_⟩, fun path node => ?_⟩
      · exact (readable_iff horderReviewed.toListed hmade.acceptable
          (horderReviewed.layable hentries hstageable.named) hmade.holds).2 hstageable.readable
      · exact (hmade.holds path node).trans (holds_perm horder path node)
    obtain ⟨tree, -, hholds⟩ := hstaged members (List.Perm.refl members)
    refine ⟨tree.node?, hholds, fun order horder => ?_⟩
    obtain ⟨other, hother, hothers⟩ := hstaged order horder
    refine ⟨other, hother, ?_⟩
    ext path node
    rw [hothers, hholds]

theorem loadManifest_of_isSome (h : (loadManifest manifest).toOption.isSome = true)
    (hentries : manifest.getItem "entries" = .ok (.obj entries)) :
    loadManifest manifest = .ok entries := by
  cases hload : loadManifest manifest with
  | error e => simp [hload, Except.toOption] at h
  | ok entries' =>
      have hitem := (loadManifest_eq_ok hload).1
      rw [hentries, Except.ok.injEq, Json.obj.injEq] at hitem
      rw [hitem]

/-! ### A directory after the file in it, beside a file and a link -/

/-- The entries of a file and a link, and a directory with an empty file. -/
def treeEntries : List (String × Json) :=
  linkEntries "f" ++
    [("d/e/g", .obj [("kind", .str "file"), ("sha256", .str zeroDigest), ("bytes", .int 0),
        ("mode", .int 0o600)]),
      ("d/e", .obj [("kind", .str "directory"), ("mode", .int 0o750)])]

def treeMembers : List PackageMember :=
  [plainMember "d/f" .regular 0o644 "", plainMember "d/l" .symlink 0o777 "f",
    plainMember "d/e/g" .regular 0o600 "", plainMember "d/e" .directory 0o750 ""]

theorem mem_treeMembers {item : PackageMember} : item ∈ treeMembers ↔
    item = plainMember "d/f" .regular 0o644 "" ∨ item = plainMember "d/l" .symlink 0o777 "f" ∨
      item = plainMember "d/e/g" .regular 0o600 "" ∨
      item = plainMember "d/e" .directory 0o750 "" := by
  simp [treeMembers]

/-- What is recorded of each name. -/
structure TreeRecords : Prop where
  f : Recorded treeEntries "d/f" (.file zeroDigest 0 (.int 0o644))
  l : Recorded treeEntries "d/l" (.symlink "f")
  g : Recorded treeEntries "d/e/g" (.file zeroDigest 0 (.int 0o600))
  e : Recorded treeEntries "d/e" (.directory (.int 0o750))

theorem treeRecords : TreeRecords :=
  ⟨⟨_, rfl, _, rfl, Json.SameFields.refl _⟩, ⟨_, rfl, _, rfl, Json.SameFields.refl _⟩,
    ⟨_, rfl, _, rfl, Json.SameFields.refl _⟩, ⟨_, rfl, _, rfl, Json.SameFields.refl _⟩⟩

theorem entry_treeEntries {name : String} {entry : Entry} (h : Recorded treeEntries name entry) :
    entry = .file zeroDigest 0 (.int 0o644) ∨ entry = .symlink "f" ∨
      entry = .file zeroDigest 0 (.int 0o600) ∨ entry = .directory (.int 0o750) := by
  have hname : name = "d/f" ∨ name = "d/l" ∨ name = "d/e/g" ∨ name = "d/e" := by
    have hkeys : Json.keys treeEntries = ["d/f", "d/l", "d/e/g", "d/e"] := by decide +kernel
    simpa [hkeys] using h.mem_keys
  rcases hname with rfl | rfl | rfl | rfl
  · exact Or.inl (h.unique treeRecords.f)
  · exact Or.inr (Or.inl (h.unique treeRecords.l))
  · exact Or.inr (Or.inr (Or.inl (h.unique treeRecords.g)))
  · exact Or.inr (Or.inr (Or.inr (h.unique treeRecords.e)))

theorem reviewed_treeMembers : Reviewed treeEntries (linkHost "f").sha256 treeMembers where
  names := by decide +kernel
  rows := by
    intro item hitem
    rcases mem_treeMembers.1 hitem with rfl | rfl | rfl | rfl
    · exact ⟨_, treeRecords.f, ⟨rfl, rfl, rfl, rfl, rfl⟩, rfl, rfl, rfl, rfl, rfl⟩
    · exact ⟨_, treeRecords.l, ⟨rfl, rfl, rfl, rfl, rfl⟩, rfl, rfl, rfl, rfl⟩
    · exact ⟨_, treeRecords.g, ⟨rfl, rfl, rfl, rfl, rfl⟩, rfl, rfl, rfl, rfl, rfl⟩
    · exact ⟨_, treeRecords.e, ⟨rfl, rfl, rfl, rfl, rfl⟩, rfl, rfl, rfl, rfl⟩
  read := by
    intro item hitem _
    rcases mem_treeMembers.1 hitem with rfl | rfl | rfl | rfl <;> rfl
  digests := by
    intro item hitem entry hrecorded
    rcases mem_treeMembers.1 hitem with rfl | rfl | rfl | rfl
    · rw [hrecorded.unique treeRecords.f]
      exact ⟨rfl, rfl⟩
    · rw [hrecorded.unique treeRecords.l]
      trivial
    · rw [hrecorded.unique treeRecords.g]
      exact ⟨rfl, rfl⟩
    · rw [hrecorded.unique treeRecords.e]
      trivial

theorem stages_exactly_tree : ∃ nodes : Path → Option StagedNode,
    (∀ path node, nodes path = some node ↔
      Holds (linkHost "f").defaultMode treeMembers path node) ∧
    ∀ order, order.Perm treeMembers → ∃ tree,
      stageBy false ((linkHost "f").reading order) (manifestOf treeEntries) = .ok tree ∧
        tree.node? = nodes := by
  have hload : loadManifest (manifestOf treeEntries) = .ok treeEntries :=
    loadManifest_of_isSome (by decide +kernel) rfl
  have hstageable : Stageable false treeEntries := by
    refine ⟨by decide +kernel, fun name entry mode hrecorded hmode => ?_,
      fun name digest bytes mode value hrecorded hvalue => Or.inr ?_⟩
    · rcases entry_treeEntries hrecorded with rfl | rfl | rfl | rfl
      · obtain rfl := Option.some.inj hmode
        exact ⟨0o644, rfl⟩
      · cases hmode
      · obtain rfl := Option.some.inj hmode
        exact ⟨0o600, rfl⟩
      · obtain rfl := Option.some.inj hmode
        exact ⟨0o750, rfl⟩
    · rcases entry_treeEntries hrecorded with hentry | hentry | hentry | hentry <;> cases hentry <;>
        obtain rfl := Except.ok.inj hvalue <;> decide
  exact ((stages_exactly_iff false hload ⟨rfl, rfl, rfl, rfl⟩ reviewed_treeMembers).2
    hstageable).1

/-! ### A directory that is the destination -/

/-- An inventory whose only entry is the directory `.`. -/
def dotEntries : List (String × Json) :=
  [(".", .obj [("kind", .str "directory"), ("mode", .int 0o755)])]

def dotManifest : Json := manifestOf dotEntries

def dotMembers : List PackageMember := [plainMember "." .directory 0o755 ""]

theorem reviewed_dotMembers (sha256 : List UInt8 → String) :
    Reviewed dotEntries sha256 dotMembers where
  names := by decide +kernel
  rows := by
    rintro item ⟨⟩
    · refine ⟨.directory (.int 0o755), ⟨_, rfl, _, rfl, Json.SameFields.refl _⟩,
        ⟨rfl, rfl, rfl, rfl, rfl⟩, rfl, rfl, ?_, rfl⟩
      rfl
    · contradiction
  read := by
    rintro item ⟨⟩ htype
    · cases htype
    · contradiction
  digests := by
    rintro item ⟨⟩ entry hrecorded
    · have hdot : Recorded dotEntries "." (.directory (.int 0o755)) :=
        ⟨_, rfl, _, rfl, Json.SameFields.refl _⟩
      obtain rfl := hrecorded.unique hdot
      trivial
    · contradiction

/-- The entry `.` is accepted, and its reviewed archive is never staged. -/
theorem dot_not_staged :
    loadManifest dotManifest = .ok dotEntries ∧ (linkHost "f").Ready ∧
      Reviewed dotEntries (linkHost "f").sha256 dotMembers ∧
      ∀ root tree, stageBy root ((linkHost "f").reading dotMembers) dotManifest ≠ .ok tree := by
  have hload : loadManifest dotManifest = .ok dotEntries :=
    loadManifest_of_isSome (by decide +kernel) rfl
  refine ⟨hload, ⟨rfl, rfl, rfl, rfl⟩, reviewed_dotMembers _, fun root tree h => ?_⟩
  exact (made_of_stage hload (stageBy_eq_ok.1 h).1).named (by decide +kernel)

end Whole

end CkbSail.Scripts.FixedInputs
