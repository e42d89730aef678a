import CkbSail.Scripts.Proofs.Staging

/-!
# When staging succeeds

The members of an archive are reviewed when each is what its row records, and every
row has one member.  Staging succeeds on reviewed members alone; it does so in any
order exactly if the inventory can be staged at all.
-/

namespace CkbSail.Scripts.FixedInputs

open PythonStd
open ReleaseCommon (SafeName)

/-! ## An accepted inventory -/

section Inventory

variable {entries : List (String × Json)} {name : String} {entry : Entry}

theorem Recorded.unique {entry' : Entry} (h : Recorded entries name entry)
    (h' : Recorded entries name entry') : entry = entry' := by
  obtain ⟨row, hrow, fields, hfields, hsame⟩ := h
  obtain ⟨row', hrow', fields', hfields', hsame'⟩ := h'
  rw [hrow] at hrow'
  obtain rfl := Option.some.inj hrow'
  rw [hfields, Json.obj.injEq] at hfields'
  subst hfields'
  have hboth : Json.SameFields entry.fields entry'.fields := fun key =>
    (hsame key).symm.trans (hsame' key)
  have hkind := hboth "kind"
  have hdigest := hboth "sha256"
  have hbytes := hboth "bytes"
  have hmode := hboth "mode"
  have htarget := hboth "target"
  cases entry <;> cases entry' <;>
    simp_all [Entry.fields, Json.lookup_cons]

/-- What `entries_valid` says of each name. -/
structure Accepted (entries : List (String × Json)) : Prop where
  safe : ∀ name ∈ Json.keys entries, name = "." ∨ SafeName name
  row : ∀ name ∈ Json.keys entries, ∃ entry, Recorded entries name entry
  permission : ∀ name entry mode, Recorded entries name entry → entry.mode? = some mode →
    Permission mode
  parent : ∀ name ∈ Json.keys entries, ∀ parent ∈ parents name, ∀ entry,
    Recorded entries parent entry → ∃ mode, entry = .directory mode

theorem accepted_of_entriesValid (h : entriesValid (.obj entries) = .ok ()) : Accepted entries := by
  have hvalid := entriesValid_eq_ok h
  have hchecked : ∀ name ∈ Json.keys entries, safe name = .ok name ∧
      (∀ parent ∈ parents name, parentFine entries parent = .ok true) ∧
      ∃ row, Json.lookup name entries = some row ∧ rowValid row = .ok () := by
    intro name hname
    have hentry := (hvalid name hname).1
    rw [checkEntry, Py.bind_eq_ok] at hentry
    obtain ⟨name', hsafe, hentry⟩ := hentry
    obtain ⟨rfl, -⟩ := safe_eq_ok.1 hsafe
    obtain ⟨_, hparents, hentry⟩ := Py.bind_eq_ok.1 hentry
    obtain ⟨row, hrow, hentry⟩ := Py.bind_eq_ok.1 hentry
    refine ⟨hsafe, fun parent hparent => ?_, row, Json.getItem_obj_eq_ok.1 hrow, hentry⟩
    simpa using Py.forEach_eq_ok.1 hparents parent hparent
  constructor
  · exact fun name hname => (safe_eq_ok.1 (hchecked name hname).1).2
  · intro name hname
    obtain ⟨-, -, row, hrow, hrowvalid⟩ := hchecked name hname
    obtain ⟨entry, hentry, -⟩ := rowValid_eq_ok hrowvalid
    exact ⟨entry, row, hrow, hentry⟩
  · intro name entry mode hrecorded hmode
    obtain ⟨-, -, row, hrow, hrowvalid⟩ := hchecked name hrecorded.mem_keys
    obtain ⟨entry', hentry', hpermission⟩ := rowValid_eq_ok hrowvalid
    obtain rfl := hrecorded.unique ⟨row, hrow, hentry'⟩
    exact hpermission mode hmode
  · intro name hname parent hparent entry hrecorded
    obtain ⟨row, hrow, hentry⟩ := hrecorded
    have hfine := (hchecked name hname).2.1 parent hparent
    have hkind : entry.kind = "directory" := by
      simpa [parentFine, hrow, get_of_getItem (getItem_kind hentry), Except.map] using hfine
    cases entry with
    | directory mode => exact ⟨mode, rfl⟩
    | file digest bytes mode => exact absurd hkind (by simp [Entry.kind])
    | symlink target => exact absurd hkind (by simp [Entry.kind])

/-- Everything above a name is among its parents. -/
theorem mem_parents_of_prefix {other : String} {path : Path} (hother : SafeName other)
    (hne : path ≠ []) (hbegins : path <+: split other) (hproper : path ≠ split other) :
    slashed path ∈ parents other := by
  rw [parents, hother.parts_eq, List.mem_map]
  refine ⟨path, ?_, by rw [if_neg hne, slashed_eq_join]⟩
  rw [List.mem_reverse]
  have hinits : (split other).inits = (split other).inits.dropLast ++ [split other] := by
    have hlast : (split other).inits.getLast? = some (split other) := by
      obtain ⟨front, part, hfront⟩ := (List.eq_nil_or_concat' (split other)).resolve_left
        (split_ne_nil other)
      rw [hfront, inits_concat]
      simp
    rw [List.dropLast_append_getLast? _ hlast]
  have hmem := (List.mem_inits _ _).2 hbegins
  rw [hinits, List.mem_append, List.mem_singleton] at hmem
  exact hmem.resolve_right hproper

/-- Each member is named once and matches its row. -/
structure Listed (entries : List (String × Json)) (members : List PackageMember) : Prop where
  names : (members.map fun item => item.name).Perm (Json.keys entries)
  rows : ∀ item ∈ members, ∃ entry, Recorded entries item.name entry ∧ Unowned item ∧
    entry.Matches item

theorem nodup_eraseDups (items : List String) : items.eraseDups.Nodup := by
  induction hn : items.length using Nat.strongRecOn generalizing items with
  | ind n ih =>
      cases items with
      | nil => exact List.nodup_nil
      | cons item items =>
          rw [List.eraseDups_cons, List.nodup_cons, List.mem_eraseDups]
          refine ⟨by simp, ih _ ?_ _ rfl⟩
          have hle := List.length_filter_le (fun other => !other == item) items
          rw [← hn, List.length_cons]
          omega

theorem nodup_keys : (Json.keys entries).Nodup := nodup_eraseDups _

theorem Listed.layable {members : List PackageMember} (h : Listed entries members)
    (hentries : Accepted entries) (hdot : "." ∉ Json.keys entries) : Layable members := by
  have hkey : ∀ item ∈ members, item.name ∈ Json.keys entries := fun item hitem =>
    h.names.mem_iff.1 (List.mem_map_of_mem hitem)
  have hsafe : ∀ item ∈ members, SafeName item.name := by
    intro item hitem
    refine (hentries.safe _ (hkey item hitem)).resolve_left fun heq => hdot ?_
    rw [← heq]
    exact hkey item hitem
  refine ⟨hsafe, h.names.nodup_iff.2 nodup_keys, fun item hitem hleaf other hother hbegins => ?_⟩
  by_contra hne
  obtain ⟨entry, hrecorded, -, hmatches⟩ := h.rows item hitem
  have hparent := mem_parents_of_prefix (hsafe other hother) (split_ne_nil item.name) hbegins
    fun heq => hne (split_injective heq).symm
  rw [slashed_split] at hparent
  obtain ⟨mode, rfl⟩ := hentries.parent _ (hkey other hother) _ hparent entry hrecorded
  exact hleaf hmatches.1

theorem Listed.staple {members : List PackageMember} (h : Listed entries members) :
    ∀ item ∈ members, Staple item := by
  intro item hitem
  obtain ⟨entry, -, -, hmatches⟩ := h.rows item hitem
  cases entry with
  | file digest bytes mode => exact Or.inl hmatches.1
  | directory mode => exact Or.inr (Or.inl hmatches.1)
  | symlink target => exact Or.inr (Or.inr hmatches.1)

end Inventory

/-! ## The comparison -/

section Comparison

variable {entries : List (String × Json)} {item : PackageMember} {entry : Entry} {row : Json}
  {sha256 : List UInt8 → String}

theorem not_special {mode : Json} (hpermission : Permission mode)
    (hmode : mode.number? = some (.finite item.mode)) : item.mode / 0o1000 = 0 := by
  obtain ⟨value, hvalue, hlow, hhigh⟩ := hpermission
  rw [hmode, Option.some.injEq, Json.Number.finite.injEq] at hvalue
  subst hvalue
  have hlow : 0 ≤ item.mode := by exact_mod_cast hlow
  have hhigh : item.mode ≤ 0o777 := by exact_mod_cast hhigh
  omega

/-- The dictionary of the node of a member. -/
def observedFields (sha256 : List UInt8 → String) (item : PackageMember) :
    List (String × Json) :=
  match item.type with
  | .regular => [("kind", .str "file"), ("sha256", .str (sha256 item.content.bytes)),
      ("bytes", .int item.content.bytes.length), ("mode", .int item.mode)]
  | .symlink => [("kind", .str "symlink"), ("target", .str item.linkname)]
  | _ => [("kind", .str "directory"), ("mode", .int item.mode)]

/-- What is read off the node of a member. -/
theorem identity_node (hmatches : entry.Matches item)
    (hpermission : ∀ mode, entry.mode? = some mode → Permission mode) :
    identity sha256 item.node = .ok (.obj (observedFields sha256 item)) := by
  cases entry with
  | file digest bytes mode =>
      obtain ⟨htype, -, hmode, -, -⟩ := hmatches
      have hspecial := not_special (hpermission mode rfl) hmode
      simp [PackageMember.node, observedFields, htype, identity, hspecial, require, bind,
        Except.bind, pure, Except.pure]
  | directory mode =>
      obtain ⟨htype, -, hmode, -⟩ := hmatches
      have hspecial := not_special (hpermission mode rfl) hmode
      simp [PackageMember.node, observedFields, htype, identity, hspecial, require, bind,
        Except.bind, pure, Except.pure]
  | symlink target =>
      obtain ⟨htype, -, -, -⟩ := hmatches
      simp [PackageMember.node, observedFields, htype, identity]

/-- It equals the row if the bytes are right. -/
theorem observedFields_eq (hmatches : entry.Matches item) (h : row.Represents entry.fields) :
    (Json.obj (observedFields sha256 item)).eq row = true ↔ entry.Digested sha256 item := by
  have heq : (Json.obj (observedFields sha256 item)).eq row =
      (Json.obj (observedFields sha256 item)).eq (.obj entry.fields) :=
    (Json.represents_obj _).eqBy h
  have hint : ∀ (i : Int) (value : Json), Json.eqBy Json.looseAtom (.int i) value = true ↔
      value.number? = some (.finite i) := fun i value => int_eq_iff
  have hstr : ∀ s t : String, Json.eqBy Json.looseAtom (.str s) (.str t) = true ↔ s = t := by
    intro s t
    rw [show Json.eqBy Json.looseAtom (.str s) (.str t) = decide (s = t) from Json.str_eq_str,
      decide_eq_true_iff]
  have hnumber : ∀ i : Int, (Json.int i).number? = some (.finite i) := fun _ => rfl
  rw [heq, Json.eq, Json.eqBy]
  cases entry with
  | file digest bytes mode =>
      obtain ⟨htype, -, hmode, -, -⟩ := hmatches
      simp [observedFields, htype, Entry.fields, Json.eqFields, Json.eqBinding, Json.lookup_cons,
        hint, hstr, hmode, hnumber, Entry.Digested]
      constructor
      · rintro ⟨hdigest, hbytes⟩
        exact ⟨by exact_mod_cast hbytes.symm, hdigest⟩
      · rintro ⟨hbytes, hdigest⟩
        exact ⟨hdigest, by exact_mod_cast hbytes.symm⟩
  | directory mode =>
      obtain ⟨htype, -, hmode, -⟩ := hmatches
      simp [observedFields, htype, Entry.fields, Json.eqFields, Json.eqBinding, Json.lookup_cons,
        hint, hstr, hmode, Entry.Digested]
  | symlink target =>
      obtain ⟨htype, hlink, -, -⟩ := hmatches
      simp [observedFields, htype, Entry.fields, Json.eqFields, Json.eqBinding, Json.lookup_cons,
        hlink, hstr, Entry.Digested]

/-- The loop over the descendants succeeds when it can read each of them. -/
theorem observe_ok {nodes : List (Path × StagedNode)}
    (h : ∀ row ∈ nodes, (row.2.shape = .directory ∧ Json.lookup (slashed row.1) entries = none ∧
        (implied entries).contains (slashed row.1) = true) ∨
      Json.lookup (slashed row.1) entries ≠ none ∧ ∃ value, identity sha256 row.2 = .ok value) :
    ∃ observed, observe sha256 entries nodes = .ok observed ∧
      ∀ name, Json.lookup name observed ≠ none → Json.lookup name entries ≠ none := by
  induction nodes with
  | nil => exact ⟨[], rfl, by simp⟩
  | cons row nodes ih =>
      obtain ⟨path, node⟩ := row
      rw [List.forall_mem_cons] at h
      obtain ⟨hfirst, hrest⟩ := h
      obtain ⟨observed, hobserve, hnames⟩ := ih hrest
      rw [observe]
      rcases hfirst with ⟨hshape, hnone, himplied⟩ | ⟨hsome, value, hvalue⟩
      · rw [if_pos (by simp [hshape, hnone])]
        refine ⟨observed, ?_, hnames⟩
        rw [himplied, require, if_pos rfl, ok_bind, hobserve]
      · rw [if_neg (by simp [hsome]), hvalue, ok_bind, hobserve, ok_bind]
        refine ⟨_, rfl, fun name hname => ?_⟩
        rw [Json.lookup_cons] at hname
        split_ifs at hname with hpath
        · rw [hpath]
          exact hsome
        · exact hnames name hname

variable {mode : Int} {members : List PackageMember} {tree : StagedTree}

theorem lookup_ne_none_iff {name : String} :
    Json.lookup name entries ≠ none ↔ name ∈ Json.keys entries := by
  rw [Json.mem_keys, ← Option.isSome_iff_ne_none]
  constructor
  · intro h
    obtain ⟨row, hrow⟩ := Option.isSome_iff_exists.1 h
    exact List.mem_map_of_mem (Json.exists_mem_of_lookup hrow)
  · intro h
    obtain ⟨field, hfield, rfl⟩ := List.mem_map.1 h
    exact Json.lookup_isSome_of_mem hfield

theorem plain_of_prefix {name : String} {path : Path} (h : SafeName name)
    (hbegins : path <+: split name) : Plain path :=
  (plain_split h).sublist fun _ hpart => hbegins.subset hpart

theorem allPlain_of_holds (hlay : Layable members)
    (hnodes : ∀ path node, tree.node? path = some node ↔ Holds mode members path node) :
    AllPlain tree := by
  intro path hpath
  obtain ⟨row, hrow, rfl⟩ := List.mem_map.1 hpath
  rcases (hnodes _ _).1 (StagedTree.node?_eq_some_iff_mem.2 hrow) with
    ⟨item, hitem, heq, -⟩ | ⟨-, -, ⟨item, hitem, hbegins⟩, -⟩
  · rw [heq]
    exact plain_split (hlay.safe item hitem)
  · exact plain_of_prefix (hlay.safe item hitem) hbegins

/-- The loop over the descendants of a finished tree. -/
theorem observe_holds (hentries : Accepted entries) (hlisted : Listed entries members)
    (hlay : Layable members)
    (hnodes : ∀ path node, tree.node? path = some node ↔ Holds mode members path node) :
    ∃ observed, observe sha256 entries tree.nodes = .ok observed ∧
      (∀ name, Json.lookup name observed ≠ none → name ∈ Json.keys entries) ∧
      ∀ item ∈ members, Json.lookup item.name observed =
        some (.obj (observedFields sha256 item)) := by
  have hkey : ∀ item ∈ members, item.name ∈ Json.keys entries := fun item hitem =>
    hlisted.names.mem_iff.1 (List.mem_map_of_mem hitem)
  have hidentity : ∀ item ∈ members, identity sha256 item.node =
      .ok (.obj (observedFields sha256 item)) := by
    intro item hitem
    obtain ⟨entry, hrecorded, -, hmatches⟩ := hlisted.rows item hitem
    exact identity_node hmatches fun mode => hentries.permission _ _ mode hrecorded
  have hplain := allPlain_of_holds hlay hnodes
  obtain ⟨observed, hobserve, hnames⟩ : ∃ observed,
      observe sha256 entries tree.nodes = .ok observed ∧
        ∀ name, Json.lookup name observed ≠ none → Json.lookup name entries ≠ none :=
    observe_ok (by
      intro row hrow
      rcases (hnodes _ _).1 (StagedTree.node?_eq_some_iff_mem.2 hrow) with
        ⟨item, hitem, hpath, hnode⟩ | ⟨hother, hne, ⟨item, hitem, hbegins⟩, hnode⟩
      · right
        rw [hpath, slashed_split, lookup_ne_none_iff, hnode]
        exact ⟨hkey item hitem, _, hidentity item hitem⟩
      · left
        have hplainrow : Plain row.1 := plain_of_prefix (hlay.safe item hitem) hbegins
        have hsplit := split_slashed hne hplainrow
        refine ⟨by rw [hnode]; rfl, ?_, ?_⟩
        · by_contra hsome
          obtain ⟨other, hmem, hname⟩ := List.mem_map.1
            (hlisted.names.mem_iff.2 (lookup_ne_none_iff.1 hsome))
          apply hother other hmem
          rw [hname, hsplit]
        · rw [List.contains_iff_mem, implied, List.mem_flatMap]
          refine ⟨item.name, hkey item hitem, List.mem_filter.2 ⟨?_, ?_⟩⟩
          · exact mem_parents_of_prefix (hlay.safe item hitem) hne hbegins (hother item hitem)
          · simp only [ne_eq, decide_eq_true_eq]
            intro hdot
            rw [hdot, show split "." = ["."] from by decide] at hsplit
            exact hplainrow.ordinary "." (by rw [← hsplit]; simp) (by decide))
  obtain ⟨hrows, -⟩ := observe_spec tree.nodup hplain tree.nonempty hobserve
  refine ⟨observed, hobserve, fun name hname => lookup_ne_none_iff.1 (hnames name hname), ?_⟩
  intro item hitem
  have hrow : (split item.name, item.node) ∈ tree.nodes := by
    rw [← StagedTree.node?_eq_some_iff_mem, hnodes, holds_of_member hlay hitem]
  rcases hrows _ hrow with ⟨-, hnone, -⟩ | ⟨value, hvalue, hlookup⟩
  · rw [slashed_split] at hnone
    exact absurd hnone (lookup_ne_none_iff.2 (hkey item hitem))
  · rw [slashed_split] at hlookup
    rw [hlookup, ← Except.ok.inj (hvalue.symm.trans (hidentity item hitem))]

variable (sha256) in
/-- The comparison of a finished tree succeeds when the bytes are right. -/
theorem verifyStaged_iff (hentries : Accepted entries) (hlisted : Listed entries members)
    (hlay : Layable members)
    (hnodes : ∀ path node, tree.node? path = some node ↔ Holds mode members path node) :
    verifyStaged sha256 entries tree = .ok () ↔ ∀ item ∈ members, ∀ entry,
      Recorded entries item.name entry → entry.Digested sha256 item := by
  obtain ⟨observed, hobserve, hnames, hitems⟩ : ∃ observed,
      observe sha256 entries tree.nodes = .ok observed ∧
        (∀ name, Json.lookup name observed ≠ none → name ∈ Json.keys entries) ∧
        ∀ item ∈ members, Json.lookup item.name observed =
          some (.obj (observedFields sha256 item)) :=
    observe_holds hentries hlisted hlay hnodes
  have hmatches : ∀ item ∈ members, ∀ entry, Recorded entries item.name entry →
      entry.Matches item := by
    intro item hitem entry hrecorded
    obtain ⟨entry', hrecorded', -, hmatches⟩ := hlisted.rows item hitem
    rwa [hrecorded.unique hrecorded']
  rw [verifyStaged, hobserve, ok_bind, require_eq_ok]
  show Json.eqBy _ _ _ = true ↔ _
  rw [Json.eqBy_obj_iff]
  constructor
  · intro h item hitem entry hrecorded
    obtain ⟨row, hrow, hentry⟩ := hrecorded
    have hsame := h item.name
    rw [hitems item hitem, hrow] at hsame
    exact (observedFields_eq (hmatches item hitem entry ⟨row, hrow, hentry⟩) hentry).1 hsame
  · intro h name
    by_cases hname : name ∈ Json.keys entries
    · obtain ⟨item, hitem, rfl⟩ := List.mem_map.1 (hlisted.names.mem_iff.2 hname)
      obtain ⟨entry, row, hrow, hentry⟩ := hentries.row _ hname
      rw [hitems item hitem, hrow]
      exact (observedFields_eq (hmatches item hitem entry ⟨row, hrow, hentry⟩) hentry).2
        (h item hitem entry ⟨row, hrow, hentry⟩)
    · have hobserved : Json.lookup name observed = none := by
        by_contra hsome
        exact hname (hnames name hsome)
      have hentry : Json.lookup name entries = none := by
        by_contra hsome
        exact hname (lookup_ne_none_iff.1 hsome)
      rw [hobserved, hentry]
      trivial

end Comparison

end CkbSail.Scripts.FixedInputs
