import CkbSail.Scripts.WritePass

/-!
# What the second loop leaves

Every member is a file to place.  The loop ends as placing the files in turn
does: with all of them if they are free, apart and can be read, and otherwise at
the first that cannot be placed or read.
-/

namespace CkbSail.Scripts.ReleaseCommon

open PythonStd ProofSupport

theorem does_require {tree : Tree} {condition : Bool} {text : String} (h : condition = true) :
    Does (.check fun _ => SailModelTransaction.require condition text) tree (.ok ()) tree :=
  .check fun _ _ => SailModelTransaction.require_eq_ok.2 h

theorem does_require_error {tree : Tree} {condition : Bool} {text : String}
    (h : condition = false) :
    Does (.check fun _ => SailModelTransaction.require condition text) tree
      (.error (.runtimeError text)) tree := by
  subst h
  exact .check fun _ _ => rfl

/-! ## Targets -/

section Targets

variable {tree : Tree} {base path : Path}

theorem does_isSymlink_found :
    Does (isSymlink path) tree (.ok (isLink (found tree false path))) tree := by
  refine .query fun m hm => ?_
  subst hm
  rw [look_fst]
  exact ⟨rfl, rfl⟩

theorem does_pathExists_found :
    Does (pathExists path) tree (.ok (found tree true path).isSome) tree := by
  refine .query fun m hm => ?_
  subst hm
  rw [look_fst]
  exact ⟨rfl, rfl⟩

/-- A path as `resolve()` gives it. -/
structure Resolved (tree : Tree) (path : Path) : Prop where
  unlinked : Unlinked tree path
  plain : ".." ∉ path
  nameable : hasNul path = false

/-- Whether a link stands at a path, as `is_symlink` sees it. -/
def linked (tree : Tree) (path : Path) : Bool := isLink (found tree false (settle tree path))

/-- Whether something stands at a path, as `exists` and `is_symlink` see it. -/
def taken (tree : Tree) (path : Path) : Bool :=
  (found tree true (settle tree path)).isSome || linked tree path

theorem does_anyLink (paths : List Path) :
    Does (anyLink paths) tree (.ok (paths.any (linked tree))) tree := by
  induction paths with
  | nil => exact .pure
  | cons path paths ih =>
      refine .bind_ok (does_settled does_isSymlink_found) ?_
      rw [List.any_cons, linked]
      cases isLink (found tree false (settle tree path)) with
      | true => exact .pure
      | false => exact ih

theorem does_occupied : Does (occupied path) tree (.ok (taken tree path)) tree := by
  refine .bind_ok (does_settled does_pathExists_found) ?_
  rw [taken]
  cases (found tree true (settle tree path)).isSome with
  | true => exact .pure
  | false => exact does_settled does_isSymlink_found

theorem found_eq (hsystem : FileSystem tree) (hunlinked : Unlinked tree path) (last : Bool) :
    found tree last path = tree path := by
  rw [found, look_eq (m := ⟨tree, []⟩) hsystem hunlinked]

/-- A path has no link on its way, or a first one. -/
theorem unlinked_or_link (hsystem : FileSystem tree) (path : Path) :
    Unlinked tree path ∨ ∃ front name rest target, path = front ++ name :: rest ∧
      Directories tree front ∧ tree (front ++ [name]) = some (.symlink target) := by
  rcases hsystem.directories_or_stop path with hpath | ⟨front, name, rest, rfl, hfront, hstop⟩
  · exact Or.inl hpath.unlinked
  · by_cases hlink : ∃ target, tree (front ++ [name]) = some (.symlink target)
    · obtain ⟨target, htarget⟩ := hlink
      exact Or.inr ⟨front, name, rest, target, rfl, hfront, htarget⟩
    · exact Or.inl (unlinked_stop hsystem hfront (not_exists.1 hlink) hstop)

theorem settle_of_plain (h : ".." ∉ path) : settle tree path = path := by
  induction path using List.reverseRecOn with
  | nil => rfl
  | append_singleton path name ih =>
      rw [List.mem_append, not_or] at h
      have hname : name ≠ ".." := fun hname => h.2 (by simp [hname])
      rw [settle_snoc, ih h.1, settleStep, if_neg hname]

/-- On a path without links nothing is seen but its own node. -/
theorem linked_of_linkFree (hsystem : FileSystem tree) (hlinks : LinkFree tree path) :
    linked tree path = false := by
  have hunlinked := unlinked_settle hsystem hlinks
  rw [linked, found_eq hsystem hunlinked]
  have hend := hunlinked _ (List.prefix_refl _)
  cases hnode : tree (settle tree path) with
  | none => rfl
  | some node =>
      cases node with
      | symlink target => exact absurd hnode (hend target)
      | directory => rfl
      | file links bytes mode => rfl
      | special => rfl

theorem taken_of_linkFree (hsystem : FileSystem tree) (hlinks : LinkFree tree path) :
    taken tree path = (tree (settle tree path)).isSome := by
  rw [taken, linked_of_linkFree hsystem hlinks, Bool.or_false,
    found_eq hsystem (unlinked_settle hsystem hlinks)]

theorem mem_parentsBelow {place : Path} :
    place ∈ parentsBelow base path ↔ place <+: path ∧ place ≠ path ∧ base <+: place := by
  rw [parentsBelow, List.mem_filter, List.mem_reverse, mem_inits_dropLast,
    List.isPrefixOf_iff_prefix, and_assoc]

/-- The checks see that a target is new exactly if it is and no link is on its way. -/
theorem vacant_iff (hsystem : FileSystem tree) (hbase : Unlinked tree base)
    (hbelow : base <+: path) (hplain : ".." ∉ path) :
    (taken tree path = false ∧ (parentsBelow base path).any (linked tree) = false) ↔
      tree path = none ∧ Unlinked tree path := by
  constructor
  · rintro ⟨htaken, hparents⟩
    have hunlinked : Unlinked tree path := by
      rcases unlinked_or_link hsystem path with hunlinked | ⟨front, name, rest, target, rfl, hfront,
        hlink⟩
      · exact hunlinked
      · have hplace : front ++ [name] <+: front ++ name :: rest := ⟨rest, by simp⟩
        have hseen : linked tree (front ++ [name]) = true := by
          rw [linked, settle_of_plain fun hmem => hplain (hplace.subset hmem), found, Machine.look]
          have hwalk : walk tree false MAX_LINKS [] (front ++ [name]) [] =
              walk tree false MAX_LINKS front [name] [] := walk_append hfront
          rw [hwalk, walk, hlink]
          simp [hlink, isLink]
        by_cases hend : rest = []
        · subst hend
          rw [taken, hseen, Bool.or_true] at htaken
          cases htaken
        · have hne : front ++ [name] ≠ front ++ name :: rest := by
            intro heq
            exact hend (by simpa using heq)
          have hbelow' : base <+: front ++ [name] := by
            rcases List.prefix_or_prefix_of_prefix hbelow hplace with habove | hlow
            · exact habove
            · exact absurd hlink (hbase _ hlow target)
          have hmem := mem_parentsBelow.2 ⟨hplace, hne, hbelow'⟩
          rw [List.any_eq_false] at hparents
          exact absurd hseen (hparents _ hmem)
    rw [taken_of_linkFree hsystem (.of_plain hplain hunlinked), settle_of_plain hplain] at htaken
    exact ⟨Option.not_isSome_iff_eq_none.1 (by simp [htaken]), hunlinked⟩
  · rintro ⟨hfree, hunlinked⟩
    refine ⟨?_, List.any_eq_false.2 fun place hplace => ?_⟩
    · rw [taken_of_linkFree hsystem (.of_plain hplain hunlinked), settle_of_plain hplain, hfree]
      rfl
    · obtain ⟨habove, -, -⟩ := mem_parentsBelow.1 hplace
      rw [linked_of_linkFree hsystem (.of_plain (fun hmem => hplain (habove.subset hmem))
        (hunlinked.initial habove))]
      exact Bool.false_ne_true

end Targets

/-! ## Files -/

/-- The file that a member is written to. -/
def placement (path : Path) (item : Member) : Placement Path Inode where
  above := stations path.dropLast
  spot := lexical path
  node := .file 1 item.content.bytes (givenMode item.mode)
  writable := !hasNul path && item.type ≠ .directory
  whole := item.content.stop.isNone

theorem placement_node_ne (path : Path) (item : Member) :
    (placement path item).node ≠ .directory :=
  fun h => by cases h

/-! ## Paths without `..` -/

section Plain

variable {tree : Tree} {path other : Path} {item item' : Member}

/-- Nothing but directories stands above a path. -/
def Unblocked (tree : Tree) (path : Path) : Prop :=
  ∀ place, place <+: path → place ≠ path → tree place = none ∨ tree place = some .directory

theorem isPrefix_dropLast_iff {place : Path} (hpath : path ≠ []) :
    place <+: path.dropLast ↔ place <+: path ∧ place ≠ path := by
  constructor
  · intro hplace
    refine ⟨hplace.trans (List.dropLast_prefix path), ?_⟩
    rintro rfl
    have hle := hplace.length_le
    have hpos := List.length_pos_iff.2 hpath
    rw [List.length_dropLast] at hle
    omega
  · rintro ⟨hplace, hne⟩
    exact (eq_or_prefix_dropLast hplace).resolve_left hne

theorem mem_placement_above (hplain : ".." ∉ path) (hpath : path ≠ []) {place : Path} :
    place ∈ (placement path item).above ↔ place <+: path ∧ place ≠ path := by
  have hfront : ".." ∉ path.dropLast := fun hmem => hplain (List.mem_of_mem_dropLast hmem)
  rw [placement, stations_of_plain hfront, List.mem_inits, isPrefix_dropLast_iff hpath]

theorem placement_spot (hplain : ".." ∉ path) : (placement path item).spot = path :=
  lexical_of_plain hplain

theorem placement_free_iff (hplain : ".." ∉ path) (hpath : path ≠ []) (hnul : hasNul path = false)
    (htype : item.type ≠ .directory) :
    (placement path item).Free .directory tree ↔ Unblocked tree path ∧ tree path = none := by
  constructor
  · rintro ⟨-, -, hopen, habsent⟩
    rw [placement_spot hplain] at habsent
    exact ⟨fun place hplace hne => hopen place ((mem_placement_above hplain hpath).2 ⟨hplace, hne⟩),
      habsent⟩
  · rintro ⟨hopen, habsent⟩
    refine ⟨by simp [placement, hnul, htype], ?_, fun place hplace => ?_, ?_⟩
    · rw [placement_spot hplain, mem_placement_above hplain hpath]
      exact fun h => h.2 rfl
    · obtain ⟨habove, hne⟩ := (mem_placement_above hplain hpath).1 hplace
      exact hopen place habove hne
    · rwa [placement_spot hplain]

theorem placement_apart_iff (hplain : ".." ∉ path) (hpath : path ≠ []) (hplain' : ".." ∉ other)
    (hother : other ≠ []) :
    (placement path item).Apart (placement other item') ↔ ¬path <+: other ∧ ¬other <+: path := by
  constructor
  · rintro ⟨hbelow, habove, hdistinct⟩
    rw [placement_spot hplain, mem_placement_above hplain' hother] at hbelow
    rw [placement_spot hplain', mem_placement_above hplain hpath] at habove
    rw [placement_spot hplain, placement_spot hplain'] at hdistinct
    exact ⟨fun h => hbelow ⟨h, hdistinct⟩, fun h => habove ⟨h, hdistinct.symm⟩⟩
  · rintro ⟨hbelow, habove⟩
    refine ⟨?_, ?_, ?_⟩
    · rw [placement_spot hplain, mem_placement_above hplain' hother]
      exact fun h => hbelow h.1
    · rw [placement_spot hplain', mem_placement_above hplain hpath]
      exact fun h => habove h.1
    · rw [placement_spot hplain, placement_spot hplain']
      rintro rfl
      exact hbelow (List.prefix_refl _)

end Plain

section Member

variable {host : FileHost} {tree : Tree} {path : Path} {item : Member} {unreadable : String}

/-- A file in a directory. -/
theorem fileSystem_update {node : Inode} (hsystem : FileSystem tree)
    (hparent : Directories tree path.dropLast) (hpath : tree path ≠ some .directory)
    (hnul : hasNul path = false) :
    FileSystem (Function.update tree path (some node)) where
  root := by
    have hne : [] ≠ path := by
      rintro rfl
      exact hpath hsystem.root
    rw [Function.update_of_ne hne]
    exact hsystem.root
  parent := by
    intro place name hplace
    have hdirectory : tree place = some .directory := by
      by_cases hbelow : place ++ [name] = path
      · rw [← hbelow, List.dropLast_concat] at hparent
        exact hparent place (List.prefix_refl _)
      · rw [Function.update_of_ne hbelow] at hplace
        exact hsystem.parent place name hplace
    have hne : place ≠ path := by
      rintro rfl
      exact hpath hdirectory
    rw [Function.update_of_ne hne, hdirectory]
  named := by
    intro place hplace
    have hne : place ≠ path := by
      rintro rfl
      rw [hnul] at hplace
      cases hplace
    rw [Function.update_of_ne hne]
    exact hsystem.named place hplace

/-- How reading a member ends. -/
def ended : Option Exn → Except Exn Unit
  | some e => .error e
  | none => .ok ()

/-- The blocks are written, however reading ends behind them. -/
theorem does_writeBlocks (stop : Option Exn) (blocks : List (List UInt8)) (written : List UInt8)
    (mode : Nat) (hparent : Directories tree path.dropLast)
    (hpath : tree path = some (.file 1 written mode)) :
    Does (writeBlocks path stop blocks) tree (ended stop)
      (Function.update tree path (some (.file 1 (written ++ blocks.flatten) mode))) := by
  induction blocks generalizing tree written with
  | nil =>
      have hsame : Function.update tree path (some (.file 1 written mode)) = tree := by
        rw [← hpath, Function.update_eq_self]
      rw [List.flatten_nil, List.append_nil, hsame]
      cases stop with
      | none => exact .pure
      | some e => exact .raise
  | cons block blocks ih =>
      have hunlinked : Unlinked tree path := by
        intro place hplace target htarget
        rcases eq_or_prefix_dropLast hplace with rfl | hplace
        · rw [hpath] at htarget
          cases htarget
        · rw [hparent place hplace] at htarget
          cases htarget
      have happend : Does (append path block) tree (.ok ())
          (Function.update tree path (some (.file 1 (written ++ block) mode))) :=
        does_systemCall hparent hunlinked (by rw [hpath, extend])
      have hrest := @ih (Function.update tree path (some (.file 1 (written ++ block) mode)))
        (written ++ block) (fun place hplace => ?_) (Function.update_self ..)
      · rw [Function.update_idem, List.append_assoc, ← List.flatten_cons] at hrest
        exact .bind_ok happend hrest
      · have hne : place ≠ path := by
          rintro rfl
          have hdirectory := hparent place hplace
          rw [hpath] at hdirectory
          cases hdirectory
        rw [Function.update_of_ne hne]
        exact hparent place hplace

theorem ne_nil_of_free (hparent : Directories tree path.dropLast) (hfree : tree path = none) :
    path ≠ [] := by
  rintro rfl
  rw [hparent [] (List.prefix_refl _)] at hfree
  cases hfree

theorem does_openNew (hhost : Obliging host) (hparent : Directories tree path.dropLast)
    (hfree : tree path = none) (hnul : hasNul path = false) :
    Does (openNew host path) tree (.ok ())
      (Function.update tree path (some (.file 1 [] host.newFileMode))) := by
  rw [openNew, hhost.create, nulFault_eq_none hnul]
  exact does_systemCall hparent (unlinked_of_free hparent hfree) (by rw [hfree, makeNew])

theorem unlinked_file {bytes : List UInt8} {mode : Nat} (hparent : Directories tree path.dropLast)
    (hpath : tree path = some (.file 1 bytes mode)) : Unlinked tree path := by
  intro place hplace target htarget
  rcases eq_or_prefix_dropLast hplace with rfl | hplace
  · rw [hpath] at htarget
    cases htarget
  · rw [hparent place hplace] at htarget
    cases htarget

theorem does_chmod (bytes : List UInt8) (old mode : Nat) (hhost : Obliging host)
    (hparent : Directories tree path.dropLast) (hpath : tree path = some (.file 1 bytes old))
    (hnul : hasNul path = false) :
    Does (chmod host path mode) tree (.ok ())
      (Function.update tree path (some (.file 1 bytes mode))) := by
  rw [chmod, hhost.chmod, nulFault_eq_none hnul]
  exact does_systemCall hparent (unlinked_file hparent hpath) (by rw [hpath, setMode])

end Member

/-! ## One member -/

section WriteMember

variable {host : FileHost} {tree : Tree} {path : Path} {item : Member} {unreadable : String}
  {name : String}

/-- With a file at its end the path still settles there. -/
theorem settle_update {node : Inode} (hsystem : FileSystem tree)
    (hlinks : LinkFree tree (path ++ [name])) (hpath : Passed tree path)
    (hnul : hasNul (path ++ [name]) = false) (hfree : tree (lexical (path ++ [name])) = none)
    (hnode : ∀ target, node ≠ .symlink target) :
    settle (Function.update tree (lexical (path ++ [name])) (some node)) (path ++ [name]) =
      lexical (path ++ [name]) := by
  have hmissing : tree (lexical (path ++ [name])) ≠ some .directory := by
    rw [hfree]
    exact fun h => Option.some_ne_none _ h.symm
  have hparent : Directories tree (lexical (path ++ [name])).dropLast := by
    rw [lexical_of_missing hsystem hpath hmissing, List.dropLast_concat]
    exact hpath.directories hsystem
  refine settle_of_passed_parent (fileSystem_update hsystem hparent hmissing
    (hasNul_stations hnul (lexical_mem_stations (List.prefix_refl _)))) ?_ fun place hplace => ?_
  · intro place hplace target
    by_cases hend : place = lexical (path ++ [name])
    · rw [hend, Function.update_self]
      exact fun h => hnode target (Option.some.inj h)
    · rw [Function.update_of_ne hend]
      exact hlinks place hplace target
  · have hend : place ≠ lexical (path ++ [name]) := by
      rintro rfl
      exact hmissing (hpath _ hplace)
    rw [Function.update_of_ne hend]
    exact hpath place hplace

/-- What is at the place of a member when reading it breaks off. -/
def begun (host : FileHost) (item : Member) : Inode := .file 1 item.content.bytes host.newFileMode

/-- A free member is written to its place, or begun there. -/
theorem does_writeMember (hhost : Obliging host) (hsystem : FileSystem tree)
    (hlinks : LinkFree tree path) (hfree : (placement path item).Free .directory tree) :
    Does (writeMember host unreadable path item) tree (ended item.content.stop)
      (if (placement path item).whole then (placement path item).written .directory tree
        else { placement path item with node := begun host item }.written .directory tree) := by
  obtain ⟨hwritable, houtside, hopen, habsent⟩ := hfree
  obtain ⟨hnul, htype⟩ : hasNul path = false ∧ item.type ≠ .directory := by
    simpa [placement] using hwritable
  rcases List.eq_nil_or_concat path with rfl | ⟨front, name, rfl⟩
  · exact absurd (nil_mem_stations _) houtside
  rw [List.concat_eq_append] at *
  have hfront : hasNul front = false := by
    rw [hasNul_append, Bool.or_eq_false_iff] at hnul
    exact hnul.1
  simp only [placement, List.dropLast_concat] at houtside hopen habsent
  have hparents := does_makeParents hhost hsystem (hlinks.initial (List.prefix_append _ _)) hfront
    hopen
  have hsystem' : FileSystem (made .directory tree (stations front)) := hsystem.made hfront
  have hfree : made Inode.directory tree (stations front) (lexical (front ++ [name])) = none :=
    (made_of_not_mem houtside).trans habsent
  have hmissing : made Inode.directory tree (stations front) (lexical (front ++ [name])) ≠
      some .directory := by
    rw [hfree]
    exact fun h => Option.some_ne_none _ h.symm
  have hend : hasNul (lexical (front ++ [name])) = false :=
    hasNul_stations hnul (lexical_mem_stations (List.prefix_refl _))
  have hparent : Directories (made .directory tree (stations front))
      (lexical (front ++ [name])).dropLast := by
    rw [lexical_of_missing hsystem' passed_made hmissing, List.dropLast_concat]
    exact passed_made.directories hsystem'
  have hsettle : ∀ bytes mode, settle (Function.update (made .directory tree (stations front))
      (lexical (front ++ [name])) (some (.file 1 bytes mode))) (front ++ [name]) =
        lexical (front ++ [name]) :=
    fun bytes mode => settle_update hsystem' hlinks.made passed_made hnul hfree
      fun target h => by cases h
  have hne := ne_nil_of_free hparent hfree
  have hcreate := does_settled_at _ (settle_of_passed_parent hsystem' hlinks.made passed_made)
    (does_openNew hhost hparent hfree hend)
  have hwrite := does_settled_at (fun target => writeBlocks target _ _) (hsettle _ _) <|
    does_writeBlocks item.content.stop item.content.blocks [] host.newFileMode
      (directories_update hparent hne) (Function.update_self ..)
  have hchmod := does_settled_at (fun target => chmod host target _) (hsettle _ _) <|
    does_chmod item.content.bytes host.newFileMode (givenMode item.mode) hhost
      (directories_update hparent hne) (Function.update_self ..) hend
  rw [Function.update_idem, List.nil_append, ← Stream.bytes] at hwrite
  rw [Function.update_idem] at hchmod
  have hwritten : ∀ node, { placement (front ++ [name]) item with node := node }.written .directory
      tree = Function.update (made .directory tree (stations front)) (lexical (front ++ [name]))
        (some node) := by
    intro node
    rw [Placement.written, placement, List.dropLast_concat]
  rw [writeMember, List.dropLast_concat, if_neg htype]
  refine .bind_ok hparents (.bind_ok hcreate ?_)
  cases hstop : item.content.stop with
  | none =>
      rw [hstop] at hwrite
      rw [if_pos (by rw [placement, hstop]; rfl)]
      exact .bind_ok hwrite ((hwritten _).symm ▸ hchmod)
  | some e =>
      rw [hstop] at hwrite
      rw [if_neg (by rw [placement, hstop]; exact Bool.false_ne_true)]
      exact .bind_error ((hwritten _).symm ▸ hwrite)

theorem does_openNew_settled_error (hhost : Obliging host) (hsystem : FileSystem tree)
    (hlinks : LinkFree tree path) (h : hasNul path = true ∨ tree (settle tree path) ≠ none) :
    ∃ e, Does (settled path (openNew host)) tree (.error e) tree := by
  have hnul := hasNul_settle hsystem hlinks
  cases hpath : hasNul path with
  | true =>
      refine ⟨⟨"ValueError", "embedded null byte"⟩, does_settled ?_⟩
      rw [openNew, hhost.create, nulFault, hnul, hpath, if_pos rfl]
      exact does_systemCall_fault
  | false =>
      have hthere : tree (settle tree path) ≠ none := h.resolve_left (by simp [hpath])
      refine ⟨.fileExists, does_settled ?_⟩
      rw [openNew, hhost.create, nulFault_eq_none (hnul.trans hpath)]
      refine does_systemCall_error (hsystem.directories_dropLast hthere)
        (unlinked_settle hsystem hlinks) ?_
      cases hnode : tree (settle tree path) with
      | none => exact absurd hnode hthere
      | some node => rw [makeNew]

/-- Any other member is not written, and at most some directories are new. -/
theorem does_writeMember_error (hhost : Obliging host) (hsystem : FileSystem tree)
    (hlinks : LinkFree tree path) (hfree : ¬(placement path item).Free .directory tree) :
    ∃ e tree', Does (writeMember host unreadable path item) tree (.error e) tree' ∧
      Grown .directory tree tree' := by
  have hparentLinks := hlinks.initial (List.dropLast_prefix path)
  by_cases hparents : hasNul path.dropLast = false ∧
      Open .directory tree (stations path.dropLast)
  · have hmade := does_makeParents hhost hsystem hparentLinks hparents.1 hparents.2
    have hgrown := Grown.of_made hparents.2
    by_cases htype : item.type = .directory
    · refine ⟨.runtimeError unreadable, _, ?_, hgrown⟩
      rw [writeMember, if_pos htype]
      exact .bind_ok hmade .raise
    · have hsystem' := hsystem.made hparents.1
      have hopen : ∃ e, Does (settled path (openNew host))
          (made .directory tree (stations path.dropLast)) (.error e)
          (made .directory tree (stations path.dropLast)) := by
        refine does_openNew_settled_error hhost hsystem' hlinks.made ?_
        by_contra hnew
        rw [not_or, Bool.not_eq_true, not_not] at hnew
        obtain ⟨hnul, hnone⟩ := hnew
        rcases List.eq_nil_or_concat path with rfl | ⟨front, name, rfl⟩
        · rw [settle, List.foldl_nil, made_of_mem (nil_mem_stations _)] at hnone
          cases hnone
        · rw [List.concat_eq_append, List.dropLast_concat] at *
          rw [settle_of_passed_parent hsystem' hlinks.made passed_made] at hnone
          have houtside : lexical (front ++ [name]) ∉ stations front := by
            intro hmem
            rw [made_of_mem hmem] at hnone
            cases hnone
          rw [made_of_not_mem houtside] at hnone
          refine hfree ⟨by simp [placement, hnul, htype], ?_, ?_, hnone⟩
          · simpa [placement] using houtside
          · simpa [placement] using hparents.2
      obtain ⟨e, hopen⟩ := hopen
      refine ⟨e, _, ?_, hgrown⟩
      rw [writeMember, if_neg htype]
      exact .bind_ok hmade (.bind_error hopen)
  · obtain ⟨e, tree', hdoes, hgrown⟩ := does_makeParents_error hhost hsystem hparentLinks hparents
    exact ⟨e, tree', .bind_error hdoes, hgrown⟩

end WriteMember

/-! ## The loop -/

section WriteMembers

variable {host : FileHost} {tree : Tree} {jobs : List (Path × Member)} {unreadable : String}

def placements (jobs : List (Path × Member)) : List (Placement Path Inode) :=
  jobs.map fun job => placement job.1 job.2

theorem placements_node_ne {file : Placement Path Inode} (h : file ∈ placements jobs) :
    file.node ≠ .directory := by
  obtain ⟨job, -, rfl⟩ := List.mem_map.1 h
  exact placement_node_ne job.1 job.2

/-- A written member leaves a file system, in which no link is new. -/
theorem fileSystem_written {path : Path} {item : Member} (hsystem : FileSystem tree)
    (hfree : (placement path item).Free .directory tree) :
    FileSystem ((placement path item).written .directory tree) := by
  obtain ⟨hwritable, houtside, hopen, habsent⟩ := hfree
  have hnul : hasNul path = false := by
    have hboth : hasNul path = false ∧ item.type ≠ .directory := by
      simpa [placement] using hwritable
    exact hboth.1
  rcases List.eq_nil_or_concat path with rfl | ⟨front, name, rfl⟩
  · exact absurd (nil_mem_stations _) houtside
  rw [List.concat_eq_append] at *
  have hfront : hasNul front = false := by
    rw [hasNul_append, Bool.or_eq_false_iff] at hnul
    exact hnul.1
  simp only [placement, List.dropLast_concat] at houtside hopen habsent
  have hsystem' : FileSystem (made .directory tree (stations front)) := hsystem.made hfront
  have hmissing : made Inode.directory tree (stations front) (lexical (front ++ [name])) ≠
      some .directory := by
    rw [made_of_not_mem houtside, habsent]
    exact fun h => Option.some_ne_none _ h.symm
  simp only [Placement.written, placement, List.dropLast_concat]
  refine fileSystem_update hsystem' ?_ hmissing
    (hasNul_stations hnul (lexical_mem_stations (List.prefix_refl _)))
  rw [lexical_of_missing hsystem' passed_made hmissing, List.dropLast_concat]
  exact passed_made.directories hsystem'

theorem linkFree_written {path other : Path} {item : Member} (h : LinkFree tree other) :
    LinkFree ((placement path item).written .directory tree) other := by
  intro place hplace target htarget
  by_cases hspot : place = (placement path item).spot
  · rw [hspot, Placement.written_spot] at htarget
    cases htarget
  · rw [Placement.written_of_ne hspot] at htarget
    exact @LinkFree.made _ _ path.dropLast h place hplace target htarget

/-- The loop ends as placing the files in turn does. -/
theorem does_writeMembers (hhost : Obliging host) (hsystem : FileSystem tree)
    (hjobs : ∀ job ∈ jobs, LinkFree tree job.1) :
    ∃ result tree', Does (writeMembers host unreadable jobs) tree result tree' ∧
      Outcome .directory tree (placements jobs) result.isOk tree' := by
  induction jobs generalizing tree with
  | nil => exact ⟨.ok (), tree, .pure, .done⟩
  | cons job jobs ih =>
      obtain ⟨hlinks, hrest⟩ := List.forall_mem_cons.1 hjobs
      by_cases hfree : (placement job.1 job.2).Free .directory tree
      · have hjob := @does_writeMember _ _ _ _ unreadable hhost hsystem hlinks hfree
        cases hstop : job.2.content.stop with
        | none =>
            have hwhole : (placement job.1 job.2).whole = true := by
              rw [placement, hstop]
              rfl
            rw [hstop, if_pos hwhole] at hjob
            obtain ⟨result, tree', hdoes, houtcome⟩ := ih (fileSystem_written hsystem hfree)
              fun other hother => linkFree_written (hrest other hother)
            exact ⟨result, tree', hjob.bind_ok hdoes, .next hfree hwhole houtcome⟩
        | some e =>
            have hbroken : (placement job.1 job.2).whole = false := by
              rw [placement, hstop]
              rfl
            rw [hstop, hbroken, if_neg Bool.false_ne_true] at hjob
            exact ⟨.error e, _, hjob.bind_error, .broken hfree hbroken fun h => by cases h⟩
      · obtain ⟨e, tree', hdoes, hgrown⟩ :=
          @does_writeMember_error _ _ _ _ unreadable hhost hsystem hlinks hfree
        exact ⟨.error e, tree', .bind_error hdoes, .stop hfree hgrown⟩

end WriteMembers

end CkbSail.Scripts.ReleaseCommon
