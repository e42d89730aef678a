import CkbSail.PythonStd.PosixPath

/-!
# Walking along relative links

The kernel walks a path component by component: every directory on the way has to
be there, a link is replaced by its target, and `..` is taken from the directory
reached.  `normpath` only looks at the text.  The two agree on links whose targets
go through directories alone.
-/

namespace CkbSail.PythonStd

inductive Shape where
  | directory
  | file
  | symlink (target : String)
deriving DecidableEq, Repr

/-- What stands at each path below a directory. -/
abbrev Layout := Path → Option Shape

def IsDirectory (layout : Layout) (path : Path) : Prop :=
  path = [] ∨ layout path = some .directory

/-- Everything stands in a directory, under a name that leads down. -/
structure Sound (layout : Layout) : Prop where
  plain : ∀ path shape, layout path = some shape → Plain path
  nonempty : ∀ path shape, layout path = some shape → path ≠ []
  parent : ∀ path shape, layout path = some shape → IsDirectory layout path.dropLast

/-- From the directory `dir` the kernel walks along `todo` to the regular file
`found`, and follows `n` links. -/
inductive Walk (layout : Layout) : Path → List String → Path → Nat → Prop
  | file {dir : Path} {name : String} : Ordinary name → layout (dir ++ [name]) = some .file →
      Walk layout dir [name] (dir ++ [name]) 0
  | stay {dir found : Path} {part : String} {todo : List String} {n : Nat} :
      part = "" ∨ part = "." → Walk layout dir todo found n → Walk layout dir (part :: todo) found n
  | up {dir found : Path} {todo : List String} {n : Nat} : dir ≠ [] →
      Walk layout dir.dropLast todo found n → Walk layout dir (".." :: todo) found n
  | enter {dir found : Path} {name : String} {todo : List String} {n : Nat} : Ordinary name →
      layout (dir ++ [name]) = some .directory → Walk layout (dir ++ [name]) todo found n →
      Walk layout dir (name :: todo) found n
  | follow {dir found : Path} {name target : String} {todo : List String} {n : Nat} :
      Ordinary name → layout (dir ++ [name]) = some (.symlink target) →
      Walk layout dir (split target ++ todo) found n → Walk layout dir (name :: todo) found (n + 1)

/-- From link to link to a regular file by the text of the targets, in `n` steps. -/
inductive Leads (layout : Layout) : Nat → Path → Path → Prop
  | file {path : Path} : layout path = some .file → Leads layout 0 path path
  | link {path found : Path} {target : String} {n : Nat} :
      layout path = some (.symlink target) → Leads layout n (lexicalTarget path target) found →
      Leads layout (n + 1) path found

/-- Every component of the target but the last leads, by the text, to a directory. -/
def Straight (layout : Layout) (path : Path) (target : String) : Prop :=
  ∀ front, front <+: split target → front ≠ split target →
    IsDirectory layout (front.foldl (pushComponent false) path.dropLast)

variable {layout : Layout}

/-! ## One step of a walk -/

section Step

variable {dir found : Path} {todo : List String} {n : Nat} {name : String}

theorem not_ordinary_of_stay (h : name = "" ∨ name = ".") : ¬Ordinary name := by
  rcases h with rfl | rfl <;> simp [Ordinary]

theorem not_ordinary_up : ¬Ordinary ".." := by simp [Ordinary]

theorem walk_stay_iff (hname : name = "" ∨ name = ".") :
    Walk layout dir (name :: todo) found n ↔ Walk layout dir todo found n := by
  constructor
  · intro h
    cases h with
    | stay _ hrest => exact hrest
    | up => exact absurd hname (by decide)
    | file hordinary => exact absurd hordinary (not_ordinary_of_stay hname)
    | enter hordinary => exact absurd hordinary (not_ordinary_of_stay hname)
    | follow hordinary => exact absurd hordinary (not_ordinary_of_stay hname)
  · exact .stay hname

theorem walk_up_iff :
    Walk layout dir (".." :: todo) found n ↔ dir ≠ [] ∧ Walk layout dir.dropLast todo found n := by
  constructor
  · intro h
    cases h with
    | stay hname => exact absurd hname (by decide)
    | up hne hrest => exact ⟨hne, hrest⟩
    | file hordinary => exact absurd hordinary not_ordinary_up
    | enter hordinary => exact absurd hordinary not_ordinary_up
    | follow hordinary => exact absurd hordinary not_ordinary_up
  · exact fun h => .up h.1 h.2

theorem walk_file_iff (hname : Ordinary name) (hfile : layout (dir ++ [name]) = some .file) :
    Walk layout dir (name :: todo) found n ↔ todo = [] ∧ found = dir ++ [name] ∧ n = 0 := by
  constructor
  · intro h
    cases h with
    | stay hstay => exact absurd hname (not_ordinary_of_stay hstay)
    | up => exact absurd hname not_ordinary_up
    | file => exact ⟨rfl, rfl, rfl⟩
    | enter _ hdir => cases hfile.symm.trans hdir
    | follow _ hlink => cases hfile.symm.trans hlink
  · rintro ⟨rfl, rfl, rfl⟩
    exact .file hname hfile

theorem walk_enter_iff (hname : Ordinary name) (hdir : layout (dir ++ [name]) = some .directory) :
    Walk layout dir (name :: todo) found n ↔ Walk layout (dir ++ [name]) todo found n := by
  constructor
  · intro h
    cases h with
    | stay hstay => exact absurd hname (not_ordinary_of_stay hstay)
    | up => exact absurd hname not_ordinary_up
    | file _ hfile => cases hdir.symm.trans hfile
    | enter _ _ hrest => exact hrest
    | follow _ hlink => cases hdir.symm.trans hlink
  · exact .enter hname hdir

theorem walk_follow_iff {target : String} (hname : Ordinary name)
    (hlink : layout (dir ++ [name]) = some (.symlink target)) :
    Walk layout dir (name :: todo) found n ↔
      ∃ m, n = m + 1 ∧ Walk layout dir (split target ++ todo) found m := by
  constructor
  · intro h
    cases h with
    | stay hstay => exact absurd hname (not_ordinary_of_stay hstay)
    | up => exact absurd hname not_ordinary_up
    | file _ hfile => cases hlink.symm.trans hfile
    | enter _ hdir => cases hlink.symm.trans hdir
    | follow _ hlink' hrest =>
        cases hlink.symm.trans hlink'
        exact ⟨_, rfl, hrest⟩
  · rintro ⟨m, rfl, hrest⟩
    exact .follow hname hlink hrest

theorem not_walk_of_absent (hname : Ordinary name) (habsent : layout (dir ++ [name]) = none) :
    ¬Walk layout dir (name :: todo) found n := by
  intro h
  cases h with
  | stay hstay => exact not_ordinary_of_stay hstay hname
  | up => exact not_ordinary_up hname
  | file _ hfile => cases habsent.symm.trans hfile
  | enter _ hdir => cases habsent.symm.trans hdir
  | follow _ hlink => cases habsent.symm.trans hlink

end Step

/-! ## Where a walk ends -/

section Ends

variable {dir found found' : Path} {todo : List String} {n n' : Nat}

/-- A walk ends at one place, after one number of links. -/
theorem Walk.unique (h : Walk layout dir todo found n) (h' : Walk layout dir todo found' n') :
    found' = found ∧ n' = n := by
  induction h generalizing n' with
  | file hname hfile => exact ((walk_file_iff hname hfile).1 h').2
  | stay hname _ ih => exact ih ((walk_stay_iff hname).1 h')
  | up _ _ ih => exact ih (walk_up_iff.1 h').2
  | enter hname hdir _ ih => exact ih ((walk_enter_iff hname hdir).1 h')
  | follow hname hlink _ ih =>
      obtain ⟨m, rfl, hrest⟩ := (walk_follow_iff hname hlink).1 h'
      obtain ⟨hfound, hm⟩ := ih hrest
      exact ⟨hfound, congrArg (· + 1) hm⟩

/-- Where one walk has ended at a file, no longer one goes on. -/
theorem Walk.not_longer (h : Walk layout dir todo found n) {rest : List String} (hrest : rest ≠ []) :
    ¬Walk layout dir (todo ++ rest) found' n' := by
  intro h'
  induction h generalizing n' with
  | file hname hfile => exact hrest ((walk_file_iff hname hfile).1 h').1
  | stay hname _ ih => exact ih ((walk_stay_iff hname).1 h')
  | up _ _ ih => exact ih (walk_up_iff.1 h').2
  | enter hname hdir _ ih => exact ih ((walk_enter_iff hname hdir).1 h')
  | follow hname hlink _ ih =>
      obtain ⟨m, -, hwalk⟩ := (walk_follow_iff hname hlink).1 h'
      rw [List.append_eq, ← List.append_assoc] at hwalk
      exact ih hwalk

/-- A walk from the top enters the directories above what it looks for. -/
theorem walk_from_top_iff (hs : Sound layout) {dir : Path} (hdir : IsDirectory layout dir)
    {todo : List String} : Walk layout [] (dir ++ todo) found n ↔ Walk layout dir todo found n := by
  induction dir using List.reverseRecOn generalizing todo with
  | nil => rfl
  | append_singleton dir name ih =>
      rcases hdir with hnil | hdir
      · cases List.append_ne_nil_of_right_ne_nil _ (List.cons_ne_nil _ _) hnil
      · have hname : Ordinary name := (hs.plain _ _ hdir).ordinary name (by simp)
        have hparent := hs.parent _ _ hdir
        rw [List.dropLast_concat] at hparent
        rw [List.append_assoc, List.singleton_append, ih hparent, walk_enter_iff hname hdir]

end Ends

/-! ## The text and the walk -/

section Lexical

variable {dir path found : Path} {todo : List String} {n : Nat}

theorem IsDirectory.plain (hs : Sound layout) (h : IsDirectory layout dir) : Plain dir := by
  rcases h with rfl | hdir
  · exact ⟨by simp, by simp⟩
  · exact hs.plain _ _ hdir

theorem IsDirectory.dropLast (hs : Sound layout) (h : IsDirectory layout dir) :
    IsDirectory layout dir.dropLast := by
  rcases h with rfl | hdir
  · exact Or.inl rfl
  · exact hs.parent _ _ hdir

theorem not_isDirectory (hs : Sound layout) {shape : Shape} (h : layout path = some shape)
    (hshape : shape ≠ .directory) : ¬IsDirectory layout path := by
  rintro (hnil | hdir)
  · exact hs.nonempty _ _ h hnil
  · exact hshape (Option.some.inj (h.symm.trans hdir))

/-- What the text makes of a component is what the kernel makes of it, as long as it
stays in directories. -/
theorem walk_step_iff (hs : Sound layout) (hdir : IsDirectory layout dir) {part : String}
    (hnext : IsDirectory layout (pushComponent false dir part)) :
    Walk layout dir (part :: todo) found n ↔
      Walk layout (pushComponent false dir part) todo found n := by
  by_cases hstay : part = "" ∨ part = "."
  · have hpush : pushComponent false dir part = dir := by
      rcases hstay with rfl | rfl <;> simp [pushComponent]
    rw [walk_stay_iff hstay, hpush]
  · by_cases hup : part = ".."
    · subst hup
      by_cases hne : dir = []
      · subst hne
        have hplain := hnext.plain hs
        exact absurd (hplain.ordinary ".." (by simp [pushComponent])) not_ordinary_up
      · rw [walk_up_iff, pushComponent_up hne (hdir.plain hs).ordinary]
        exact and_iff_right hne
    · have hordinary : Ordinary part := by
        simp only [Ordinary, List.mem_cons, List.not_mem_nil, or_false]
        tauto
      rw [pushComponent_ordinary hordinary] at hnext ⊢
      rcases hnext with hnil | hdir'
      · cases List.append_ne_nil_of_right_ne_nil _ (List.cons_ne_nil _ _) hnil
      · exact walk_enter_iff hordinary hdir'

theorem eq_append_getLast (hs : Sound layout) {shape : Shape} (h : layout path = some shape) :
    ∃ dir name, path = dir ++ [name] ∧ IsDirectory layout dir ∧ Ordinary name := by
  obtain ⟨dir, name, rfl⟩ := (List.eq_nil_or_concat' path).resolve_left (hs.nonempty _ _ h)
  have hparent := hs.parent _ _ h
  rw [List.dropLast_concat] at hparent
  exact ⟨dir, name, rfl, hparent, (hs.plain _ _ h).ordinary name (by simp)⟩

/-- A target that goes through directories alone is walked to where the text says. -/
theorem walk_iff_of_straight (hs : Sound layout) (hdir : IsDirectory layout dir)
    (hstraight : ∀ front, front <+: todo → front ≠ todo →
      IsDirectory layout (front.foldl (pushComponent false) dir)) {shape : Shape}
    (hend : layout (todo.foldl (pushComponent false) dir) = some shape)
    (hshape : shape ≠ .directory) :
    Walk layout dir todo found n ↔
      Walk layout [] (todo.foldl (pushComponent false) dir) found n := by
  induction todo generalizing dir with
  | nil => exact absurd hdir (not_isDirectory hs hend hshape)
  | cons part rest ih =>
      by_cases hrest : rest = []
      · subst hrest
        obtain ⟨dir', name, hlast, hdir', hname⟩ := eq_append_getLast hs hend
        have hnotdir := not_isDirectory hs hend hshape
        rw [List.foldl_cons, List.foldl_nil] at hlast hnotdir ⊢
        have hpart : Ordinary part := by
          intro hmem
          simp only [List.mem_cons, List.not_mem_nil, or_false] at hmem
          rcases hmem with rfl | rfl | rfl
          · exact hnotdir (by simpa [pushComponent] using hdir)
          · exact hnotdir (by simpa [pushComponent] using hdir)
          · by_cases hne : dir = []
            · subst hne
              obtain rfl : ".." = name := by
                simpa [pushComponent] using congrArg List.getLast? hlast
              exact not_ordinary_up hname
            · rw [pushComponent_up hne (hdir.plain hs).ordinary] at hnotdir
              exact hnotdir (hdir.dropLast hs)
        rw [pushComponent_ordinary hpart, walk_from_top_iff hs hdir]
      · have hnext : IsDirectory layout (pushComponent false dir part) :=
          hstraight [part] (List.prefix_append [part] rest) (by simpa using Ne.symm hrest)
        rw [walk_step_iff hs hdir hnext]
        refine ih hnext (fun front hfront hne => ?_) hend
        exact hstraight (part :: front) (List.cons_prefix_cons.2 ⟨rfl, hfront⟩) (by simpa using hne)

theorem Leads.not_directory (h : Leads layout n path found) :
    ∃ shape, layout path = some shape ∧ shape ≠ .directory := by
  cases h with
  | file hfile => exact ⟨_, hfile, by simp⟩
  | link hlink => exact ⟨_, hlink, by simp⟩

theorem Leads.unique {found' : Path} {n' : Nat} (h : Leads layout n path found)
    (h' : Leads layout n' path found') : found' = found ∧ n' = n := by
  induction h generalizing n' with
  | file hfile =>
      cases h' with
      | file => exact ⟨rfl, rfl⟩
      | link hlink => cases hfile.symm.trans hlink
  | link hlink _ ih =>
      cases h' with
      | file hfile => cases hlink.symm.trans hfile
      | link hlink' hrest =>
          cases hlink.symm.trans hlink'
          obtain ⟨hfound, hn⟩ := ih hrest
          exact ⟨hfound, congrArg (· + 1) hn⟩

/-- If all targets go through directories alone, the kernel follows the links that the
text leads through. -/
theorem Leads.walk (hs : Sound layout) (hstraight : ∀ path target,
    layout path = some (.symlink target) → Straight layout path target)
    (h : Leads layout n path found) : Walk layout [] path found n := by
  induction h with
  | file hfile =>
      obtain ⟨dir, name, rfl, hdir, hname⟩ := eq_append_getLast hs hfile
      exact (walk_from_top_iff hs hdir).2 (.file hname hfile)
  | link hlink hleads ih =>
      obtain ⟨dir, name, rfl, hdir, hname⟩ := eq_append_getLast hs hlink
      obtain ⟨shape, hend, hshape⟩ := hleads.not_directory
      have hwalk := hstraight _ _ hlink
      rw [Straight, List.dropLast_concat] at hwalk
      rw [lexicalTarget, List.dropLast_concat] at hend ih
      refine (walk_from_top_iff hs hdir).2 (.follow hname hlink ?_)
      rw [List.append_nil]
      exact (walk_iff_of_straight hs hdir hwalk hend hshape).2 ih

/-- What a walk has before its last component is a directory. -/
theorem isDirectory_of_walk (hs : Sound layout) (hresolve : ∀ path target,
    layout path = some (.symlink target) → ∃ found n, Walk layout [] path found n)
    (hdir : IsDirectory layout dir) {part : String} (htodo : todo ≠ [])
    (h : Walk layout dir (part :: todo) found n) :
    IsDirectory layout (pushComponent false dir part) := by
  cases h with
  | file => exact absurd rfl htodo
  | stay hstay =>
      rcases hstay with rfl | rfl <;> simpa [pushComponent] using hdir
  | up hne =>
      rw [pushComponent_up hne (hdir.plain hs).ordinary]
      exact hdir.dropLast hs
  | enter hname hnext =>
      rw [pushComponent_ordinary hname]
      exact Or.inr hnext
  | follow hname hlink hwalk =>
      -- The link leads to a file, where the walk cannot go on.
      obtain ⟨file, m, hfile⟩ := hresolve _ _ hlink
      rw [walk_from_top_iff hs hdir, walk_follow_iff hname hlink] at hfile
      obtain ⟨k, -, hfile⟩ := hfile
      rw [List.append_nil] at hfile
      exact absurd hwalk (hfile.not_longer htodo)

theorem straight_of_walk (hs : Sound layout) (hresolve : ∀ path target,
    layout path = some (.symlink target) → ∃ found n, Walk layout [] path found n)
    (hdir : IsDirectory layout dir) (h : Walk layout dir todo found n) {front : List String}
    (hfront : front <+: todo) (hne : front ≠ todo) :
    IsDirectory layout (front.foldl (pushComponent false) dir) := by
  induction front generalizing dir todo with
  | nil => exact hdir
  | cons part front ih =>
      obtain ⟨rest, rfl⟩ := hfront
      have hrest : front ++ rest ≠ [] := by
        intro hnil
        obtain ⟨rfl, rfl⟩ := List.append_eq_nil_iff.1 hnil
        exact hne rfl
      have hnext := isDirectory_of_walk hs hresolve hdir hrest h
      have hwalk := (walk_step_iff hs hdir hnext).1 h
      exact ih hnext hwalk (List.prefix_append _ _) fun heq => hne (congrArg (part :: ·) heq)

/-- If the text leads from every link to a file, the kernel gets from every link to
that file, following at most `limit` links, exactly when every target goes through
directories alone and no chain has more links. -/
theorem all_walk_iff (hs : Sound layout) (hleads : ∀ path target,
    layout path = some (.symlink target) → ∃ n found, Leads layout n path found) (limit : Nat) :
    (∀ path target, layout path = some (.symlink target) →
        ∃ found, (∃ n, Leads layout n path found) ∧ ∃ n ≤ limit, Walk layout [] path found n) ↔
      (∀ path target, layout path = some (.symlink target) → Straight layout path target) ∧
        ∀ n path found, Leads layout n path found → n ≤ limit := by
  constructor
  · intro h
    have hstraight : ∀ path target, layout path = some (.symlink target) →
        Straight layout path target := by
      intro path target hlink front hfront hne
      have hresolve : ∀ path target, layout path = some (.symlink target) →
          ∃ found n, Walk layout [] path found n := fun path target hlink => by
        obtain ⟨found, -, n, -, hwalk⟩ := h path target hlink
        exact ⟨found, n, hwalk⟩
      obtain ⟨dir, name, rfl, hdir, hname⟩ := eq_append_getLast hs hlink
      obtain ⟨found, -, n, -, hwalk⟩ := h _ _ hlink
      rw [walk_from_top_iff hs hdir, walk_follow_iff hname hlink] at hwalk
      obtain ⟨m, -, hwalk⟩ := hwalk
      rw [List.append_nil] at hwalk
      rw [List.dropLast_concat]
      exact straight_of_walk hs hresolve hdir hwalk hfront hne
    refine ⟨hstraight, fun n path found hchain => ?_⟩
    cases hchain with
    | file => exact Nat.zero_le _
    | link hlink hrest =>
        obtain ⟨found', -, m, hm, hwalk⟩ := h _ _ hlink
        have hchain := (Leads.link hlink hrest).walk hs hstraight
        rw [(hwalk.unique hchain).2]
        exact hm
  · rintro ⟨hstraight, hshort⟩ path target hlink
    obtain ⟨n, found, hchain⟩ := hleads path target hlink
    exact ⟨found, ⟨n, hchain⟩, n, hshort _ _ _ hchain, hchain.walk hs hstraight⟩

end Lexical

end CkbSail.PythonStd
