import CkbSail.Scripts.Proofs.SnapshotFiles

/-!
# Laying files over a tree

The loops of `export` and `restore` lay files over a tree.  What they leave is known from
the paths of the files alone, and they go through when no file gets in the way of another.
-/

namespace CkbSail.Scripts.SourceSnapshot

open PythonStd GitCheckout
open FixedInputs (Stage raised raised_eq_ok stage_bind_eq_ok)

/-- A place on the way to a path. -/
def Above (place path : Path) : Prop := place <+: path ∧ place ≠ path

instance (place path : Path) : Decidable (Above place path) :=
  inferInstanceAs (Decidable (_ ∧ _))

/-- There is nothing, or a directory. -/
def Enterable (node : Option WorkNode) : Prop := node = none ∨ node = some .directory

/-- There is nothing, or a file that can be written. -/
def Writable (node : Option WorkNode) : Prop :=
  node = none ∨ ∃ mode bytes, node = some (.file mode bytes)

theorem mem_inits_of_dropLast {path : Path} (hne : path ≠ []) (place : Path) :
    place ∈ path.dropLast.inits ↔ Above place path := by
  obtain ⟨front, name, rfl⟩ := (List.eq_nil_or_concat' path).resolve_left hne
  rw [List.dropLast_concat, List.mem_inits, Above, List.prefix_concat_iff]
  constructor
  · intro hplace
    refine ⟨Or.inr hplace, ?_⟩
    rintro rfl
    have hle := hplace.length_le
    rw [List.length_append, List.length_singleton] at hle
    omega
  · rintro ⟨hsame | hplace, hne⟩
    · exact absurd hsame hne
    · exact hplace

/-! ## What is left -/

/-- The files of `files` have been laid at these paths, each in a directory. -/
structure Laid (files : Path → WorkNode) (targets : List Path) (rows rows' : WorkRows) :
    Prop where
  distinct : rows.Distinct → rows'.Distinct
  parents : ∀ target ∈ targets, ∀ place, Above place target → Enterable (rows.view place)
  free : ∀ target ∈ targets, rows.view target ≠ some .directory
  view : ∀ path, rows'.view path =
    if path ∈ targets then some (files path)
    else if ∃ target ∈ targets, Above path target then some .directory else rows.view path

section Laying

variable {α : Type} {files : Path → WorkNode} {targets targets' : List Path}
  {rows rows' rows'' : WorkRows}

theorem Laid.nil (rows : WorkRows) : Laid files [] rows rows := ⟨id, by simp, by simp, by simp⟩

/-- What was laid first stays. -/
theorem Laid.append (hfiles : ∀ path, files path ≠ .directory) (h : Laid files targets rows rows')
    (h' : Laid files targets' rows' rows'') : Laid files (targets ++ targets') rows rows'' := by
  have hnotEnterable : ∀ path ∈ targets, ¬Enterable (rows'.view path) := by
    intro path hpath henter
    rw [h.view, if_pos hpath] at henter
    rcases henter with hnone | hdir
    · cases hnone
    · exact hfiles path (Option.some.inj hdir)
  refine ⟨fun hrows => h'.distinct (h.distinct hrows), ?_, ?_, fun path => ?_⟩
  · intro target htarget place habove
    rcases List.mem_append.1 htarget with htarget | htarget
    · exact h.parents target htarget place habove
    · have henter := h'.parents target htarget place habove
      have hmem : place ∉ targets := fun hmem => hnotEnterable place hmem henter
      rw [h.view, if_neg hmem] at henter
      split_ifs at henter with hbetween
      · obtain ⟨other, hother, hplace⟩ := hbetween
        exact h.parents other hother place hplace
      · exact henter
  · intro target htarget
    rcases List.mem_append.1 htarget with htarget | htarget
    · exact h.free target htarget
    · have hfree := h'.free target htarget
      by_cases hmem : target ∈ targets
      · exact h.free target hmem
      · rw [h.view, if_neg hmem] at hfree
        split_ifs at hfree
        · exact absurd rfl hfree
        · exact hfree
  · rw [h'.view, h.view]
    by_cases hlater : path ∈ targets'
    · simp [hlater]
    · by_cases hfirst : path ∈ targets
      · have hnone : ¬∃ target ∈ targets', Above path target := by
          rintro ⟨target, htarget, habove⟩
          exact hnotEnterable path hfirst (h'.parents target htarget path habove)
        simp [hlater, hfirst, hnone]
      · simp only [hlater, hfirst, List.mem_append, or_self, if_false]
        by_cases hbelow : ∃ target ∈ targets', Above path target
        · obtain ⟨target, htarget, habove⟩ := hbelow
          rw [if_pos ⟨target, htarget, habove⟩,
            if_pos ⟨target, List.mem_append_right _ htarget, habove⟩]
        · rw [if_neg hbelow]
          refine if_congr ⟨?_, ?_⟩ rfl rfl
          · exact fun ⟨target, htarget, habove⟩ =>
              ⟨target, List.mem_append_left _ htarget, habove⟩
          · rintro ⟨target, htarget, habove⟩
            rcases List.mem_append.1 htarget with htarget | htarget
            · exact ⟨target, htarget, habove⟩
            · exact absurd ⟨target, htarget, habove⟩ hbelow

/-- A loop lays what its passes lay. -/
theorem laid_overFiles (hfiles : ∀ path, files path ≠ .directory)
    {body : α → WorkRows → Stage WorkRows} {paths : α → List Path} {items : List α}
    (hbody : ∀ item ∈ items, ∀ rows rows', body item rows = .ok rows' →
      Laid files (paths item) rows rows')
    (h : overFiles body items rows = .ok rows') : Laid files (items.flatMap paths) rows rows' := by
  induction items generalizing rows with
  | nil =>
      cases h
      exact .nil _
  | cons item items ih =>
      rw [overFiles, stage_bind_eq_ok] at h
      obtain ⟨next, hnext, h⟩ := h
      rw [List.forall_mem_cons] at hbody
      rw [List.flatMap_cons]
      exact (hbody.1 _ _ hnext).append hfiles (ih hbody.2 h)

/-! ## When it goes through -/

/-- Files can be laid at these paths. -/
structure Ready (targets : List Path) (rows : WorkRows) : Prop where
  parents : ∀ target ∈ targets, ∀ place, Above place target → Enterable (rows.view place)
  writable : ∀ target ∈ targets, Writable (rows.view target)
  apart : ∀ target ∈ targets, ∀ target' ∈ targets, ¬Above target target'

theorem Ready.sublist (h : Ready targets rows) (hsub : ∀ target ∈ targets', target ∈ targets) :
    Ready targets' rows :=
  ⟨fun target htarget => h.parents target (hsub target htarget),
    fun target htarget => h.writable target (hsub target htarget),
    fun target htarget target' htarget' => h.apart target (hsub target htarget) target'
      (hsub target' htarget')⟩

/-- It can still be done after some have been laid. -/
theorem Ready.after (h : Ready (targets ++ targets') rows)
    (hfiles : ∀ path, ∃ mode bytes, files path = .file mode bytes)
    (hlaid : Laid files targets rows rows') : Ready targets' rows' := by
  have hmem : ∀ target ∈ targets', target ∈ targets ++ targets' :=
    fun target htarget => List.mem_append_right _ htarget
  refine ⟨fun target htarget place habove => ?_, fun target htarget => ?_, fun target htarget
    target' htarget' => h.apart target (hmem target htarget) target' (hmem target' htarget')⟩
  · have hplace : place ∉ targets := fun hplace =>
      h.apart place (List.mem_append_left _ hplace) target (hmem target htarget) habove
    rw [hlaid.view, if_neg hplace]
    split_ifs
    · exact Or.inr rfl
    · exact h.parents target (hmem target htarget) place habove
  · rw [hlaid.view]
    by_cases hlaid' : target ∈ targets
    · obtain ⟨mode, bytes, hfile⟩ := hfiles target
      rw [if_pos hlaid', hfile]
      exact Or.inr ⟨mode, bytes, rfl⟩
    · have habove : ¬∃ other ∈ targets, Above target other := fun ⟨other, hother, habove⟩ =>
        h.apart target (hmem target htarget) other (List.mem_append_left _ hother) habove
      rw [if_neg hlaid', if_neg habove]
      exact h.writable target (hmem target htarget)

theorem exists_overFiles (hfiles : ∀ path, ∃ mode bytes, files path = .file mode bytes)
    {body : α → WorkRows → Stage WorkRows} {paths : α → List Path} {items : List α}
    (hbody : ∀ item ∈ items, ∀ rows rows', body item rows = .ok rows' →
      Laid files (paths item) rows rows')
    (hruns : ∀ item ∈ items, ∀ rows, Ready (paths item) rows → ∃ rows', body item rows = .ok rows')
    (hready : Ready (items.flatMap paths) rows) :
    ∃ rows', overFiles body items rows = .ok rows' := by
  induction items generalizing rows with
  | nil => exact ⟨rows, rfl⟩
  | cons item items ih =>
      rw [List.forall_mem_cons] at hbody hruns
      rw [List.flatMap_cons] at hready
      obtain ⟨next, hnext⟩ := hruns.1 rows
        (hready.sublist fun target htarget => List.mem_append_left _ htarget)
      obtain ⟨last, hlast⟩ := ih hbody.2 hruns.2 (hready.after hfiles (hbody.1 _ _ hnext))
      exact ⟨last, by rw [overFiles, stage_bind_eq_ok]; exact ⟨next, hnext, hlast⟩⟩

end Laying

/-! ## One copy -/

section Copy

variable {tools : Tools} {target : Path} {mode : String} {bytes : List UInt8}
  {files : Path → WorkNode} {rows rows' : WorkRows}

theorem lifted_eq_ok {α : Type} {value : Except Exn α} {a : α} :
    lifted value = .ok a ↔ value = .ok a := by
  cases value <;> simp [lifted]

/-- What is written where a file can be written. -/
theorem copyfile_eq_ok (h : rows.copyfile tools.newMode bytes target = .ok rows') :
    Writable (rows.view target) ∧ ∃ mode, rows' = rows.put target (.file mode bytes) := by
  rw [WorkRows.copyfile] at h
  rcases hnode : rows.view target with _ | _ | ⟨mode, old⟩ | _ | _
  all_goals simp only [hnode, reduceCtorEq, Except.ok.injEq] at h
  · exact ⟨Or.inl rfl, _, h.symm⟩
  · exact ⟨Or.inr ⟨mode, old, rfl⟩, _, h.symm⟩

theorem exists_copyfile (h : Writable (rows.view target)) :
    ∃ rows', rows.copyfile tools.newMode bytes target = .ok rows' := by
  rw [WorkRows.copyfile]
  rcases h with hnode | ⟨mode, old, hnode⟩
  · exact ⟨_, by rw [hnode]⟩
  · exact ⟨_, by rw [hnode]⟩

theorem chmod_put {old new : Nat} {rows rows' : WorkRows}
    (h : (rows.put target (.file old bytes)).chmod target new = .ok rows') :
    rows' = (rows.put target (.file old bytes)).put target (.file new bytes) := by
  rw [WorkRows.chmod, view_put, if_pos rfl] at h
  exact (Except.ok.inj h).symm

theorem laid_copyTo (hne : target ≠ [])
    (hfile : files target = .file (permissions mode) bytes)
    (h : copyTo tools target mode bytes rows = .ok rows') : Laid files [target] rows rows' := by
  rw [copyTo, stage_bind_eq_ok] at h
  obtain ⟨made, hmade, h⟩ := h
  rw [stage_bind_eq_ok] at h
  obtain ⟨copied, hcopied, h⟩ := h
  obtain ⟨hdistinct, hparents, hview⟩ := view_makeParents (lifted_eq_ok.1 hmade)
  obtain ⟨hwritable, old, rfl⟩ := copyfile_eq_ok (lifted_eq_ok.1 hcopied)
  obtain rfl := chmod_put (lifted_eq_ok.1 h)
  have htarget : target ∉ target.dropLast.inits := by
    rw [mem_inits_of_dropLast hne]
    exact fun habove => habove.2 rfl
  rw [hview, if_neg htarget] at hwritable
  refine ⟨fun hrows => ((hdistinct hrows).put _ _).put _ _, ?_, ?_, fun path => ?_⟩
  · intro other hother place habove
    obtain rfl := List.mem_singleton.1 hother
    exact hparents place ((mem_inits_of_dropLast hne place).2 habove)
  · intro other hother
    obtain rfl := List.mem_singleton.1 hother
    rcases hwritable with hnode | ⟨_, _, hnode⟩
    · simp [hnode]
    · simp [hnode]
  · rw [view_put, view_put, hview]
    by_cases hsame : path = target
    · simp [hsame, hfile]
    · simp [hsame, mem_inits_of_dropLast hne]

theorem exists_copyTo (hne : target ≠ []) (hready : Ready [target] rows) :
    ∃ rows', copyTo tools target mode bytes rows = .ok rows' := by
  obtain ⟨made, hmade⟩ := @exists_makeParents rows target.dropLast.inits
    fun place hplace => hready.parents target (List.mem_singleton_self _) place
      ((mem_inits_of_dropLast hne place).1 hplace)
  obtain ⟨-, -, hview⟩ := view_makeParents hmade
  have htarget : target ∉ target.dropLast.inits := by
    rw [mem_inits_of_dropLast hne]
    exact fun habove => habove.2 rfl
  have hwritable : Writable (made.view target) := by
    rw [hview, if_neg htarget]
    exact hready.writable target (List.mem_singleton_self _)
  obtain ⟨copied, hcopied⟩ := @exists_copyfile tools target bytes made hwritable
  obtain ⟨-, old, rfl⟩ := copyfile_eq_ok hcopied
  rw [copyTo, hmade]
  simp only [lifted, bind, Except.bind, hcopied]
  rw [WorkRows.chmod, view_put, if_pos rfl]
  exact ⟨_, rfl⟩

end Copy

end CkbSail.Scripts.SourceSnapshot
