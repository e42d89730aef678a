import CkbSail.Scripts.Proofs.SnapshotCapture
import CkbSail.Scripts.Proofs.SnapshotOverlay

/-!
# Export and restore of a snapshot

Both loops lay the captured files, with the permissions that git keeps.  Before that
`restore` takes out the files of HEAD that were not captured.
-/

namespace CkbSail.Scripts.SourceSnapshot

open PythonStd GitCheckout
open CkbSourceBaseline (modeText)
open FixedInputs (Stage raised raised_eq_ok stage_bind_eq_ok)

/-- The file at a path with the permissions that git keeps. -/
def payloadFile (checkout : Checkout) (path : Path) : WorkNode :=
  match checkout.rows.view path with
  | some (.file mode bytes) => .file (permissions (modeText mode)) bytes
  | _ => .file 0 []

/-- A row of an inventory and the file it was measured at. -/
structure Captured (tools : Tools) (checkout : Checkout) (base : Path) (file : String × FileRow) :
    Prop where
  source : SourceName file.1
  there : ∃ mode bytes, checkout.rows.view (base ++ split file.1) = some (.file mode bytes) ∧
    file.2 = (measure tools file.1 mode bytes).row

section Files

variable {tools : Tools} {checkout : Checkout} {base : Path} {file : String × FileRow}
  {payload rows rows' : WorkRows}

theorem payloadFile_file (checkout : Checkout) (path : Path) :
    ∃ mode bytes, payloadFile checkout path = .file mode bytes := by
  rw [payloadFile]
  split
  · exact ⟨_, _, rfl⟩
  · exact ⟨_, _, rfl⟩

theorem payloadFile_ne (checkout : Checkout) (path : Path) :
    payloadFile checkout path ≠ .directory := by
  obtain ⟨mode, bytes, hfile⟩ := payloadFile_file checkout path
  rw [hfile]
  simp

theorem payloadFile_of_view {path : Path} {mode : Nat} {bytes : List UInt8}
    (h : checkout.rows.view path = some (.file mode bytes)) :
    payloadFile checkout path = .file (permissions (modeText mode)) bytes := by
  rw [payloadFile, h]

theorem target_ne_nil (base : Path) (name : String) : base ++ split name ≠ [] := by
  simp [split_ne_nil]

/-- No link stands on the way to a place where a file can be laid. -/
theorem Ready.not_link {target place : Path} (h : Ready [target] rows) (hplace : place <+: target)
    (link : String) : rows.view place ≠ some (.symlink link) := by
  intro hlink
  by_cases hsame : place = target
  · have hwritable := h.writable target (List.mem_singleton_self _)
    rw [← hsame, hlink] at hwritable
    rcases hwritable with hnone | ⟨_, _, hfile⟩
    · cases hnone
    · cases hfile
  · have henter := h.parents target (List.mem_singleton_self _) place ⟨hplace, hsame⟩
    rw [hlink] at henter
    rcases henter with hnone | hdir
    · cases hnone
    · cases hdir

theorem laid_exportFile (hcaptured : Captured tools checkout base file)
    (h : exportFile tools checkout base file payload = .ok rows') :
    Laid (payloadFile checkout) [base ++ split file.1] payload rows' := by
  obtain ⟨mode, bytes, hview, hrow⟩ := hcaptured.there
  rw [exportFile, stage_bind_eq_ok] at h
  obtain ⟨⟨mode', bytes'⟩, hregular, h⟩ := h
  have hsame := (regular_file hregular).2
  rw [hview] at hsame
  obtain ⟨rfl, rfl⟩ := WorkNode.file.inj (Option.some.inj hsame)
  rw [stage_bind_eq_ok] at h
  obtain ⟨copied, hcopied, h⟩ := h
  rw [stage_bind_eq_ok] at h
  obtain ⟨read, -, h⟩ := h
  rw [stage_bind_eq_ok] at h
  obtain ⟨-, -, h⟩ := h
  obtain rfl := Except.ok.inj h
  rw [hcaptured.source.parts_eq] at hcopied
  refine laid_copyTo (target_ne_nil base file.1) ?_ hcopied
  rw [payloadFile_of_view hview, hrow]
  rfl

theorem exists_exportFile (hclosed : Closed checkout.rows.view)
    (hcaptured : Captured tools checkout base file)
    (hready : Ready [base ++ split file.1] payload) :
    ∃ rows', exportFile tools checkout base file payload = .ok rows' := by
  obtain ⟨mode, bytes, hview, hrow⟩ := hcaptured.there
  obtain ⟨copied, hcopied⟩ := @exists_copyTo tools _ file.2.mode bytes _
    (target_ne_nil base file.1) hready
  have hlaid : Laid (fun _ => .file (permissions file.2.mode) bytes) [base ++ split file.1]
      payload copied := laid_copyTo (target_ne_nil base file.1) rfl hcopied
  have hread : copied.view (base ++ split file.1) =
      some (.file (permissions file.2.mode) bytes) := by
    rw [hlaid.view, if_pos (List.mem_singleton_self _)]
  have hregular : regular checkout.rows base file.1 = .ok (mode, bytes) :=
    (regular_eq_ok hclosed).2 ⟨hcaptured.source, hview⟩
  refine ⟨copied, ?_⟩
  rw [exportFile, stage_bind_eq_ok]
  refine ⟨(mode, bytes), hregular, ?_⟩
  simp only [hcaptured.source.parts_eq]
  rw [stage_bind_eq_ok]
  refine ⟨copied, hcopied, ?_⟩
  rw [stage_bind_eq_ok]
  refine ⟨bytes, by rw [hread]; rfl, ?_⟩
  rw [stage_bind_eq_ok]
  refine ⟨(), raised_eq_ok.2 (PythonStd.require_eq_ok.2 ?_), rfl⟩
  rw [hrow]
  exact decide_eq_true rfl

theorem laid_restoreFile (hcaptured : Captured tools checkout base file)
    (hpayload : payload.view (base ++ split file.1) =
      some (payloadFile checkout (base ++ split file.1)))
    (h : restoreFile tools payload base file rows = .ok rows') :
    Laid (payloadFile checkout) [base ++ split file.1] rows rows' := by
  obtain ⟨mode, bytes, hview, hrow⟩ := hcaptured.there
  rw [restoreFile, stage_bind_eq_ok] at h
  obtain ⟨⟨mode', bytes'⟩, hregular, h⟩ := h
  have hsame := (regular_file hregular).2
  rw [hpayload, payloadFile_of_view hview] at hsame
  obtain ⟨-, rfl⟩ := WorkNode.file.inj (Option.some.inj hsame)
  rw [stage_bind_eq_ok] at h
  obtain ⟨-, -, h⟩ := h
  rw [stage_bind_eq_ok] at h
  obtain ⟨name, hsafe, h⟩ := h
  obtain ⟨rfl, -⟩ := safe_eq_ok.1 (raised_eq_ok.1 hsafe)
  rw [stage_bind_eq_ok] at h
  obtain ⟨-, -, h⟩ := h
  rw [hcaptured.source.parts_eq] at h
  refine laid_copyTo (target_ne_nil base file.1) ?_ h
  rw [payloadFile_of_view hview, hrow]
  rfl

theorem exists_restoreFile (hcaptured : Captured tools checkout base file)
    (hpayload : payload.view (base ++ split file.1) =
      some (payloadFile checkout (base ++ split file.1)))
    (hlinks : ∀ path link, payload.view path ≠ some (.symlink link))
    (hready : Ready [base ++ split file.1] rows) :
    ∃ rows', restoreFile tools payload base file rows = .ok rows' := by
  obtain ⟨mode, bytes, hview, hrow⟩ := hcaptured.there
  have hregular : regular payload base file.1 = .ok (permissions (modeText mode), bytes) :=
    regular_of_file hcaptured.source (fun _ _ _ => hlinks _)
      (by rw [hpayload, payloadFile_of_view hview])
  have hfree : ((split file.1).inits.tail.any fun front =>
      WorkNode.isLink (rows.view (base ++ front))) = false := by
    rw [List.any_eq_false]
    intro front hfront
    have hlink := hready.not_link
      ((List.prefix_append_right_inj base).2 (mem_inits_tail.1 hfront).1)
    rcases hnode : rows.view (base ++ front) with _ | _ | _ | link | _
    all_goals simp [WorkNode.isLink]
    exact hlink link hnode
  obtain ⟨copied, hcopied⟩ := @exists_copyTo tools _ file.2.mode bytes _
    (target_ne_nil base file.1) hready
  refine ⟨copied, ?_⟩
  rw [restoreFile, stage_bind_eq_ok]
  refine ⟨_, hregular, ?_⟩
  dsimp only
  rw [stage_bind_eq_ok]
  refine ⟨(), raised_eq_ok.2 (PythonStd.require_eq_ok.2 (by simp [hrow, measure])), ?_⟩
  rw [stage_bind_eq_ok]
  refine ⟨file.1, raised_eq_ok.2 (safe_eq_ok.2 ⟨rfl, hcaptured.source⟩), ?_⟩
  rw [stage_bind_eq_ok]
  refine ⟨(), raised_eq_ok.2 (PythonStd.require_eq_ok.2 (by rw [hfree]; rfl)), ?_⟩
  rw [hcaptured.source.parts_eq]
  exact hcopied

end Files

/-! ## Files that are taken out -/

section Removal

variable {base : Path} {names : List String} {rows rows' : WorkRows}

theorem overFiles_removeFile (h : overFiles (removeFile base) names rows = .ok rows') :
    (rows.Distinct → rows'.Distinct) ∧
      (∀ name ∈ names, ∃ mode bytes, rows.view (base ++ split name) = some (.file mode bytes)) ∧
      ∀ path, rows'.view path =
        if path ∈ names.map (fun name => base ++ split name) then none else rows.view path := by
  induction names generalizing rows with
  | nil =>
      cases h
      exact ⟨id, by simp, by simp⟩
  | cons name names ih =>
      rw [overFiles, stage_bind_eq_ok] at h
      obtain ⟨next, hnext, h⟩ := h
      rw [removeFile, stage_bind_eq_ok] at hnext
      obtain ⟨found, hregular, hnext⟩ := hnext
      obtain rfl := Except.ok.inj hnext
      obtain ⟨hdistinct, hfiles, hview⟩ := ih h
      refine ⟨fun hrows => hdistinct (hrows.unlink _), ?_, fun path => ?_⟩
      · refine List.forall_mem_cons.2 ⟨⟨_, _, (regular_file hregular).2⟩, fun other hother => ?_⟩
        obtain ⟨mode, bytes, hother⟩ := hfiles other hother
        rw [view_unlink] at hother
        split_ifs at hother
        exact ⟨mode, bytes, hother⟩
      · rw [hview, view_unlink, List.map_cons]
        by_cases hsame : path = base ++ split name
        · simp [hsame]
        · simp [hsame]

theorem exists_removeFile (hnodup : names.Nodup) (hsource : ∀ name ∈ names, SourceName name)
    (hlinks : ∀ path link, rows.view path ≠ some (.symlink link))
    (hfiles : ∀ name ∈ names, ∃ mode bytes, rows.view (base ++ split name) =
      some (.file mode bytes)) : ∃ rows', overFiles (removeFile base) names rows = .ok rows' := by
  induction names generalizing rows with
  | nil => exact ⟨rows, rfl⟩
  | cons name names ih =>
      rw [List.nodup_cons] at hnodup
      rw [List.forall_mem_cons] at hsource hfiles
      obtain ⟨mode, bytes, hfile⟩ := hfiles.1
      have hregular := regular_of_file hsource.1 (fun _ _ _ => hlinks _) hfile
      obtain ⟨last, hlast⟩ := @ih (rows.unlink (base ++ split name)) hnodup.2 hsource.2
        (fun path link => by
          rw [view_unlink]
          split_ifs
          · simp
          · exact hlinks path link)
        (fun other hother => by
          have hne : base ++ split other ≠ base ++ split name := fun hsame =>
            hnodup.1 (split_injective (List.append_cancel_left hsame) ▸ hother)
          rw [view_unlink, if_neg hne]
          exact hfiles.2 other hother)
      refine ⟨last, ?_⟩
      rw [overFiles, removeFile, hregular]
      exact hlast

end Removal

/-! ## Repositories -/

/-- The files at `removed` have been taken out, those at `captured` laid. -/
structure Restored (files : Path → WorkNode) (captured removed : List Path)
    (rows rows' : WorkRows) : Prop where
  distinct : rows.Distinct → rows'.Distinct
  gone : ∀ path ∈ removed, ∃ mode bytes, rows.view path = some (.file mode bytes)
  parents : ∀ target ∈ captured, ∀ place, Above place target →
    Enterable (rows.view place) ∨ place ∈ removed
  free : ∀ target ∈ captured, rows.view target ≠ some .directory
  view : ∀ path, rows'.view path =
    if path ∈ captured then some (files path)
    else if ∃ target ∈ captured, Above path target then some .directory
    else if path ∈ removed then none else rows.view path

section Restored

variable {files : Path → WorkNode} {captured captured' removed removed' : List Path}
  {rows rows' rows'' : WorkRows}

theorem Restored.nil (rows : WorkRows) : Restored files [] [] rows rows :=
  ⟨id, by simp, by simp, by simp, by simp⟩

/-- Directories stay. -/
theorem Restored.directory (h : Restored files captured removed rows rows') {path : Path}
    (hdir : rows.view path = some .directory) : rows'.view path = some .directory := by
  have hcaptured : path ∉ captured := fun hmem => h.free path hmem hdir
  have hremoved : path ∉ removed := by
    intro hmem
    obtain ⟨mode, bytes, hfile⟩ := h.gone path hmem
    rw [hdir] at hfile
    cases hfile
  rw [h.view, if_neg hcaptured, if_neg hremoved, hdir, ite_self]

theorem Restored.append (hfiles : ∀ path, files path ≠ .directory)
    (h : Restored files captured removed rows rows')
    (h' : Restored files captured' removed' rows' rows'')
    (hapart : ∀ path ∈ removed', path ∉ captured ∧ ¬∃ target ∈ captured, Above path target) :
    Restored files (captured ++ captured') (removed ++ removed') rows rows'' := by
  refine ⟨fun hrows => h'.distinct (h.distinct hrows), ?_, ?_, ?_, fun path => ?_⟩
  · intro path hpath
    rcases List.mem_append.1 hpath with hpath | hpath
    · exact h.gone path hpath
    · obtain ⟨mode, bytes, hfile⟩ := h'.gone path hpath
      rw [h.view, if_neg (hapart path hpath).1, if_neg (hapart path hpath).2] at hfile
      split_ifs at hfile
      exact ⟨mode, bytes, hfile⟩
  · intro target htarget place habove
    rcases List.mem_append.1 htarget with htarget | htarget
    · exact (h.parents target htarget place habove).imp_right (List.mem_append_left _)
    · rcases h'.parents target htarget place habove with henter | hremoved
      · rw [h.view] at henter
        split_ifs at henter with hmem hbetween hremoved
        · rcases henter with hnone | hdir
          · cases hnone
          · exact absurd (Option.some.inj hdir) (hfiles place)
        · obtain ⟨other, hother, hplace⟩ := hbetween
          exact (h.parents other hother place hplace).imp_right (List.mem_append_left _)
        · exact Or.inr (List.mem_append_left _ hremoved)
        · exact Or.inl henter
      · exact Or.inr (List.mem_append_right _ hremoved)
  · intro target htarget
    rcases List.mem_append.1 htarget with htarget | htarget
    · exact h.free target htarget
    · exact fun hdir => h'.free target htarget (h.directory hdir)
  · rw [h'.view, h.view]
    by_cases hlater : path ∈ captured'
    · simp [hlater]
    have hapart' := hapart path
    by_cases hfirst : path ∈ captured
    · have hremoved : path ∉ removed' := fun hmem => (hapart' hmem).1 hfirst
      have hnone : ¬∃ target ∈ captured', Above path target := by
        rintro ⟨target, htarget, habove⟩
        rcases h'.parents target htarget path habove with henter | hmem
        · rw [h.view, if_pos hfirst] at henter
          rcases henter with hnone | hdir
          · cases hnone
          · exact hfiles path (Option.some.inj hdir)
        · exact hremoved hmem
      simp [hlater, hfirst, hnone, hremoved]
    simp only [hlater, hfirst, List.mem_append, or_self, if_false]
    by_cases hbelow : ∃ target ∈ captured', Above path target
    · obtain ⟨target, htarget, habove⟩ := hbelow
      rw [if_pos ⟨target, htarget, habove⟩,
        if_pos ⟨target, List.mem_append_right _ htarget, habove⟩]
    · by_cases hbetween : ∃ target ∈ captured, Above path target
      · have hremoved : path ∉ removed' := fun hmem => (hapart' hmem).2 hbetween
        obtain ⟨target, htarget, habove⟩ := hbetween
        rw [if_neg hbelow, if_neg hremoved, if_pos ⟨target, htarget, habove⟩,
          if_pos ⟨target, List.mem_append_left _ htarget, habove⟩]
      · have hneither : ¬∃ target ∈ captured ++ captured', Above path target := by
          rintro ⟨target, htarget, habove⟩
          rcases List.mem_append.1 htarget with htarget | htarget
          · exact hbetween ⟨target, htarget, habove⟩
          · exact hbelow ⟨target, htarget, habove⟩
        rw [if_neg hbelow, if_neg hbetween, if_neg hneither]
        by_cases hmem : path ∈ removed'
        · simp [hmem]
        · simp [hmem]

/-- Laying after taking out. -/
theorem Restored.of_laid {next : WorkRows} (hdistinct : rows.Distinct → next.Distinct)
    (hgone : ∀ path ∈ removed, ∃ mode bytes, rows.view path = some (.file mode bytes))
    (hnext : ∀ path, next.view path = if path ∈ removed then none else rows.view path)
    (h : Laid files captured next rows') : Restored files captured removed rows rows' := by
  refine ⟨fun hrows => h.distinct (hdistinct hrows), hgone, ?_, ?_, fun path => ?_⟩
  · intro target htarget place habove
    have henter := h.parents target htarget place habove
    rw [hnext] at henter
    split_ifs at henter with hremoved
    · exact Or.inr hremoved
    · exact Or.inl henter
  · intro target htarget hdir
    have hfree := h.free target htarget
    have hremoved : target ∉ removed := by
      intro hmem
      obtain ⟨mode, bytes, hfile⟩ := hgone target hmem
      rw [hdir] at hfile
      cases hfile
    rw [hnext, if_neg hremoved] at hfree
    exact hfree hdir
  · rw [h.view, hnext]

end Restored

end CkbSail.Scripts.SourceSnapshot
