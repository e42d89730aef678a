import CkbSail.Scripts.SailModelTransaction

/-!
# A failed publication restores the old trees

`Recoverable` is what every state before the publishing rename has in common,
whatever failed; from it the handler puts both names back.
-/

namespace CkbSail.Scripts.SailModelTransaction

open PythonStd ProofSupport

/-! ## States of a transaction -/

/-- The arguments of a transaction and what it finds. -/
structure Start where
  host : Host
  source : Path
  destination : Path
  oldSource : Option (List (Path × Node))
  oldDestination : Option (List (Path × Node))

def Start.sourceEntry (start : Start) : Option Entry := start.oldSource.map .directory

def Start.destinationEntry (start : Start) : Option Entry := start.oldDestination.map .directory

/-- The record names the two backup directories. -/
structure Recorded (start : Start) (record : Record) : Prop where
  generation : record.generationBackup = (generationBackup start.host start.source).display
  installation : record.installationBackup =
    (installBackup start.host start.destination).display

/-- Each old tree stands under its own name or in its recorded backup. -/
structure Kept (start : Start) (s : State) : Prop where
  recorded : Recorded start s.vars.record
  source : ∀ entry, start.sourceEntry = some entry →
    s.disk .source = some entry ∨ s.disk .previousSource = some entry
  destination : ∀ entry, start.destinationEntry = some entry →
    s.disk .destination = some entry ∨ s.disk .previousDestination = some entry

section States

variable (start : Start)

/-- What the copy and the adapter leave of a generated tree. -/
def adaptedCopy (generated : Entry) : Option Entry :=
  if (start.host.fault .copy).isSome then start.host.partialCopy else (start.host.adapt generated).1

/-- What stands at the stage, given whether the generated tree was accepted. -/
def stageLeft (rawFiles : Option (List String)) : Option Entry :=
  match rawFiles, start.host.generate.1 with
  | some _, some generated => adaptedCopy start generated
  | _, _ => none

/-- A state from which both names can be put back. -/
structure Recoverable (stage : Option Entry) (s : State) : Prop where
  recorded : Recorded start s.vars.record
  unpublished : s.vars.record.published = false
  destination : Aside start.destinationEntry s.vars.record.oldDestinationSaved (s.disk .destination)
    (s.disk .previousDestination)
  before : s.vars.generationStarted = false →
    Aside start.sourceEntry s.vars.record.oldSourceSaved (s.disk .source) (s.disk .previousSource)
  after : s.vars.generationStarted = true → s.disk .source = start.host.generate.1 ∧
    Aside start.sourceEntry s.vars.record.oldSourceSaved none (s.disk .previousSource)
  failedOutput : s.disk .failedOutput = none
  stage : s.disk .stage = stage

/-- The tree is what the generator and the adapter made without an exception, and
`regular_tree` accepted it. -/
structure Adapted (tree : Entry) (files : List String) : Prop where
  made : ∃ generated rawFiles, start.host.generate = (some generated, none) ∧
    regularTree (start.host.access .source) start.source (some generated) = .ok rawFiles ∧
    start.host.adapt generated = (some tree, none)
  accepted : regularTree (start.host.access .stage)
    (installBackup start.host start.destination ++ ["staged"]) (some tree) =
    .ok files

/-- The adapted tree stands at the destination, and the old trees in their backups. -/
structure Installed (s : State) : Prop where
  recorded : Recorded start s.vars.record
  published : s.vars.record.published = true
  tree : ∃ tree files, Adapted start tree files ∧
    s.disk .destination = some tree ∧ s.vars.record.installedFiles = some files
  generated : s.disk .source = start.host.generate.1
  previousSource : s.disk .previousSource = start.sourceEntry
  previousDestination : s.disk .previousDestination = start.destinationEntry

/-- Both names hold what they held, and the new trees are in the backups. -/
structure Restored (s : State) : Prop where
  recorded : Recorded start s.vars.record
  unpublished : s.vars.record.published = false
  source : s.disk .source = start.sourceEntry
  destination : s.disk .destination = start.destinationEntry
  failedOutput : s.disk .failedOutput = if s.vars.generationStarted then start.host.generate.1 else
    none
  stage : s.disk .stage = stageLeft start s.vars.record.rawFiles

end States

section Kept

variable {start : Start} {stage : Option Entry} {s : State}

theorem Recoverable.kept (h : Recoverable start stage s) : Kept start s := by
  refine ⟨h.recorded, fun entry hentry => ?_, fun entry hentry => h.destination.kept hentry⟩
  cases hstarted : s.vars.generationStarted with
  | false => exact (h.before hstarted).kept hentry
  | true =>
      rcases (h.after hstarted).2.kept hentry with hown | hbackup
      · cases hown
      · exact Or.inr hbackup

theorem Installed.kept (h : Installed start s) : Kept start s :=
  ⟨h.recorded, fun _ hentry => Or.inr (h.previousSource.trans hentry),
    fun _ hentry => Or.inr (h.previousDestination.trans hentry)⟩

end Kept

/-! ## The body -/

section Body

variable {start : Start}

/-- Where a body that raises leaves the trees. -/
def Left (start : Start) (s : State) : Prop :=
  Recoverable start (stageLeft start s.vars.record.rawFiles) s ∨
    Installed start s

/-- The destination has not been touched, and the generator was started or not. -/
structure Unpublished (start : Start)
    (started : Bool) (stage : Option Entry) (rawFiles : Option (List String)) (s : State) :
    Prop where
  recoverable : Recoverable start stage s
  destination : s.vars.record.oldDestinationSaved = false
  started : s.vars.generationStarted = started
  rawFiles : s.vars.record.rawFiles = rawFiles

section Unpublished

variable {started : Bool} {stage : Option Entry} {rawFiles : Option (List String)} {s : State}

theorem Unpublished.destination_eq (h : Unpublished start started stage rawFiles s) :
    s.disk .destination = start.destinationEntry ∧ s.disk .previousDestination = none := by
  have haside := h.recoverable.destination
  rwa [Aside, h.destination, if_neg Bool.false_ne_true] at haside

theorem Unpublished.kept (h : Unpublished start started stage rawFiles s) : Kept start s :=
  h.recoverable.kept

theorem Unpublished.left (h : Unpublished start started stage rawFiles s)
    (hstage : stage = stageLeft start rawFiles) : Left start s := by
  refine Or.inl ?_
  rw [h.rawFiles, ← hstage]
  exact h.recoverable

end Unpublished

theorem eq_none_of_not_pathExists {old : Option (List (Path × Node))}
    (h : Entry.pathExists (old.map .directory) = false) : old.map Entry.directory = none := by
  cases old with
  | none => rfl
  | some contents => cases h

theorem saveOldSource_spec :
    Triple (fun _ => Left start) (Kept start)
      (fun s => Unpublished start false none none s ∧
        s.vars.record.oldSourceSaved = false) (saveOldSource start.host)
      (fun _ s => Unpublished start false none none s ∧
        s.disk .source = none) := by
  have hown : ∀ s : State, Unpublished start false none none s ∧
      s.vars.record.oldSourceSaved = false →
      s.disk .source = start.sourceEntry ∧ s.disk .previousSource = none := by
    rintro s ⟨hs, hsaved⟩
    have haside := hs.recoverable.before hs.started
    rwa [Aside, hsaved, if_neg Bool.false_ne_true] at haside
  refine triple_moveAside (fun s hs => (hown s hs).2) (fun s e hs => hs.1.left rfl)
    (fun s hs => hs.1.kept) (fun s hs habsent => ?_) (fun s hs hpresent => ?_)
    (fun s e hs => hs.1.left rfl) (fun s hs => hs.1.kept)
  · rw [(hown s hs).1] at habsent
    exact ⟨hs.1, (hown s hs).1.trans (eq_none_of_not_pathExists habsent)⟩
  · obtain ⟨hsource, hbackup⟩ := hown s hs
    obtain ⟨hs, hsaved⟩ := hs
    obtain ⟨hdestination, -⟩ := hs.destination_eq
    have hrec := hs.recoverable
    refine ⟨⟨hs.recoverable.recorded, fun entry hentry => Or.inr ?_, fun entry hentry => Or.inl ?_⟩,
      ⟨⟨⟨hrec.recorded.generation, hrec.recorded.installation⟩, hrec.unpublished, ?_, fun _ => ?_,
        fun hstarted => ?_, ?_, ?_⟩, hs.destination,
        hs.started, hs.rawFiles⟩, ?_⟩
    · simpa using hsource.trans hentry
    · simpa using hdestination.trans hentry
    · simpa using hrec.destination
    · rw [Aside, if_pos rfl]
      exact ⟨by simp, by simpa using hsource, by rwa [← hsource]⟩
    · exact absurd (hs.started.symm.trans hstarted) Bool.false_ne_true
    · simpa using hrec.failedOutput
    · simpa using hrec.stage
    · simp

/-- The generator leaves its output at the source, whether it raises or not. -/
theorem runGenerate_spec :
    Triple (fun _ => Left start) (Kept start)
      (fun s => Unpublished start false none none s ∧
        s.disk .source = none) (runGenerate start.host)
      (fun _ s => Unpublished start true none none s ∧
        start.host.generate.2 = none) := by
  have hnext : ∀ s : State, Unpublished start false none none s ∧
      s.disk .source = none →
      Unpublished start true none none
        { disk := Function.update s.disk .source start.host.generate.1
          vars := { s.vars with generationStarted := true } } := by
    rintro s ⟨hs, hsource⟩
    have hrec := hs.recoverable
    have haside := hrec.before hs.started
    rw [hsource] at haside
    refine ⟨⟨hrec.recorded, hrec.unpublished, ?_, fun hstarted => ?_, fun _ => ⟨?_, ?_⟩, ?_, ?_⟩,
      hs.destination,
      rfl, hs.rawFiles⟩
    · simpa using hrec.destination
    · cases hstarted
    · simp
    · simpa using haside
    · simpa using hrec.failedOutput
    · simpa using hrec.stage
  refine .bind (Q := fun _ s => Unpublished start true none none
    { s with disk := Function.update s.disk .source start.host.generate.1 }) (.assign hnext)
    fun _ => ?_
  refine .perform (fun s hs hok => ⟨hs, ?_⟩) (fun s e hs _ => hs.left rfl)
    fun s hs => hs.kept
  cases hraise : start.host.generate.2 with
  | none => rfl
  | some e => simp [leaving, hraise] at hok

/-- The copy and the adapter work on the stage. -/
structure Staged (start : Start) (generated : Entry) (stage : Option Entry) (s : State) : Prop where
  unpublished : ∃ rawFiles, Unpublished start true stage (some rawFiles) s
  generate : start.host.generate = (some generated, none)
  read : ∃ rawFiles,
    regularTree (start.host.access .source) start.source (some generated) = .ok rawFiles

section Staged

variable {generated : Entry} {stage : Option Entry} {s : State}

theorem Staged.kept (h : Staged start generated stage s) : Kept start s :=
  h.unpublished.elim fun _ hs => hs.kept

theorem Staged.left (h : Staged start generated stage s)
    (hstage : stage = adaptedCopy start generated) : Left start s := by
  obtain ⟨rawFiles, hs⟩ := h.unpublished
  refine hs.left ?_
  simp only [stageLeft, h.generate, hstage]

/-- Only the stage changes. -/
theorem Staged.update (h : Staged start generated stage s)
    (stage' : Option Entry) : Staged start generated stage'
      { s with disk := Function.update s.disk .stage stage' } := by
  obtain ⟨rawFiles, hs⟩ := h.unpublished
  have hrec := hs.recoverable
  refine ⟨⟨rawFiles, ⟨hrec.recorded, hrec.unpublished, ?_, fun hstarted => ?_, fun hstarted => ⟨?_,
    ?_⟩, ?_, ?_⟩,
    hs.destination, hs.started, hs.rawFiles⟩, h.generate, h.read⟩
  · simpa using hrec.destination
  · simpa using hrec.before hstarted
  · simpa using (hrec.after hstarted).1
  · simpa using (hrec.after hstarted).2
  · simpa using hrec.failedOutput
  · simp

theorem Staged.source_eq (h : Staged start generated stage s) :
    s.disk .source = some generated := by
  obtain ⟨rawFiles, hs⟩ := h.unpublished
  rw [(hs.recoverable.after hs.started).1, h.generate]

theorem Staged.stage_eq (h : Staged start generated stage s) : s.disk .stage = stage := by
  obtain ⟨rawFiles, hs⟩ := h.unpublished
  exact hs.recoverable.stage

end Staged

theorem copyTree_spec {generated : Entry} :
    Triple (fun _ => Left start) (Kept start)
      (Staged start generated none) (copyTree start.host)
      (fun _ s => Staged start generated (some generated) s ∧
        start.host.fault .copy = none) := by
  have hnext : ∀ s : State, Staged start generated none s →
      Staged start generated (some generated)
        { s with disk := Function.update s.disk .stage (s.disk .source) } := by
    intro s hs
    rw [hs.source_eq]
    exact hs.update (some generated)
  refine .perform (fun s hs hok => ?_) (fun s e hs herror => ?_) fun s hs => ?_
  · cases hfault : start.host.fault .copy with
    | none =>
        exact ⟨hnext s hs, rfl⟩
    | some e => simp [hfault] at hok
  · cases hfault : start.host.fault .copy with
    | none => simp [hfault] at herror
    | some e =>
        exact (hs.update start.host.partialCopy).left (by rw [adaptedCopy, hfault]; rfl)
  · cases hfault : start.host.fault .copy with
    | none => exact (hnext s hs).kept
    | some e => exact (hs.update start.host.partialCopy).kept

/-- The adapter leaves its output at the stage, whether it raises or not. -/
theorem runAdapt_spec {generated : Entry} (hfault : start.host.fault .copy = none) :
    Triple (fun _ => Left start) (Kept start)
      (Staged start generated (some generated)) (runAdapt start.host)
      (fun _ s => Staged start generated (start.host.adapt generated).1 s ∧
        (start.host.adapt generated).2 = none) := by
  have hoperation : ∀ s : State,
      Staged start generated (some generated) s →
      adaptStage start.host s = leaving .stage (start.host.adapt generated) s := by
    intro s hs
    rw [adaptStage, hs.stage_eq]
  have hleft : (start.host.adapt generated).1 = adaptedCopy start generated := by
    rw [adaptedCopy, hfault]
    rfl
  refine .perform (fun s hs hok => ?_) (fun s e hs _ => ?_) fun s hs => ?_
  · rw [hoperation s hs] at hok ⊢
    refine ⟨hs.update (start.host.adapt generated).1, ?_⟩
    cases hraise : (start.host.adapt generated).2 with
    | none => rfl
    | some e => simp [leaving, hraise] at hok
  · rw [hoperation s hs]
    exact (hs.update (start.host.adapt generated).1).left hleft
  · rw [hoperation s hs]
    exact (hs.update (start.host.adapt generated).1).kept

theorem eq_directory_of_regularTree {access : Access} {root : Path} {entry : Option Entry}
    {files : List String} (h : regularTree access root entry = .ok files) :
    ∃ contents, entry = some (.directory contents) := by
  unfold regularTree at h
  split at h
  · exact ⟨_, rfl⟩
  · cases h

/-- The adapted tree waits at the stage. -/
structure Ready (start : Start) (generated tree : Entry)
    (files : List String) (s : State) : Prop where
  staged : Staged start generated (some tree) s
  adapt : start.host.adapt generated = (some tree, none)
  copied : start.host.fault .copy = none
  accepted : regularTree (start.host.access .stage)
    (installBackup start.host start.destination ++ ["staged"]) (some tree) =
    .ok files
  installedFiles : s.vars.record.installedFiles = some files

/-- The destination is free for it. -/
structure Cleared (start : Start) (tree : Entry) (files : List String) (s : State) : Prop where
  recoverable : Recoverable start (some tree) s
  stage : some tree = stageLeft start s.vars.record.rawFiles
  adapted : Adapted start tree files
  installedFiles : s.vars.record.installedFiles = some files
  started : s.vars.generationStarted = true
  destination : s.disk .destination = none
  previousDestination : s.disk .previousDestination = start.destinationEntry

section Publish

variable {generated tree : Entry} {files : List String} {s : State}

theorem Ready.left (h : Ready start generated tree files s) : Left start s :=
  h.staged.left (by rw [adaptedCopy, h.copied, h.adapt]; rfl)

theorem Ready.adapted (h : Ready start generated tree files s) : Adapted start tree files := by
  obtain ⟨rawFiles, hread⟩ := h.staged.read
  exact ⟨⟨generated, rawFiles, h.staged.generate, hread, h.adapt⟩, h.accepted⟩

theorem Cleared.left (h : Cleared start tree files s) : Left start s :=
  Or.inl (h.stage ▸ h.recoverable)

end Publish

theorem saveOldDestination_spec {generated tree : Entry} {files : List String} :
    Triple (fun _ => Left start) (Kept start)
      (Ready start generated tree files) (saveOldDestination start.host)
      (fun _ => Cleared start tree files) := by
  refine triple_moveAside (fun s hs => ?_) (fun s e hs => hs.left) (fun s hs => hs.staged.kept)
    (fun s hs habsent => ?_) (fun s hs hpresent => ?_) (fun s e hs => hs.left)
    (fun s hs => hs.recoverable.kept)
  all_goals
    obtain ⟨rawFiles, hunpublished⟩ := hs.staged.unpublished
    obtain ⟨hdestination, hbackup⟩ := hunpublished.destination_eq
    have hrec := hunpublished.recoverable
    have hstage : some tree = stageLeft start s.vars.record.rawFiles := by
      simp only [hunpublished.rawFiles, stageLeft, hs.staged.generate, adaptedCopy, hs.copied,
        hs.adapt]
      rfl
  · exact hbackup
  · rw [hdestination] at habsent
    have hnone := eq_none_of_not_pathExists habsent
    exact ⟨hrec, hstage, hs.adapted, hs.installedFiles, hunpublished.started,
      hdestination.trans hnone, hbackup.trans hnone.symm⟩
  · refine ⟨⟨hrec.recorded, fun entry hentry => ?_, fun entry hentry => Or.inr ?_⟩,
      ⟨⟨hrec.recorded.generation, hrec.recorded.installation⟩, hrec.unpublished, ?_,
        fun hstarted => ?_, fun hstarted => ⟨?_, ?_⟩, ?_, ?_⟩, hstage,
      hs.adapted, hs.installedFiles, hunpublished.started, ?_, ?_⟩
    · simpa using hrec.kept.source entry hentry
    · simpa using hdestination.trans hentry
    · rw [Aside, if_pos rfl]
      exact ⟨by simp, by simpa using hdestination, by rwa [← hdestination]⟩
    · simpa using hrec.before hstarted
    · simpa using (hrec.after hstarted).1
    · simpa using (hrec.after hstarted).2
    · simpa using hrec.failedOutput
    · simpa using hrec.stage
    · simp
    · simpa using hdestination

theorem publish_spec {tree : Entry} {files : List String} :
    Triple (fun _ => Left start) (Kept start)
      (Cleared start tree files) (publish start.host)
      (fun _ => Installed start) := by
  have hprevious : ∀ s : State, Cleared start tree
      files s → s.disk .previousSource = start.sourceEntry := by
    intro s hs
    have haside := (hs.recoverable.after hs.started).2
    unfold Aside at haside
    split_ifs at haside
    · exact haside.2.1
    · rw [haside.2, haside.1]
  refine .bind (Q := fun _ s => Installed start { s with vars := { s.vars with record :=
      { s.vars.record with published := true, status := "installed" } } })
    (triple_rename (fun s hs => hs.destination) (fun s e hs => hs.left)
      (fun s hs => hs.recoverable.kept) fun s entry hs hentry => ?_) fun _ => .assign fun s hs => hs
  have hentry : entry = tree := Option.some.inj (hentry.symm.trans hs.recoverable.stage)
  refine ⟨⟨⟨hs.recoverable.recorded.generation, hs.recoverable.recorded.installation⟩, rfl, ⟨tree,
    files, hs.adapted, ?_, hs.installedFiles⟩, ?_, ?_, ?_⟩,
    ⟨hs.recoverable.recorded, fun old hold => Or.inr ?_, fun old hold => Or.inr ?_⟩⟩
  · simpa using hs.recoverable.stage
  · simpa using (hs.recoverable.after hs.started).1
  · simpa using hprevious s hs
  · simpa using hs.previousDestination
  · simpa using (hprevious s hs).trans hold
  · simpa using hs.previousDestination.trans hold

/-- Recording what a tree holds does not touch the trees. -/
theorem acceptSource_spec {rawFiles : List String} :
    Triple (fun _ => Left start) (Kept start)
      (fun s => (Unpublished start true none none s ∧
        start.host.generate.2 = none) ∧ regularTree (start.host.access .source) start.source
          (s.disk .source) = .ok rawFiles)
      (setRecord fun record => { record with rawFiles := some rawFiles })
      (fun _ s => ∃ generated,
        Staged start generated none s) := by
  refine .assign fun s hs => ?_
  obtain ⟨⟨hs, hraise⟩, hread⟩ := hs
  have hrec := hs.recoverable
  have hsource : s.disk .source = start.host.generate.1 := (hrec.after hs.started).1
  obtain ⟨contents, hcontents⟩ := eq_directory_of_regularTree hread
  refine ⟨.directory contents, ⟨rawFiles, ?_, hs.destination, hs.started, rfl⟩, ?_, rawFiles, ?_⟩
  · exact ⟨⟨hrec.recorded.generation, hrec.recorded.installation⟩, hrec.unpublished,
      hrec.destination, hrec.before, hrec.after, hrec.failedOutput, hrec.stage⟩
  · exact Prod.ext (hsource.symm.trans hcontents) hraise
  · rw [← hcontents]
    exact hread

theorem acceptStage_spec {generated : Entry} {files : List String} (hcopied : start.host.fault
    .copy = none)
    (hadapted : (start.host.adapt generated).2 = none) :
    Triple (fun _ => Left start) (Kept start)
      (fun s => Staged start generated
          (start.host.adapt generated).1 s ∧
        regularTree (start.host.access .stage) (installBackup start.host start.destination ++
          ["staged"]) (s.disk .stage) =
          .ok files)
      (setRecord fun record => { record with installedFiles := some files })
      (fun _ s => ∃ tree,
        Ready start generated tree files s) := by
  refine .assign fun s hs => ?_
  obtain ⟨hs, hread⟩ := hs
  obtain ⟨rawFiles, hunpublished⟩ := hs.unpublished
  have hrec := hunpublished.recoverable
  obtain ⟨contents, hcontents⟩ := eq_directory_of_regularTree hread
  have hstage : (start.host.adapt generated).1 = some (.directory contents) :=
    hs.stage_eq.symm.trans hcontents
  refine ⟨.directory contents, ⟨⟨rawFiles, ?_, hunpublished.destination, hunpublished.started,
    hunpublished.rawFiles⟩, hs.generate, hs.read⟩, Prod.ext hstage hadapted, hcopied, ?_, rfl⟩
  · exact ⟨⟨hrec.recorded.generation, hrec.recorded.installation⟩, hrec.unpublished,
      hrec.destination, hrec.before, hrec.after, hrec.failedOutput, hcontents⟩
  · rw [← hcontents]
    exact hread

theorem readTree_spec {E : Exn → State → Prop} {A P : State → Prop} {point : Point} {root : Path}
    {slot : Slot} (herror : ∀ s e, P s → E e s) :
    Triple E A P (readTree start.host point root slot)
      (fun files s =>
        P s ∧ regularTree (start.host.access slot) root (s.disk slot) = .ok files) := by
  refine .check (fun s files hs hread => ⟨hs, ?_⟩) fun s e hs _ => herror s e hs
  split at hread
  · cases hread
  · exact hread

/-- From the old trees the body publishes the adapted tree, or stops where both
names can be put back. -/
theorem body_spec :
    Triple (fun _ => Left start) (Kept start)
      (fun s => Unpublished start false none none s ∧
        s.vars.record.oldSourceSaved = false) (body start.host start.source start.destination)
      (fun record s => Installed start s ∧ record = s.vars.record) := by
  refine .bind saveOldSource_spec fun _ => ?_
  refine .bind runGenerate_spec fun _ => ?_
  refine .bind (readTree_spec fun s e hs => hs.1.left rfl) fun rawFiles => ?_
  refine .bind acceptSource_spec fun _ => ?_
  refine .exists_pre fun generated => ?_
  refine .bind copyTree_spec fun _ => ?_
  refine .assume fun hcopied => ?_
  refine .bind (runAdapt_spec hcopied) fun _ => ?_
  refine .assume fun hadapted => ?_
  have hleft : (start.host.adapt generated).1 = adaptedCopy start generated := by
    rw [adaptedCopy, hcopied]
    rfl
  refine .bind (readTree_spec fun s e hs => hs.left hleft) fun files => ?_
  refine .bind (acceptStage_spec hcopied hadapted) fun _ => ?_
  refine .exists_pre fun tree => ?_
  refine .bind (.check (fun s _ hs _ => hs) fun s e hs _ => hs.left) fun _ => ?_
  refine .bind saveOldDestination_spec fun _ => ?_
  refine .bind publish_spec fun _ => ?_
  refine .bind (triple_untouched (fun s e hs => Or.inr hs) fun s hs => hs.kept) fun _ => ?_
  refine .get_bind fun t => ?_
  exact .pure fun s hs => ⟨hs.1, by rw [hs.2]⟩

end Body

/-! ## The handler -/

section Handler

variable {start : Start}

/-- The destination is back, and the source is still to be put back. -/
structure DestinationBack (start : Start) (s : State) : Prop where
  recorded : Recorded start s.vars.record
  unpublished : s.vars.record.published = false
  destination : s.disk .destination = start.destinationEntry
  before : s.vars.generationStarted = false →
    Aside start.sourceEntry s.vars.record.oldSourceSaved (s.disk .source) (s.disk .previousSource)
  after : s.vars.generationStarted = true → s.disk .source = start.host.generate.1 ∧
    Aside start.sourceEntry s.vars.record.oldSourceSaved none (s.disk .previousSource)
  failedOutput : s.disk .failedOutput = none
  stage : s.disk .stage = stageLeft start s.vars.record.rawFiles

/-- The generator's output is in its backup. -/
structure OutputRetained (start : Start) (s : State) : Prop where
  recorded : Recorded start s.vars.record
  unpublished : s.vars.record.published = false
  destination : s.disk .destination = start.destinationEntry
  source : Aside start.sourceEntry s.vars.record.oldSourceSaved (s.disk .source) (s.disk
    .previousSource)
  failedOutput : s.disk .failedOutput = if s.vars.generationStarted then start.host.generate.1 else
    none
  stage : s.disk .stage = stageLeft start s.vars.record.rawFiles

variable {s : State}

theorem DestinationBack.kept (h : DestinationBack start s) : Kept start s := by
  refine ⟨h.recorded, fun entry hentry => ?_, fun entry hentry =>
    Or.inl (h.destination.trans hentry)⟩
  cases hstarted : s.vars.generationStarted with
  | false => exact (h.before hstarted).kept hentry
  | true =>
      rcases (h.after hstarted).2.kept hentry with hown | hbackup
      · cases hown
      · exact Or.inr hbackup

theorem OutputRetained.kept (h : OutputRetained start s) : Kept start s :=
  ⟨h.recorded, fun _ hentry => h.source.kept hentry, fun _ hentry =>
    Or.inl (h.destination.trans hentry)⟩

theorem Restored.kept (h : Restored start s) : Kept start s :=
  ⟨h.recorded, fun _ hentry => Or.inl (h.source.trans hentry), fun _ hentry =>
    Or.inl (h.destination.trans hentry)⟩

theorem restoreDestination_spec {E : Exn → State → Prop} :
    Triple E (Kept start)
      (fun s => Recoverable start (stageLeft start s.vars.record.rawFiles) s)
      restoreDestination
      (fun _ => DestinationBack start) := by
  refine .get_bind fun t => ?_
  refine .ite (fun hsaved => ?_) fun hsaved => ?_
  · have hmoved : ∀ s : State, Recoverable start (stageLeft start s.vars.record.rawFiles) s ∧ t = s
    →
        s.disk .destination = none ∧ s.disk .previousDestination = start.destinationEntry ∧
          start.destinationEntry.isSome := by
      rintro s ⟨hs, rfl⟩
      have haside := hs.destination
      rwa [Aside, (Bool.and_eq_true_iff.1 hsaved).1, if_pos rfl] at haside
    have hback : ∀ s : State, Recoverable start (stageLeft start s.vars.record.rawFiles) s ∧ t = s →
        DestinationBack start
          { s with disk := s.disk.moved .previousDestination .destination } := by
      intro s hs
      obtain ⟨-, hbackup, -⟩ := hmoved s hs
      obtain ⟨hs, -⟩ := hs
      refine ⟨hs.recorded, hs.unpublished, ?_, fun hstarted => ?_, fun hstarted => ⟨?_, ?_⟩, ?_, ?_⟩
      · simpa using hbackup
      · simpa using hs.before hstarted
      · simpa using (hs.after hstarted).1
      · simpa using (hs.after hstarted).2
      · simpa using hs.failedOutput
      · simpa using hs.stage
    refine .bind (triple_recover (fun s hs => ?_) fun s hs => ⟨hback s hs, (hback s hs).kept⟩)
      fun _ => .assign fun s hs => ?_
    · obtain ⟨hfree, hbackup, hsome⟩ := hmoved s hs
      exact ⟨by rwa [hbackup], hfree⟩
    · exact ⟨⟨hs.recorded.generation, hs.recorded.installation⟩, hs.unpublished, hs.destination,
        hs.before, hs.after, hs.failedOutput, hs.stage⟩
  · refine .pure fun s hs => ?_
    obtain ⟨hs, rfl⟩ := hs
    have hdestination : t.disk .destination = start.destinationEntry := by
      have haside := hs.destination
      cases hflag : t.vars.record.oldDestinationSaved with
      | false =>
          rw [Aside, hflag, if_neg Bool.false_ne_true] at haside
          exact haside.1
      | true =>
          rw [Aside, hflag, if_pos rfl] at haside
          rw [hflag, haside.1] at hsaved
          exact absurd rfl hsaved
    exact ⟨hs.recorded, hs.unpublished, hdestination, hs.before, hs.after, hs.failedOutput,
      hs.stage⟩

theorem retainOutput_spec {E : Exn → State → Prop} :
    Triple E (Kept start)
      (DestinationBack start) retainOutput
      (fun _ => OutputRetained start) := by
  refine .get_bind fun t => ?_
  refine .ite (fun hpresent => ?_) fun habsent => ?_
  · rw [Bool.and_eq_true_iff, Entry.pathExists_or_isSymlink] at hpresent
    have hretained : ∀ s : State, DestinationBack start s ∧ t = s → OutputRetained start { s with
      disk := s.disk.moved .source .failedOutput } := by
      rintro s ⟨hs, rfl⟩
      obtain ⟨hsource, haside⟩ := hs.after hpresent.1
      refine ⟨hs.recorded, hs.unpublished, ?_, ?_, ?_, ?_⟩
      · simpa using hs.destination
      · simpa using haside
      · simpa [hpresent.1] using hsource
      · simpa using hs.stage
    refine triple_recover (fun s hs => ?_) fun s hs => ⟨hretained s hs, (hretained s hs).kept⟩
    obtain ⟨hs, rfl⟩ := hs
    exact ⟨hpresent.2, hs.failedOutput⟩
  · refine .pure fun s hs => ?_
    obtain ⟨hs, rfl⟩ := hs
    rw [Bool.and_eq_true_iff, Entry.pathExists_or_isSymlink] at habsent
    cases hstarted : t.vars.generationStarted with
    | false =>
        refine ⟨hs.recorded, hs.unpublished, hs.destination, hs.before hstarted, ?_, hs.stage⟩
        simpa [hstarted] using hs.failedOutput
    | true =>
        obtain ⟨hsource, haside⟩ := hs.after hstarted
        have hnone : t.disk .source = none := by
          cases hentry : t.disk .source with
          | none => rfl
          | some entry => exact absurd ⟨hstarted, by rw [hentry]; rfl⟩ habsent
        refine ⟨hs.recorded, hs.unpublished, hs.destination, by rwa [hnone], ?_, hs.stage⟩
        rw [hs.failedOutput, hstarted, if_pos rfl, ← hsource, hnone]

theorem restoreSource_spec {E : Exn → State → Prop} :
    Triple E (Kept start)
      (OutputRetained start) restoreSource
      (fun _ => Restored start) := by
  refine .get_bind fun t => ?_
  refine .ite (fun hsaved => ?_) fun hsaved => ?_
  · have hmoved : ∀ s : State, OutputRetained start s ∧ t = s →
        s.disk .source = none ∧ s.disk .previousSource = start.sourceEntry ∧
          start.sourceEntry.isSome := by
      rintro s ⟨hs, rfl⟩
      have haside := hs.source
      rwa [Aside, hsaved, if_pos rfl] at haside
    have hback : ∀ s : State, OutputRetained start s ∧ t = s → Restored start
          { s with disk := s.disk.moved .previousSource .source } := by
      intro s hs
      obtain ⟨-, hbackup, -⟩ := hmoved s hs
      obtain ⟨hs, -⟩ := hs
      refine ⟨hs.recorded, hs.unpublished, ?_, ?_, ?_, ?_⟩
      · simpa using hbackup
      · simpa using hs.destination
      · simpa using hs.failedOutput
      · simpa using hs.stage
    refine .bind (triple_recover (fun s hs => ?_) fun s hs => ⟨hback s hs, (hback s hs).kept⟩)
      fun _ => .assign fun s hs => ?_
    · obtain ⟨hfree, hbackup, hsome⟩ := hmoved s hs
      exact ⟨by rwa [hbackup], hfree⟩
    · exact ⟨⟨hs.recorded.generation, hs.recorded.installation⟩, hs.unpublished, hs.source,
        hs.destination, hs.failedOutput, hs.stage⟩
  · refine .pure fun s hs => ?_
    obtain ⟨hs, rfl⟩ := hs
    have haside := hs.source
    rw [Aside, if_neg hsaved] at haside
    exact ⟨hs.recorded, hs.unpublished, haside.1, hs.destination, hs.failedOutput, hs.stage⟩

/-- Where `replaceModel` may raise. -/
def Settled (start : Start) (s : State) : Prop :=
  Restored start s ∨
    Installed start s

theorem Settled.kept (h : Settled start s) : Kept start s :=
  h.elim Restored.kept Installed.kept

theorem rollBack_spec {E : Exn → State → Prop} :
    Triple E (Kept start) (Left start) rollBack
      (fun _ => Settled start) := by
  refine .get_bind fun t => ?_
  refine .ite (fun hunpublished => ?_) fun hpublished => ?_
  · refine .bind (.weaken restoreDestination_spec (fun s hs => ?_) fun _ _ h => h) fun _ =>
      .bind retainOutput_spec fun _ => .weaken restoreSource_spec (fun _ h => h) fun _ _ => Or.inl
    obtain ⟨hs | hs, rfl⟩ := hs
    · exact hs
    · simp [hs.published] at hunpublished
  · refine .pure fun s hs => ?_
    obtain ⟨hs | hs, rfl⟩ := hs
    · simp [hs.unpublished] at hpublished
    · exact Or.inr hs

theorem handler_spec {e : Exn} {Q : Record → State → Prop} :
    Triple (fun _ => Settled start)
      (Kept start) (Left start) (handler start.host e) Q := by
  refine .bind (.assign fun s hs => ?_) fun _ => .bind rollBack_spec fun _ =>
    .bind (triple_untouched (fun s e hs => hs) fun s hs => hs.kept) fun _ => .raise fun s hs => hs
  rcases hs with hs | hs
  · exact Or.inl ⟨⟨hs.recorded.generation, hs.recorded.installation⟩, hs.unpublished,
      hs.destination, hs.before, hs.after, hs.failedOutput, hs.stage⟩
  · exact Or.inr ⟨⟨hs.recorded.generation, hs.recorded.installation⟩, hs.published, hs.tree,
      hs.generated, hs.previousSource, hs.previousDestination⟩

end Handler

/-! ## The transaction -/

section Transaction

variable {start : Start}

/-- The state the transaction starts in. -/
structure Initial (start : Start) (s : State) : Prop where
  unpublished : Unpublished start false none none s
  unsaved : s.vars.record.oldSourceSaved = false

theorem initialState_initial : Initial start (initialState start.host start.source
    start.destination start.oldSource start.oldDestination) := by
  refine ⟨⟨⟨⟨rfl, rfl⟩, rfl, ?_, fun _ => ?_, fun hstarted => ?_, rfl, rfl⟩, rfl, rfl, rfl⟩, rfl⟩
  · exact ⟨rfl, rfl⟩
  · exact ⟨rfl, rfl⟩
  · cases hstarted

theorem Initial.settled {s : State} (h : Initial start s) : Settled start s := by
  obtain ⟨hs, hsaved⟩ := h
  have hrec := hs.recoverable
  have hsource := hrec.before hs.started
  rw [Aside, hsaved, if_neg Bool.false_ne_true] at hsource
  refine Or.inl ⟨hrec.recorded, hrec.unpublished, hsource.1, hs.destination_eq.1, ?_, ?_⟩
  · rw [hs.started, hrec.failedOutput]
    rfl
  · rw [hs.rawFiles, hrec.stage]
    rfl

theorem replaceModel_spec :
    Triple (fun _ => Settled start) (Kept start) (Initial start)
      (replaceModel start.host start.source start.destination)
      (fun record s => Installed start s ∧ record = s.vars.record) := by
  have hcheck : ∀ {α : Type} (test : State → Except Exn α),
      Triple (fun _ => Settled start) (Kept start) (Initial start) (.check test)
        (fun _ => Initial start) :=
    fun _ => .check (fun s _ hs _ => hs) fun s e hs _ => hs.settled
  have huntouched : ∀ fault : Option Exn,
      Triple (fun _ => Settled start) (Kept start) (Initial start) (orFail fault untouched)
        (fun _ => Initial start) :=
    fun _ => triple_untouched (fun s e hs => hs.settled) fun s hs => hs.settled.kept
  have hpaths : Triple (fun _ => Settled start) (Kept start) (Initial start)
      (checkPaths start.host start.source start.destination) (fun _ => Initial start) :=
    .bind (hcheck _) fun _ => .bind (hcheck _) fun _ => .bind (hcheck _) fun _ => hcheck _
  refine .bind hpaths fun _ => ?_
  refine .bind (huntouched (start.host.fault .destinationParent)) fun _ => ?_
  refine .bind (huntouched (start.host.fault .generationBackup)) fun _ => ?_
  refine .bind (huntouched (start.host.fault .install)) fun _ => ?_
  refine .bind (huntouched (start.host.fault .firstSave)) fun _ => ?_
  refine .handle (.weaken body_spec (fun s hs => ⟨hs.unpublished, hs.unsaved⟩) fun _ _ h => h)
    fun e => handler_spec

end Transaction

/-- Whatever the callbacks do and whichever operation fails: before the
publishing rename an exception leaves both names as they were and everything
made since in the backups, from it on the adapted tree stands complete at the
destination, and no step loses an old tree. -/
theorem replaceModel_atomic (host : Host) (source destination : Path)
    (oldSource oldDestination : Option (List (Path × Node))) :
    let start : Start := ⟨host, source, destination, oldSource, oldDestination⟩
    let initial := initialState host source destination oldSource oldDestination
    let run := replaceModel host source destination initial
    (∀ e, run.result = .error e → run.state.vars.record.published = false →
      Restored start run.state) ∧
    (∀ e, run.result = .error e → run.state.vars.record.published = true →
      Installed start run.state) ∧
    (∀ record, run.result = .ok record →
      Installed start run.state ∧ record = run.state.vars.record) ∧
    ∀ s ∈ initial :: run.visited, Kept start s := by
  intro start initial run
  have hinitial : Initial start initial := initialState_initial
  have hrun := replaceModel_spec initial hinitial
  refine ⟨fun e he hunpublished => ?_, fun e he hpublished => ?_, hrun.returned, fun s hs => ?_⟩
  · rcases hrun.raised e he with hrestored | hinstalled
    · exact hrestored
    · exact absurd (hunpublished.symm.trans hinstalled.published) Bool.false_ne_true
  · rcases hrun.raised e he with hrestored | hinstalled
    · exact absurd (hrestored.unpublished.symm.trans hpublished) Bool.false_ne_true
    · exact hinstalled
  · rcases List.mem_cons.1 hs with rfl | hs
    · exact hinitial.settled.kept
    · exact hrun.visited s hs

/-! ## A run that returns -/

/-- Nothing is in the way of replacing two old directories by what is generated, and by
what the adapter makes of a copy. -/
structure Obliging (host : Host) (source destination : Path)
    (oldSource oldDestination raw adapted : List (Path × Node))
    (rawFiles installedFiles : List String) : Prop where
  fault : ∀ point, host.fault point = none
  sourcePath : directoryPath host.paths source (some (.directory oldSource)) = .ok ()
  destinationPath :
    directoryPath host.paths destination (some (.directory oldDestination)) = .ok ()
  separate :
    (source ≠ destination && !destination.isPrefixOf source &&
      !source.isPrefixOf destination) = true
  parent : host.sourceParentIsDir = true
  generate : host.generate = (some (.directory raw), none)
  rawTree : regularTree (host.access .source) source (some (.directory raw)) = .ok rawFiles
  adapt : host.adapt (.directory raw) = (some (.directory adapted), none)
  adaptedTree : regularTree (host.access .stage) (installBackup host destination ++ ["staged"])
    (some (.directory adapted)) = .ok installedFiles

/-- Both new trees are in place, and both old ones in the backups. -/
structure Replaced (oldSource oldDestination raw adapted : List (Path × Node)) (s : State) :
    Prop where
  source : s.disk .source = some (.directory raw)
  destination : s.disk .destination = some (.directory adapted)
  previousSource : s.disk .previousSource = some (.directory oldSource)
  previousDestination : s.disk .previousDestination = some (.directory oldDestination)

/-- The state once both new trees are made: the old source is in its backup, and the
adapted copy waits at the stage. -/
def State.prepared (s : State) (raw adapted : List (Path × Node))
    (rawFiles installedFiles : List String) : State :=
  let generated := (((s.move .source .previousSource).set fun vars =>
    { vars with record.oldSourceSaved := true }).set fun vars =>
    { vars with generationStarted := true }).put .source (.directory raw)
  let copied := (generated.set fun vars => { vars with record.rawFiles := some rawFiles }).put
    .stage (.directory raw)
  (copied.put .stage (.directory adapted)).set fun vars =>
    { vars with record.installedFiles := some installedFiles }

/-- The state once the staged tree has replaced the old destination. -/
def State.replaced (s : State) : State :=
  ((((s.move .destination .previousDestination).set fun vars =>
    { vars with record.oldDestinationSaved := true }).move .stage .destination).set fun vars =>
    { vars with record.published := true, record.status := "installed" })

section Returns

variable {host : Host} {source destination : Path}
  {oldSource oldDestination raw adapted : List (Path × Node)}
  {rawFiles installedFiles : List String} {s : State}
  (h : Obliging host source destination oldSource oldDestination raw adapted rawFiles
    installedFiles)
include h

theorem checkPaths_returns (hsource : s.disk .source = some (.directory oldSource))
    (hdestination : s.disk .destination = some (.directory oldDestination)) :
    Returns (checkPaths host source destination) s () s := by
  have hsourcePath : directoryPath host.paths source (s.disk .source) = .ok () := by
    rw [hsource]
    exact h.sourcePath
  have hdestinationPath : directoryPath host.paths destination (s.disk .destination) = .ok () := by
    rw [hdestination]
    exact h.destinationPath
  refine .bind (.check hsourcePath) (.bind (.check hdestinationPath) (.bind
    (.check (a := ()) ?_) (.check ?_)))
  · exact require_eq_ok.2 h.separate
  · exact require_eq_ok.2 h.parent

theorem readTree_returns {point : Point} {root : Path} {slot : Slot} {entry : Option Entry}
    {files : List String} (hentry : s.disk slot = entry)
    (hfiles : regularTree (host.access slot) root entry = .ok files) :
    Returns (readTree host point root slot) s files s := by
  refine .check ?_
  rw [h.fault, hentry]
  exact hfiles

theorem runGenerate_returns (s : State) :
    Returns (runGenerate host) s ()
      ((s.set fun vars => { vars with generationStarted := true }).put .source
        (.directory raw)) := by
  refine .bind (returns_setVars _ _) (.perform ?_)
  rw [h.generate]
  rfl

theorem copyTree_returns (hsource : s.disk .source = some (.directory raw)) :
    Returns (copyTree host) s () (s.put .stage (.directory raw)) := by
  refine .perform ?_
  rw [h.fault, hsource]
  rfl

theorem runAdapt_returns (hstage : s.disk .stage = some (.directory raw)) :
    Returns (runAdapt host) s () (s.put .stage (.directory adapted)) := by
  refine .perform ?_
  rw [adaptStage, hstage]
  simp only [leaving, h.adapt]
  rfl

theorem saveOldDestination_returns (hold : s.disk .destination = some (.directory oldDestination))
    (hfree : s.disk .previousDestination = none) :
    Returns (saveOldDestination host) s ()
      ((s.move .destination .previousDestination).set fun vars =>
        { vars with record := { vars.record with oldDestinationSaved := true } }) :=
  returns_moveAside (h.fault _) (h.fault _) _ hold rfl hfree

theorem publish_returns (hstage : s.disk .stage = some (.directory adapted))
    (hfree : s.disk .destination = none) :
    Returns (publish host) s ()
      ((s.move .stage .destination).set fun vars =>
        { vars with record := { vars.record with published := true, status := "installed" } }) :=
  .bind (returns_orFail (h.fault _) (renameSlot_of_free hstage hfree)) (returns_setVars _ _)

theorem body_returns (hsource : s.disk .source = some (.directory oldSource))
    (hdestination : s.disk .destination = some (.directory oldDestination))
    (hfree : s.disk .previousSource = none) (hfree' : s.disk .previousDestination = none) :
    ∃ t, Returns (body host source destination) s t.vars.record t ∧
      t.vars.record.status = "installed" ∧
      Replaced oldSource oldDestination raw adapted t := by
  refine ⟨s.prepared raw adapted rawFiles installedFiles |>.replaced, ?_, rfl, ?_⟩
  · refine .bind (returns_moveAside (h.fault _) (h.fault _) _ hsource rfl hfree) ?_
    refine .bind (runGenerate_returns h _) ?_
    refine .bind (readTree_returns h (by simp) h.rawTree) ?_
    refine .bind (returns_setVars _ _) (.bind (copyTree_returns h (by simp)) ?_)
    refine .bind (runAdapt_returns h (by simp)) ?_
    refine .bind (readTree_returns h (by simp) h.adaptedTree) ?_
    refine .bind (returns_setVars _ _) ?_
    refine .bind (.check (by simpa [hdestination] using h.destinationPath)) ?_
    refine .bind (saveOldDestination_returns h (by simp [hdestination]) (by simp [hfree'])) ?_
    refine .bind (publish_returns h (by simp) (by simp)) ?_
    refine .bind (returns_untouched (h.fault _) _) ?_
    exact .bind (.get _) (.pure _ _)
  · constructor <;> simp [State.prepared, State.replaced, hsource, hdestination]

/-- On an obliging host two old directories are replaced: the transaction returns, with
the new trees in place and the old ones in the backups. -/
theorem replaceModel_returns :
    ∃ record t, Returns (replaceModel host source destination)
        (initialState host source destination (some oldSource) (some oldDestination)) record t ∧
      record.status = "installed" ∧ Replaced oldSource oldDestination raw adapted t := by
  obtain ⟨t, hbody, hinstalled⟩ := body_returns h
    (s := initialState host source destination (some oldSource) (some oldDestination)) rfl rfl rfl
    rfl
  refine ⟨t.vars.record, t, ?_, hinstalled⟩
  refine .bind (checkPaths_returns h rfl rfl) ?_
  refine .bind (returns_untouched (h.fault _) _) (.bind (returns_untouched (h.fault _) _) ?_)
  refine .bind (returns_untouched (h.fault _) _) (.bind (returns_untouched (h.fault _) _) ?_)
  exact .handle _ hbody

end Returns

/-- The trees of one file that a run replaces and makes. -/
def oneFile (name : String) (bytes : List UInt8) : List (Path × Node) :=
  [([name], .file 1 bytes)]

/-- A host whose adapter writes one more byte. -/
def plainHost : Host where
  paths := ⟨id, ["root"]⟩
  access := fun _ => .full
  sourceParentIsDir := true
  generationSuffix := "a1b2c3d4"
  installSuffix := "e5f6a7b8"
  generate := (some (.directory (oneFile "riscv.v" [1])), none)
  adapt := fun _ => (some (.directory (oneFile "riscv.v" [1, 2])), none)
  partialCopy := none
  fault := fun _ => none

theorem plainHost_obliging : Obliging plainHost ["work", "generated"] ["work", "model"]
    (oneFile "riscv.v" [0]) (oneFile "riscv.v" [0]) (oneFile "riscv.v" [1])
    (oneFile "riscv.v" [1, 2]) ["riscv.v"] ["riscv.v"] where
  fault _ := rfl
  sourcePath := by decide +kernel
  destinationPath := by decide +kernel
  separate := by decide +kernel
  parent := rfl
  generate := rfl
  rawTree := by decide +kernel
  adapt := rfl
  adaptedTree := by decide +kernel

end CkbSail.Scripts.SailModelTransaction
