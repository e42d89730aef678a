import CkbSail.DiffTest.Proofs.HonestReplay

/-!
# When the process exits with 0

A run of injected programs passes through all its cases, each on the disk the one
before it left; what the disk refuses stays the same meanwhile.
-/

namespace CkbSail.DiffTest.Main

open CkbSail.Core RustStd CkbRunner SailRunner

/-! ## The disk of a run -/

/-- The second disk comes about from the first when cases are stored. -/
def LaterIn (options : RunOptions) (disk disk' : Disk) : Prop :=
  ∀ directory, options.artifactDir = some directory → disk.Follows directory disk'

theorem LaterIn.refl (options : RunOptions) (disk : Disk) : LaterIn options disk disk :=
  fun directory _ => .refl directory disk

section Cases

variable [StrDebug] {engines : Engines} {options : RunOptions} {environment : Environment}
  {case : TestProgram} {disk disk' : Disk}

theorem LaterIn.runCase (h : LaterIn options disk disk') (engines : Engines)
    (environment : Environment) (case : TestProgram) :
    LaterIn options disk (DiffTest.runCase engines case options environment disk').2 := by
  intro directory hdirectory
  obtain ⟨artifact, -, -, -, hdisk⟩ := runCase_storage engines case environment disk' hdirectory
  rw [hdisk]
  exact follows_storeJson (h directory hdirectory)

theorem LaterIn.stored_iff (h : LaterIn options disk disk') :
    Stored engines case options environment disk' ↔
      Stored engines case options environment disk := by
  unfold Stored
  refine forall_congr' fun directory => forall_congr' fun hdirectory => exists_congr fun path => ?_
  exact storeJson_isOk_of_follows (h directory hdirectory) path

theorem LaterIn.runCases (h : LaterIn options disk disk') (host : CliHost)
    (environment : Environment) (cases : List TestProgram) :
    LaterIn options disk (runCases host options environment cases disk').2 := by
  induction cases generalizing disk' with
  | nil => exact h
  | cons case cases ih => exact ih (h.runCase host.engines environment case)

/-- All rows pass when every case does on the first disk. -/
theorem runCases_passed_iff (host : CliHost) (environment : Environment)
    (cases : List TestProgram) (h : LaterIn options disk disk') :
    (∀ report ∈ (runCases host options environment cases disk').1, report.passed = true) ↔
      ∀ case ∈ cases, Compared host.engines case options true ∧
        Stored host.engines case options environment disk := by
  induction cases generalizing disk' with
  | nil => simp [Main.runCases]
  | cons case cases ih =>
      rw [Main.runCases, List.forall_mem_cons, List.forall_mem_cons,
        ih (h.runCase host.engines environment case), runCase_passed_iff, h.stored_iff]

/-! ## The evidence of a run -/

/-- The file that is opened for a case, if the host opens one, and what is left in it. -/
def evidence (engines : Engines) (options : RunOptions) (environment : Environment) (disk : Disk)
    (case : TestProgram) : Option (Fs.Place × Contents) :=
  options.artifactDir.bind fun directory =>
    (openedFor directory (case.id ++ ".json") disk).map fun place =>
      (place, leftIn disk place (caseArtifact case options environment
        (engines.caseRun case options) directory).toJson)

/-- The path of a case whose evidence is whole. -/
def evidencePath (options : RunOptions) (disk : Disk) (case : TestProgram) : Option String :=
  options.artifactDir.bind fun directory =>
    (openedFor directory (case.id ++ ".json") disk).bind fun place =>
      if (disk.faults.write place).isSome then none
      else some (joinPath directory (case.id ++ ".json"))

/-- The disk when the artifact directory is made. -/
def prepared (options : RunOptions) (disk : Disk) : Disk :=
  options.artifactDir.elim disk fun directory => (disk.createDirAll directory).2

omit [StrDebug] in
theorem prepared_written : (prepared options disk).written = disk.written := by
  rw [prepared]
  cases options.artifactDir with
  | none => rfl
  | some directory => exact Fs.Disk.written_createDirAll

/-- Once a case is stored the artifact directory is there. -/
theorem prepared_runCase : prepared options (runCase engines case options environment disk).2 =
    (runCase engines case options environment disk).2 := by
  cases hdirectory : options.artifactDir with
  | none =>
      rw [prepared, hdirectory]
      rfl
  | some directory =>
      obtain ⟨artifact, -, -, -, hdisk⟩ := runCase_storage engines case environment disk hdirectory
      rw [prepared, hdirectory, hdisk]
      exact createDirAll_storeJson

theorem runCase_disk (h : LaterIn options disk disk') :
    (runCase engines case options environment disk').2 =
      (evidence engines options environment disk case).elim (prepared options disk')
        fun file => (prepared options disk').put file.1 file.2 := by
  cases hdirectory : options.artifactDir with
  | none =>
      rw [evidence, prepared, hdirectory]
      simp [runCase, hdirectory]
  | some directory =>
      have hfollows := h directory hdirectory
      have hdisk : (runCase engines case options environment disk').2 =
          (storeJson directory (case.id ++ ".json") (caseArtifact case options environment
            (engines.caseRun case options) directory).toJson disk').2 := by
        simp only [runCase, hdirectory]
        rfl
      rw [hdisk, evidence, prepared, hdirectory, Option.bind_some, ← openedFor_of_follows hfollows]
      cases hopened : openedFor directory (case.id ++ ".json") disk' with
      | none =>
          obtain ⟨error, hstore⟩ := storeJson_of_refused hopened
          rw [hstore]
          rfl
      | some place =>
          rw [(storeJson_of_opened hopened).1, leftIn_of_follows hfollows]
          rfl

theorem runCase_path (h : LaterIn options disk disk') :
    (runCase engines case options environment disk').1.artifact =
      evidencePath options disk case := by
  cases hdirectory : options.artifactDir with
  | none =>
      rw [evidencePath, hdirectory]
      simp [runCase, hdirectory]
  | some directory =>
      obtain ⟨artifact, -, hartifact, -⟩ :=
        runCase_storage engines case environment disk' hdirectory
      have hfollows := h directory hdirectory
      rw [hartifact, storeJson_toOption, evidencePath, hdirectory, Option.bind_some,
        openedFor_of_follows hfollows, hfollows.faults]

/-- The rows and the disk of a run over cases, of which the host judges each on the disk
`first`. -/
structure LeavesEvidence (engines : Engines) (options : RunOptions) (environment : Environment)
    (cases : List TestProgram) (first before : Disk) (result : List CaseReport × Disk) :
    Prop where
  ids : result.1.map CaseReport.id = cases.map TestProgram.id
  paths : result.1.map CaseReport.artifact = cases.map (evidencePath options first)
  written : result.2.written =
    ((cases.filterMap (evidence engines options environment first)).map Prod.fst).reverse ++
      before.written
  tree : ∀ place, result.2.tree place =
    ((cases.filterMap (evidence engines options environment first)).reverse.lookup place).elim
      ((if cases.isEmpty then before else prepared options before).tree place)
      fun contents => some (.file contents)

theorem LaterIn.leavesEvidence (host : CliHost) (environment : Environment)
    (cases : List TestProgram) (h : LaterIn options disk disk') :
    LeavesEvidence host.engines options environment cases disk disk'
      (Main.runCases host options environment cases disk') := by
  induction cases generalizing disk' with
  | nil => exact ⟨rfl, rfl, rfl, fun _ => rfl⟩
  | cons case cases ih =>
      have hrest := ih (h.runCase host.engines environment case)
      have hdisk := @runCase_disk _ host.engines options environment case disk disk' h
      rw [Main.runCases]
      constructor
      case ids =>
        rw [List.map_cons, List.map_cons, hrest.ids]
        rfl
      case paths => rw [List.map_cons, List.map_cons, hrest.paths, runCase_path h]
      case written =>
        rw [hrest.written, hdisk, List.filterMap_cons]
        cases evidence host.engines options environment disk case with
        | none => simp [prepared_written]
        | some file => simp [Fs.Disk.put, prepared_written]
      case tree =>
        intro place
        rw [hrest.tree place, prepared_runCase, ite_self, hdisk, List.filterMap_cons]
        rcases evidence host.engines options environment disk case with _ | ⟨opened, left⟩
        · rfl
        -- the newest of the later cases, else this one
        dsimp only
        rw [List.reverse_cons, List.lookup_append]
        cases (cases.filterMap (evidence host.engines options environment
            disk)).reverse.lookup place with
        | some contents => rfl
        | none =>
            by_cases hplace : place = opened
            · subst hplace
              simp [Fs.Disk.put]
            · have hne : (place == opened) = false := beq_false_of_ne hplace
              simp [Fs.Disk.put, hplace, List.lookup_cons, hne]

/-- A run leaves one row for each case, in order, with the path of the case unless the host
refuses.  In each file that was opened it leaves what the newest of its cases left there,
and the rest of the disk as it was when the artifact directory was made. -/
theorem runCases_evidence (host : CliHost) (options : RunOptions) (environment : Environment)
    (cases : List TestProgram) (disk : Disk) :
    LeavesEvidence host.engines options environment cases disk disk
      (runCases host options environment cases disk) :=
  (LaterIn.refl options disk).leavesEvidence host environment cases

end Cases

/-! ## The exit code -/

section Exit

variable [StrDebug] (host : CliHost) (arguments : Arguments) (disk : Disk)

/-- Every selected program passes, and so does the mutation matrix if it was asked for;
all evidence can be stored. -/
def InjectedPasses : Prop :=
  ∃ cases, selectCases host.artifacts arguments = .ok cases ∧
    (∀ case ∈ cases, Compared host.engines case (runOptions host arguments) true ∧
      Stored host.engines case (runOptions host arguments) (environmentOf host arguments) disk) ∧
    (arguments.mutate = true →
      (runMutations host.engines cases (runOptions host arguments)).passed = true ∧
        ∀ directory, arguments.artifactDir = some directory →
          ∃ path, (writeMutationSummary directory (environmentOf host arguments) arguments.seed
            (runMutations host.engines cases (runOptions host arguments)) disk).1 = .ok path)

/-- Both engines run every ELF file, and give the same events and matching ends. -/
def ElfsPass : Prop :=
  ∃ files, collectElfs host arguments = .ok files ∧ ∀ elf ∈ files, ∃ ckb sail,
    elfTraces host arguments elf = .ok (ckb, sail) ∧ ckb.events ≠ [] ∧
      ckb.events = sail.events ∧ EndsAgree arguments.policy ckb.traceEnd sail.traceEnd

variable {host arguments disk}

omit [StrDebug] in
theorem report_passed_iff (outcome : Outcome) :
    (outcome.report arguments).summary.passed = true ↔
      (∀ report ∈ outcome.results, report.passed = true) ∧
        ∀ summary, outcome.mutations = some summary → summary.passed = true := by
  have hfailures : outcome.results.countP (fun report => !report.passed) = 0 ↔
      ∀ report ∈ outcome.results, report.passed = true := by
    rw [List.countP_eq_zero]
    simp
  rw [Outcome.report, Bool.and_eq_true, decide_eq_true_eq, hfailures]
  refine and_congr_right fun _ => ?_
  cases outcome.mutations <;> simp

/-- The mutation stage that leads to a pass. -/
theorem mutationStage_passes (host : CliHost) (arguments : Arguments) (cases : List TestProgram)
    (environment : Environment) {disk disk' : Disk}
    (h : LaterIn (runOptions host arguments) disk disk') :
    (∃ mutations path, (mutationStage host arguments cases (runOptions host arguments) environment
        disk').1 = .ok (mutations, path) ∧
          ∀ summary, mutations = some summary → summary.passed = true) ↔
      (arguments.mutate = true →
        (runMutations host.engines cases (runOptions host arguments)).passed = true ∧
          ∀ directory, arguments.artifactDir = some directory →
            ∃ path, (writeMutationSummary directory environment arguments.seed
              (runMutations host.engines cases (runOptions host arguments)) disk).1 =
                .ok path) := by
  rw [mutationStage]
  cases hmutate : arguments.mutate with
  | false => simp
  | true =>
      cases hdirectory : arguments.artifactDir with
      | none => simp
      | some directory =>
          have hstored : ∀ path, (writeMutationSummary directory environment arguments.seed
              (runMutations host.engines cases (runOptions host arguments)) disk').1 = .ok path ↔
                (writeMutationSummary directory environment arguments.seed
                  (runMutations host.engines cases (runOptions host arguments)) disk).1 =
                    .ok path :=
            fun path => storeJson_isOk_of_follows (h directory hdirectory) path
          simp only [if_true, forall_const, Option.some.injEq, forall_eq', ← hstored]
          cases (writeMutationSummary directory environment arguments.seed
            (runMutations host.engines cases (runOptions host arguments)) disk').1 with
          | error error => simp [Except.map]
          | ok path => simp [Except.map]

theorem runInjected_of_stage {cases : List TestProgram}
    (hselect : selectCases host.artifacts arguments = .ok cases)
    {stage : Except Error (Option MutationSummary × Option String)}
    (hstage : (mutationStage host arguments cases (runOptions host arguments)
      (environmentOf host arguments) (runCases host (runOptions host arguments)
        (environmentOf host arguments) cases disk).2).1 = stage) :
    (runInjected host arguments disk).1 =
      (stage.mapError Fault.error).map fun mutations =>
        { mode := if arguments.replay.isSome then "replay" else "corpus"
          results := (runCases host (runOptions host arguments) (environmentOf host arguments)
            cases disk).1.map Report.case
          environment := some (environmentOf host arguments)
          mutations := mutations.1
          mutationArtifact := mutations.2 } := by
  subst hstage
  rw [runInjected, hselect]
  simp only [environmentOf, runOptions]
  split
  · rename_i error disk' hstage
    rw [hstage]
    rfl
  · rename_i mutations path disk' hstage
    rw [hstage]
    rfl

theorem runInjected_passes :
    (∃ outcome, (runInjected host arguments disk).1 = .ok outcome ∧
      (outcome.report arguments).summary.passed = true) ↔ InjectedPasses host arguments disk := by
  rw [InjectedPasses]
  cases hselect : selectCases host.artifacts arguments with
  | error fault => simp [runInjected, hselect]
  | ok cases =>
      have hstart := LaterIn.refl (runOptions host arguments) disk
      have hrows := runCases_passed_iff host (environmentOf host arguments) cases hstart
      have hstage := mutationStage_passes host arguments cases (environmentOf host arguments)
        (hstart.runCases host (environmentOf host arguments) cases)
      simp only [Except.ok.injEq, exists_eq_left', ← hrows, ← hstage]
      cases hmutations : (mutationStage host arguments cases (runOptions host arguments)
          (environmentOf host arguments) (runCases host (runOptions host arguments)
            (environmentOf host arguments) cases disk).2).1 with
      | error error =>
          rw [runInjected_of_stage hselect hmutations]
          simp [Except.mapError, Except.map]
      | ok stage =>
          rw [runInjected_of_stage hselect hmutations]
          simp only [Except.mapError, Except.map, Except.ok.injEq, exists_eq_left',
            report_passed_iff, List.forall_mem_map, Report.passed]
          refine and_congr_right fun _ => ⟨fun h => ⟨stage.1, stage.2, rfl, h⟩, ?_⟩
          rintro ⟨mutations, path, hpair, h⟩
          rwa [hpair]

omit [StrDebug] in
/-- All results of a list satisfy a condition when each item gives one that does. -/
theorem exists_mapM_iff {α β : Type} {f : α → Panics β} {P : β → Prop} (items : List α) :
    (∃ results, items.mapM f = .ok results ∧ ∀ b ∈ results, P b) ↔
      ∀ item ∈ items, ∃ b, f item = .ok b ∧ P b := by
  induction items with
  | nil => simp [pure, Except.pure]
  | cons item items ih =>
      rw [List.forall_mem_cons, ← ih]
      cases hitem : f item with
      | error error => simp [List.mapM_cons, hitem, bind, Except.bind]
      | ok b =>
          cases hrest : items.mapM f with
          | error error => simp [List.mapM_cons, hitem, hrest, bind, Except.bind]
          | ok bs => simp [List.mapM_cons, hitem, hrest, bind, Except.bind, pure, Except.pure]

/-- The row of an ELF file on which both engines agree. -/
theorem runOneElf_passes (elf : String) :
    (∃ report, runOneElf host arguments elf = .ok report ∧ report.passed = true) ↔
      ∃ ckb sail, elfTraces host arguments elf = .ok (ckb, sail) ∧ ckb.events ≠ [] ∧
        ckb.events = sail.events ∧ EndsAgree arguments.policy ckb.traceEnd sail.traceEnd := by
  rw [runOneElf]
  rcases htraces : elfTraces host arguments elf with (error | _) | ⟨ckb, sail⟩
  · simp
  · simp
  · simp [passed_iff, terminalMatches_iff]

theorem runElfs_passes :
    (∃ outcome, runElfs host arguments = .ok outcome ∧
      (outcome.report arguments).summary.passed = true) ↔ ElfsPass host arguments := by
  rw [ElfsPass, runElfs]
  simp only [← runOneElf_passes]
  cases hfiles : collectElfs host arguments with
  | error error => simp
  | ok files =>
      simp only [Except.ok.injEq, exists_eq_left', ← exists_mapM_iff]
      cases hreports : files.mapM (runOneElf host arguments) with
      | error panic => simp
      | ok reports =>
          simp only [Except.ok.injEq, exists_eq_left', report_passed_iff, List.forall_mem_map,
            Report.passed, reduceCtorEq, false_implies, implies_true, and_true]

theorem main_injected_exitCode (hmode : (arguments.corpus || arguments.replay.isSome) = true) :
    (main host arguments disk).exitCode = 0 ↔ InjectedPasses host arguments disk := by
  rw [← runInjected_passes]
  unfold main
  rw [if_pos hmode]
  rcases runInjected host arguments disk with ⟨(error | _) | outcome, disk'⟩
  · simp
  · simp
  · cases hpassed : (outcome.report arguments).summary.passed <;> simp [hpassed]

theorem main_elf_exitCode (hmode : ¬(arguments.corpus || arguments.replay.isSome) = true) :
    (main host arguments disk).exitCode = 0 ↔ ElfsPass host arguments := by
  rw [← runElfs_passes]
  unfold main
  rw [if_neg hmode]
  rcases runElfs host arguments with (error | _) | outcome
  · simp
  · simp
  · cases hpassed : (outcome.report arguments).summary.passed <;> simp [hpassed]

/-- The process exits with 0 exactly when the mode it runs in passes. -/
theorem main_exitCode_eq_zero_iff (host : CliHost) (arguments : Arguments) (disk : Disk) :
    (main host arguments disk).exitCode = 0 ↔
      (arguments.corpus = true ∨ arguments.replay.isSome = true) ∧
          InjectedPasses host arguments disk ∨
        arguments.corpus = false ∧ arguments.replay = none ∧ ElfsPass host arguments := by
  by_cases hmode : (arguments.corpus || arguments.replay.isSome) = true
  · rw [main_injected_exitCode hmode]
    rw [Bool.or_eq_true] at hmode
    constructor
    · exact fun h => Or.inl ⟨hmode, h⟩
    · rintro (⟨-, h⟩ | ⟨hcorpus, hreplay, -⟩)
      · exact h
      · simp [hcorpus, hreplay] at hmode
  · rw [main_elf_exitCode hmode]
    rw [Bool.or_eq_true, not_or, Bool.not_eq_true, Bool.not_eq_true, Option.isSome_eq_false_iff,
      Option.isNone_iff_eq_none] at hmode
    constructor
    · exact fun h => Or.inr ⟨hmode.1, hmode.2, h⟩
    · rintro (⟨hcorpus | hreplay, -⟩ | ⟨-, -, h⟩)
      · simp [hmode.1] at hcorpus
      · simp [hmode.2] at hreplay
      · exact h

end Exit

end CkbSail.DiffTest.Main
