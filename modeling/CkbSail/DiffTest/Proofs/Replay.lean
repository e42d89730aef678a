import CkbSail.DiffTest.Replay
import CkbSail.DiffTest.Proofs.PassAccepted
import CkbSail.ProofSupport.SplitOn

/-!
# Where a replay stores its evidence

The name of an artifact is the id of its case.  It is a name of the artifact directory
exactly if it holds no slash; `Path::join` takes any other id as a path.  A link that
stands under the name is followed.
-/

namespace CkbSail.DiffTest

open CkbSail.Core RustStd

open Fs (components)

/-! ## Entries of a directory -/

def Absolute (path : String) : Prop := ['/'] <+: path.toList

/-- The path is that of an entry of the directory. -/
structure DirectlyInside (directory name path : String) : Prop where
  names : components path.toList = components directory.toList ++ [name.toList]
  absolute : Absolute path ↔ Absolute directory

section Entries

variable {directory name path : String}

theorem components_append (left right : List Char) :
    components (left ++ '/' :: right) = components left ++ components right := by
  rw [components, List.splitOn_append_cons_self, List.filter_append]
  rfl

theorem components_of_notMem {name : List Char} (hne : name ≠ []) (hslash : '/' ∉ name) :
    components name = [name] := by
  rw [components, List.splitOn_eq_singleton hslash]
  simp [hne]

theorem slash_notMem_of_mem_components {path name : List Char} (h : name ∈ components path) :
    '/' ∉ name :=
  ProofSupport.notMem_of_mem_splitOn (List.mem_filter.1 h).1

theorem endsWith_slash_iff : directory.endsWith "/" = true ↔ ['/'] <:+ directory.toList := by
  rw [String.endsWith, String.Slice.endsWith_string_iff, String.copy_toSlice]
  rfl

theorem absolute_append (h : directory.toList ≠ []) (rest : List Char) :
    ['/'] <+: directory.toList ++ rest ↔ Absolute directory := by
  obtain ⟨c, cs, hcs⟩ := List.exists_cons_of_ne_nil h
  rw [Absolute, hcs, List.cons_append, List.cons_prefix_cons, List.cons_prefix_cons]
  simp

theorem joinPath_directlyInside (directory : String) (hne : name.toList ≠ [])
    (hslash : '/' ∉ name.toList) : DirectlyInside directory name (joinPath directory name) := by
  have hrelative : ¬Absolute name := fun h => hslash (h.subset List.mem_cons_self)
  have hstart : name.startsWith "/" = false := by
    rw [String.startsWith_string_eq_false_iff]
    exact hrelative
  rw [joinPath, hstart, Bool.false_or]
  split_ifs with hempty hends
  · have hdirectory : directory = "" := of_decide_eq_true hempty
    subst hdirectory
    exact ⟨components_of_notMem hne hslash, iff_of_false hrelative (by simp [Absolute])⟩
  · -- the directory already ends with a slash
    obtain ⟨above, habove⟩ := endsWith_slash_iff.1 hends
    have hpath : (directory ++ name).toList = above ++ '/' :: name.toList := by
      rw [String.toList_append, ← habove, List.append_assoc, List.singleton_append]
    refine ⟨?_, ?_⟩
    · rw [hpath, ← habove, components_append, components_append, components_of_notMem hne hslash]
      simp [components]
    · rw [Absolute, String.toList_append]
      exact absolute_append (by simp [← habove]) _
  · have hdirectory : directory.toList ≠ [] := by
      intro hnil
      exact hempty (decide_eq_true (String.toList_eq_nil_iff.1 hnil))
    have hpath : (directory ++ "/" ++ name).toList = directory.toList ++ '/' :: name.toList := by
      rw [String.toList_append, String.toList_append, List.append_assoc]
      rfl
    refine ⟨?_, ?_⟩
    · rw [hpath, components_append, components_of_notMem hne hslash]
    · rw [Absolute, hpath]
      exact absolute_append hdirectory _

/-- A name that holds a slash is no name of an entry. -/
theorem exists_directlyInside_iff (hne : name.toList ≠ []) :
    (∃ path, DirectlyInside directory name path) ↔ '/' ∉ name.toList := by
  constructor
  · rintro ⟨path, h⟩
    have hname : name.toList ∈ components path.toList := by
      rw [h.names]
      exact List.mem_append_right _ List.mem_cons_self
    exact slash_notMem_of_mem_components hname
  · exact fun hslash => ⟨_, joinPath_directlyInside directory hne hslash⟩

theorem joinPath_eq_append (directory name : String) :
    ∃ front, (joinPath directory name).toList = front ++ name.toList := by
  rw [joinPath]
  split_ifs
  · exact ⟨[], rfl⟩
  · exact ⟨_, String.toList_append⟩
  · exact ⟨_, String.toList_append⟩

/-- The kernel walks to an entry through the names of the directory. -/
theorem names_joinPath (directory : String) (hne : name.toList ≠ []) (hslash : '/' ∉ name.toList) :
    Fs.names (joinPath directory name).toList = components directory.toList ++ [name.toList] := by
  obtain ⟨front, hfront⟩ := joinPath_eq_append directory name
  have hlast : (joinPath directory name).toList.getLast? ≠ some '/' := by
    rw [hfront, List.getLast?_append_of_ne_nil _ hne]
    exact fun h => hslash (List.mem_of_getLast? h)
  rw [Fs.names, if_neg hlast, List.append_nil, (joinPath_directlyInside directory hne hslash).names]

theorem head?_eq_slash_iff : path.toList.head? = some '/' ↔ Absolute path := by
  rw [Absolute]
  cases path.toList with
  | nil => simp
  | cons c cs => simp [List.cons_prefix_cons, eq_comm]

theorem DirectlyInside.start_eq (h : DirectlyInside directory name path) (dir : Fs.Place) :
    Fs.start dir path.toList = Fs.start dir directory.toList := by
  have habsolute := head?_eq_slash_iff.trans (h.absolute.trans head?_eq_slash_iff.symm)
  exact if_congr habsolute rfl rfl

end Entries

/-! ## The artifact of a case -/

/-- The evidence of a case is stored as an entry of the directory under the id, no other
file is opened, and for an id that no entry can have an error is reported and no file
opened. -/
structure StoredInside (directory : String) (case : TestProgram) (before : Disk)
    (result : CaseReport × Disk) : Prop where
  inside : ∀ path, result.1.artifact = some path →
    DirectlyInside directory (case.id ++ ".json") path ∧
      ∃ (artifact : Artifact) (folder : Fs.Place), artifact.case = case ∧
        result.2.leads directory = .ok folder ∧
        Stores before result.2 path artifact.toJson (folder ++ [(case.id ++ ".json").toList])
  contained : result.2.written = before.written ∨ ∃ folder, result.2.leads directory = .ok folder ∧
    result.2.written = (folder ++ [(case.id ++ ".json").toList]) :: before.written
  refused : (∀ path, ¬DirectlyInside directory (case.id ++ ".json") path) →
    result.1.artifact = none ∧ result.1.error.isSome ∧ result.2.written = before.written

/-- The host makes no such directory, or does not open the path. -/
def HostRefuses (disk : Disk) (directory : String) (case : TestProgram) : Prop :=
  openedFor directory (case.id ++ ".json") disk = none

/-- A symbolic link stands in the directory under the id of the case. -/
def LinkThere (disk : Disk) (directory : String) (case : TestProgram) : Prop :=
  ∃ folder target, (disk.createDirAll directory).2.leads directory = .ok folder ∧
    (disk.createDirAll directory).2.tree (folder ++ [(case.id ++ ".json").toList]) =
      some (.symlink target)

section Cases

variable {engines : Engines} {case : TestProgram} {options : RunOptions}
  {environment : Environment} {disk : Disk} {directory : String} {place : Fs.Place}

theorem artifactName_ne_nil : (case.id ++ ".json").toList ≠ [] := by
  rw [String.toList_append]
  exact List.append_ne_nil_of_right_ne_nil _ (by decide)

theorem slash_mem_artifactName : '/' ∈ (case.id ++ ".json").toList ↔ '/' ∈ case.id.toList := by
  rw [String.toList_append, List.mem_append, or_iff_left (by decide)]

/-- The name of an artifact is an ordinary one. -/
theorem artifactName_ne {dots : List Char} (hdots : dots.length ≤ 4) :
    (case.id ++ ".json").toList ≠ dots := by
  intro h
  have hlength := congrArg List.length h
  rw [String.toList_append, List.length_append, show ".json".toList.length = 5 from rfl] at hlength
  omega

/-- Where the directory leads, and what is opened for an id without a slash. -/
theorem opened_inside (hslash : '/' ∉ case.id.toList)
    (hopened : openedFor directory (case.id ++ ".json") disk = some place) :
    ∃ folder, (disk.createDirAll directory).2.leads directory = .ok folder ∧
      (place = folder ++ [(case.id ++ ".json").toList] ↔ ¬LinkThere disk directory case) := by
  obtain ⟨hmake, hopen⟩ := openedFor_eq_some.1 hopened
  obtain ⟨-, hleads, hwritable⟩ := Fs.Disk.creates_eq_ok.1 hopen
  obtain ⟨folder, left, hfolder⟩ := Fs.Disk.createDirAll_leads hmake
  have hdirectory : (disk.createDirAll directory).2.leads directory = .ok folder := by
    rw [Fs.Disk.leads_eq_ok, Fs.Disk.workingDirectory_createDirAll, Fs.names]
    refine ⟨left, ?_⟩
    rw [hfolder]
    split_ifs
    · rw [Fs.resolve_dot, Fs.resolve_nil]
    · rw [Fs.resolve_nil]
  refine ⟨folder, hdirectory, ?_⟩
  have hname : '/' ∉ (case.id ++ ".json").toList := fun h => hslash (slash_mem_artifactName.1 h)
  constructor
  · rintro rfl ⟨folder', target, hleads', hlink⟩
    obtain rfl := Except.ok.inj (hdirectory.symm.trans hleads')
    rw [hlink] at hwritable
    rcases hwritable with hnone | ⟨contents, hfile⟩
    · cases hnone
    · cases hfile
  · intro hfree
    obtain ⟨left', hwalk⟩ := Fs.Disk.leads_eq_ok.1 hleads
    rw [names_joinPath directory artifactName_ne_nil hname, Fs.Disk.workingDirectory_createDirAll,
      (joinPath_directlyInside directory artifactName_ne_nil hname).start_eq, hfolder,
      Fs.resolve_last (artifactName_ne (by decide)) (artifactName_ne (by decide))
        fun target htarget => hfree ⟨folder, target, hdirectory, htarget⟩] at hwalk
    exact (Prod.mk.inj (Except.ok.inj hwalk)).1.symm

variable [StrDebug]

/-- A report names what `storeJson` returns. -/
theorem runCase_storage (engines : Engines) (case : TestProgram) (environment : Environment)
    (disk : Disk) (hdirectory : options.artifactDir = some directory) :
    ∃ artifact : Artifact, artifact.case = case ∧
      let stored := storeJson directory (case.id ++ ".json") artifact.toJson disk
      (runCase engines case options environment disk).1.artifact = stored.1.toOption ∧
        (stored.1.isOk = false →
          (runCase engines case options environment disk).1.error.isSome = true) ∧
        (runCase engines case options environment disk).2 = stored.2 := by
  refine ⟨caseArtifact case options environment (engines.caseRun case options) directory, rfl, ?_⟩
  have hwrite : (caseArtifact case options environment (engines.caseRun case options)
      directory).write directory disk = storeJson directory (case.id ++ ".json")
        (caseArtifact case options environment (engines.caseRun case options)
          directory).toJson disk := rfl
  rw [← hwrite, Engines.caseRun]
  simp only [runCase, hdirectory]
  generalize Artifact.write _ directory disk = result
  obtain ⟨stored, disk'⟩ := result
  cases stored with
  | error failure =>
      refine ⟨rfl, fun _ => ?_, trivial⟩
      dsimp only
      generalize (caseRun _ _ _).error = error
      cases error <;> rfl
  | ok path =>
      refine ⟨rfl, fun h => ?_, trivial⟩
      cases h

/-- Where the host refuses, an error is reported and no file opened. -/
theorem runCase_of_refused (engines : Engines) (environment : Environment)
    (hdirectory : options.artifactDir = some directory) (h : HostRefuses disk directory case) :
    (runCase engines case options environment disk).1.artifact = none ∧
      (runCase engines case options environment disk).1.error.isSome = true ∧
      (runCase engines case options environment disk).2.written = disk.written := by
  obtain ⟨artifact, -, hartifact, herror, hdisk⟩ :=
    runCase_storage engines case environment disk hdirectory
  obtain ⟨error, hstore⟩ := @storeJson_of_refused directory _ artifact.toJson disk h
  rw [hstore] at hartifact herror hdisk
  refine ⟨hartifact, herror rfl, ?_⟩
  rw [hdisk]
  exact Fs.Disk.written_createDirAll

/-- Where it opens a file, this is the only one. -/
theorem runCase_of_opened (engines : Engines) (environment : Environment)
    (hdirectory : options.artifactDir = some directory)
    (h : openedFor directory (case.id ++ ".json") disk = some place) :
    (runCase engines case options environment disk).2.written = place :: disk.written ∧
      (∀ path, (runCase engines case options environment disk).2.leads directory = .ok path ↔
        (disk.createDirAll directory).2.leads directory = .ok path) := by
  obtain ⟨artifact, -, -, -, hdisk⟩ := runCase_storage engines case environment disk hdirectory
  have hstore := (@storeJson_of_opened directory _ artifact.toJson disk place h).1
  obtain ⟨-, hopen⟩ := openedFor_eq_some.1 h
  rw [hdisk, hstore]
  refine ⟨congrArg (place :: ·) Fs.Disk.written_createDirAll, fun path => ?_⟩
  exact Fs.Disk.leads_put (Fs.Disk.creates_eq_ok.1 hopen).2.2

/-- An id with a slash is stored outside unless the host refuses the path. -/
theorem not_storedInside (hdirectory : options.artifactDir = some directory)
    (hslash : '/' ∈ case.id.toList) (h : ¬HostRefuses disk directory case) :
    ¬StoredInside directory case disk (runCase engines case options environment disk) := by
  intro hinside
  have himpossible : ∀ path, ¬DirectlyInside directory (case.id ++ ".json") path := by
    rw [← not_exists, exists_directlyInside_iff artifactName_ne_nil, not_not]
    exact slash_mem_artifactName.2 hslash
  obtain ⟨place, hopened⟩ := Option.ne_none_iff_exists'.1 h
  have hwritten := (hinside.refused himpossible).2.2
  rw [(runCase_of_opened engines environment hdirectory hopened).1] at hwritten
  exact List.cons_ne_self _ _ hwritten

/-- A link under the id leads out of the directory. -/
theorem not_storedInside_of_link (hdirectory : options.artifactDir = some directory)
    (hslash : '/' ∉ case.id.toList) (h : ¬HostRefuses disk directory case)
    (hlink : LinkThere disk directory case) :
    ¬StoredInside directory case disk (runCase engines case options environment disk) := by
  intro hinside
  obtain ⟨place, hopened⟩ := Option.ne_none_iff_exists'.1 h
  obtain ⟨folder, hfolder, hplace⟩ := opened_inside hslash hopened
  obtain ⟨hwritten, hleads⟩ := runCase_of_opened engines environment hdirectory hopened
  rcases hinside.contained with hnone | ⟨folder', hfolder', hentry⟩
  · rw [hwritten] at hnone
    exact List.cons_ne_self _ _ hnone
  · rw [hleads, hfolder] at hfolder'
    obtain rfl := Except.ok.inj hfolder'
    rw [hwritten] at hentry
    exact hplace.1 (List.cons.inj hentry).1 hlink

theorem storedInside_of_plain (hdirectory : options.artifactDir = some directory)
    (hslash : '/' ∉ case.id.toList) (hlink : ¬LinkThere disk directory case)
    (h : ¬HostRefuses disk directory case) :
    StoredInside directory case disk (runCase engines case options environment disk) := by
  have hinside : DirectlyInside directory (case.id ++ ".json") _ :=
    joinPath_directlyInside directory artifactName_ne_nil fun hmem =>
      hslash (slash_mem_artifactName.1 hmem)
  obtain ⟨place, hopened⟩ := Option.ne_none_iff_exists'.1 h
  obtain ⟨folder, hfolder, hplace⟩ := opened_inside hslash hopened
  obtain rfl := hplace.2 hlink
  obtain ⟨hwritten, hleads⟩ := runCase_of_opened engines environment hdirectory hopened
  refine ⟨fun path hpath => ?_, Or.inr ⟨folder, (hleads folder).2 hfolder, hwritten⟩,
    fun himpossible => absurd hinside (himpossible _)⟩
  obtain ⟨artifact, hcase, hartifact, -, hdisk⟩ :=
    runCase_storage engines case environment disk hdirectory
  rw [hpath] at hartifact
  have hok : (storeJson directory (case.id ++ ".json") artifact.toJson disk).1 = .ok path := by
    cases hstored : (storeJson directory (case.id ++ ".json") artifact.toJson disk).1 with
    | error e =>
        rw [hstored] at hartifact
        cases hartifact
    | ok path' =>
        rw [hstored] at hartifact
        rw [Option.some.inj hartifact]
  obtain ⟨place, hstores⟩ := stores_of_ok hok
  rw [← hdisk] at hstores
  have hsame := hstores.written
  rw [hwritten] at hsame
  obtain rfl := (List.cons.inj hsame).1
  rw [(storeJson_eq_ok.1 hok).1]
  exact ⟨hinside, artifact, folder, hcase, (hleads folder).2 hfolder,
    (storeJson_eq_ok.1 hok).1 ▸ hstores⟩

theorem storedInside_iff (hdirectory : options.artifactDir = some directory) :
    StoredInside directory case disk (runCase engines case options environment disk) ↔
      HostRefuses disk directory case ∨
        '/' ∉ case.id.toList ∧ ¬LinkThere disk directory case := by
  by_cases hrefuses : HostRefuses disk directory case
  · have hnone := runCase_of_refused engines environment hdirectory hrefuses
    refine iff_of_true ⟨fun path hpath => ?_, Or.inl hnone.2.2, fun _ => hnone⟩ (Or.inl hrefuses)
    rw [hnone.1] at hpath
    cases hpath
  · rw [or_iff_right hrefuses]
    constructor
    · intro h
      have hslash : '/' ∉ case.id.toList :=
        fun hslash => not_storedInside hdirectory hslash hrefuses h
      exact ⟨hslash, fun hlink => not_storedInside_of_link hdirectory hslash hrefuses hlink h⟩
    · exact fun h => storedInside_of_plain hdirectory h.1 h.2 hrefuses

end Cases

/-! ## Replays -/

theorem program_eq {artifact : Artifact} {case : TestProgram} (h : artifact.program = .ok case) :
    case = artifact.case := by
  rw [Artifact.program] at h
  cases hwords : readWords 0 artifact.instructionsHex with
  | error error =>
      rw [hwords] at h
      cases h
  | ok instructions =>
      simp only [hwords] at h
      split_ifs at h with _ hsame
      subst hsame
      exact (Except.ok.inj h).symm

theorem selectReplay_eq_ok {source : ArtifactSource} {path : String} {cases : List TestProgram}
    (h : selectReplay source path = .ok cases) :
    ∃ artifact, Artifact.read source path = .ok artifact ∧ cases = [artifact.case] := by
  rw [selectReplay] at h
  cases hread : Artifact.read source path with
  | error error =>
      rw [hread] at h
      cases h
  | ok artifact =>
      simp only [hread] at h
      cases hprogram : artifact.program with
      | error error =>
          rw [hprogram] at h
          cases h
      | ok case =>
          rw [hprogram] at h
          exact ⟨artifact, rfl, by rw [← Except.ok.inj h, program_eq hprogram]⟩

/-- The case of a replay is stored as an entry of the artifact directory, or refused,
exactly if the host refuses the path, or its id holds no slash and no link stands there. -/
theorem replay_storedInside_iff [StrDebug] (source : ArtifactSource) (path : String)
    (engines : Engines) (options : RunOptions) (environment : Environment) (disk : Disk)
    {cases : List TestProgram} {case : TestProgram} {directory : String}
    (hcases : selectReplay source path = .ok cases) (hcase : case ∈ cases)
    (hdirectory : options.artifactDir = some directory) :
    ∃ artifact, Artifact.read source path = .ok artifact ∧ case = artifact.case ∧
      (StoredInside directory artifact.case disk
          (runCase engines case options environment disk) ↔
        HostRefuses disk directory artifact.case ∨
          '/' ∉ artifact.case.id.toList ∧ ¬LinkThere disk directory artifact.case) := by
  obtain ⟨artifact, hread, rfl⟩ := selectReplay_eq_ok hcases
  obtain rfl := List.mem_singleton.1 hcase
  exact ⟨artifact, hread, rfl, storedInside_iff hdirectory⟩

/-! ## An id that leaves the directory -/

def escapedCase : TestProgram := { addiCase with id := "../escaped" }

def escapedArtifact : Artifact :=
  caseArtifact escapedCase addiOptions addiEnvironment ⟨none, none, none, [], none⟩ "artifacts"

/-- The JSON of the artifact. -/
def escapedText : String :=
  "\x7b\"schema_version\":3,\"case\":\x7b\"id\":\"../escaped\"," ++
  "\"description\":\"add a constant twice\",\"family\":\"ADDI\",\"focus_step\":1," ++
  "\"seed\":null,\"instructions\":[5275795,5275795]\x7d," ++
  "\"instructions_hex\":[\"0x00508093\",\"0x00508093\"],\"environment\":\x7b" ++
  "\"ckb_vm_commit\":null,\"ckb_vm_source_baseline\":null,\"sail_riscv_commit\":null," ++
  "\"sail_model_version\":null,\"sail_bin\":\"sail_riscv_sim\"," ++
  "\"sail_config\":\"ckb_vm_config.json\",\"sail_config_sha256\":null,\"ckb_vm_isa_bits\":1," ++
  "\"ckb_vm_isa\":\"IMC+B\",\"ckb_vm_version\":2,\"rustc\":null,\"cargo\":null," ++
  "\"sail_compiler\":null\x7d,\"initial_state\":\x7b\"pc\":2147483648," ++
  "\"integer_registers\":\"x0..x31 = 0\"\x7d,\"passed\":false," ++
  "\"classification\":\"runner_error\",\"comparison\":null,\"error\":null," ++
  "\"ckb_trace\":null,\"sail_trace\":null,\"sail_raw_packets\":[],\"replay\":\x7b" ++
  "\"from_artifact\":\"cargo run -p ckb-vm-sail-diff -- --replay " ++
  "artifacts/../escaped.json\",\"from_corpus\":\"cargo run -p ckb-vm-sail-diff -- --corpus " ++
  "--case ../escaped --seed 0\"\x7d\x7d"

def escapedSource : ArtifactSource where
  readToString := fun _ => .ok escapedText
  fromStr := fun text =>
    if text = escapedText then .ok escapedArtifact else .error "expected value at line 1 column 1"

theorem selectReplay_escaped : selectReplay escapedSource "escaped.json" = .ok [escapedCase] := by
  rw [selectReplay, Artifact.read, escapedSource]
  simp only [if_pos]
  rfl

theorem replay_storedInside_iff_escaped : ∃ artifact,
    Artifact.read escapedSource "escaped.json" = .ok artifact ∧ escapedCase = artifact.case ∧
      (StoredInside "artifacts" artifact.case emptyDisk
          (@runCase plainStrDebug addiEngines escapedCase addiOptions addiEnvironment emptyDisk) ↔
        HostRefuses emptyDisk "artifacts" artifact.case ∨
          '/' ∉ artifact.case.id.toList ∧ ¬LinkThere emptyDisk "artifacts" artifact.case) :=
  @replay_storedInside_iff plainStrDebug escapedSource "escaped.json" addiEngines addiOptions
    addiEnvironment emptyDisk _ _ _ selectReplay_escaped List.mem_cons_self rfl

theorem escaped_opened : openedFor "artifacts" (escapedCase.id ++ ".json") emptyDisk =
    some ["escaped.json".toList] := by
  decide +kernel

/-- A replay that stores its evidence beside the artifact directory. -/
theorem escaped_not_storedInside :
    selectReplay escapedSource "escaped.json" = .ok [escapedCase] ∧
      (@runCase plainStrDebug addiEngines escapedCase addiOptions addiEnvironment
        emptyDisk).2.written = [["escaped.json".toList]] ∧
      ¬StoredInside "artifacts" escapedCase emptyDisk
        (@runCase plainStrDebug addiEngines escapedCase addiOptions addiEnvironment emptyDisk) := by
  have hrefuses : ¬HostRefuses emptyDisk "artifacts" escapedCase := by
    rw [HostRefuses, escaped_opened]
    exact Option.some_ne_none _
  refine ⟨selectReplay_escaped, ?_, ?_⟩
  · exact (@runCase_of_opened escapedCase addiOptions emptyDisk "artifacts" _ plainStrDebug
      addiEngines addiEnvironment rfl escaped_opened).1
  · exact @not_storedInside addiEngines escapedCase addiOptions addiEnvironment emptyDisk
      "artifacts" plainStrDebug rfl (by decide +kernel) hrefuses

end CkbSail.DiffTest
