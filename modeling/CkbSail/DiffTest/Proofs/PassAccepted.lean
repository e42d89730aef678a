import CkbSail.DiffTest.Proofs.Storage
import CkbSail.DiffTest.Proofs.CleanEvidence
import CkbSail.DiffTest.Proofs.PassSoundness

/-!
# Every stored pass is accepted

The validator rechecks facts the producer never checks itself: they follow from
what a passing comparison says about the two runs behind it.
-/

namespace CkbSail.DiffTest

open CkbSail.Core RustStd PythonStd ProofSupport CkbRunner SailRunner Scripts.RuntimeEvidence

/-! ## The events of a clean pass -/

theorem normalizeInstructionWidth_of_zero_upper {word : UInt32}
    (h : word &&& 0b11 ≠ 0b11 → word >>> 16 = 0) : normalizeInstructionWidth word = word := by
  by_cases hwide : word &&& 0b11 = 0b11
  · exact normalizeInstructionWidth_of_wide hwide
  · have hupper := congrArg UInt32.toNat (h hwide)
    simp only [UInt32.toNat_shiftRight, Nat.shiftRight_eq_div_pow] at hupper
    have hlow : word.toNat < 2 ^ 16 := Nat.lt_of_div_eq_zero (by omega) hupper
    rw [normalizeInstructionWidth_of_compressed hwide, ← UInt32.toNat_inj, UInt32.toNat_and]
    exact (Nat.and_two_pow_sub_one_eq_mod word.toNat 16).trans (Nat.mod_eq_of_lt hlow)

/-- A state delta names registers of x1..x31 in order. -/
theorem validWrites_delta (before after : Fin 32 → UInt64) :
    ValidWrites ((RegisterObservers.delta architectural before after).map toWrite) where
  sorted := by
    have hdelta : ((RegisterObservers.delta architectural before after).map Prod.fst).Sublist
        architectural := RegisterObservers.delta_names_sublist before after
    have hsublist := hdelta.map Fin.val
    have hsorted : (architectural.map Fin.val).Pairwise (· < ·) := by decide
    have hnames : ((RegisterObservers.delta architectural before after).map toWrite).map
        (fun write => write.index.toNat) =
        ((RegisterObservers.delta architectural before after).map Prod.fst).map Fin.val := by
      simp [Function.comp_def]
    rw [hnames]
    exact hsorted.sublist hsublist
  range := by
    intro write hwrite
    obtain ⟨⟨i, value⟩, hmem, rfl⟩ := List.mem_map.1 hwrite
    have hne := mem_architectural.1 (RegisterObservers.mem_delta.1 hmem).1
    have hval : i.val ≠ 0 := fun h => hne (Fin.ext h)
    have hindex : (toWrite (i, value)).index.toNat = i.val := toWrite_index (i, value)
    have hlt := i.isLt
    rw [hindex]
    omega

/-- Events that are clean one by one and chained are clean from the first. -/
theorem cleanFrom_of_getElem {program : List UInt32} {i : Nat} {pc : UInt64}
    {events : List CommitEvent}
    (hclean : ∀ k event, events[k]? = some event →
      CleanEvent program (i + k) event.pcBefore event)
    (hentry : ∀ event, events[0]? = some event → event.pcBefore = pc)
    (hchain : ∀ k event next, events[k]? = some event → events[k + 1]? = some next →
      next.pcBefore = event.pcAfter) : CleanFrom program i pc events := by
  induction events generalizing i pc with
  | nil => trivial
  | cons event events ih =>
      refine ⟨?_, ih (fun k next hnext => ?_) (fun next hnext => ?_) fun k e next he hnext => ?_⟩
      · have hevent := hclean 0 event rfl
        rwa [hentry event rfl, Nat.add_zero] at hevent
      · have hevent := hclean (k + 1) next hnext
        rwa [show i + (k + 1) = i + 1 + k by omega] at hevent
      · exact hchain 0 event next rfl hnext
      · exact hchain (k + 1) e next he hnext

/-- The events of a run of the CKB side are clean, given where the first one starts. -/
theorem cleanFrom_of_stateAfter {vm : CkbVm} {config : InjectionConfig} {program : List UInt32}
    (hfits : program.length < 2 ^ 61)
    (hcompressed : ∀ word ∈ program, word &&& 0b11 ≠ 0b11 → word >>> 16 = 0)
    {state : RunState vm} (h : CkbRunner.StateAfter vm program config program.length state)
    (hentry : ∀ event, state.events[0]? = some event → event.pcBefore = INJECTION_ENTRY) :
    CleanFrom program 0 INJECTION_ENTRY state.events := by
  obtain ⟨hlength, hpasses⟩ := committed_of_stateAfter h
  have hpass : ∀ {k event}, state.events[k]? = some event →
      ∃ (hk : k < program.length) (s t : RunState vm) (stored : vm.Machine),
        CkbRunner.StateAfter vm program config k s ∧
          CkbRunner.StateAfter vm program config (k + 1) t ∧
          event = committed vm k program[k] s.machine stored t.machine := by
    intro k event hevent
    have hk : k < program.length := by
      rw [← hlength]
      exact (List.getElem?_eq_some_iff.1 hevent).1
    obtain ⟨_, s, t, stored, hs, ht, -, hget⟩ := hpasses k hk
    exact ⟨hk, s, t, stored, hs, ht, Option.some.inj (hevent.symm.trans hget)⟩
  refine cleanFrom_of_getElem (fun k event hevent => ?_) hentry
    fun k event next hevent hnext => ?_
  · obtain ⟨hk, s, t, stored, -, -, rfl⟩ := hpass hevent
    refine ⟨?_, ?_, rfl, rfl, rfl, rfl, ?_⟩
    · rw [committed, Nat.zero_add, UInt64.toNat_ofNat']
      omega
    · rw [Nat.zero_add, List.getElem?_eq_getElem hk, committed,
        normalizeInstructionWidth_of_zero_upper (hcompressed _ (List.getElem_mem hk))]
    · rw [committed, changedRegisters_eq]
      exact validWrites_delta _ _
  · obtain ⟨-, s, t, stored, -, ht, rfl⟩ := hpass hevent
    obtain ⟨-, s', t', stored', hs', -, rfl⟩ := hpass hnext
    rw [committed, committed, ht.unique hs']

/-! ## What a stored pass comes from -/

/-- A comparison that passed was made of two runs that succeeded. -/
theorem caseRun_passed [StrDebug] {policy : TerminalPolicy} {ckb : Except Error ExecutionTrace}
    {sail : Except Error DiiOutcome}
    (h : (caseRun policy ckb sail).comparison.any CompareResult.passed = true) :
    ∃ trace outcome, ckb = .ok trace ∧ sail = .ok outcome ∧
      (CompareResult.compareWithPolicy trace outcome.trace policy).passed = true := by
  cases ckb with
  | error error => simp [caseRun] at h
  | ok trace =>
      cases sail with
      | error error => simp [caseRun] at h
      | ok outcome => exact ⟨trace, outcome, rfl, rfl, by simpa [caseRun] using h⟩

section Stored

variable [StrDebug] {engines : Engines} {case : TestProgram} {options : RunOptions}
  {environment : Environment} {disk : Disk}

/-- What the two engines leave behind for one case. -/
def Engines.caseRun (engines : Engines) (case : TestProgram) (options : RunOptions) : CaseRun :=
  DiffTest.caseRun options.terminalPolicy
    ((engines.runCkb case options).map InjectionOutcome.trace) (engines.runSail case options)

/-- The row of a pass whose artifact was stored. -/
def storedReport (case : TestProgram) (run : CaseRun) (path : String) : CaseReport where
  id := case.id
  description := case.description
  family := case.family
  focusStep := case.focusStep
  instructions := case.instructions.length
  passed := true
  classification := classify run.comparison run.error
  comparison := run.comparison
  error := run.error
  artifact := some path

/-- A stored pass: its comparison passed, and its artifact is on the disk. -/
theorem runCase_stored {path : String}
    (hpassed : (runCase engines case options environment disk).1.passed = true)
    (hpath : (runCase engines case options environment disk).1.artifact = some path) :
    ∃ directory place,
      (engines.caseRun case options).comparison.any CompareResult.passed = true ∧
      (runCase engines case options environment disk).1 =
        storedReport case (engines.caseRun case options) path ∧
      Stores disk (runCase engines case options environment disk).2 path
        (caseArtifact case options environment (engines.caseRun case options)
          directory).toJson place := by
  have hrun : DiffTest.caseRun options.terminalPolicy
      ((engines.runCkb case options).map InjectionOutcome.trace) (engines.runSail case options) =
      engines.caseRun case options := rfl
  cases hdir : options.artifactDir with
  | none => simp [runCase, hdir] at hpath
  | some directory =>
      cases hwrite : ((caseArtifact case options environment (engines.caseRun case options)
          directory).write directory disk).1 with
      | error failure => simp [runCase, hdir, hrun, hwrite] at hpath
      | ok stored =>
          obtain rfl : stored = path := by simpa [runCase, hdir, hrun, hwrite] using hpath
          have hany : (engines.caseRun case options).comparison.any CompareResult.passed =
              true := by simpa [runCase, hdir, hrun, hwrite] using hpassed
          obtain ⟨place, hstores⟩ := stores_of_ok hwrite
          refine ⟨directory, place, hany, ?_, ?_⟩
          · cases herror : (engines.caseRun case options).error <;>
              simp [runCase, storedReport, hdir, hrun, hwrite, hany, herror]
          · simp only [runCase, hdir, hrun]
            exact hstores

/-! ## Acceptance -/

omit [StrDebug] in
/-- The checks before the raw packets, on an artifact whose two traces are one
clean trace of the program. -/
theorem checkRecorded_of_clean {report : CaseReport} {artifact : Artifact}
    {trace : ExecutionTrace} (hpass : CleanPass report artifact)
    (hversion : artifact.schemaVersion = 3)
    (hhex : artifact.instructionsHex = hexWords artifact.case.instructions)
    (hinitial : artifact.initialState = InitialState.reset)
    (hfocus : artifact.case.focusStep < artifact.case.instructions.length)
    (hfamily : MatchesFamily artifact.case.family
      (artifact.case.instructions[artifact.case.focusStep]))
    (hckb : artifact.ckbTrace = some trace) (hsail : artifact.sailTrace = some trace)
    (hlength : trace.events.length = artifact.case.instructions.length)
    (hend : trace.traceEnd = .injectionComplete)
    (hclean : CleanFrom artifact.case.instructions 0 INJECTION_ENTRY trace.events) :
    checkRecorded report.toJson artifact.toJson artifact.environment.toJson =
      .ok (wordsJson artifact.case.instructions) := by
  have hprogram := checkProgram_artifact hversion hhex hinitial hfocus hfamily
  have hreport := checkReport_of_clean hpass
  have hckb' : artifact.toJson.getItem "ckb_trace" = .ok trace.toJson := by
    rw [show trace.toJson = optionJson ExecutionTrace.toJson artifact.ckbTrace by
      rw [hckb]; rfl]
    rfl
  have hsail' : artifact.toJson.getItem "sail_trace" = .ok trace.toJson := by
    rw [show trace.toJson = optionJson ExecutionTrace.toJson artifact.sailTrace by
      rw [hsail]; rfl]
    rfl
  have htrace := checkTrace_toJson hlength hend hclean
  let _ := plainStrDebug
  have hequal : (CompareResult.compare trace trace).passed = true := by
    refine (passed_iff trace trace .exact).2 ⟨?_, rfl, by simp [terminalMatches]⟩
    intro hnil
    rw [hnil, List.length_nil] at hlength
    omega
  have hread := readsTrace_toJson trace
  have hdifference := firstDifference_of_passed hread hread hequal
  simp only [checkRecorded, bind, Except.bind, hprogram, hreport, hckb', hsail', htrace,
    hdifference, require, decide_true, if_true, pure, Except.pure]

/-- What a passing comparison says of the two runs behind it, as the validator
reads it: one clean trace, and one raw packet more than the program has words. -/
theorem clean_of_passed {ckb : InjectionOutcome} {sail : DiiOutcome}
    (hpolicy : options.terminalPolicy = .exact)
    (hcompressed : ∀ word ∈ case.instructions, word &&& 0b11 ≠ 0b11 → word >>> 16 = 0)
    (hckb : engines.runCkb case options = .ok ckb) (hsail : engines.runSail case options = .ok sail)
    (hpass : (CompareResult.compareWithPolicy ckb.trace sail.trace
      options.terminalPolicy).passed = true) :
    sail.trace = ckb.trace ∧ ckb.trace.traceEnd = .injectionComplete ∧
      ckb.trace.events.length = case.instructions.length ∧
      CleanFrom case.instructions 0 INJECTION_ENTRY ckb.trace.events ∧
      sail.rawPackets.length = case.instructions.length + 1 := by
  obtain ⟨stream, session', hdrive, hraw⟩ := SailRunner.runProgram_ok hsail
  rw [hpolicy] at hpass
  obtain ⟨s, t, hs, ht, rfl, hfinal, htrace, hevents⟩ := complete_of_passed hckb hdrive hpass
  obtain ⟨-, packet, hanswered, -⟩ := DiiSession.endOfTrace_ok_iff.1 hfinal
  obtain ⟨bytes, -, hlast⟩ := hanswered.rawPackets
  have hentry : ∀ event, s.events[0]? = some event → event.pcBefore = INJECTION_ENTRY := by
    intro event hevent
    rw [hevents] at hevent
    exact DiiSession.entry_of_stateAfter ht hevent
  refine ⟨?_, rfl, (committed_of_stateAfter hs).1,
    cleanFrom_of_stateAfter case.fits hcompressed hs hentry, ?_⟩
  · rw [htrace, ← hevents]
    rfl
  · rw [hraw, hlast, List.length_append, (DiiSession.decoded_of_stateAfter ht).length]
    rfl

omit [StrDebug] in
theorem replayCommands_ne_empty (case : TestProgram) (directory : String) (seed : UInt64) :
    (replayCommands case directory seed).fromArtifact ≠ "" := by
  unfold replayCommands
  intro h
  have hchars := congrArg String.toList h
  rw [show String.toList "" = [] from rfl] at hchars
  simp only [toString, String.toList_append, List.append_eq_nil_iff,
    String.toList_eq_nil_iff] at hchars
  exact absurd hchars.1 (by decide)

omit [StrDebug] in
/-- The checks of the raw packets and of the replay command. -/
theorem checkCase_of_recorded {report : CaseReport} {artifact : Artifact} {environment : Json}
    {packets : List PacketBytes} (hpackets : artifact.sailRawPackets = hexBytes packets)
    (hlength : packets.length = artifact.case.instructions.length + 1)
    (hreplay : artifact.replay.fromArtifact ≠ "")
    (hrecorded : checkRecorded report.toJson artifact.toJson environment =
      .ok (wordsJson artifact.case.instructions)) :
    checkCase report.toJson artifact.toJson environment = .ok () := by
  have hraw : artifact.toJson.getItem "sail_raw_packets" =
      .ok (.arr ((hexBytes packets).map .str)) := by
    rw [← hpackets]
    rfl
  have hchecked : checkPackets (wordsJson artifact.case.instructions)
      (.arr ((hexBytes packets).map .str)) = .ok () := checkPackets_hexBytes (by simpa using hlength)
  have hrecord : artifact.toJson.getItem "replay" = .ok artifact.replay.toJson := rfl
  have hcommand : artifact.replay.toJson.getItem "from_artifact" =
      .ok (.str artifact.replay.fromArtifact) := rfl
  simp only [checkCase, bind, Except.bind, hrecorded, hraw, hchecked, hrecord, hcommand, Json.isStr,
    Json.truthy, Bool.true_and, decide_eq_true hreplay, require, if_true]

/-- What two runs leave behind whose comparison found nothing. -/
def cleanRun (steps : Nat) (trace : ExecutionTrace) (packets : List PacketBytes) : CaseRun :=
  ⟨some ⟨steps, none⟩, some trace, some trace, packets, none⟩

omit [StrDebug] in
theorem cleanPass_caseArtifact (case : TestProgram) (options : RunOptions)
    (environment : Environment) (trace : ExecutionTrace) (packets : List PacketBytes)
    (directory path : String) :
    let run := cleanRun case.instructions.length trace packets
    CleanPass (storedReport case run path)
      (caseArtifact case options environment run directory) :=
  ⟨rfl, rfl, rfl, rfl, rfl, rfl, rfl, rfl, rfl, rfl, rfl, rfl, rfl⟩

/-- The evidence of two runs that compare equal is accepted. -/
theorem checkCase_of_passed {ckb : InjectionOutcome} {sail : DiiOutcome}
    (hpolicy : options.terminalPolicy = .exact)
    (hcompressed : ∀ word ∈ case.instructions, word &&& 0b11 ≠ 0b11 → word >>> 16 = 0)
    (hfocus : case.focusStep < case.instructions.length)
    (hfamily : MatchesFamily case.family (case.instructions[case.focusStep]))
    (hckb : engines.runCkb case options = .ok ckb) (hsail : engines.runSail case options = .ok sail)
    (hpass : (CompareResult.compareWithPolicy ckb.trace sail.trace
      options.terminalPolicy).passed = true) (directory path : String) :
    let run := cleanRun case.instructions.length ckb.trace sail.rawPackets
    checkCase (storedReport case run path).toJson
      (caseArtifact case options environment run directory).toJson environment.toJson = .ok () := by
  obtain ⟨-, hend, hlength, hclean, hpackets⟩ :=
    clean_of_passed hpolicy hcompressed hckb hsail hpass
  have hrecorded := checkRecorded_of_clean
    (cleanPass_caseArtifact case options environment ckb.trace sail.rawPackets directory path)
    rfl rfl rfl hfocus hfamily rfl rfl hlength hend hclean
  exact checkCase_of_recorded rfl hpackets (replayCommands_ne_empty case directory options.seed)
    hrecorded

/-- A pass whose evidence was stored is accepted: the validator returns normally on
the serialized report and artifact. -/
theorem pass_accepted (hpolicy : options.terminalPolicy = .exact)
    (hcompressed : ∀ word ∈ case.instructions, word &&& 0b11 ≠ 0b11 → word >>> 16 = 0)
    (hfocus : case.focusStep < case.instructions.length)
    (hfamily : MatchesFamily case.family (case.instructions[case.focusStep])) {path : String}
    (hpassed : (runCase engines case options environment disk).1.passed = true)
    (hpath : (runCase engines case options environment disk).1.artifact = some path) :
    ∃ (artifact : Artifact) (place : Fs.Place),
      Stores disk (runCase engines case options environment disk).2 path artifact.toJson place ∧
      checkCase (runCase engines case options environment disk).1.toJson artifact.toJson
        environment.toJson = .ok () := by
  obtain ⟨directory, place, hany, hreport, hstores⟩ := runCase_stored hpassed hpath
  obtain ⟨ckbTrace, sail, hckb, hsail, hpass⟩ := caseRun_passed hany
  obtain ⟨ckb, hckb', rfl⟩ : ∃ ckb, engines.runCkb case options = .ok ckb ∧
      ckb.trace = ckbTrace := by
    cases hrun : engines.runCkb case options with
    | error error => simp [hrun, Except.map] at hckb
    | ok ckb => exact ⟨ckb, rfl, by simpa [hrun, Except.map] using hckb⟩
  obtain ⟨htrace, -, hlength, -, -⟩ := clean_of_passed hpolicy hcompressed hckb' hsail hpass
  have hrun : engines.caseRun case options =
      cleanRun case.instructions.length ckb.trace sail.rawPackets := by
    rw [cleanRun, Engines.caseRun, hckb, hsail, caseRun, compareWithPolicy_of_passed hpass, htrace,
      hlength]
  rw [hrun] at hreport hstores
  refine ⟨_, place, hstores, ?_⟩
  rw [hreport]
  exact checkCase_of_passed hpolicy hcompressed hfocus hfamily hckb' hsail hpass directory path

end Stored

/-! ## A stored pass of ADDI -/

def addiCase : TestProgram :=
  ⟨"addi", "add a constant twice", "ADDI", 1, none, addiProgram, by decide⟩

/-- A host on which the emulator answers with the packets of the program. -/
def addiHost : SailHost :=
  ⟨fun _ => true, .ok addiSession.stream, "", "", .ok ⟨true, "exit status: 0"⟩⟩

def addiEngines : Engines := ⟨addiVm, fun _ => addiHost⟩

def addiOptions : RunOptions :=
  ⟨⟨"sail_riscv_sim", "ckb_vm_config.json"⟩, addiConfig, .exact, some "artifacts", 0⟩

def addiEnvironment : Environment :=
  ⟨none, none, none, none, "sail_riscv_sim", "ckb_vm_config.json", none, 1, "IMC+B", 2, none, none,
    none⟩

/-- A disk with nothing but the root, where the process runs. -/
def emptyDisk : Disk where
  faults := ⟨fun _ => none, fun _ => none, fun _ => none, fun _ => none⟩
  workingDirectory := []
  tree place := if place = [] then some .directory else none
  written := []

theorem addiCase_wide :
    ∀ word ∈ addiCase.instructions, word &&& 0b11 ≠ 0b11 → word >>> 16 = 0 := by
  intro word hword hnarrow
  obtain rfl : word = 0x00508093 := by simpa [addiCase, addiProgram] using hword
  exact absurd (by decide) hnarrow

theorem pass_accepted_addi : ∃ (path : String) (artifact : Artifact) (place : Fs.Place),
    Stores emptyDisk
        (@runCase plainStrDebug addiEngines addiCase addiOptions addiEnvironment emptyDisk).2 path
        artifact.toJson place ∧
      checkCase
        (@runCase plainStrDebug addiEngines addiCase addiOptions addiEnvironment
          emptyDisk).1.toJson
        artifact.toJson addiEnvironment.toJson = .ok () := by
  let _ := plainStrDebug
  have hstored : (runCase addiEngines addiCase addiOptions addiEnvironment
      emptyDisk).1.artifact.isSome = true := by decide +kernel
  obtain ⟨path, hpath⟩ := Option.isSome_iff_exists.1 hstored
  exact ⟨path, pass_accepted rfl addiCase_wide (by decide)
    ⟨0x707f, 0x13, by decide, by decide⟩ (by decide +kernel) hpath⟩

end CkbSail.DiffTest
