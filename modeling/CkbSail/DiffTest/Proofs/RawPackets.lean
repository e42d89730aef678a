import CkbSail.DiffTest.Proofs.PassAccepted
import CkbSail.Scripts.Proofs.Acceptance

/-!
# Raw packets and the trace they belong to

The producer derives the Sail trace from the raw packets it stores.  The
validator counts the packets and checks their digits; it decodes none of them.
-/

namespace CkbSail.DiffTest

open CkbSail.Core RustStd PythonStd SailRunner Scripts.RuntimeEvidence

/-! ## What the producer stores -/

/-- Packets that decode to a trace of `n` events, ended by a packet with the halt byte. -/
structure Explains (packets : List PacketBytes) (n : Nat) (trace : ExecutionTrace) : Prop where
  events : (V1Packet.decode RegisterShadow.zeroed (packets.take n)).2 = trace.events
  running : ∀ bytes ∈ packets.take n, (V1Packet.parse bytes).halt = false
  last : ∃ bytes, packets.getLast? = some bytes ∧ (V1Packet.parse bytes).halt = true

/-- The raw packets of an artifact explain its Sail trace. -/
def PacketsExplainTrace (artifact : Json) : Prop :=
  ∃ words texts packets value trace, programWords artifact = .ok words ∧
    rawPackets artifact = .ok (texts.map .str) ∧
    List.Forall₂ (fun text packet => packetOfLine text.toList = some packet) texts packets ∧
    artifact.getItem "sail_trace" = .ok value ∧ ReadsTrace value trace ∧
    Explains packets words.length trace

/-- The packets of a run that covered the program explain its trace. -/
theorem explains_of_stateAfter {session session' : DiiSession} {program : List UInt32}
    {state : DiiSession.DriveState} {trace : ExecutionTrace}
    (h : DiiSession.StateAfter session program program.length state)
    (hend : DiiSession.endOfTrace state = .ok (trace, session')) :
    Explains session'.rawPackets program.length trace := by
  obtain ⟨rfl, packet, hanswered, hhalt⟩ := DiiSession.endOfTrace_ok_iff.1 hend
  obtain ⟨bytes, rfl, hraw⟩ := hanswered.rawPackets
  have hdecoded := DiiSession.decoded_of_stateAfter h
  have htake : session'.rawPackets.take program.length = state.session.rawPackets := by
    rw [hraw, List.take_append_of_le_length (le_of_eq hdecoded.length.symm),
      List.take_of_length_le (le_of_eq hdecoded.length)]
  refine ⟨?_, ?_, bytes, ?_, hhalt⟩
  · rw [htake, hdecoded.events]
  · rw [htake]
    exact hdecoded.running
  · rw [hraw, List.getLast?_concat]

/-- The artifact of a passing comparison is explained by its own packets. -/
theorem packetsExplainTrace_of_passed [StrDebug] {engines : Engines} {case : TestProgram}
    {options : RunOptions} {environment : Environment} {directory : String}
    (hpolicy : options.terminalPolicy = .exact)
    (hpass : (engines.caseRun case options).comparison.any CompareResult.passed = true) :
    PacketsExplainTrace
      (caseArtifact case options environment (engines.caseRun case options) directory).toJson := by
  obtain ⟨ckbTrace, sail, hckb, hsail, hpassed⟩ := caseRun_passed hpass
  obtain ⟨ckb, hckb', rfl⟩ : ∃ ckb, engines.runCkb case options = .ok ckb ∧
      ckb.trace = ckbTrace := by
    cases hrun : engines.runCkb case options with
    | error error => simp [hrun, Except.map] at hckb
    | ok ckb => exact ⟨ckb, rfl, by simpa [hrun, Except.map] using hckb⟩
  obtain ⟨stream, session', hdrive, hraw⟩ := SailRunner.runProgram_ok hsail
  rw [hpolicy] at hpassed
  obtain ⟨s, t, -, ht, -, hfinal, -, -⟩ := complete_of_passed hckb' hdrive hpassed
  have hexplains := explains_of_stateAfter ht hfinal
  rw [← hraw] at hexplains
  have hrun : engines.caseRun case options =
      ⟨some (CompareResult.compareWithPolicy ckb.trace sail.trace options.terminalPolicy),
        some ckb.trace, some sail.trace, sail.rawPackets, none⟩ := by
    rw [Engines.caseRun, hckb, hsail]
    rfl
  rw [hrun]
  refine ⟨wordsJson case.instructions, hexBytes sail.rawPackets, sail.rawPackets,
    sail.trace.toJson, sail.trace, rfl, rfl, ?_, rfl, readsTrace_toJson _, ?_⟩
  · rw [hexBytes_eq, List.forall₂_map_left_iff, List.forall₂_same]
    intro packet _
    rw [String.toList_ofList]
    exact packetOfLine_packetDigits packet
  · rwa [length_wordsJson]

/-! ## What the validator reads of them -/

section Validator

variable {row artifact artifact' environment : Json}

/-- The checks before the raw packets read none of them. -/
theorem checkRecorded_congr
    (h : ∀ key, key ≠ "sail_raw_packets" → artifact'.getItem key = artifact.getItem key) :
    checkRecorded row artifact' environment = checkRecorded row artifact environment := by
  have hversion := h "schema_version" (by decide)
  have hcase := h "case" (by decide)
  have hhex := h "instructions_hex" (by decide)
  have hinitial := h "initial_state" (by decide)
  have henvironment := h "environment" (by decide)
  have hpassed := h "passed" (by decide)
  have hclass := h "classification" (by decide)
  have herror := h "error" (by decide)
  have hcomparison := h "comparison" (by decide)
  have hckb := h "ckb_trace" (by decide)
  have hsail := h "sail_trace" (by decide)
  have hevidence : ∀ words, checkEvidence words artifact' = checkEvidence words artifact := by
    intro words
    simp only [checkEvidence, hpassed, hclass, herror, hcomparison]
  simp only [checkRecorded, checkProgram, checkReport, hversion, hcase, hhex, hinitial,
    henvironment, Py.forEach, hevidence, hckb, hsail]

/-- An accepted artifact has one well-formed raw packet more than the program has
words, and stays accepted with any others: acceptance says nothing of what they
decode to. -/
theorem packets_counted_not_decoded (h : checkCase row artifact environment = .ok ()) :
    ∃ words packets, programWords artifact = .ok words ∧ rawPackets artifact = .ok packets ∧
      packets.length = words.length + 1 ∧ (∀ packet ∈ packets, isPacket packet = true) ∧
      ∀ others, others.length = words.length + 1 → (∀ packet ∈ others, isPacket packet = true) →
        ∃ replaced, artifact.setItem "sail_raw_packets" (.arr others) = .ok replaced ∧
          checkCase row replaced environment = .ok () := by
  obtain ⟨words, packets, hrecorded, hpackets, hchecked, replay, command, hreplay, hcommand,
    htext⟩ := checkCase_ok h
  obtain ⟨case, focus, ckb, sail, hprogram, -⟩ := checkRecorded_ok hrecorded
  obtain ⟨items, hiter, hlength, hall⟩ := checkPackets_ok hchecked
  have hraw : rawPackets artifact = .ok items := by
    simp only [rawPackets, bind, Except.bind, hpackets, hiter]
  refine ⟨words, items, hprogram.programWords, hraw, hlength, hall, fun others hothers hwell => ?_⟩
  obtain ⟨fields, rfl, -⟩ := Json.getItem_eq_ok.1 hpackets
  have hset : (Json.obj fields).setItem "sail_raw_packets" (.arr others) =
      .ok (.obj (Json.insert "sail_raw_packets" (.arr others) fields)) := rfl
  refine ⟨_, hset, ?_⟩
  have hsame : ∀ key, key ≠ "sail_raw_packets" →
      (Json.obj (Json.insert "sail_raw_packets" (.arr others) fields)).getItem key =
        (Json.obj fields).getItem key := by
    intro key hkey
    rw [Json.getItem_setItem hset, if_neg hkey]
  have hothers' : (Json.obj (Json.insert "sail_raw_packets" (.arr others) fields)).getItem
      "sail_raw_packets" = .ok (.arr others) := by
    rw [Json.getItem_setItem hset, if_pos rfl]
  have hreplay' := hsame "replay" (by decide)
  simp only [checkCase, bind, Except.bind, checkRecorded_congr hsame, hrecorded, hothers',
    checkPackets_of_items hothers hwell, hreplay', hreplay, hcommand, htext, require, if_true]

end Validator

/-! ## An artifact of synthetic packets -/

def addEvent : CommitEvent := ⟨0, 0x33, 0x80000000, 0x80000004, [], [], false, false⟩

def addTrace : ExecutionTrace := ⟨[addEvent], .injectionComplete⟩

def addCase : TestProgram :=
  ⟨"fixture-0", "synthetic validator fixture", "ADD", 0, none, [0x33], by decide⟩

/-- Two packets of zeros, which no emulator sent. -/
def zeroPackets : List PacketBytes := [Vector.replicate 88 0, Vector.replicate 88 0]

def addReport : CaseReport := storedReport addCase (cleanRun 1 addTrace zeroPackets) "fixture-0.json"

def addArtifact : Artifact :=
  caseArtifact addCase addiOptions addiEnvironment (cleanRun 1 addTrace zeroPackets) "original"

theorem addTrace_clean : CleanFrom addCase.instructions 0 INJECTION_ENTRY addTrace.events :=
  ⟨⟨rfl, rfl, rfl, rfl, rfl, rfl, ⟨List.Pairwise.nil, by simp [addEvent]⟩⟩, trivial⟩

theorem addArtifact_accepted :
    checkCase addReport.toJson addArtifact.toJson addiEnvironment.toJson = .ok () := by
  have hpass := cleanPass_caseArtifact addCase addiOptions addiEnvironment addTrace zeroPackets
    "original" "fixture-0.json"
  have hfamily : MatchesFamily addCase.family addCase.instructions[addCase.focusStep] :=
    ⟨0xfe00707f, 0x33, by decide, by decide⟩
  have hrecorded := checkRecorded_of_clean hpass rfl rfl rfl (by decide) hfamily rfl rfl rfl rfl
    addTrace_clean
  exact checkCase_of_recorded rfl rfl (replayCommands_ne_empty addCase "original" 0) hrecorded

theorem packets_counted_not_decoded_add :
    ∃ words packets, programWords addArtifact.toJson = .ok words ∧
      rawPackets addArtifact.toJson = .ok packets ∧ packets.length = words.length + 1 ∧
      (∀ packet ∈ packets, isPacket packet = true) ∧
      ∀ others, others.length = words.length + 1 → (∀ packet ∈ others, isPacket packet = true) →
        ∃ replaced, addArtifact.toJson.setItem "sail_raw_packets" (.arr others) = .ok replaced ∧
          checkCase addReport.toJson replaced addiEnvironment.toJson = .ok () :=
  packets_counted_not_decoded addArtifact_accepted

/-- Its packets decode to a packet that does not even end the trace. -/
theorem addArtifact_not_explained : ¬PacketsExplainTrace addArtifact.toJson := by
  rintro ⟨words, texts, packets, value, trace, -, htexts, hpackets, -, -, hexplains⟩
  have hitems : rawPackets addArtifact.toJson = .ok ((hexBytes zeroPackets).map Json.str) := rfl
  have hinjective : Function.Injective Json.str := fun _ _ h => Json.str.inj h
  obtain rfl : texts = hexBytes zeroPackets :=
    List.map_injective_iff.2 hinjective (Except.ok.inj (htexts.symm.trans hitems))
  have hread : ∀ packet other, packetOfLine (String.ofList (packetDigits packet)).toList =
      some other → packet = other := by
    intro packet other h
    rw [String.toList_ofList, packetOfLine_packetDigits] at h
    exact Option.some.inj h
  rw [hexBytes_eq, List.forall₂_map_left_iff] at hpackets
  obtain rfl : zeroPackets = packets := List.forall₂_eq_eq_eq ▸ hpackets.imp hread
  obtain ⟨bytes, hbytes, hhalt⟩ := hexplains.last
  obtain rfl : Vector.replicate 88 0 = bytes := by simpa [zeroPackets] using hbytes
  exact absurd hhalt (by decide)

theorem accepted_without_explanation :
    ¬∀ row artifact environment, checkCase row artifact environment = .ok () →
      PacketsExplainTrace artifact :=
  fun h => addArtifact_not_explained (h _ _ _ addArtifact_accepted)

end CkbSail.DiffTest
