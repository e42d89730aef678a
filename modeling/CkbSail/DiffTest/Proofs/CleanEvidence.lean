import CkbSail.Scripts.Proofs.FirstDifference
import CkbSail.DiffTest.Run
import CkbSail.SailRunner.PacketHex

/-!
# Serialized evidence of a clean pass

What the validator accepts, part by part, stated of the typed reports, artifacts
and traces whose serialization it reads.
-/

namespace CkbSail.DiffTest

open CkbSail.Core RustStd PythonStd SailRunner Scripts.RuntimeEvidence

/-! ## The program of an artifact -/

/-- The words of a program as JSON. -/
def wordsJson (program : List UInt32) : List Json := program.map fun word => .int word.toNat

@[simp] theorem length_wordsJson (program : List UInt32) :
    (wordsJson program).length = program.length := by simp [wordsJson]

/-- The focus word has the opcode its family approves. -/
def MatchesFamily (family : String) (word : UInt32) : Prop :=
  ∃ mask value, (family, mask, value) ∈ FAMILIES ∧ word.toNat &&& mask = value

theorem formatWord_word (word : UInt32) :
    formatWord (.int word.toNat) = .ok (.str ("0x" ++ paddedHex 8 word.toNat)) := by
  have hneg : ¬(word.toNat : Int) < 0 := by omega
  simp only [formatWord, if_neg hneg, Int.toNat_natCast]

theorem collect_formatWord (program : List UInt32) :
    Py.collect formatWord (wordsJson program) = .ok ((hexWords program).map .str) := by
  rw [Py.collect_eq_ok, wordsJson, hexWords, List.map_map, List.forall₂_map_left_iff,
    List.forall₂_map_right_iff, List.forall₂_same]
  exact fun word _ => formatWord_word word

theorem words_in_range (program : List UInt32) :
    ((wordsJson program).all fun w => w.integer 0 (2 ^ 32 - 1)) = true := by
  rw [List.all_eq_true]
  intro w hw
  obtain ⟨word, -, rfl⟩ := List.mem_map.1 hw
  have := word.toNat_lt
  simp only [Json.integer, Bool.and_eq_true, decide_eq_true_eq]
  omega

theorem family_eq_ok {name : String} {mask value : Nat} (h : (name, mask, value) ∈ FAMILIES) :
    family (.str name) = .ok (mask, value) := by
  simp only [FAMILIES, List.mem_cons, Prod.mk.injEq, List.not_mem_nil, or_false] at h
  rcases h with ⟨rfl, rfl, rfl⟩ | ⟨rfl, rfl, rfl⟩ | ⟨rfl, rfl, rfl⟩ <;> decide

theorem inNames_of_mem {name : String} {names : List String} (h : name ∈ names) :
    (Json.str name).inNames names = .ok true := by
  simpa [Json.inNames, Json.hashable] using h

theorem checkProgram_artifact {artifact : Artifact} (hversion : artifact.schemaVersion = 3)
    (hhex : artifact.instructionsHex = hexWords artifact.case.instructions)
    (hinitial : artifact.initialState = InitialState.reset)
    (hfocus : artifact.case.focusStep < artifact.case.instructions.length)
    (hfamily : MatchesFamily artifact.case.family
      (artifact.case.instructions[artifact.case.focusStep])) :
    checkProgram artifact.toJson =
      .ok (artifact.case.toJson, wordsJson artifact.case.instructions) := by
  have hversion' : artifact.toJson.getItem "schema_version" = .ok (.int 3) := by
    rw [show (3 : Int) = (artifact.schemaVersion.toNat : Int) by rw [hversion]; rfl]
    rfl
  have hsame : (Json.int 3).same (.int 3) = .ok true := by decide
  have hcase : artifact.toJson.getItem "case" = .ok artifact.case.toJson := rfl
  have hwords : artifact.case.toJson.getItem "instructions" =
      .ok (.arr (wordsJson artifact.case.instructions)) := rfl
  have hfocus' : artifact.case.toJson.getItem "focus_step" =
      .ok (.int artifact.case.focusStep) := rfl
  have hhex' : artifact.toJson.getItem "instructions_hex" =
      .ok (.arr ((hexWords artifact.case.instructions).map .str)) := by
    rw [← hhex]
    rfl
  have hname : artifact.case.toJson.getItem "family" = .ok (.str artifact.case.family) := rfl
  have hinitial' : artifact.toJson.getItem "initial_state" = .ok InitialState.reset.toJson := by
    rw [← hinitial]
    rfl
  have htruthy : (Json.arr (wordsJson artifact.case.instructions)).truthy = true := by
    have hne : wordsJson artifact.case.instructions ≠ [] := by
      intro hnil
      have hlen := congrArg List.length hnil
      rw [length_wordsJson, List.length_nil] at hlen
      omega
    simpa [Json.truthy] using hne
  have hrange := words_in_range artifact.case.instructions
  have hfocusRange : (Json.int artifact.case.focusStep).integer 0
      ((wordsJson artifact.case.instructions).length - 1) = true := by
    simp only [Json.integer, length_wordsJson, Bool.and_eq_true, decide_eq_true_eq]
    omega
  have hcollect := collect_formatWord artifact.case.instructions
  obtain ⟨mask, value, hmem, hmask⟩ := hfamily
  have hinNames : (Json.str artifact.case.family).inNames (FAMILIES.map Prod.fst) = .ok true :=
    inNames_of_mem (List.mem_map_of_mem hmem)
  have hlookup := family_eq_ok hmem
  have hword : (Json.arr (wordsJson artifact.case.instructions)).subscript
      (.int artifact.case.focusStep) =
        .ok (.int (artifact.case.instructions[artifact.case.focusStep]).toNat) := by
    rw [Json.subscript, Json.getAt_natCast_eq_ok, wordsJson, List.getElem?_map,
      List.getElem?_eq_getElem hfocus]
    rfl
  have hmatch : matchesFamily (.int (artifact.case.instructions[artifact.case.focusStep]).toNat)
      mask value = .ok true := by
    rw [matchesFamily, ← hmask]
    simp [Int.land]
  have hstate : InitialState.reset.toJson.eq
      (.obj [("pc", .int 0x80000000), ("integer_registers", .str "x0..x31 = 0")]) = true :=
    Json.eq_self _
  simp only [checkProgram, bind, Except.bind, hversion', requirePy, hsame, require, if_true, hcase,
    hwords, hfocus', Json.isList, htruthy, Bool.and_self, Json.iter, hrange, hfocusRange, hhex',
    hcollect, Json.eq_self, hname, hinNames, hlookup, hword, hmatch, hinitial', hstate,
    pure, Except.pure]

/-! ## The report of a clean pass -/

theorem checkEvidence_of_clean {words : List Json} {evidence : Json}
    (hpassed : evidence.getItem "passed" = .ok (.bool true))
    (hclass : evidence.getItem "classification" = .ok (.str "match"))
    (herror : evidence.getItem "error" = .ok .null)
    (hcomparison : evidence.getItem "comparison" =
      .ok (CompareResult.toJson ⟨words.length, none⟩)) :
    checkEvidence words evidence = .ok () := by
  have hsame : (CompareResult.toJson ⟨words.length, none⟩).same
      (.obj [("compared_steps", .int words.length), ("mismatch", .null)]) = .ok true := by
    rw [Json.same_eq_true]
    exact ⟨rfl, rfl, Json.dumpsEq_self _⟩
  simp [checkEvidence, bind, Except.bind, hpassed, hclass, herror, hcomparison, hsame, requirePy,
    require, Json.isBool, Json.isNone, Py.and, pure, Except.pure]

theorem hasInfinite_optionJson {α : Type} {toJson : α → Json} (o : Option α)
    (h : ∀ a, (toJson a).hasInfinite = false) : (optionJson toJson o).hasInfinite = false := by
  cases o with
  | none => rfl
  | some a => exact h a

theorem hasInfinite_environment (environment : Environment) :
    environment.toJson.hasInfinite = false := by
  have hbaseline : ∀ baseline : CkbSourceBaseline, baseline.toJson.hasInfinite = false :=
    fun _ => rfl
  have hstr : ∀ text : String, (Json.str text).hasInfinite = false := fun _ => rfl
  have hint : ∀ i : Int, (Json.int i).hasInfinite = false := fun _ => rfl
  simp [Environment.toJson, Json.hasInfinite, Json.fieldsInfinite, Json.fieldInfinite,
    hasInfinite_optionJson _ hbaseline, hasInfinite_optionJson _ hstr]

theorem same_self {value : Json} (h : value.hasInfinite = false) : value.same value = .ok true :=
  Json.same_eq_true.2 ⟨h, h, Json.dumpsEq_self value⟩

/-- A row and an artifact of a clean pass of one case. -/
structure CleanPass (report : CaseReport) (artifact : Artifact) : Prop where
  id : report.id = artifact.case.id
  description : report.description = artifact.case.description
  family : report.family = artifact.case.family
  focusStep : report.focusStep = artifact.case.focusStep
  instructions : report.instructions = artifact.case.instructions.length
  reportPassed : report.passed = true
  reportClass : report.classification = "match"
  reportError : report.error = none
  reportComparison : report.comparison = some ⟨artifact.case.instructions.length, none⟩
  artifactPassed : artifact.passed = true
  artifactClass : artifact.classification = "match"
  artifactError : artifact.error = none
  artifactComparison : artifact.comparison = some ⟨artifact.case.instructions.length, none⟩

theorem checkReport_of_clean {report : CaseReport} {artifact : Artifact}
    (h : CleanPass report artifact) :
    checkReport report.toJson artifact.toJson artifact.environment.toJson artifact.case.toJson
      (wordsJson artifact.case.instructions) = .ok () := by
  have henvironment : artifact.toJson.getItem "environment" =
      .ok artifact.environment.toJson := rfl
  have hsame := same_self (hasInfinite_environment artifact.environment)
  have hid : report.toJson.getItem "id" = .ok (.str artifact.case.id) := by
    rw [← h.id]
    rfl
  have hdescription : report.toJson.getItem "description" =
      .ok (.str artifact.case.description) := by
    rw [← h.description]
    rfl
  have hfamily : report.toJson.getItem "family" = .ok (.str artifact.case.family) := by
    rw [← h.family]
    rfl
  have hfocus : report.toJson.getItem "focus_step" = .ok (.int artifact.case.focusStep) := by
    rw [← h.focusStep]
    rfl
  have hid' : artifact.case.toJson.getItem "id" = .ok (.str artifact.case.id) := rfl
  have hdescription' : artifact.case.toJson.getItem "description" =
      .ok (.str artifact.case.description) := rfl
  have hfamily' : artifact.case.toJson.getItem "family" = .ok (.str artifact.case.family) := rfl
  have hfocus' : artifact.case.toJson.getItem "focus_step" =
      .ok (.int artifact.case.focusStep) := rfl
  have hstr : ∀ text : String, (Json.str text).same (.str text) = .ok true :=
    fun text => same_self rfl
  have hint : ∀ i : Int, (Json.int i).same (.int i) = .ok true := fun i => same_self rfl
  have hinstructions : report.toJson.getItem "instructions" =
      .ok (.int artifact.case.instructions.length) := by
    rw [← h.instructions]
    rfl
  have hrow : checkEvidence (wordsJson artifact.case.instructions) report.toJson = .ok () := by
    refine checkEvidence_of_clean ?_ ?_ ?_ ?_
    · rw [← h.reportPassed]
      rfl
    · rw [← h.reportClass]
      rfl
    · rw [show Json.null = optionJson .str report.error by rw [h.reportError]; rfl]
      rfl
    · rw [length_wordsJson, show CompareResult.toJson ⟨artifact.case.instructions.length, none⟩ =
        optionJson CompareResult.toJson report.comparison by rw [h.reportComparison]; rfl]
      rfl
  have hartifact : checkEvidence (wordsJson artifact.case.instructions) artifact.toJson =
      .ok () := by
    refine checkEvidence_of_clean ?_ ?_ ?_ ?_
    · rw [← h.artifactPassed]
      rfl
    · rw [← h.artifactClass]
      rfl
    · rw [show Json.null = optionJson .str artifact.error by rw [h.artifactError]; rfl]
      rfl
    · rw [length_wordsJson, show CompareResult.toJson ⟨artifact.case.instructions.length, none⟩ =
        optionJson CompareResult.toJson artifact.comparison by rw [h.artifactComparison]; rfl]
      rfl
  simp [checkReport, bind, Except.bind, henvironment, hsame, requirePy, require, Py.forEach, hid,
    hdescription, hfamily, hfocus, hid', hdescription', hfamily', hfocus', hstr, hint,
    hinstructions, Json.isInt, hrow, hartifact]

/-! ## The traces of a clean pass -/

/-- Register writes as both observers report them: in order, and within x1..x31. -/
structure ValidWrites (writes : List RegisterWrite) : Prop where
  sorted : (writes.map fun write => write.index.toNat).Pairwise (· < ·)
  range : ∀ write ∈ writes, 1 ≤ write.index.toNat ∧ write.index.toNat ≤ 31

/-- An event the validator accepts at step `i` and program counter `pc`. -/
structure CleanEvent (program : List UInt32) (i : Nat) (pc : UInt64) (event : CommitEvent) :
    Prop where
  order : event.order.toNat = i
  instruction : program[i]? = some event.instruction
  pcBefore : event.pcBefore = pc
  trap : event.trap = false
  halt : event.halt = false
  memory : event.memory = []
  writes : ValidWrites event.registerWrites

theorem sortedSet_of_sorted {indices : List Int} (h : indices.Pairwise (· < ·)) :
    sortedSet indices = indices := by
  have hnodup : indices.Nodup := h.imp fun hlt => Int.ne_of_lt hlt
  rw [sortedSet, hnodup.dedup]
  exact List.Pairwise.insertionSort_eq (h.imp fun hlt => Int.le_of_lt hlt)

theorem validWrite_toJson {write : RegisterWrite}
    (h : 1 ≤ write.index.toNat ∧ write.index.toNat ≤ 31) : validWrite write.toJson = .ok true := by
  have hkeys : write.toJson.setEq ["index", "value"] = .ok true := Json.setEq_obj rfl
  have hindex : write.toJson.getItem "index" = .ok (.int write.index.toNat) := rfl
  have hvalue : write.toJson.getItem "value" = .ok (.int write.value.toNat) := rfl
  have hrange : (Json.int write.index.toNat).integer 1 31 = true := by
    simp only [Json.integer, Bool.and_eq_true, decide_eq_true_eq]
    omega
  have hvalueRange : (Json.int write.value.toNat).integer 0 (2 ^ 64 - 1) = true := by
    have := write.value.toNat_lt
    simp only [Json.integer, Bool.and_eq_true, decide_eq_true_eq]
    omega
  simp only [validWrite, Py.and, hkeys, hindex, hvalue, hrange, hvalueRange, bind, Except.bind,
    pure, Except.pure, Bool.not_true, Bool.false_eq_true, if_false]

theorem integer_word (word : UInt64) : (Json.int word.toNat).integer 0 (2 ^ 64 - 1) = true := by
  have := word.toNat_lt
  simp only [Json.integer, Bool.and_eq_true, decide_eq_true_eq]
  omega

/-- The indices of the writes of an event, as the validator collects them. -/
theorem collect_writeIndex (writes : List RegisterWrite) :
    Py.collect Scripts.RuntimeEvidence.writeIndex (writes.map RegisterWrite.toJson) =
      .ok (writes.map fun write => (write.index.toNat : Int)) := by
  rw [Py.collect_eq_ok, List.forall₂_map_left_iff, List.forall₂_map_right_iff, List.forall₂_same]
  exact fun write _ => rfl

theorem sortedSet_indices {writes : List RegisterWrite} (h : ValidWrites writes) :
    (writes.map fun write => (write.index.toNat : Int)) =
      sortedSet (writes.map fun write => (write.index.toNat : Int)) := by
  refine (sortedSet_of_sorted ?_).symm
  have hsorted := h.sorted
  rw [List.pairwise_map] at hsorted ⊢
  exact hsorted.imp fun hlt => by exact_mod_cast hlt

theorem checkEvent_toJson {program : List UInt32} {i : Nat} {pc : UInt64} {event : CommitEvent}
    (h : CleanEvent program i pc event) :
    checkEvent (wordsJson program) i event.toJson (.int pc.toNat) =
      .ok (.int event.pcAfter.toNat) := by
  have hkeys : event.toJson.setEq FIELDS = .ok true := Json.setEq_obj rfl
  have horder : event.toJson.getItem "order" = .ok (.int i) := by
    rw [← h.order]
    rfl
  have hinstruction : event.toJson.getItem "instruction" = .ok (.int event.instruction.toNat) :=
    rfl
  have hword : (Json.arr (wordsJson program)).getAt i = .ok (.int event.instruction.toNat) := by
    rw [Json.getAt_natCast_eq_ok, wordsJson, List.getElem?_map, h.instruction]
    rfl
  have hbefore : event.toJson.getItem "pc_before" = .ok (.int pc.toNat) := by
    rw [← h.pcBefore]
    rfl
  have hafter : event.toJson.getItem "pc_after" = .ok (.int event.pcAfter.toNat) := rfl
  have htrap : event.toJson.getItem "trap" = .ok (.bool false) := by
    rw [← h.trap]
    rfl
  have hhalt : event.toJson.getItem "halt" = .ok (.bool false) := by
    rw [← h.halt]
    rfl
  have hmemory : event.toJson.getItem "memory" = .ok (.arr []) := by
    rw [show ([] : List Json) = event.memory.map MemoryAccess.toJson by rw [h.memory]; rfl]
    rfl
  have hwrites : event.toJson.getItem "register_writes" =
      .ok (.arr (event.registerWrites.map RegisterWrite.toJson)) := rfl
  have hvalid : Py.all validWrite (event.registerWrites.map RegisterWrite.toJson) = .ok true := by
    rw [Py.all_eq_true]
    intro value hvalue
    obtain ⟨write, hmem, rfl⟩ := List.mem_map.1 hvalue
    exact validWrite_toJson (h.writes.range write hmem)
  have hindices := collect_writeIndex event.registerWrites
  have hsorted := decide_eq_true (sortedSet_indices h.writes)
  simp only [checkEvent, bind, Except.bind, requirePy, require, hkeys, if_true, horder,
    hinstruction, hword, Json.isInt, Json.eq_self, Bool.and_self, hbefore, hafter, integer_word,
    htrap, hhalt, hmemory, Json.isBool, BEq.rfl, hwrites, Json.isList, Json.iter, hvalid, hindices,
    hsorted, pure, Except.pure]

/-- The events of a suffix of a trace are accepted one after the other. -/
def CleanFrom (program : List UInt32) : Nat → UInt64 → List CommitEvent → Prop
  | _, _, [] => True
  | i, pc, event :: events =>
      CleanEvent program i pc event ∧ CleanFrom program (i + 1) event.pcAfter events

theorem checkEvents_toJson {program : List UInt32} {i : Nat} {pc : UInt64}
    {events : List CommitEvent} (h : CleanFrom program i pc events) :
    checkEvents (wordsJson program) i (events.map CommitEvent.toJson) (.int pc.toNat) =
      .ok () := by
  induction events generalizing i pc with
  | nil => rfl
  | cons event events ih =>
      rw [List.map_cons, checkEvents, checkEvent_toJson h.1]
      exact ih h.2

theorem checkTrace_toJson {program : List UInt32} {trace : ExecutionTrace}
    (hlength : trace.events.length = program.length) (hend : trace.traceEnd = .injectionComplete)
    (hclean : CleanFrom program 0 INJECTION_ENTRY trace.events) :
    checkTrace (wordsJson program) trace.toJson = .ok () := by
  have hkeys : trace.toJson.setEq ["events", "end"] = .ok true := Json.setEq_obj rfl
  have hevents : trace.toJson.getItem "events" =
      .ok (.arr (trace.events.map CommitEvent.toJson)) := rfl
  have hfinal : trace.toJson.getItem "end" =
      .ok (.obj [("kind", .str "injection_complete")]) := by
    rw [show Json.obj [("kind", .str "injection_complete")] = trace.traceEnd.toJson by
      rw [hend]; rfl]
    rfl
  have hloop := checkEvents_toJson hclean
  have hentry : (INJECTION_ENTRY.toNat : Int) = 0x80000000 := rfl
  rw [hentry] at hloop
  simp only [checkTrace, requirePy, bind, Except.bind, Py.and, pure, Except.pure, Json.isDict,
    ExecutionTrace.toJson, require] at hkeys hevents hfinal ⊢
  simp only [hkeys, hevents, hfinal, Json.len, List.length_map, length_wordsJson, hlength,
    decide_true, Json.eq_self, Bool.and_self, if_true, Json.iter, hloop]

/-! ## The raw packets -/

theorem toList_join (texts : List String) :
    (String.join texts).toList = texts.flatMap String.toList := by
  have hfold : ∀ (texts : List String) (text : String),
      (texts.foldl (fun r s => r ++ s) text).toList = text.toList ++ texts.flatMap String.toList := by
    intro texts
    induction texts with
    | nil => simp
    | cons head texts ih =>
        intro text
        simp [ih, List.append_assoc]
  simpa [String.join] using hfold texts ""

theorem hexBytes_eq (packets : List PacketBytes) :
    hexBytes packets = packets.map fun packet => String.ofList (packetDigits packet) := by
  refine List.map_congr_left fun packet _ => ?_
  rw [← String.toList_inj, toList_join, String.toList_ofList, packetDigits, List.flatMap_map]
  simp only [toList_paddedHex]

theorem isPacketText_packetDigits (packet : PacketBytes) :
    isPacketText (String.ofList (packetDigits packet)) = true := by
  have hdigits : ∀ c ∈ packetDigits packet, IsLowerHex c :=
    fun c hc => isLowerHex_of_mem_packetDigits hc
  rw [isPacketText, String.length_ofList, length_packetDigits, String.toList_ofList]
  simpa [IsLowerHex] using hdigits

theorem checkPackets_hexBytes {words : List Json} {packets : List PacketBytes}
    (h : packets.length = words.length + 1) :
    checkPackets words (.arr ((hexBytes packets).map .str)) = .ok () := by
  have hlength : ((hexBytes packets).map Json.str).length = words.length + 1 := by
    simp [hexBytes, h]
  have hall : ((hexBytes packets).map Json.str).all isPacket = true := by
    rw [hexBytes_eq, List.all_eq_true]
    intro value hvalue
    simp only [List.map_map, List.mem_map, Function.comp_apply] at hvalue
    obtain ⟨packet, -, rfl⟩ := hvalue
    exact isPacketText_packetDigits packet
  simp only [checkPackets, bind, Except.bind, Json.len, Json.iter, hlength, decide_true, hall,
    require, if_true]

end CkbSail.DiffTest
