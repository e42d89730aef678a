import CkbSail.DiffTest.Proofs.MatrixTotals
import CkbSail.DiffTest.Proofs.PassAccepted

/-!
# The producer and the validator agree

The validator accepts the summary the producer writes exactly when it passed,
and whatever else it accepts holds the same reports and the same numbers.
-/

namespace CkbSail.DiffTest

open CkbSail.Core RustStd PythonStd Scripts.RuntimeEvidence

/-- A coverage row holds the category and the numbers of a coverage. -/
structure CoverageAgrees (row : Json) (coverage : MutationCoverage) : Prop where
  mutation : row.getItem "mutation" = .ok (.str coverage.mutation)
  expectedField : row.getItem "expected_field" = .ok (.str coverage.expectedField)
  applied : ∃ value, row.getItem "applied" = .ok value ∧ value.eq (.int coverage.applied) = true
  located : ∃ value, row.getItem "located" = .ok value ∧ value.eq (.int coverage.located) = true

/-- A value holds the reports and the numbers of a summary, in any order. -/
structure MatchesSummary (value : Json) (summary : MutationSummary) : Prop where
  reports : ∃ item rows reports, value.getItem "reports" = .ok item ∧ item.iter = .ok rows ∧
    List.Forall₂ RowAgrees rows reports ∧ reports.Perm summary.reports
  applied : value.getItem "applied" = .ok (.int summary.applied)
  skipped : value.getItem "skipped" = .ok (.int summary.skipped)
  coverage : ∃ item rows coverage, value.getItem "coverage" = .ok item ∧ item.iter = .ok rows ∧
    List.Forall₂ CoverageAgrees rows coverage ∧ coverage.Perm summary.coverage

/-! ## Reading a coverage back -/

theorem len_of_iter {value : Json} {rows : List Json} {n : Nat} (hiter : value.iter = .ok rows)
    (hlen : value.len = .ok n) : rows.length = n := by
  cases value <;> simp [Json.iter, Json.len] at hiter hlen <;>
    simp [← hiter, ← hlen, String.length_toList]

theorem coverageAgrees_of_checked {reports typed : List MutationReport}
    (h : ∀ report ∈ reports, Settled report) (hperm : typed.Perm reports) {row : Json}
    {kind : MutationKind} (hkind : row.getItem "mutation" = .ok (.str kind.id))
    (hchecked : checkCoverageRow (tallyOf typed) row = .ok ()) :
    CoverageAgrees row (coverageOf reports kind) := by
  obtain ⟨entry, hentry, hname, -, hfield, ⟨applied, located, happlied, hlocated, heq, hnumber⟩,
    -⟩ := checkCoverageRow_eq_ok.1 hchecked
  obtain ⟨other, -, rfl⟩ := List.mem_map.1 (mutations_eq ▸ hentry)
  obtain rfl : kind = other := by
    rw [hkind] at hname
    exact id_injective (Json.str.inj (Except.ok.inj hname))
  have hcount : (tallyOf typed).counts kind.id = reports.countP (countsFor kind) := by
    rw [tallyOf_perm hperm, tallyOf_kind]
  simp only [hcount] at hnumber
  refine ⟨hkind, hfield, ⟨applied, happlied, ?_⟩, ⟨located, hlocated, ?_⟩⟩
  · rw [coverageOf_applied]
    exact Json.eq_int_of_eq hnumber heq
  · rw [coverageOf_located h]
    exact hnumber

theorem coverage_of_checked {reports typed : List MutationReport}
    (h : ∀ report ∈ reports, Settled report) (hperm : typed.Perm reports) {rows kinds : List Json}
    (hkinds : Py.collect (Json.getItem "mutation") rows = .ok kinds)
    (hlength : rows.length = MUTATIONS.length)
    (hset : Json.itemsEq kinds (MUTATIONS.map Prod.fst) = .ok true)
    (hchecked : ∀ row ∈ rows, checkCoverageRow (tallyOf typed) row = .ok ()) :
    ∃ coverage, List.Forall₂ CoverageAgrees rows coverage ∧
      coverage.Perm (MANDATORY_MUTATIONS.map (coverageOf reports)) := by
  have hrows := Py.collect_eq_ok.1 hkinds
  obtain ⟨names, rfl, hnames⟩ := itemsEq_ok (by decide)
    (hrows.length_eq ▸ hlength.trans (List.length_map _).symm) hset
  have hmap : List.Forall₂ (fun name (kind : MutationKind) => name = kind.id)
      (MUTATIONS.map Prod.fst) MANDATORY_MUTATIONS := by
    rw [mutations_eq, List.map_map]
    exact List.forall₂_map_left_iff.2 (List.forall₂_same.2 fun _ _ => rfl)
  obtain ⟨order, horder, hkindsPerm⟩ := List.perm_comp_forall₂ hnames hmap
  refine ⟨order.map (coverageOf reports), ?_, hkindsPerm.map _⟩
  rw [List.forall₂_map_right_iff]
  rw [List.forall₂_map_right_iff] at hrows
  refine List.forall₂_iff_get.2 ⟨hrows.length_eq.trans horder.length_eq, fun i hi hi' => ?_⟩
  have hrow := hrows.get hi (hrows.length_eq ▸ hi)
  rw [horder.get (hrows.length_eq ▸ hi) hi'] at hrow
  exact coverageAgrees_of_checked h hperm hrow (hchecked _ (List.get_mem _ _))

/-! ## The summary the producer writes -/

theorem rowAgrees_toJson (report : MutationReport) : RowAgrees report.toJson report := by
  have hstep : stepJson report.locatedStep =
      optionJson (fun step => .int step) report.locatedStep := by
    cases report.locatedStep <;> rfl
  exact ⟨rfl, rfl, rfl, rfl, rfl, rfl, rfl, hstep ▸ rfl⟩

theorem checkCoverageRow_coverageOf {reports : List MutationReport}
    (h : ∀ report ∈ reports, Settled report) {kind : MutationKind}
    (hcount : 0 < (tallyOf reports).counts kind.id) :
    checkCoverageRow (tallyOf reports) (coverageOf reports kind).toJson = .ok () := by
  have hmem : (kind.id, kind.expectedField) ∈ MUTATIONS :=
    mutations_eq ▸ List.mem_map_of_mem (mem_mandatory kind)
  have hcounted := tallyOf_kind reports kind
  have hfind : ∃ report ∈ reports, countsFor kind report = true ∧
      (coverageOf reports kind).exampleCase = some report.caseId := by
    obtain ⟨report, hreport, hcounts⟩ := List.countP_pos_iff.1 (hcounted ▸ hcount)
    obtain ⟨happlied, hkind⟩ := Bool.and_eq_true_iff.1 hcounts
    have hpassed : ((reports.filter fun report => report.mutation = kind.id).find?
        MutationReport.passed).isSome := by
      rw [List.find?_isSome]
      exact ⟨report, List.mem_filter.2 ⟨hreport, hkind⟩, (h report hreport).passed.trans happlied⟩
    obtain ⟨found, hfound⟩ := Option.isSome_iff_exists.1 hpassed
    obtain ⟨hin, hfor⟩ := List.mem_filter.1 (List.mem_of_find?_eq_some hfound)
    refine ⟨found, hin, ?_, ?_⟩
    · rw [countsFor, ← (h found hin).passed, List.find?_some hfound, Bool.true_and]
      exact hfor
    · rw [coverageOf, hfound]
      rfl
  obtain ⟨example', hmemExample, hcounts, hexample⟩ := hfind
  refine checkCoverageRow_eq_ok.2 ⟨_, hmem, rfl, hcount, rfl, ⟨_, _, rfl, rfl, ?_, ?_⟩, _, rfl,
    .str example'.caseId, ?_, ?_⟩
  · rw [coverageOf_applied, coverageOf_located h]
    exact Json.eq_self _
  · rw [coverageOf_located h, hcounted]
    exact Json.eq_self _
  · rw [tallyOf_located]
    exact List.mem_map_of_mem (List.mem_filter.2 ⟨hmemExample, hcounts⟩)
  · rw [hexample]
    exact Json.eq_self _

section Agreement

variable [StrDebug] {engines : Engines} {options : RunOptions} {entries : List Entry}
  {cases : Cases}

theorem settled_reports (h : ∀ entry ∈ entries, entry.Recorded engines options) :
    ∀ report ∈ (cells entries).map (cellReport options), Settled report := by
  intro report hmem
  obtain ⟨cell, hcell, rfl⟩ := List.mem_map.1 hmem
  exact (h cell.1 (mem_cells.1 hcell)).clean.settled options cell.2

/-- An accepted summary holds the reports and the numbers of the producer. -/
theorem matchesSummary_of_accepted (h : ∀ entry ∈ entries, entry.Recorded engines options)
    (hpolicy : options.terminalPolicy = .exact) (hcases : Holds cases entries) {value : Json}
    {counts : String → Nat} (haccepted : checkMutations value cases = .ok counts) :
    MatchesSummary value (runMutations engines (entries.map Entry.case) options) := by
  obtain ⟨-, -, -, reports, rows, keys, tally, coverage, coverageRows, kinds, hreports, hrows,
    hkeys, hlength, hset, htally, htotals, hcoverage, hlen, hcoverageRows, hkinds, hcovered,
    hchecked, -⟩ := checkMutations_eq_ok.1 haccepted
  obtain ⟨places, hkeyed, hperm⟩ := keyedBy_of_keys hcases hkeys hlength hset
  have hplaces : ∀ cell ∈ places, cell.1 ∈ entries := fun cell hmem =>
    mem_cells.1 (hperm.mem_iff.1 hmem)
  obtain ⟨hagree, rfl⟩ := (checkRows_iff h hpolicy hcases hplaces hkeyed).1 htally
  have hsettled := settled_reports h
  have hreportsPerm := hperm.map (cellReport options)
  rw [runMutations_eq h]
  refine ⟨⟨reports, rows, _, hreports, hrows, ?_, hreportsPerm⟩, ?_, ?_, ?_⟩
  · exact List.forall₂_map_right_iff.2 (hagree.imp fun _ _ hrow => hrow.1)
  · rw [htotals "applied" (by decide), tallyOf_perm hreportsPerm, tallyOf_applied hsettled]
    rfl
  · rw [htotals "skipped" (by decide), tallyOf_perm hreportsPerm, tallyOf_skipped hsettled]
    rfl
  · obtain ⟨typed, htyped, htypedPerm⟩ := coverage_of_checked hsettled hreportsPerm hkinds
      (len_of_iter hcoverageRows hlen) hcovered hchecked
    exact ⟨coverage, coverageRows, typed, hcoverage, hcoverageRows, htyped, htypedPerm⟩

theorem reasonGiven_toJson {entry : Entry} (h : entry.Clean) (kind : MutationKind) :
    ReasonGiven (entry.report options kind).toJson (entry.report options kind) := by
  rcases h.report options kind with ⟨-, reason, hne, -, hreport⟩ | ⟨-, mutated, step, -, -, hreport⟩
  · rw [hreport]
    exact ⟨reason, hne, rfl⟩
  · rw [hreport]
    rfl

theorem keyedBy_toJson (options : RunOptions) (cell : Entry × MutationKind) :
    KeyedBy (cellReport options cell).toJson cell := by
  have hreport : (cellReport options cell).caseId = cell.1.case.id ∧
      (cellReport options cell).mutation = cell.2.id := by
    unfold cellReport Entry.report evaluate
    cases cell.2.apply cell.1.pair.ckb cell.1.case.focusStep <;> exact ⟨rfl, rfl⟩
  have hagrees := rowAgrees_toJson (cellReport options cell)
  exact ⟨hreport.1 ▸ hagrees.caseId, hreport.2 ▸ hagrees.mutation⟩

/-- A summary that passed is accepted. -/
theorem accepted_of_passed (h : ∀ entry ∈ entries, entry.Recorded engines options)
    (hpolicy : options.terminalPolicy = .exact) (hcases : Holds cases entries)
    (hpassed : (runMutations engines (entries.map Entry.case) options).passed = true) :
    ∃ counts, checkMutations
      (runMutations engines (entries.map Entry.case) options).toJson cases = .ok counts := by
  have hsettled := settled_reports h
  rw [runMutations_eq h] at hpassed ⊢
  have hcounts := (summarize_passed hsettled entries.length).1 hpassed
  have hkeyed : List.Forall₂ KeyedBy
      (((cells entries).map (cellReport options)).map MutationReport.toJson) (cells entries) := by
    rw [List.map_map, List.forall₂_map_left_iff, List.forall₂_same]
    intro cell _
    exact keyedBy_toJson options cell
  have hagree : List.Forall₂ (fun row cell => RowAgrees row (cellReport options cell) ∧
      ReasonGiven row (cellReport options cell))
      (((cells entries).map (cellReport options)).map MutationReport.toJson) (cells entries) := by
    rw [List.map_map, List.forall₂_map_left_iff, List.forall₂_same]
    intro cell hcell
    exact ⟨rowAgrees_toJson _, reasonGiven_toJson (h cell.1 (mem_cells.1 hcell)).clean cell.2⟩
  have hrows := (checkRows_iff h hpolicy hcases (fun cell hmem => mem_cells.1 hmem) hkeyed).2
    ⟨hagree, rfl⟩
  have hkeys : Py.collect reportKey
      (((cells entries).map (cellReport options)).map MutationReport.toJson) =
        .ok (((cells entries).map cellKey).map keyJson) := by
    rw [Py.collect_eq_ok, List.forall₂_map_right_iff, List.forall₂_map_right_iff]
    refine hkeyed.imp fun row cell hkey => ?_
    simp only [reportKey, hkey.1, hkey.2]
    rfl
  have hexpected := hcases.expectedKeys
  have hkinds : Py.collect (Json.getItem "mutation") ((MANDATORY_MUTATIONS.map (coverageOf
      ((cells entries).map (cellReport options)))).map MutationCoverage.toJson) =
        .ok ((MUTATIONS.map Prod.fst).map .str) := by
    rw [Py.collect_eq_ok, mutations_eq]
    simp only [List.map_map, List.forall₂_map_left_iff, List.forall₂_map_right_iff]
    exact List.forall₂_same.2 fun kind _ => rfl
  refine ⟨_, checkMutations_eq_ok.2 ⟨?_, ?_, ?_, _, _, _, _, _, _, _, rfl, rfl, hkeys, ?_,
    keysEq_of_perm hexpected.symm, hrows, ?_, rfl, rfl, rfl, hkinds,
    itemsEq_of_perm (List.Perm.refl _), ?_, rfl⟩⟩
  · rw [hcases.length_eq]
    rfl
  · rw [← hpassed]
    rfl
  · intro key hkey
    simp only [List.mem_cons, List.not_mem_nil, or_false] at hkey
    rcases hkey with rfl | rfl | rfl
    · rfl
    · exact congrArg (fun items => Except.ok (Json.arr (items.map .str)))
        (summarize_undetected hsettled _)
    · exact congrArg (fun items => Except.ok (Json.arr (items.map .str)))
        (summarize_mislocated hsettled _)
  · rw [List.length_map, hexpected.length_eq]
  · intro key hkey
    simp only [List.mem_cons, List.not_mem_nil, or_false] at hkey
    rcases hkey with rfl | rfl
    · rw [tallyOf_applied hsettled]
      rfl
    · rw [tallyOf_skipped hsettled]
      rfl
  · intro row hrow
    obtain ⟨coverage, hcoverage, rfl⟩ := List.mem_map.1 hrow
    obtain ⟨kind, -, rfl⟩ := List.mem_map.1 hcoverage
    exact checkCoverageRow_coverageOf hsettled (hcounts kind)

/-- The producer passes exactly when some case commits a register write. -/
theorem passed_iff_write (h : ∀ entry ∈ entries, entry.Recorded engines options) :
    (runMutations engines (entries.map Entry.case) options).passed = true ↔
      ∃ entry ∈ entries, ∃ event ∈ entry.pair.ckb.events, event.registerWrites ≠ [] := by
  have hcell : ∀ cell ∈ cells entries, ∀ kind, countsFor kind (cellReport options cell) = true ↔
      Applies cell.2 cell.1.pair.ckb ∧ cell.2 = kind := by
    intro cell hcell kind
    have hclean := (h cell.1 (mem_cells.1 hcell)).clean
    have hname : (cellReport options cell).mutation = cell.2.id :=
      Json.str.inj (Except.ok.inj ((rowAgrees_toJson _).mutation.symm.trans
        (keyedBy_toJson options cell).2))
    rw [countsFor, Bool.and_eq_true, decide_eq_true_eq, hname, id_injective.eq_iff]
    exact and_congr_left' (hclean.applied_iff options cell.2)
  have hcounts : ∀ kind : MutationKind,
      0 < (tallyOf ((cells entries).map (cellReport options))).counts kind.id ↔
        ∃ entry ∈ entries, Applies kind entry.pair.ckb := by
    intro kind
    rw [tallyOf_kind, List.countP_pos_iff]
    constructor
    · rintro ⟨report, hreport, hfor⟩
      obtain ⟨cell, hmem, rfl⟩ := List.mem_map.1 hreport
      obtain ⟨happlies, rfl⟩ := (hcell cell hmem kind).1 hfor
      exact ⟨cell.1, mem_cells.1 hmem, happlies⟩
    · rintro ⟨entry, hmem, happlies⟩
      have hin : (entry, kind) ∈ cells entries := mem_cells.2 hmem
      exact ⟨_, List.mem_map_of_mem hin, (hcell _ hin kind).2 ⟨happlies, rfl⟩⟩
  rw [runMutations_eq h, summarize_passed (settled_reports h)]
  simp only [hcounts]
  constructor
  · intro hall
    obtain ⟨entry, hmem, happlies⟩ := hall .registerIndex
    exact ⟨entry, hmem, happlies (.inl rfl)⟩
  · rintro ⟨entry, hmem, hwrite⟩ kind
    exact ⟨entry, hmem, fun _ => hwrite⟩

/-- The matrix the producer writes passes exactly when a case commits a register
write, and is accepted exactly when it passes; every accepted matrix holds its
reports and its numbers. -/
theorem mutation_matrix_agrees (hpolicy : options.terminalPolicy = .exact)
    (h : ∀ entry ∈ entries, entry.Recorded engines options) (hcases : Holds cases entries) :
    let summary := runMutations engines (entries.map Entry.case) options
    (summary.toJson.getItem "passed" = .ok (.bool true) ↔
        ∃ entry ∈ entries, ∃ event ∈ entry.pair.ckb.events, event.registerWrites ≠ []) ∧
      ((∃ counts, checkMutations summary.toJson cases = .ok counts) ↔
        summary.toJson.getItem "passed" = .ok (.bool true)) ∧
      ∀ value counts, checkMutations value cases = .ok counts → MatchesSummary value summary := by
  intro summary
  have hfield : summary.toJson.getItem "passed" = .ok (.bool true) ↔ summary.passed = true := by
    have hvalue : summary.toJson.getItem "passed" = .ok (.bool summary.passed) := rfl
    rw [hvalue]
    simp
  rw [hfield]
  refine ⟨passed_iff_write h, ⟨?_, accepted_of_passed h hpolicy hcases⟩, fun value counts =>
    matchesSummary_of_accepted h hpolicy hcases⟩
  rintro ⟨counts, haccepted⟩
  exact hfield.1 (checkMutations_eq_ok.1 haccepted).2.1

/-! ## The entries two passing runs leave behind -/

/-- A case with the artifact two runs that compare equal are stored in. -/
def storedEntry (case : TestProgram) (options : RunOptions) (environment : Environment)
    (directory : String) (pair : EnginePair) : Entry where
  case := case
  artifact := (caseArtifact case options environment
    (cleanRun case.instructions.length pair.ckb pair.packets) directory).toJson
  pair := pair

theorem storedEntry_recorded {case : TestProgram} {pair : EnginePair}
    (hpolicy : options.terminalPolicy = .exact)
    (hcompressed : ∀ word ∈ case.instructions, word &&& 0b11 ≠ 0b11 → word >>> 16 = 0)
    (hfocus : case.focusStep < case.instructions.length)
    (hfamily : MatchesFamily case.family (case.instructions[case.focusStep]))
    (hrun : runPair engines case options = .ok pair)
    (hpass : (CompareResult.compareWithPolicy pair.ckb pair.sail
      options.terminalPolicy).passed = true) (environment : Environment) (directory : String) :
    (storedEntry case options environment directory pair).Recorded engines options := by
  obtain ⟨ckb, sail, hckb, hsail, rfl⟩ : ∃ ckb sail, engines.runCkb case options = .ok ckb ∧
      engines.runSail case options = .ok sail ∧
      pair = ⟨ckb.trace, sail.trace, sail.rawPackets⟩ := by
    unfold runPair at hrun
    cases hckb : engines.runCkb case options with
    | error error => simp [hckb] at hrun
    | ok ckb =>
        cases hsail : engines.runSail case options with
        | error error => simp [hckb, hsail] at hrun
        | ok sail => exact ⟨ckb, sail, rfl, rfl, by simpa [hckb, hsail, eq_comm] using hrun⟩
  have htrace := (clean_of_passed hpolicy hcompressed hckb hsail hpass).1
  refine ⟨⟨_, _, checkCase_of_passed hpolicy hcompressed hfocus hfamily hckb hsail hpass
    directory ""⟩, ⟨_, rfl, rfl⟩, hrun, ⟨_, rfl, readsTrace_toJson _⟩, ⟨_, rfl, ?_⟩⟩
  rw [show (storedEntry case options environment directory
    ⟨ckb.trace, sail.trace, sail.rawPackets⟩).pair.sail = sail.trace from rfl, htrace]
  exact readsTrace_toJson _

end Agreement

theorem mutation_matrix_agrees_addi : ∃ pair : EnginePair,
    let entry := storedEntry addiCase addiOptions addiEnvironment "artifacts" pair
    let summary := @runMutations plainStrDebug addiEngines [addiCase] addiOptions
    (summary.toJson.getItem "passed" = .ok (.bool true) ↔
        ∃ other ∈ [entry], ∃ event ∈ other.pair.ckb.events, event.registerWrites ≠ []) ∧
      ((∃ counts, checkMutations summary.toJson ⟨[("addi", entry.artifact)], by simp⟩ =
          .ok counts) ↔ summary.toJson.getItem "passed" = .ok (.bool true)) ∧
      ∀ value counts, checkMutations value ⟨[("addi", entry.artifact)], by simp⟩ = .ok counts →
        MatchesSummary value summary := by
  let _ := plainStrDebug
  have hruns : (runPair addiEngines addiCase addiOptions).toOption.map (fun pair =>
      (CompareResult.compareWithPolicy pair.ckb pair.sail .exact).passed) = some true := by
    decide +kernel
  obtain ⟨pair, hrun, hpass⟩ := exists_ok_of_toOption_map hruns
  have hrecorded := storedEntry_recorded rfl addiCase_wide (by decide)
    ⟨0x707f, 0x13, by decide, by decide⟩ hrun hpass addiEnvironment "artifacts"
  exact ⟨pair, @mutation_matrix_agrees _ addiEngines addiOptions [storedEntry addiCase addiOptions
    addiEnvironment "artifacts" pair] _ rfl (by simpa using hrecorded) (List.Perm.refl _)⟩

end CkbSail.DiffTest
