import CkbSail.DiffTest.Proofs.MutationMatrix

/-!
# The totals of the mutation matrix

The producer counts its reports; the validator counts the rows it has checked.
Both count the cells of one matrix, so the totals and the tallies agree in
whatever order the rows come.
-/

namespace CkbSail.DiffTest

open CkbSail.Core RustStd PythonStd Scripts.RuntimeEvidence

/-! ## The categories -/

theorem mutations_eq :
    MUTATIONS = MANDATORY_MUTATIONS.map fun kind => (kind.id, kind.expectedField) := rfl

theorem mem_mandatory (kind : MutationKind) : kind ∈ MANDATORY_MUTATIONS := by
  cases kind <;> decide

theorem id_injective : Function.Injective MutationKind.id := by
  have hinjective : ∀ a ∈ MANDATORY_MUTATIONS, ∀ b ∈ MANDATORY_MUTATIONS, a.id = b.id → a = b := by
    decide
  exact fun a b => hinjective a (mem_mandatory a) b (mem_mandatory b)

theorem id_ne_counter (kind : MutationKind) : kind.id ≠ "applied" ∧ kind.id ≠ "skipped" := by
  cases kind <;> decide

/-! ## Settled reports -/

/-- A report of a mutation that was skipped or located. -/
structure Settled (report : MutationReport) : Prop where
  detected : report.detected = report.applied
  passed : report.passed = report.applied
  mutation : ∃ kind : MutationKind,
    report.mutation = kind.id ∧ report.expectedField = kind.expectedField

/-- Whether a report counts for a category. -/
def countsFor (kind : MutationKind) (report : MutationReport) : Bool :=
  report.applied && report.mutation = kind.id

/-- The counters of the validator after rows that hold these reports. -/
def tallyOf (reports : List MutationReport) : Tally :=
  Tally.empty.addAll (reports.map reportOutcome)

theorem sum_map_eq_countP {α : Type} {weight : α → Nat} {p : α → Bool} {items : List α}
    (h : ∀ item ∈ items, weight item = if p item then 1 else 0) :
    (items.map weight).sum = items.countP p := by
  induction items with
  | nil => rfl
  | cons item items ih =>
      rw [List.map_cons, List.sum_cons, List.countP_cons, h item List.mem_cons_self,
        ih fun other hmem => h other (List.mem_cons_of_mem _ hmem), Nat.add_comm]

theorem tallyOf_counts (reports : List MutationReport) (key : String) :
    (tallyOf reports).counts key =
      (reports.map fun report => (reportOutcome report).weight key).sum := by
  rw [tallyOf, Tally.addAll_counts, List.map_map]
  exact Nat.zero_add _

theorem tallyOf_perm {reports reports' : List MutationReport} (h : reports.Perm reports') :
    (tallyOf reports).counts = (tallyOf reports').counts := by
  funext key
  rw [tallyOf_counts, tallyOf_counts]
  exact (h.map _).sum_eq

section Tally

variable {reports : List MutationReport} (h : ∀ report ∈ reports, Settled report)
include h

theorem tallyOf_applied :
    (tallyOf reports).counts "applied" = reports.countP MutationReport.applied := by
  rw [tallyOf_counts]
  refine sum_map_eq_countP fun report hmem => ?_
  obtain ⟨kind, hkind, -⟩ := (h report hmem).mutation
  have hne := (id_ne_counter kind).1.symm
  cases happlied : report.applied <;> simp [reportOutcome, happlied, Outcome.weight, hkind, hne]

theorem tallyOf_skipped : (tallyOf reports).counts "skipped" =
    reports.length - reports.countP MutationReport.applied := by
  have hcount : (tallyOf reports).counts "skipped" =
      reports.countP fun report => !report.applied := by
    rw [tallyOf_counts]
    refine sum_map_eq_countP fun report hmem => ?_
    obtain ⟨kind, hkind, -⟩ := (h report hmem).mutation
    have hne := (id_ne_counter kind).2.symm
    cases happlied : report.applied <;> simp [reportOutcome, happlied, Outcome.weight, hkind, hne]
  have hlength := List.length_eq_countP_add_countP MutationReport.applied (l := reports)
  simp only [Bool.not_eq_true, Bool.decide_eq_false] at hlength
  omega

end Tally

theorem tallyOf_kind (reports : List MutationReport) (kind : MutationKind) :
    (tallyOf reports).counts kind.id = reports.countP (countsFor kind) := by
  rw [tallyOf_counts]
  refine sum_map_eq_countP fun report _ => ?_
  obtain ⟨hne, hne'⟩ := id_ne_counter kind
  cases happlied : report.applied <;>
    simp [reportOutcome, countsFor, happlied, Outcome.weight, hne, hne', eq_comm]

theorem tallyOf_located (reports : List MutationReport) (kind : MutationKind) :
    (tallyOf reports).located kind.id =
      (reports.filter (countsFor kind)).map fun report => .str report.caseId := by
  rw [tallyOf, Tally.addAll_located, List.filterMap_map, ← List.filterMap_eq_map,
    List.filterMap_filter]
  refine (List.nil_append _).trans (List.filterMap_congr fun report _ => ?_)
  cases happlied : report.applied <;>
    simp [reportOutcome, countsFor, happlied, Outcome.located, eq_comm]

/-! ## The summary -/

/-- The coverage of one category. -/
def coverageOf (reports : List MutationReport) (kind : MutationKind) : MutationCoverage :=
  let matching := reports.filter fun report => report.mutation = kind.id
  { mutation := kind.id
    expectedField := kind.expectedField
    applied := matching.countP MutationReport.applied
    located := matching.countP MutationReport.passed
    exampleCase := (matching.find? MutationReport.passed).map MutationReport.caseId }

theorem summarize_coverage (cases : Nat) (failures : List String)
    (reports : List MutationReport) :
    (summarize cases failures reports).coverage = MANDATORY_MUTATIONS.map (coverageOf reports) :=
  rfl

theorem coverageOf_applied (reports : List MutationReport) (kind : MutationKind) :
    (coverageOf reports kind).applied = reports.countP (countsFor kind) :=
  List.countP_filter

section Summary

variable {reports : List MutationReport} (h : ∀ report ∈ reports, Settled report)
include h

theorem coverageOf_located (kind : MutationKind) :
    (coverageOf reports kind).located = reports.countP (countsFor kind) := by
  have hcount : (coverageOf reports kind).located = reports.countP
      fun report => report.passed && decide (report.mutation = kind.id) := List.countP_filter
  rw [hcount]
  refine List.countP_congr fun report hmem => ?_
  rw [(h report hmem).passed, countsFor]

theorem summarize_undetected (cases : Nat) :
    (summarize cases [] reports).undetected = [] := by
  refine List.map_eq_nil_iff.2 (List.filter_eq_nil_iff.2 fun report hmem => ?_)
  rw [(h report hmem).detected, Bool.and_not_self]
  exact Bool.false_ne_true

theorem summarize_mislocated (cases : Nat) :
    (summarize cases [] reports).mislocated = [] := by
  refine List.map_eq_nil_iff.2 (List.filter_eq_nil_iff.2 fun report hmem => ?_)
  rw [(h report hmem).detected, (h report hmem).passed, Bool.and_not_self]
  exact Bool.false_ne_true

/-- The summary passes exactly when every category was applied somewhere. -/
theorem summarize_passed (cases : Nat) :
    (summarize cases [] reports).passed = true ↔
      ∀ kind : MutationKind, 0 < (tallyOf reports).counts kind.id := by
  have hpassed : (summarize cases [] reports).passed =
      ((summarize cases [] reports).coverage.all (fun entry => decide (entry.located > 0)) &&
        true && (summarize cases [] reports).undetected.isEmpty &&
        (summarize cases [] reports).mislocated.isEmpty && !reports.isEmpty) := rfl
  rw [hpassed, summarize_undetected h, summarize_mislocated h, summarize_coverage]
  simp only [List.all_map, Bool.and_true, Bool.and_eq_true, List.all_eq_true, List.isEmpty_nil,
    Function.comp_apply, decide_eq_true_eq, coverageOf_located h, tallyOf_kind,
    mem_mandatory, forall_const, Bool.not_eq_true', List.isEmpty_eq_false_iff, gt_iff_lt]
  refine ⟨And.left, fun hall => ⟨hall, ?_⟩⟩
  rintro rfl
  exact absurd (hall .trap) (by decide)

end Summary

/-! ## The cells -/

/-- The cells of the matrix: every case with every mutation. -/
def cells (entries : List Entry) : List (Entry × MutationKind) := entries ×ˢ MANDATORY_MUTATIONS

theorem mem_cells {entries : List Entry} {cell : Entry × MutationKind} :
    cell ∈ cells entries ↔ cell.1 ∈ entries := by
  rw [cells, List.mem_product, and_iff_left (mem_mandatory cell.2)]

def cellKey (cell : Entry × MutationKind) : String × String := (cell.1.case.id, cell.2.id)

/-- The dictionary of artifacts the validator is given for some entries. -/
def Holds (cases : Cases) (entries : List Entry) : Prop :=
  cases.entries.Perm (entries.map fun entry => (entry.case.id, entry.artifact))

theorem Holds.mem {cases : Cases} {entries : List Entry} (h : Holds cases entries) {entry : Entry}
    (hmem : entry ∈ entries) : (entry.case.id, entry.artifact) ∈ cases.entries :=
  (List.Perm.mem_iff h).2 (List.mem_map_of_mem hmem)

theorem Holds.length_eq {cases : Cases} {entries : List Entry} (h : Holds cases entries) :
    cases.entries.length = entries.length := by
  rw [List.Perm.length_eq h, List.length_map]

theorem Holds.expectedKeys {cases : Cases} {entries : List Entry} (h : Holds cases entries) :
    (expectedKeys cases).Perm ((cells entries).map cellKey) := by
  have hnames : cases.names.Perm (entries.map fun entry => entry.case.id) := by
    simpa only [Cases.names, List.map_map, Function.comp_def] using List.Perm.map Prod.fst h
  have hkeys : ((entries.map fun entry => entry.case.id).flatMap fun name =>
      MUTATIONS.map fun mutation => (name, mutation.1)) = (cells entries).map cellKey := by
    simp only [cells, SProd.sprod, List.product, List.map_flatMap, List.flatMap_map, List.map_map,
      mutations_eq]
    rfl
  exact hkeys ▸ hnames.flatMap_right _

/-- A row under the key of a cell. -/
def KeyedBy (row : Json) (cell : Entry × MutationKind) : Prop :=
  row.getItem "case_id" = .ok (.str cell.1.case.id) ∧
    row.getItem "mutation" = .ok (.str cell.2.id)

/-- Rows whose keys pass the check are the rows of the cells in some order. -/
theorem keyedBy_of_keys {cases : Cases} {entries : List Entry} (h : Holds cases entries)
    {rows : List Json} {keys : List (Json × Json)} (hkeys : Py.collect reportKey rows = .ok keys)
    (hlength : keys.length = (expectedKeys cases).length)
    (hset : keysEq keys (expectedKeys cases) = .ok true) :
    ∃ places, List.Forall₂ KeyedBy rows places ∧ places.Perm (cells entries) := by
  obtain ⟨names, rfl, hnames⟩ := keysEq_ok hlength hset
  have hmap : List.Forall₂ (fun key cell => key = cellKey cell) ((cells entries).map cellKey)
      (cells entries) := List.forall₂_map_left_iff.2 (List.forall₂_same.2 fun _ _ => rfl)
  obtain ⟨places, hplaces, hperm⟩ := List.perm_comp_forall₂ (hnames.trans h.expectedKeys) hmap
  refine ⟨places, ?_, hperm⟩
  have hrows := List.forall₂_map_right_iff.1 (Py.collect_eq_ok.1 hkeys)
  refine List.forall₂_iff_get.2 ⟨hrows.length_eq.trans hplaces.length_eq, fun i hi hi' => ?_⟩
  have hrow := hrows.get hi (hrows.length_eq ▸ hi)
  have hname := hplaces.get (hrows.length_eq ▸ hi) hi'
  rw [hname] at hrow
  simp only [reportKey, Py.bind_eq_ok, Py.pure_eq_ok] at hrow
  obtain ⟨case, hcase, kind, hkind, heq⟩ := hrow
  obtain ⟨rfl, rfl⟩ := Prod.mk.inj heq
  exact ⟨hcase, hkind⟩

/-- A list checked item by item against another one that settles each check. -/
theorem forall₂_checked_iff {α β γ : Type} {keyed : α → β → Prop} {checked : α → γ → Prop}
    {agrees : α → β → Prop} {f : β → γ} {as : List α} {bs : List β} {cs : List γ}
    (hkeyed : List.Forall₂ keyed as bs)
    (h : ∀ a, ∀ b ∈ bs, keyed a b → ∀ c, checked a c ↔ agrees a b ∧ c = f b) :
    List.Forall₂ checked as cs ↔ List.Forall₂ agrees as bs ∧ cs = bs.map f := by
  induction hkeyed generalizing cs with
  | nil => simp
  | @cons a b as bs hhead _ ih =>
      have hrest := fun cs => @ih cs fun a b hmem => h a b (List.mem_cons_of_mem _ hmem)
      rw [List.forall₂_cons_left_iff, List.forall₂_cons, List.map_cons]
      simp only [h a b List.mem_cons_self hhead, hrest]
      constructor
      · rintro ⟨c, cs, ⟨hagrees, rfl⟩, ⟨hagree, rfl⟩, rfl⟩
        exact ⟨⟨hagrees, hagree⟩, rfl⟩
      · rintro ⟨⟨hagrees, hagree⟩, rfl⟩
        exact ⟨_, _, ⟨hagrees, rfl⟩, ⟨hagree, rfl⟩, rfl⟩

section Matrix

variable [StrDebug]

/-- The report of one cell. -/
def cellReport (options : RunOptions) (cell : Entry × MutationKind) : MutationReport :=
  cell.1.report options cell.2

theorem Entry.Clean.settled {entry : Entry} (h : entry.Clean) (options : RunOptions)
    (kind : MutationKind) : Settled (entry.report options kind) := by
  rcases h.report options kind with ⟨-, reason, -, -, hreport⟩ | ⟨-, mutated, step, -, -, hreport⟩
  · rw [hreport]
    exact ⟨rfl, rfl, kind, rfl, rfl⟩
  · rw [hreport]
    exact ⟨rfl, rfl, kind, rfl, rfl⟩

variable {engines : Engines} {options : RunOptions} {entries : List Entry}

/-- The producer reports every cell, in order, and no baseline failure. -/
theorem runMutations_eq (h : ∀ entry ∈ entries, entry.Recorded engines options) :
    runMutations engines (entries.map Entry.case) options =
      summarize entries.length [] ((cells entries).map (cellReport options)) := by
  have hcase : ∀ entry ∈ entries, runMutationsCase engines options entry.case =
      ([], MANDATORY_MUTATIONS.map (entry.report options)) := by
    intro entry hmem
    have hpassed := (h entry hmem).clean.passed options.terminalPolicy
    simp only [runMutationsCase, (h entry hmem).run, hpassed, not_true_eq_false, if_false]
    rfl
  have hruns : (entries.map Entry.case).map (runMutationsCase engines options) =
      entries.map fun entry => ([], MANDATORY_MUTATIONS.map (entry.report options)) := by
    rw [List.map_map]
    exact List.map_congr_left hcase
  have hfailures : (entries.map fun entry => (([] : List String),
      MANDATORY_MUTATIONS.map (entry.report options))).flatMap Prod.fst = [] := by
    simp
  have hreports : (entries.map fun entry => (([] : List String),
      MANDATORY_MUTATIONS.map (entry.report options))).flatMap Prod.snd =
        (cells entries).map (cellReport options) := by
    simp only [cells, SProd.sprod, List.product, List.map_flatMap, List.flatMap_map, List.map_map]
    rfl
  rw [runMutations]
  simp only [hruns, hfailures, hreports, List.length_map]

/-- The rows pass exactly when each holds the report of its cell. -/
theorem checkRows_iff {cases : Cases} (h : ∀ entry ∈ entries, entry.Recorded engines options)
    (hpolicy : options.terminalPolicy = .exact) (hcases : Holds cases entries) {rows : List Json}
    {places : List (Entry × MutationKind)} (hplaces : ∀ cell ∈ places, cell.1 ∈ entries)
    (hkeyed : List.Forall₂ KeyedBy rows places) {final : Tally} :
    checkRows cases rows Tally.empty = .ok final ↔
      List.Forall₂ (fun row cell => RowAgrees row (cellReport options cell) ∧
        ReasonGiven row (cellReport options cell)) rows places ∧
        final = tallyOf (places.map (cellReport options)) := by
  have hchecked := fun outcomes => @forall₂_checked_iff _ _ _ KeyedBy
    (fun row outcome => checkRow cases row = .ok outcome)
    (fun row cell => RowAgrees row (cellReport options cell) ∧
      ReasonGiven row (cellReport options cell))
    (fun cell => reportOutcome (cellReport options cell)) rows places outcomes hkeyed
    fun row cell hmem hkey outcome => checkRow_eq_ok (h cell.1 (hplaces cell hmem)) hpolicy
      (hcases.mem (hplaces cell hmem)) hkey.1 hkey.2
  rw [checkRows_eq_ok, tallyOf, List.map_map]
  simp only [hchecked]
  constructor
  · rintro ⟨_, ⟨hagree, rfl⟩, rfl⟩
    exact ⟨hagree, rfl⟩
  · rintro ⟨hagree, rfl⟩
    exact ⟨_, ⟨hagree, rfl⟩, rfl⟩

end Matrix

end CkbSail.DiffTest
