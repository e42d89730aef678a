import CkbSail.Scripts.RuntimeEvidence
import Mathlib.Data.List.ProdSigma
import Mathlib.Data.Set.List

/-!
# The checks of the mutation matrix

Each row is checked on its own, and the counters depend only on what the rows
add to them.  The keys of an accepted matrix are a permutation of the expected
ones.
-/

namespace CkbSail.Scripts.RuntimeEvidence

open PythonStd

/-! ## Sets of values -/

section SameSet

variable {α β : Type} {encode : α → β} {same : β → α → Bool}

/-- A list with the items and the length of a list without duplicates is a
permutation of it. -/
theorem perm_of_same_set (hencode : Function.Injective encode)
    (hsame : ∀ b a, same b a = true ↔ b = encode a) {items : List β} {names : List α}
    (hnodup : names.Nodup) (hlength : items.length = names.length)
    (hitems : (items.all fun item => names.any fun name => same item name) = true)
    (hnames : (names.all fun name => items.any fun item => same item name) = true) :
    ∃ found : List α, items = found.map encode ∧ found.Perm names := by
  have hrange : ∀ item ∈ items, item ∈ Set.range encode := by
    intro item hitem
    obtain ⟨name, -, hname⟩ := List.any_eq_true.1 (List.all_eq_true.1 hitems item hitem)
    exact ⟨name, ((hsame item name).1 hname).symm⟩
  obtain ⟨found, rfl⟩ : items ∈ Set.range (List.map encode) := by
    rw [Set.range_list_map]
    exact hrange
  refine ⟨found, rfl, ?_⟩
  have hsubset : names ⊆ found := by
    intro name hname
    obtain ⟨item, hitem, heq⟩ := List.any_eq_true.1 (List.all_eq_true.1 hnames name hname)
    rw [(hsame item name).1 heq] at hitem
    exact (List.mem_map_of_injective hencode).1 hitem
  have hle : found.length ≤ names.length := by simpa using hlength.le
  exact ((List.subperm_of_subset hnodup hsubset).perm_of_length_le hle).symm

theorem same_set_of_perm (hsame : ∀ a, same (encode a) a = true) {found names : List α}
    (h : found.Perm names) :
    ((found.map encode).all fun item => names.any fun name => same item name) = true ∧
      (names.all fun name => (found.map encode).any fun item => same item name) = true := by
  simp only [List.all_map, List.any_map, List.all_eq_true, List.any_eq_true, Function.comp_apply]
  exact ⟨fun a ha => ⟨a, h.mem_iff.1 ha, hsame a⟩, fun a ha => ⟨a, h.mem_iff.2 ha, hsame a⟩⟩

end SameSet

/-- Values whose set is that of some names are the names in some order. -/
theorem itemsEq_ok {items : List Json} {names : List String} (hnodup : names.Nodup)
    (hlength : items.length = names.length) (h : Json.itemsEq items names = .ok true) :
    ∃ found : List String, items = found.map Json.str ∧ found.Perm names := by
  unfold Json.itemsEq at h
  split_ifs at h
  obtain ⟨hitems, hnames⟩ := Bool.and_eq_true_iff.1 (Except.ok.inj h)
  exact perm_of_same_set (fun _ _ h => Json.str.inj h) (fun _ _ => Json.eq_str_iff) hnodup hlength
    hitems hnames

theorem itemsEq_of_perm {found names : List String} (h : found.Perm names) :
    Json.itemsEq (found.map Json.str) names = .ok true := by
  have hhash : (found.map Json.str).all Json.hashable = true := by simp [Json.hashable]
  obtain ⟨hitems, hnames⟩ := @same_set_of_perm _ _ Json.str (fun item name => item.eq (.str name))
    (fun _ => Json.eq_str_iff.2 rfl) _ _ h
  simp only [Json.itemsEq, hhash, if_true, hitems, hnames, Bool.and_self]

/-! ## The keys -/

/-- A key as the reports hold it. -/
def keyJson (key : String × String) : Json × Json := (.str key.1, .str key.2)

theorem keyEq_iff {key : Json × Json} {expected : String × String} :
    keyEq key expected = true ↔ key = keyJson expected := by
  rw [keyEq, Bool.and_eq_true, Json.eq_str_iff, Json.eq_str_iff, keyJson, Prod.ext_iff]

theorem keyJson_injective : Function.Injective keyJson := by
  rintro ⟨a, b⟩ ⟨c, d⟩ h
  obtain ⟨hfirst, hsecond⟩ := Prod.mk.inj h
  exact Prod.ext (Json.str.inj hfirst) (Json.str.inj hsecond)

theorem expectedKeys_nodup (cases : Cases) : (expectedKeys cases).Nodup := by
  have hkinds : (MUTATIONS.map Prod.fst).Nodup := by decide
  have hproduct : expectedKeys cases = cases.names ×ˢ MUTATIONS.map Prod.fst := by
    simp only [expectedKeys, SProd.sprod, List.product, List.map_map, Function.comp_def]
  rw [hproduct]
  exact cases.nodup.product hkinds

/-- Keys that pass the check are the expected ones in some order. -/
theorem keysEq_ok {cases : Cases} {keys : List (Json × Json)}
    (hlength : keys.length = (expectedKeys cases).length)
    (h : keysEq keys (expectedKeys cases) = .ok true) :
    ∃ names : List (String × String),
      keys = names.map keyJson ∧ names.Perm (expectedKeys cases) := by
  unfold keysEq at h
  split_ifs at h
  obtain ⟨hkeys, hexpected⟩ := Bool.and_eq_true_iff.1 (Except.ok.inj h)
  exact perm_of_same_set keyJson_injective (fun key e => keyEq_iff) (expectedKeys_nodup cases)
    hlength hkeys hexpected

theorem keysEq_of_perm {cases : Cases} {names : List (String × String)}
    (h : names.Perm (expectedKeys cases)) :
    keysEq (names.map keyJson) (expectedKeys cases) = .ok true := by
  have hhash : ((names.map keyJson).all fun key => key.1.hashable && key.2.hashable) = true := by
    simp [keyJson, Json.hashable]
  obtain ⟨hkeys, hexpected⟩ := @same_set_of_perm _ _ keyJson keyEq (fun _ => keyEq_iff.2 rfl) _ _ h
  simp only [keysEq, hhash, if_true, hkeys, hexpected, Bool.and_self]

/-! ## The dictionaries -/

theorem Cases.artifact_of_mem {cases : Cases} {name : String} {artifact : Json}
    (h : (name, artifact) ∈ cases.entries) : cases.artifact (.str name) = .ok artifact := by
  obtain ⟨entries, hnodup⟩ := cases
  have hfind : (entries.find? fun entry => (Json.str name).eq (.str entry.1)) =
      some (name, artifact) := by
    induction entries with
    | nil => simp at h
    | cons entry entries ih =>
        rw [List.map_cons, List.nodup_cons] at hnodup
        rw [List.find?_cons, Json.str_eq_str]
        rcases List.mem_cons.1 h with rfl | hmem
        · simp
        · have hne : name ≠ entry.1 := by
            rintro rfl
            exact hnodup.1 (List.mem_map.2 ⟨_, hmem, rfl⟩)
          simpa [hne] using ih hnodup.2 hmem
  simp only [Cases.artifact, Json.hashable, if_true, hfind]

theorem mutationEntry_of_mem {entry : String × String} (h : entry ∈ MUTATIONS) :
    mutationEntry (.str entry.1) = .ok entry := by
  simp only [MUTATIONS, List.mem_cons, List.not_mem_nil, or_false] at h
  rcases h with rfl | rfl | rfl | rfl | rfl | rfl <;> decide

theorem mutationEntry_ok {kind : Json} {entry : String × String}
    (h : mutationEntry kind = .ok entry) : entry ∈ MUTATIONS ∧ kind = .str entry.1 := by
  unfold mutationEntry at h
  split_ifs at h
  cases hfind : MUTATIONS.find? fun entry => kind.eq (.str entry.1) with
  | none => simp [hfind] at h
  | some found =>
      obtain rfl : found = entry := by simpa [hfind] using h
      have heq : kind.eq (.str found.1) = true := by simpa using List.find?_some hfind
      exact ⟨List.mem_of_find?_eq_some hfind, Json.eq_str_iff.1 heq⟩

/-! ## The counters -/

/-- What one outcome adds to a counter. -/
def Outcome.weight (key : String) : Outcome → Nat
  | .skipped => if key = "skipped" then 1 else 0
  | .applied kind _ => (if key = "applied" then 1 else 0) + if key = kind then 1 else 0

/-- The case an outcome adds to those located for a kind. -/
def Outcome.located (key : String) : Outcome → Option Json
  | .skipped => none
  | .applied kind case => if key = kind then some case else none

theorem Tally.count_counts (tally : Tally) (key name : String) :
    (tally.count key).counts name = tally.counts name + if name = key then 1 else 0 := by
  simp only [Tally.count, Function.update_apply]
  split_ifs with h
  · rw [h]
  · rfl

theorem Tally.add_counts (tally : Tally) (outcome : Outcome) (key : String) :
    (tally.add outcome).counts key = tally.counts key + outcome.weight key := by
  cases outcome with
  | skipped => exact tally.count_counts "skipped" key
  | applied kind case =>
      simp only [Tally.add, Tally.count_counts, Outcome.weight]
      omega

theorem Tally.add_located (tally : Tally) (outcome : Outcome) (key : String) :
    (tally.add outcome).located key = tally.located key ++ (outcome.located key).toList := by
  cases outcome with
  | skipped => simp [Tally.add, Tally.count, Outcome.located]
  | applied kind case =>
      simp only [Tally.add, Tally.count, Outcome.located, Function.update_apply]
      split_ifs with h
      · rw [h]
        rfl
      · simp

/-- The counters after a list of outcomes. -/
def Tally.addAll (tally : Tally) (outcomes : List Outcome) : Tally := outcomes.foldl Tally.add tally

theorem Tally.addAll_counts (tally : Tally) (outcomes : List Outcome) (key : String) :
    (tally.addAll outcomes).counts key =
      tally.counts key + (outcomes.map (Outcome.weight key)).sum := by
  induction outcomes generalizing tally with
  | nil => rfl
  | cons outcome outcomes ih =>
      rw [Tally.addAll, List.foldl_cons, ← Tally.addAll, ih, Tally.add_counts, List.map_cons,
        List.sum_cons, Nat.add_assoc]

theorem Tally.addAll_located (tally : Tally) (outcomes : List Outcome) (key : String) :
    (tally.addAll outcomes).located key =
      tally.located key ++ outcomes.filterMap (Outcome.located key) := by
  induction outcomes generalizing tally with
  | nil => simp [Tally.addAll]
  | cons outcome outcomes ih =>
      rw [Tally.addAll, List.foldl_cons, ← Tally.addAll, ih, Tally.add_located,
        List.filterMap_cons]
      cases outcome.located key <;> simp

/-- The loop over the rows succeeds exactly when each row is checked; the counters
are then those of the outcomes. -/
theorem checkRows_eq_ok {cases : Cases} {rows : List Json} {tally final : Tally} :
    checkRows cases rows tally = .ok final ↔
      ∃ outcomes, List.Forall₂ (fun row outcome => checkRow cases row = .ok outcome) rows
        outcomes ∧ final = tally.addAll outcomes := by
  induction rows generalizing tally with
  | nil => simp [checkRows, Py.loop, Tally.addAll, eq_comm]
  | cons row rows ih =>
      rw [checkRows, Py.loop_cons_eq_ok]
      simp only [Py.bind_eq_ok, Py.pure_eq_ok]
      constructor
      · rintro ⟨next, ⟨outcome, hrow, rfl⟩, hrest⟩
        obtain ⟨outcomes, hrows, rfl⟩ := ih.1 hrest
        exact ⟨outcome :: outcomes, .cons hrow hrows, rfl⟩
      · rintro ⟨outcomes, hrows, rfl⟩
        obtain ⟨outcome, outcomes, hrow, hrest, rfl⟩ := List.forall₂_cons_left_iff.1 hrows
        exact ⟨_, ⟨outcome, hrow, rfl⟩, ih.2 ⟨outcomes, hrest, rfl⟩⟩

/-! ## The fields of a row -/

theorem flagIs_iff {row : Json} {key : String} {flag : Bool} :
    flagIs row key flag = .ok true ↔ row.getItem key = .ok (.bool flag) := by
  simp only [flagIs, Py.bind_eq_ok, Py.pure_eq_ok, Json.isBool_iff, exists_eq_right]

theorem noneAt_iff {row : Json} {key : String} :
    noneAt row key = .ok true ↔ row.getItem key = .ok .null := by
  simp only [noneAt, Py.bind_eq_ok, Py.pure_eq_ok, Json.isNone_iff, exists_eq_right]

theorem totalIs_iff {summary : Json} {key : String} {n : Nat} :
    totalIs summary key n = .ok true ↔ summary.getItem key = .ok (.int n) := by
  simp only [totalIs, Py.bind_eq_ok, Py.pure_eq_ok, Json.isInt_and_eq_iff, exists_eq_right]

theorem text_iff {value : Json} :
    (value.isStr && value.truthy) = true ↔ ∃ text, text ≠ "" ∧ value = .str text := by
  cases value <;> simp [Json.isStr, Json.truthy]

theorem checkSkipped_eq_ok {row : Json} {u : Unit} :
    checkSkipped row = .ok u ↔
      row.getItem "applied" = .ok (.bool false) ∧ row.getItem "detected" = .ok (.bool false) ∧
        row.getItem "passed" = .ok (.bool false) ∧ row.getItem "located_field" = .ok .null ∧
        row.getItem "located_step" = .ok .null ∧
        ∃ text, text ≠ "" ∧ row.getItem "skipped_because" = .ok (.str text) := by
  simp only [checkSkipped, requirePy_eq_ok, Py.conj_eq_true, List.forall_mem_cons,
    List.not_mem_nil, false_implies, implies_true, and_true, flagIs_iff, noneAt_iff,
    Py.bind_eq_ok, Py.pure_eq_ok, text_iff]
  constructor
  · rintro ⟨ha, hd, hp, hf, hs, _, hreason, text, hne, rfl⟩
    exact ⟨ha, hd, hp, hf, hs, text, hne, hreason⟩
  · rintro ⟨ha, hd, hp, hf, hs, text, hne, hreason⟩
    exact ⟨ha, hd, hp, hf, hs, _, hreason, text, hne, rfl⟩

theorem checkApplied_eq_ok {row : Json} {field : String} {step : Option Nat} {u : Unit} :
    checkApplied row field step = .ok u ↔
      row.getItem "applied" = .ok (.bool true) ∧ row.getItem "detected" = .ok (.bool true) ∧
        row.getItem "passed" = .ok (.bool true) ∧ row.getItem "skipped_because" = .ok .null ∧
        row.getItem "located_field" = .ok (.str field) ∧
        row.getItem "located_step" = .ok (stepJson step) := by
  have hsame : ∀ value : Json, value.same (stepJson step) = .ok true ↔ value = stepJson step := by
    intro value
    cases step with
    | none => exact Json.same_null_iff
    | some i => exact Json.same_int_iff
  simp only [checkApplied, requirePy_eq_ok, Py.conj_eq_true, List.forall_mem_cons,
    List.not_mem_nil, false_implies, implies_true, and_true, flagIs_iff, noneAt_iff,
    Py.bind_eq_ok, Py.pure_eq_ok, Json.eq_str_iff, hsame, exists_eq_right]

/-! ## The summary -/

theorem checkMutations_eq_ok {summary : Json} {cases : Cases} {counts : String → Nat} :
    checkMutations summary cases = .ok counts ↔
      summary.getItem "cases" = .ok (.int cases.entries.length) ∧
      summary.getItem "passed" = .ok (.bool true) ∧
      (∀ key ∈ ["baseline_failures", "undetected", "mislocated"],
        summary.getItem key = .ok (.arr [])) ∧
      ∃ reports rows keys tally coverage entries kinds,
        summary.getItem "reports" = .ok reports ∧ reports.iter = .ok rows ∧
        Py.collect reportKey rows = .ok keys ∧ keys.length = (expectedKeys cases).length ∧
        keysEq keys (expectedKeys cases) = .ok true ∧
        checkRows cases rows Tally.empty = .ok tally ∧
        (∀ key ∈ ["applied", "skipped"], summary.getItem key = .ok (.int (tally.counts key))) ∧
        summary.getItem "coverage" = .ok coverage ∧ coverage.len = .ok MUTATIONS.length ∧
        coverage.iter = .ok entries ∧ Py.collect (Json.getItem "mutation") entries = .ok kinds ∧
        Json.itemsEq kinds (MUTATIONS.map Prod.fst) = .ok true ∧
        (∀ entry ∈ entries, checkCoverageRow tally entry = .ok ()) ∧ counts = tally.counts := by
  simp only [checkMutations, Py.bind_eq_ok, Py.pure_eq_ok, requirePy_eq_ok, exists_const,
    totalIs_iff, Py.and_eq_true, flagIs_iff, Py.all_eq_true, Json.eq_nil_iff, exists_eq_right,
    Py.forEach_eq_ok, decide_eq_true_eq]
  constructor
  · rintro ⟨hcases, ⟨hpassed, hfailures⟩, reports, hreports, rows, hrows, keys, hkeys,
      ⟨hlength, hset⟩, tally, htally, htotals, coverage, hcoverage, length, hlen, entries,
      hentries, ⟨rfl, kinds, hkinds, hcovered⟩, hall, rfl⟩
    exact ⟨hcases, hpassed, hfailures, reports, rows, keys, tally, coverage, entries, kinds,
      hreports, hrows, hkeys, hlength, hset, htally, htotals, hcoverage, hlen, hentries, hkinds,
      hcovered, hall, rfl⟩
  · rintro ⟨hcases, hpassed, hfailures, reports, rows, keys, tally, coverage, entries, kinds,
      hreports, hrows, hkeys, hlength, hset, htally, htotals, hcoverage, hlen, hentries, hkinds,
      hcovered, hall, rfl⟩
    exact ⟨hcases, ⟨hpassed, hfailures⟩, reports, hreports, rows, hrows, keys, hkeys,
      ⟨hlength, hset⟩, tally, htally, htotals, coverage, hcoverage, _, hlen, entries, hentries,
      ⟨rfl, kinds, hkinds, hcovered⟩, hall, rfl⟩

theorem checkCoverageRow_eq_ok {tally : Tally} {row : Json} :
    checkCoverageRow tally row = .ok () ↔
      ∃ entry ∈ MUTATIONS, row.getItem "mutation" = .ok (.str entry.1) ∧
        0 < tally.counts entry.1 ∧ row.getItem "expected_field" = .ok (.str entry.2) ∧
        (∃ applied located, row.getItem "applied" = .ok applied ∧
          row.getItem "located" = .ok located ∧ applied.eq located = true ∧
          located.eq (.int (tally.counts entry.1)) = true) ∧
        ∃ exampleCase, row.getItem "example_case" = .ok exampleCase ∧
          ∃ case ∈ tally.located entry.1, case.eq exampleCase = true := by
  simp only [checkCoverageRow, Py.bind_eq_ok, requirePy_eq_ok, Py.conj_eq_true,
    List.forall_mem_cons, List.not_mem_nil, false_implies, implies_true, and_true, Py.pure_eq_ok,
    decide_eq_true_eq, Json.eq_str_iff, exists_eq_right, Bool.and_eq_true, List.any_eq_true]
  constructor
  · rintro ⟨kind, hkind, entry, hentry, hcount, hfield, ⟨applied, happlied, located, hlocated, heq,
      hnumber⟩, exampleCase, hexample, case, hcase, hmatch⟩
    obtain ⟨hmem, rfl⟩ := mutationEntry_ok hentry
    exact ⟨entry, hmem, hkind, hcount, hfield, ⟨applied, located, happlied, hlocated, heq, hnumber⟩,
      exampleCase, hexample, case, hcase, hmatch⟩
  · rintro ⟨entry, hmem, hkind, hcount, hfield, ⟨applied, located, happlied, hlocated, heq, hnumber⟩,
      exampleCase, hexample, case, hcase, hmatch⟩
    exact ⟨_, hkind, entry, mutationEntry_of_mem hmem, hcount, hfield, ⟨applied, happlied, located,
      hlocated, heq, hnumber⟩, exampleCase, hexample, case, hcase, hmatch⟩

end CkbSail.Scripts.RuntimeEvidence
