import CkbSail.DiffTest.Mutation
import CkbSail.Core.Proofs.Comparator

/-!
# Every mutation is detected and located

A mutation changes one event, drops the last one, or changes the termination.
On a pair that passes, the first difference is then exactly the mutated field of
the mutated event, the missing event, or the termination.
-/

namespace CkbSail.DiffTest

open CkbSail.Core RustStd ProofSupport

/-- Event `i` commits a register write. -/
def Writes (events : List CommitEvent) (i : Nat) : Prop :=
  ∃ event, events[i]? = some event ∧ event.registerWrites ≠ []

/-- The event a register mutation lands on: the focus event if it has a write,
else the first event that has one. -/
structure IsWriteTarget (events : List CommitEvent) (focusStep i : Nat) : Prop where
  writes : Writes events i
  focus : Writes events focusStep → i = focusStep
  first : ¬Writes events focusStep → ∀ j < i, ¬Writes events j

/-- The event a mutation lands on, and the step that must be reported. -/
def IsTarget (kind : MutationKind) (trace : ExecutionTrace) (focusStep : Nat)
    (step : Option Nat) : Prop :=
  match kind with
  | .pcAfter | .trap => step = some (min focusStep (trace.events.length - 1))
  | .registerIndex | .registerValue => ∃ i, IsWriteTarget trace.events focusStep i ∧ step = some i
  | .traceLength => step = some (trace.events.length - 1)
  | .termination => step = none

/-! ## Where a mutation lands -/

theorem eventIndex_eq_ok {trace : ExecutionTrace} {focusStep : Nat} (hne : trace.events ≠ []) :
    eventIndex trace focusStep = .ok (min focusStep (trace.events.length - 1)) := by
  simp [eventIndex, hne]

theorem writes_iff {events : List CommitEvent} {i : Nat} :
    Writes events i ↔ (events[i]?.any fun event => !event.registerWrites.isEmpty) = true := by
  unfold Writes
  cases events[i]? <;> simp

theorem writeIndex_eq_ok {trace : ExecutionTrace} {focusStep i : Nat}
    (h : writeIndex trace focusStep = .ok i) : IsWriteTarget trace.events focusStep i := by
  unfold writeIndex at h
  split_ifs at h with hfocus
  · obtain rfl : focusStep = i := by simpa using h
    have hwrites := writes_iff.2 hfocus
    exact ⟨hwrites, fun _ => rfl, fun hnot => absurd hwrites hnot⟩
  · cases hfind : trace.events.findIdx? fun event => !event.registerWrites.isEmpty with
    | none => simp [hfind] at h
    | some index =>
        obtain rfl : index = i := by simpa [hfind] using h
        obtain ⟨hlt, hhas, hbefore⟩ := List.findIdx?_eq_some_iff_getElem.1 hfind
        refine ⟨⟨_, List.getElem?_eq_getElem hlt, by simpa using hhas⟩,
          fun hwrites => absurd (writes_iff.1 hwrites) hfocus, fun _ j hj hwrites => ?_⟩
        obtain ⟨event, hevent, hne⟩ := hwrites
        have hjlt : j < trace.events.length := by omega
        rw [List.getElem?_eq_getElem hjlt] at hevent
        obtain rfl := Option.some.inj hevent
        exact hne (by simpa using hbefore j hj)

theorem writeIndex_eq_error (trace : ExecutionTrace) (focusStep : Nat) :
    (∃ reason, writeIndex trace focusStep = .error reason) ↔
      ∀ event ∈ trace.events, event.registerWrites = [] := by
  unfold writeIndex
  split_ifs with hfocus
  · obtain ⟨event, hevent, hne⟩ := writes_iff.2 hfocus
    simp only [exists_false, false_iff]
    exact fun h => hne (h event (List.mem_of_getElem? hevent))
  · cases hfind : trace.events.findIdx? fun event => !event.registerWrites.isEmpty with
    | none => simpa [List.findIdx?_eq_none_iff] using hfind
    | some index =>
        obtain ⟨hlt, hhas, -⟩ := List.findIdx?_eq_some_iff_getElem.1 hfind
        simp only [reduceCtorEq, exists_false, false_iff]
        intro h
        have hempty := h _ (List.getElem_mem hlt)
        simp [hempty] at hhas

/-! ## What the comparator reports -/

section Located

variable [StrDebug]

/-- Changing one field of one event moves the first difference there, when the
earlier fields keep their values. -/
theorem located_modifyEvent {ckb sail : ExecutionTrace} {policy : TerminalPolicy}
    (hpass : (CompareResult.compareWithPolicy ckb sail policy).passed = true)
    (field : Field) {i : Nat} {event : CommitEvent} (hevent : ckb.events[i]? = some event)
    {f : CommitEvent → CommitEvent}
    (hfield : Field.all.find? (CommitEvent.differs · (f event) event) = some field) :
    (CompareResult.compareWithPolicy (MutationKind.modifyEvent ckb i f) sail policy).located =
      some (some i, field.name) := by
  have hevents := events_eq_of_passed hpass
  obtain ⟨hlt, hget⟩ := List.getElem?_eq_some_iff.1 hevent
  have hset : ckb.events.modify i f = ckb.events.set i (f event) := by
    rw [List.modify_eq_set_getElem?, hevent]
    rfl
  rw [located_compareWithPolicy]
  simp only [MutationKind.modifyEvent, hset, ← hevents]
  rw [firstDifference_set CommitEvent.differs_self _ _ hlt, hget, hfield]
  rfl

theorem located_dropLast {ckb sail : ExecutionTrace} {policy : TerminalPolicy}
    (hpass : (CompareResult.compareWithPolicy ckb sail policy).passed = true) :
    (CompareResult.compareWithPolicy { ckb with events := ckb.events.dropLast } sail
        policy).located = some (some (ckb.events.length - 1), "trace_length") := by
  obtain ⟨hne, hevents, -⟩ := (passed_iff _ _ _).1 hpass
  have hself := firstDifference_self CommitEvent.differs_self Field.all
    ckb.events.dropLast [ckb.events.getLast hne]
  rw [List.dropLast_append_getLast] at hself
  have hpos := List.length_pos_iff.2 hne
  rw [located_compareWithPolicy]
  simp only [← hevents, hself, List.length_dropLast]
  rw [if_pos (by omega)]
  have hmin : min (ckb.events.length - 1) ckb.events.length = ckb.events.length - 1 := by omega
  rw [hmin]

theorem located_traceEnd {ckb sail : ExecutionTrace} {policy : TerminalPolicy}
    (hpass : (CompareResult.compareWithPolicy ckb sail policy).passed = true)
    {traceEnd : TraceEnd} (hend : traceEnd.category ≠ ckb.traceEnd.category) :
    (CompareResult.compareWithPolicy { ckb with traceEnd := traceEnd } sail policy).located =
      some (none, "termination") := by
  obtain ⟨-, hevents, hterminal⟩ := (passed_iff _ _ _).1 hpass
  have hmiss : terminalMatches traceEnd sail.traceEnd policy = false := by
    cases policy with
    | exact =>
        have heq : ckb.traceEnd = sail.traceEnd := by simpa [terminalMatches] using hterminal
        have hne : traceEnd ≠ sail.traceEnd := fun h => hend (by rw [h, heq])
        simpa [terminalMatches] using hne
    | categoryOnly =>
        have heq : ckb.traceEnd.category = sail.traceEnd.category := by
          simpa [terminalMatches] using hterminal
        simpa [terminalMatches, ← heq] using hend
  rw [located_compareWithPolicy, ← hevents]
  have hnone : firstDifference CommitEvent.differs Field.all 0 ckb.events ckb.events = none :=
    (firstDifference_eq_none_iff_agree rfl).2 rfl
  simp [hnone, hmiss]

end Located

/-! ## The changed fields -/

theorem find_pcAfter (event : CommitEvent) :
    Field.all.find? (CommitEvent.differs · { event with pcAfter := event.pcAfter + 2 } event) =
      some .pcAfter := by
  have hne : event.pcAfter + 2 ≠ event.pcAfter := by grind
  simp [Field.all, CommitEvent.differs, hne]

theorem find_trap (event : CommitEvent) :
    Field.all.find? (CommitEvent.differs · { event with trap := !event.trap } event) =
      some .trap := by
  simp [Field.all, CommitEvent.differs]

/-- Changing the first write of an event that has one changes its writes. -/
theorem find_modifyWrite {event : CommitEvent} (hne : event.registerWrites ≠ [])
    {f : RegisterWrite → RegisterWrite} (hf : ∀ write, f write ≠ write) :
    Field.all.find? (CommitEvent.differs · (MutationKind.modifyWrite f event) event) =
      some .registerWrites := by
  obtain ⟨write, rest, hwrites⟩ := List.exists_cons_of_ne_nil hne
  have hdiffers : (event.registerWrites.modify 0 f) ≠ event.registerWrites := by
    rw [hwrites, List.modify_zero_cons]
    exact fun h => hf write (List.cons.inj h).1
  simp [Field.all, CommitEvent.differs, MutationKind.modifyWrite, hdiffers]

theorem mutated_index_ne (write : RegisterWrite) :
    { write with index := if write.index ≥ 31 then 1 else write.index + 1 } ≠ write := by
  intro h
  have hindex := congrArg RegisterWrite.index h
  simp only at hindex
  split_ifs at hindex with hge
  · rw [← hindex] at hge
    exact absurd hge (by decide)
  · grind

theorem mutated_value_ne (write : RegisterWrite) :
    { write with value := write.value ^^^ 1 } ≠ write := by
  intro h
  have hvalue := congrArg RegisterWrite.value h
  simp only at hvalue
  have hone : write.value ^^^ (write.value ^^^ 1) = 1 := by
    rw [← UInt64.xor_assoc, UInt64.xor_self, UInt64.zero_xor]
  rw [hvalue, UInt64.xor_self] at hone
  exact absurd hone (by decide)

/-! ## Detection -/

/-- A mutation fails to apply to a non-empty trace exactly when it needs a register
write and no event has one. -/
theorem apply_eq_error {kind : MutationKind} {trace : ExecutionTrace} {focusStep : Nat}
    (hne : trace.events ≠ []) :
    (∃ reason, kind.apply trace focusStep = .error reason) ↔
      (kind = .registerIndex ∨ kind = .registerValue) ∧
        ∀ event ∈ trace.events, event.registerWrites = [] := by
  rw [← writeIndex_eq_error trace focusStep]
  cases kind <;> simp only [MutationKind.apply, eventIndex_eq_ok hne, Except.map] <;>
    cases writeIndex trace focusStep <;> simp [hne]

section Detect

variable [StrDebug]

/-- On a pair that passes, a mutation is reported at its event and in its field. -/
theorem located_apply {ckb sail mutated : ExecutionTrace} {policy : TerminalPolicy}
    (hpass : (CompareResult.compareWithPolicy ckb sail policy).passed = true)
    {kind : MutationKind} {focusStep : Nat} (happly : kind.apply ckb focusStep = .ok mutated) :
    ∃ step, IsTarget kind ckb focusStep step ∧
      (CompareResult.compareWithPolicy mutated sail policy).located =
        some (step, kind.expectedField) := by
  have hne := ((passed_iff _ _ _).1 hpass).1
  have hpos := List.length_pos_iff.2 hne
  have hclamp : min focusStep (ckb.events.length - 1) < ckb.events.length := by omega
  cases kind with
  | pcAfter =>
      simp only [MutationKind.apply, eventIndex_eq_ok hne, Except.map, Except.ok.injEq] at happly
      subst happly
      exact ⟨_, rfl, located_modifyEvent hpass .pcAfter (List.getElem?_eq_getElem hclamp)
        (find_pcAfter _)⟩
  | trap =>
      simp only [MutationKind.apply, eventIndex_eq_ok hne, Except.map, Except.ok.injEq] at happly
      subst happly
      exact ⟨_, rfl, located_modifyEvent hpass .trap (List.getElem?_eq_getElem hclamp)
        (find_trap _)⟩
  | registerIndex =>
      cases hindex : writeIndex ckb focusStep with
      | error reason => simp [MutationKind.apply, hindex, Except.map] at happly
      | ok i =>
          simp only [MutationKind.apply, hindex, Except.map, Except.ok.injEq] at happly
          subst happly
          have htarget := writeIndex_eq_ok hindex
          obtain ⟨event, hevent, hwrites⟩ := htarget.writes
          exact ⟨_, ⟨i, htarget, rfl⟩, located_modifyEvent hpass .registerWrites hevent
            (find_modifyWrite hwrites mutated_index_ne)⟩
  | registerValue =>
      cases hindex : writeIndex ckb focusStep with
      | error reason => simp [MutationKind.apply, hindex, Except.map] at happly
      | ok i =>
          simp only [MutationKind.apply, hindex, Except.map, Except.ok.injEq] at happly
          subst happly
          have htarget := writeIndex_eq_ok hindex
          obtain ⟨event, hevent, hwrites⟩ := htarget.writes
          exact ⟨_, ⟨i, htarget, rfl⟩, located_modifyEvent hpass .registerWrites hevent
            (find_modifyWrite hwrites mutated_value_ne)⟩
  | traceLength =>
      have hempty : ckb.events.isEmpty = false := by simpa using hne
      simp only [MutationKind.apply, hempty, Bool.false_eq_true, if_false, Except.ok.injEq]
        at happly
      subst happly
      exact ⟨_, rfl, located_dropLast hpass⟩
  | termination =>
      simp only [MutationKind.apply, Except.ok.injEq] at happly
      subst happly
      refine ⟨_, rfl, located_traceEnd hpass ?_⟩
      cases ckb.traceEnd <;> simp [TraceEnd.category]

/-- What `evaluate` reports of a mutation that applies. -/
theorem evaluate_of_apply {case : TestProgram} {kind : MutationKind}
    {ckb sail mutated : ExecutionTrace} {options : RunOptions} {step : Option Nat}
    (happly : kind.apply ckb case.focusStep = .ok mutated)
    (hlocated : (CompareResult.compareWithPolicy mutated sail options.terminalPolicy).located =
      some (step, kind.expectedField)) :
    evaluate case kind ckb sail options =
      { caseId := case.id
        mutation := kind.id
        description := kind.description
        applied := true
        skippedBecause := none
        expectedField := kind.expectedField
        locatedField := some kind.expectedField
        locatedStep := step
        detected := true
        passed := true } := by
  unfold CompareResult.located at hlocated
  obtain ⟨mismatch, hmismatch, hloc⟩ := Option.map_eq_some_iff.1 hlocated
  obtain ⟨rfl, hfield⟩ : mismatch.step = step ∧ mismatch.field = kind.expectedField := by
    simpa using hloc
  simp [evaluate, happly, hmismatch, hfield]

/-- On a pair that passes, a mutation applies unless it needs a register write and
there is none; when it applies it is reported at its event and in its field. -/
theorem mutation_detected_and_located {ckb sail : ExecutionTrace} {policy : TerminalPolicy}
    (hpass : (CompareResult.compareWithPolicy ckb sail policy).passed = true)
    (kind : MutationKind) (focusStep : Nat) :
    ((∃ reason, kind.apply ckb focusStep = .error reason) ↔
        (kind = .registerIndex ∨ kind = .registerValue) ∧
          ∀ event ∈ ckb.events, event.registerWrites = []) ∧
      ∀ mutated, kind.apply ckb focusStep = .ok mutated →
        ∃ step, IsTarget kind ckb focusStep step ∧
          (CompareResult.compareWithPolicy mutated sail policy).located =
            some (step, kind.expectedField) ∧
          ∀ case options, case.focusStep = focusStep → options.terminalPolicy = policy →
            (evaluate case kind ckb sail options).applied = true ∧
              (evaluate case kind ckb sail options).detected = true ∧
              (evaluate case kind ckb sail options).passed = true := by
  refine ⟨apply_eq_error ((passed_iff _ _ _).1 hpass).1, fun mutated happly => ?_⟩
  obtain ⟨step, htarget, hlocated⟩ := located_apply hpass happly
  refine ⟨step, htarget, hlocated, fun case options hfocus hpolicy => ?_⟩
  subst hfocus
  subst hpolicy
  rw [evaluate_of_apply happly hlocated]
  exact ⟨rfl, rfl, rfl⟩

end Detect

/-- A run of two steps that writes x31 twice. -/
def wrapTrace : ExecutionTrace :=
  ⟨[⟨0, 0x00500f93, 0x80000000, 0x80000004, [⟨31, 5⟩], [], false, false⟩,
    ⟨1, 0x00700f93, 0x80000004, 0xffffffffffffffff, [⟨31, 7⟩], [], false, false⟩], .stepLimit⟩

theorem mutation_detected_and_located_wrap :
    (@CompareResult.compareWithPolicy plainStrDebug wrapTrace wrapTrace .categoryOnly).passed =
        true ∧
      ∃ mutated step, MutationKind.registerIndex.apply wrapTrace 9 = .ok mutated ∧
        IsTarget .registerIndex wrapTrace 9 step ∧
        (@CompareResult.compareWithPolicy plainStrDebug mutated wrapTrace .categoryOnly).located =
          some (step, "register_writes") := by
  let _ := plainStrDebug
  have hpass : (CompareResult.compareWithPolicy wrapTrace wrapTrace .categoryOnly).passed = true := by
    decide +kernel
  have hdetected := (mutation_detected_and_located hpass .registerIndex 9).2
  cases happly : MutationKind.registerIndex.apply wrapTrace 9 with
  | error reason => cases happly
  | ok mutated =>
      obtain ⟨step, htarget, hlocated, -⟩ := hdetected mutated happly
      exact ⟨hpass, mutated, step, rfl, htarget, hlocated⟩

end CkbSail.DiffTest
