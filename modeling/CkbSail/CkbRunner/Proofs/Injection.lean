import CkbSail.CkbRunner.Injection

/-!
# Runs of the CKB-VM side

`changedRegisters` is the state observer of the register files, and
`runStep_next_iff` says once what a pass that goes on has done.  `Executed`
collects what this gives for every event of a run.
-/

namespace CkbSail.CkbRunner

open CkbSail.Core RustStd ProofSupport

/-! ## The state delta -/

theorem zip_toList_zipIdx (before after : Registers) :
    (before.toList.zip after.toList).zipIdx =
      (List.finRange 32).map fun i => ((before.file i, after.file i), i.val) := by
  apply List.ext_getElem
  · simp
  · intro k hl hr
    simp [Registers.file]

/-- The delta the runner computes is the one of the state observer. -/
theorem changedRegisters_eq (before after : Registers) :
    changedRegisters before after =
      (RegisterObservers.delta architectural before.file after.file).map toWrite := by
  unfold changedRegisters RegisterObservers.delta
  rw [zip_toList_zipIdx, List.filterMap_map, List.map_filterMap]
  have hsplit : List.finRange 32 = 0 :: architectural := rfl
  rw [hsplit, List.filterMap_cons_none (by simp)]
  apply List.filterMap_congr
  intro i hi
  have hne : i.val ≠ 0 := fun h => mem_architectural.1 hi (Fin.ext h)
  by_cases h : before.file i = after.file i
  · simp [h]
  · simp [h, hne, toWrite]

theorem changedRegisters_index_ne_zero (before after : Registers) :
    ∀ w ∈ changedRegisters before after, w.index ≠ 0 := by
  rw [changedRegisters_eq]
  exact delta_index_ne_zero _ _

/-! ## One pass -/

section Pass

variable {vm : CkbVm}

/-- The event of a pass whose step succeeded and left the machine running. -/
def committed (vm : CkbVm) (order : Nat) (bits : UInt32) (machine stored machine' : vm.Machine) :
    CommitEvent :=
  { order := UInt64.ofNat order
    instruction := normalizeInstructionWidth bits
    pcBefore := vm.pc machine
    pcAfter := vm.pc machine'
    registerWrites := changedRegisters (vm.registers stored) (vm.registers machine')
    memory := []
    trap := false
    halt := false }

theorem committed_normalize (order : Nat) (bits : UInt32) (machine stored machine' : vm.Machine) :
    (committed vm order bits machine stored machine').normalize =
      committed vm order bits machine stored machine' :=
  CommitEvent.normalize_eq_self (changedRegisters_index_ne_zero _ _) (by simp [committed])

/-- A machine stores and executes one injected word without error, and still runs. -/
structure Executes (vm : CkbVm) (bits : UInt32) (machine : vm.Machine) (decoder : vm.Decoder)
    (stored machine' : vm.Machine) (decoder' : vm.Decoder) : Prop where
  store : vm.storeBytes (vm.pc machine) (leBytes bits) machine = (stored, .ok ())
  step : ∃ cleared, vm.resetInstructionsCache decoder = (cleared, .ok ()) ∧
    vm.step stored cleared = (machine', decoder', .ok ())
  running : vm.running machine' = true

/-- A pass goes on exactly when the program counter is in the window and the word
is executed; it pushes the event of the step. -/
theorem runStep_next_iff {order : Nat} {bits : UInt32} {s t : RunState vm} :
    runStep vm order bits s = .ok (.next t) ↔
      inWindow (vm.pc s.machine) = true ∧
        ∃ stored, Executes vm bits s.machine s.decoder stored t.machine t.decoder ∧
          t.events = s.events ++ [committed vm order bits s.machine stored t.machine] := by
  constructor
  · intro h
    unfold runStep at h
    by_cases hwindow : inWindow (vm.pc s.machine) = true
    · rcases hstore : vm.storeBytes (vm.pc s.machine) (leBytes bits) s.machine with
        ⟨stored, error | _⟩
      · simp [hwindow, hstore] at h
      rcases hreset : vm.resetInstructionsCache s.decoder with ⟨cleared, error | _⟩
      · simp [hwindow, hstore, hreset] at h
      rcases hstep : vm.step stored cleared with ⟨machine', decoder', error | _⟩
      · simp [hwindow, hstore, hreset, hstep] at h
      by_cases hrunning : vm.running machine' = true
      · simp only [hwindow, hstore, hreset, hstep, hrunning, not_true_eq_false, if_false,
          Bool.not_true, Except.isOk, Except.toBool, Except.ok.injEq, Flow.next.injEq] at h
        subst h
        exact ⟨hwindow, stored, ⟨hstore, ⟨cleared, hreset, hstep⟩, hrunning⟩,
          congrArg (s.events ++ [·]) (committed_normalize order bits s.machine stored machine')⟩
      · simp [hwindow, hstore, hreset, hstep, hrunning] at h
    · simp [hwindow] at h
  · rintro ⟨hwindow, stored, ⟨hstore, ⟨cleared, hreset, hstep⟩, hrunning⟩, hevents⟩
    have hnormal := committed_normalize order bits s.machine stored t.machine
    unfold runStep
    simp only [hwindow, hstore, hreset, hstep, hrunning, not_true_eq_false, if_false,
      Bool.not_true, Except.isOk, Except.toBool]
    rw [committed] at hnormal
    rw [hnormal, ← committed, ← hevents]

theorem runStep_pushes : Pushes (runStep vm) RunState.events := by
  intro order bits s t h
  obtain ⟨_, stored, _, hevents⟩ := runStep_next_iff.1 h
  exact ⟨_, hevents⟩

/-- An outcome a pass returns early is an error or an exit with a code. -/
theorem runStep_ret {order : Nat} {bits : UInt32} {s : RunState vm} {outcome : InjectionOutcome}
    (h : runStep vm order bits s = .ok (.ret outcome)) :
    (∃ message, outcome.trace.traceEnd = .error message) ∨
      ∃ code, outcome.trace.traceEnd = .completed (some code) := by
  unfold runStep at h
  by_cases hwindow : inWindow (vm.pc s.machine) = true
  · rcases hstore : vm.storeBytes (vm.pc s.machine) (leBytes bits) s.machine with
      ⟨stored, error | _⟩
    · simp only [hwindow, hstore, not_true_eq_false, if_false, Except.ok.injEq,
        Flow.ret.injEq] at h
      subst h
      exact Or.inl ⟨_, rfl⟩
    rcases hreset : vm.resetInstructionsCache s.decoder with ⟨cleared, error | _⟩
    · simp [hwindow, hstore, hreset] at h
    rcases hstep : vm.step stored cleared with ⟨machine', decoder', error | _⟩
    · simp only [hwindow, hstore, hreset, hstep, not_true_eq_false, if_false, Except.ok.injEq,
        Flow.ret.injEq] at h
      subst h
      exact Or.inl ⟨_, rfl⟩
    by_cases hrunning : vm.running machine' = true
    · simp [hwindow, hstore, hreset, hstep, hrunning] at h
    · simp only [hwindow, hstore, hreset, hstep, hrunning, not_true_eq_false, if_false,
        Except.ok.injEq, Bool.false_eq_true, not_false_eq_true, if_true, Flow.ret.injEq] at h
      subst h
      exact Or.inr ⟨_, rfl⟩
  · simp only [hwindow, Bool.false_eq_true, not_false_eq_true, if_true, Except.ok.injEq,
      Flow.ret.injEq] at h
    subst h
    exact Or.inl ⟨_, rfl⟩

end Pass

/-! ## Whole runs -/

section Run

variable {vm : CkbVm} {program : List UInt32} {config : InjectionConfig}

/-- The state after the first `k` passes of a run. -/
abbrev StateAfter (vm : CkbVm) (program : List UInt32) (config : InjectionConfig) (k : Nat)
    (state : RunState vm) : Prop :=
  After (runStep vm) program (initialState vm config) k state

/-- A trace comes from a program that was screened, and either all its words were
executed or the run stopped early. -/
theorem runProgram_ok {outcome : InjectionOutcome}
    (h : runProgram vm program config = .ok outcome) :
    validateProgram program = .ok () ∧
      ((∃ state, StateAfter vm program config program.length state ∧
          outcome = finish vm state.machine state.events .injectionComplete) ∨
        (∃ message, outcome.trace.traceEnd = .error message) ∨
        ∃ code, outcome.trace.traceEnd = .completed (some code)) := by
  unfold runProgram at h
  by_cases hempty : program.isEmpty = true
  · simp [hempty] at h
  cases hvalid : validateProgram program with
  | error e => simp [hempty, hvalid] at h
  | ok _ =>
      refine ⟨rfl, ?_⟩
      simp only [hempty, Bool.false_eq_true, if_false, hvalid] at h
      rcases hloop : enumerateLoop (runStep vm) 0 program (initialState vm config) with e | flow
      · simp [hloop] at h
      · cases flow with
        | ret early =>
            obtain ⟨k, hk, s, hs, hret⟩ := enumerateLoop_ret_iff.1 hloop
            obtain rfl : early = outcome := by simpa [hloop] using h
            exact Or.inr (runStep_ret hret)
        | next state =>
            refine Or.inl ⟨state, enumerateLoop_next_iff.1 hloop, ?_⟩
            simpa [hloop] using h.symm

theorem runProgram_of_stateAfter (hne : program ≠ []) (hvalid : validateProgram program = .ok ())
    {state : RunState vm} (h : StateAfter vm program config program.length state) :
    runProgram vm program config =
      .ok (finish vm state.machine state.events .injectionComplete) := by
  have hempty : program.isEmpty = false := by simpa using hne
  simp [runProgram, hempty, hvalid, enumerateLoop_next_iff.2 h]

/-- Step `k` of a run that went on: the machine states around it and its event. -/
structure Executed (vm : CkbVm) (program : List UInt32) (config : InjectionConfig)
    (events : List CommitEvent) (k : Nat) (s t : RunState vm) (event : CommitEvent) :
    Prop where
  before : StateAfter vm program config k s
  after : StateAfter vm program config (k + 1) t
  recorded : events[k]? = some event
  order : event.order = UInt64.ofNat k
  instruction : program[k]?.map normalizeInstructionWidth = some event.instruction
  pcBefore : event.pcBefore = vm.pc s.machine
  pcAfter : event.pcAfter = vm.pc t.machine
  registerWrites : event.registerWrites =
    (RegisterObservers.delta architectural (vm.registers s.machine).file
      (vm.registers t.machine).file).map toWrite
  memory : event.memory = []
  trap : event.trap = false
  halt : event.halt = false

/-- Every pass of a run that executed `n` words. -/
theorem committed_of_stateAfter {n : Nat} {state : RunState vm}
    (h : StateAfter vm program config n state) :
    state.events.length = n ∧
      ∀ k < n, ∃ (hk : k < program.length) (s t : RunState vm) (stored : vm.Machine),
        StateAfter vm program config k s ∧ StateAfter vm program config (k + 1) t ∧
          Executes vm program[k] s.machine s.decoder stored t.machine t.decoder ∧
          state.events[k]? = some (committed vm k program[k] s.machine stored t.machine) := by
  obtain ⟨hlen, hsteps⟩ := h.pushed runStep_pushes rfl
  refine ⟨hlen, fun k hk => ?_⟩
  obtain ⟨hitem, s, t, b, hs, ht, hbody, hb, hget⟩ := hsteps k hk
  obtain ⟨_, stored, hexec, hevents⟩ := runStep_next_iff.1 hbody
  obtain rfl : committed vm k program[k] s.machine stored t.machine = b := by
    rw [hevents] at hb
    simpa using hb
  exact ⟨hitem, s, t, stored, hs, ht, hexec, hget⟩

/-- Every step of a run that executed `n` words, on a machine whose registers
storing a word leaves alone. -/
theorem executed_of_stateAfter (hvm : vm.Lawful config) {n : Nat} {state : RunState vm}
    (h : StateAfter vm program config n state) :
    state.events.length = n ∧
      ∀ k < n, ∃ s t event, Executed vm program config state.events k s t event := by
  obtain ⟨hlen, hpasses⟩ := committed_of_stateAfter h
  refine ⟨hlen, fun k hk => ?_⟩
  obtain ⟨hitem, s, t, stored, hs, ht, hexec, hget⟩ := hpasses k hk
  have hstored : vm.registers stored = vm.registers s.machine := by
    have := hvm.storeBytes_registers (vm.pc s.machine) (leBytes program[k]) s.machine
    rwa [hexec.store] at this
  refine ⟨s, t, _, hs, ht, hget, rfl, ?_, rfl, rfl, ?_, rfl, rfl, rfl⟩
  · rw [List.getElem?_eq_getElem hitem]
    rfl
  · rw [committed, changedRegisters_eq, hstored]

end Run

end CkbSail.CkbRunner
