import CkbSail.CkbRunner.Proofs.Injection

/-!
# Traces of injected runs, failing runs included

`Reaches` follows the machine word by word and `EndsBy` names the five ways a
run can end, both without reference to the trace.  Every run ends in one of
them, and the end and the flags of its trace say in which.
-/

namespace CkbSail.CkbRunner

open CkbSail.Core RustStd ProofSupport

/-- What a run relies on: the program counter is the committed one, nothing but
a step moves it, and the instruction cache can be reset. -/
structure CkbVm.KeepsPc (vm : CkbVm) : Prop where
  commitPc_updatePc : ∀ pc machine, vm.pc (vm.commitPc (vm.updatePc pc machine)) = pc
  setRunning_pc : ∀ running machine, vm.pc (vm.setRunning running machine) = vm.pc machine
  storeBytes_pc : ∀ address bytes machine,
    vm.pc (vm.storeBytes address bytes machine).1 = vm.pc machine
  reset : ∀ decoder, ∃ cleared, vm.resetInstructionsCache decoder = (cleared, .ok ())

theorem CkbVm.KeepsPc.boot_pc {vm : CkbVm} (hvm : vm.KeepsPc) (config : InjectionConfig) :
    vm.pc (vm.boot config) = INJECTION_ENTRY := by
  rw [CkbVm.boot, hvm.setRunning_pc, hvm.commitPc_updatePc]

/-- A word stored at `pc` lies between the entry point and the end of the window. -/
def PcInWindow (pc : UInt64) : Prop :=
  INJECTION_ENTRY.toNat ≤ pc.toNat ∧
    pc.toNat ≤ INJECTION_ENTRY.toNat + INJECTION_WINDOW.toNat - 4

/-- The check of the runner does not wrap, whatever the program counter. -/
theorem inWindow_iff (pc : UInt64) : inWindow pc = true ↔ PcInWindow pc := by
  have hentry : INJECTION_ENTRY.toNat = 2147483648 := rfl
  have hwindow : INJECTION_WINDOW.toNat = 65536 := rfl
  have hsum : (INJECTION_ENTRY + INJECTION_WINDOW).toNat = 2147549184 := rfl
  unfold inWindow PcInWindow
  simp only [Bool.and_eq_true, decide_eq_true_eq, UInt64.le_iff_toNat_le, hentry, hwindow, hsum,
    UInt64.toNat_add]
  have hfour : (4 : UInt64).toNat = 4 := rfl
  have hlt := pc.toNat_lt
  omega

/-! ## The machine, word by word -/

/-- Storing and executing one word, with whatever result. -/
structure Steps (vm : CkbVm) (bits : UInt32) (machine : vm.Machine) (decoder : vm.Decoder)
    (stored machine' : vm.Machine) (decoder' : vm.Decoder) (result : Except String Unit) :
    Prop where
  window : PcInWindow (vm.pc machine)
  store : vm.storeBytes (vm.pc machine) (leBytes bits) machine = (stored, .ok ())
  step : ∃ cleared, vm.resetInstructionsCache decoder = (cleared, .ok ()) ∧
    vm.step stored cleared = (machine', decoder', result)

section Machine

variable (vm : CkbVm) (program : List UInt32) (config : InjectionConfig)

/-- The machine and its decoder after `k` words that were all executed without
error and left the machine running. -/
inductive Reaches : Nat → vm.Machine → vm.Decoder → Prop
  | boot : Reaches 0 (vm.boot config) (vm.newDecoder config.isa config.version)
  | step {k : Nat} {machine stored machine' : vm.Machine} {decoder decoder' : vm.Decoder}
      (hk : k < program.length) (before : Reaches k machine decoder)
      (steps : Steps vm program[k] machine decoder stored machine' decoder' (.ok ()))
      (running : vm.running machine' = true) :
      Reaches (k + 1) machine' decoder'

/-- The ways a run can end. -/
inductive Exit where
  | leftWindow
  | storeFailed
  | stepFailed
  | stopped
  | ranOut

/-- A run of the machine ends in the named way. -/
inductive EndsBy : Exit → Prop
  | leftWindow {k : Nat} {machine : vm.Machine} {decoder : vm.Decoder} (hk : k < program.length)
      (before : Reaches vm program config k machine decoder)
      (outside : ¬PcInWindow (vm.pc machine)) : EndsBy .leftWindow
  | storeFailed {k : Nat} {machine stored : vm.Machine} {decoder : vm.Decoder} {error : String}
      (hk : k < program.length) (before : Reaches vm program config k machine decoder)
      (inside : PcInWindow (vm.pc machine))
      (store : vm.storeBytes (vm.pc machine) (leBytes program[k]) machine =
        (stored, .error error)) : EndsBy .storeFailed
  | stepFailed {k : Nat} {machine stored machine' : vm.Machine} {decoder decoder' : vm.Decoder}
      {error : String} (hk : k < program.length)
      (before : Reaches vm program config k machine decoder)
      (steps : Steps vm program[k] machine decoder stored machine' decoder' (.error error)) :
      EndsBy .stepFailed
  | stopped {k : Nat} {machine stored machine' : vm.Machine} {decoder decoder' : vm.Decoder}
      (hk : k < program.length) (before : Reaches vm program config k machine decoder)
      (steps : Steps vm program[k] machine decoder stored machine' decoder' (.ok ()))
      (stopped : vm.running machine' = false) : EndsBy .stopped
  | ranOut {machine : vm.Machine} {decoder : vm.Decoder}
      (all : Reaches vm program config program.length machine decoder) : EndsBy .ranOut

end Machine

/-! ## One pass -/

section Pass

variable {vm : CkbVm}

/-- The event of a step with the given result. -/
def observed (vm : CkbVm) (order : Nat) (bits : UInt32) (machine stored machine' : vm.Machine)
    (result : Except String Unit) : CommitEvent :=
  { committed vm order bits machine stored machine' with
    trap := !result.isOk
    halt := !vm.running machine' }

theorem observed_ok (order : Nat) (bits : UInt32) {machine stored machine' : vm.Machine}
    (hrunning : vm.running machine' = true) :
    observed vm order bits machine stored machine' (.ok ()) =
      committed vm order bits machine stored machine' := by
  simp [observed, committed, hrunning, Except.isOk, Except.toBool]

theorem observed_normalize (order : Nat) (bits : UInt32) (machine stored machine' : vm.Machine)
    (result : Except String Unit) :
    (observed vm order bits machine stored machine' result).normalize =
      observed vm order bits machine stored machine' result :=
  CommitEvent.normalize_eq_self (changedRegisters_index_ne_zero _ _)
    (by simp [observed, committed])

/-- What a pass that returns leaves of the run, by the way the run ends. -/
inductive Returns (vm : CkbVm) (order : Nat) (bits : UInt32) (s : RunState vm) :
    Exit → InjectionOutcome → Prop
  | leftWindow (message : String) (outside : ¬PcInWindow (vm.pc s.machine)) :
      Returns vm order bits s .leftWindow (finish vm s.machine s.events (.error message))
  | storeFailed {stored : vm.Machine} {error : String} (message : String)
      (inside : PcInWindow (vm.pc s.machine))
      (store : vm.storeBytes (vm.pc s.machine) (leBytes bits) s.machine =
        (stored, .error error)) :
      Returns vm order bits s .storeFailed (finish vm stored s.events (.error message))
  | stepFailed {stored machine' : vm.Machine} {decoder' : vm.Decoder} {error : String}
      (steps : Steps vm bits s.machine s.decoder stored machine' decoder' (.error error)) :
      Returns vm order bits s .stepFailed (finish vm machine'
        (s.events ++ [observed vm order bits s.machine stored machine' (.error error)])
        (.error error))
  | stopped {stored machine' : vm.Machine} {decoder' : vm.Decoder}
      (steps : Steps vm bits s.machine s.decoder stored machine' decoder' (.ok ()))
      (stopped : vm.running machine' = false) :
      Returns vm order bits s .stopped (finish vm machine'
        (s.events ++ [observed vm order bits s.machine stored machine' (.ok ())])
        (.completed (some (vm.exitCode machine').toInt32)))

variable {order : Nat} {bits : UInt32} {s : RunState vm}

theorem runStep_leftWindow (outside : ¬PcInWindow (vm.pc s.machine)) :
    ∃ outcome, runStep vm order bits s = .ok (.ret outcome) ∧
      Returns vm order bits s .leftWindow outcome := by
  have hwindow : ¬inWindow (vm.pc s.machine) = true := by rwa [inWindow_iff]
  have hret : ∃ message, runStep vm order bits s =
      .ok (.ret (finish vm s.machine s.events (.error message))) := by
    unfold runStep
    exact ⟨_, if_pos hwindow⟩
  obtain ⟨message, hret⟩ := hret
  exact ⟨_, hret, .leftWindow message outside⟩

theorem runStep_storeFailed {stored : vm.Machine} {error : String}
    (inside : PcInWindow (vm.pc s.machine))
    (store : vm.storeBytes (vm.pc s.machine) (leBytes bits) s.machine = (stored, .error error)) :
    ∃ outcome, runStep vm order bits s = .ok (.ret outcome) ∧
      Returns vm order bits s .storeFailed outcome := by
  have hwindow : inWindow (vm.pc s.machine) = true := (inWindow_iff _).2 inside
  have hret : ∃ message, runStep vm order bits s =
      .ok (.ret (finish vm stored s.events (.error message))) := by
    unfold runStep
    simp only [hwindow, not_true_eq_false, if_false, store]
    exact ⟨_, rfl⟩
  obtain ⟨message, hret⟩ := hret
  exact ⟨_, hret, .storeFailed message inside store⟩

theorem runStep_stepFailed {stored machine' : vm.Machine} {decoder' : vm.Decoder} {error : String}
    (steps : Steps vm bits s.machine s.decoder stored machine' decoder' (.error error)) :
    ∃ outcome, runStep vm order bits s = .ok (.ret outcome) ∧
      Returns vm order bits s .stepFailed outcome := by
  have hwindow : inWindow (vm.pc s.machine) = true := (inWindow_iff _).2 steps.window
  obtain ⟨cleared, hreset, hstep⟩ := steps.step
  refine ⟨_, ?_, .stepFailed steps⟩
  rw [← observed_normalize]
  unfold runStep
  simp only [hwindow, not_true_eq_false, if_false, steps.store, hreset, hstep]
  rfl

theorem runStep_stopped {stored machine' : vm.Machine} {decoder' : vm.Decoder}
    (steps : Steps vm bits s.machine s.decoder stored machine' decoder' (.ok ()))
    (stopped : vm.running machine' = false) :
    ∃ outcome, runStep vm order bits s = .ok (.ret outcome) ∧
      Returns vm order bits s .stopped outcome := by
  have hwindow : inWindow (vm.pc s.machine) = true := (inWindow_iff _).2 steps.window
  obtain ⟨cleared, hreset, hstep⟩ := steps.step
  refine ⟨_, ?_, .stopped steps stopped⟩
  rw [← observed_normalize]
  unfold runStep observed
  simp only [hwindow, not_true_eq_false, if_false, steps.store, hreset, hstep, stopped,
    Bool.false_eq_true, not_false_eq_true, if_true]
  rfl

/-- `runStep_next_iff` in terms of `Steps`. -/
theorem runStep_next_steps_iff {t : RunState vm} :
    runStep vm order bits s = .ok (.next t) ↔
      ∃ stored, Steps vm bits s.machine s.decoder stored t.machine t.decoder (.ok ()) ∧
        vm.running t.machine = true ∧
        t.events = s.events ++ [committed vm order bits s.machine stored t.machine] := by
  rw [runStep_next_iff, inWindow_iff]
  constructor
  · rintro ⟨hwindow, stored, hexec, hevents⟩
    exact ⟨stored, ⟨hwindow, hexec.store, hexec.step⟩, hexec.running, hevents⟩
  · rintro ⟨stored, hsteps, hrunning, hevents⟩
    exact ⟨hsteps.window, stored, ⟨hsteps.store, hsteps.step, hrunning⟩, hevents⟩

/-- When the cache can be reset, a pass goes on or ends the run in one of four ways. -/
theorem runStep_cases (hvm : vm.KeepsPc) (order : Nat) (bits : UInt32) (s : RunState vm) :
    (∃ t, runStep vm order bits s = .ok (.next t)) ∨
      ∃ exit outcome, runStep vm order bits s = .ok (.ret outcome) ∧
        Returns vm order bits s exit outcome := by
  by_cases hwindow : PcInWindow (vm.pc s.machine)
  · rcases hstore : vm.storeBytes (vm.pc s.machine) (leBytes bits) s.machine with
      ⟨stored, error | _⟩
    · exact Or.inr ⟨_, runStep_storeFailed hwindow hstore⟩
    obtain ⟨cleared, hreset⟩ := hvm.reset s.decoder
    rcases hstep : vm.step stored cleared with ⟨machine', decoder', error | _⟩
    · exact Or.inr ⟨_, runStep_stepFailed ⟨hwindow, hstore, cleared, hreset, hstep⟩⟩
    have hsteps : Steps vm bits s.machine s.decoder stored machine' decoder' (.ok ()) :=
      ⟨hwindow, hstore, cleared, hreset, hstep⟩
    by_cases hrunning : vm.running machine' = true
    · let events := s.events ++ [committed vm order bits s.machine stored machine']
      exact Or.inl ⟨⟨machine', decoder', events⟩,
        runStep_next_steps_iff.2 ⟨stored, hsteps, hrunning, rfl⟩⟩
    · exact Or.inr ⟨_, runStep_stopped hsteps (by simpa using hrunning)⟩
  · exact Or.inr ⟨_, runStep_leftWindow hwindow⟩

end Pass

/-! ## Runs of the machine and runs of the loop -/

section Run

variable {vm : CkbVm} {program : List UInt32} {config : InjectionConfig}

/-- The machine of the loop goes through the states `Reaches` names. -/
theorem reaches_iff {k : Nat} {machine : vm.Machine} {decoder : vm.Decoder} :
    Reaches vm program config k machine decoder ↔
      ∃ events, StateAfter vm program config k ⟨machine, decoder, events⟩ := by
  constructor
  · intro h
    induction h with
    | boot => exact ⟨[], after_zero _ _⟩
    | @step k machine stored machine' decoder decoder' hk _ steps running ih =>
        obtain ⟨events, hs⟩ := ih
        let pushed := events ++ [committed vm k program[k] machine stored machine']
        refine ⟨pushed, after_succ_iff.2 ⟨hk, _, hs, ?_⟩⟩
        exact runStep_next_steps_iff.2 ⟨stored, steps, running, rfl⟩
  · rintro ⟨events, hs⟩
    induction k generalizing machine decoder events with
    | zero =>
        obtain ⟨rfl, rfl, -⟩ := RunState.mk.injEq .. ▸ hs.eq_init
        exact .boot
    | succ k ih =>
        obtain ⟨hk, s, hbefore, hbody⟩ := after_succ_iff.1 hs
        obtain ⟨stored, hsteps, hrunning, -⟩ := runStep_next_steps_iff.1 hbody
        exact .step hk (ih s.events hbefore) hsteps hrunning

/-- A pass that returns ends the run of the machine in its way. -/
theorem Returns.endsBy {k : Nat} (hk : k < program.length) {s : RunState vm} {exit : Exit}
    {outcome : InjectionOutcome} (hs : StateAfter vm program config k s)
    (h : Returns vm k program[k] s exit outcome) : EndsBy vm program config exit := by
  have hbefore : Reaches vm program config k s.machine s.decoder :=
    reaches_iff.2 ⟨s.events, hs⟩
  cases h with
  | leftWindow message outside => exact .leftWindow hk hbefore outside
  | storeFailed message inside store => exact .storeFailed hk hbefore inside store
  | stepFailed steps => exact .stepFailed hk hbefore steps
  | stopped steps stopped => exact .stopped hk hbefore steps stopped

/-- Every run ends. -/
theorem exists_endsBy (hvm : vm.KeepsPc) : ∃ exit, EndsBy vm program config exit := by
  by_contra hnone
  have hall : ∀ k ≤ program.length, ∃ s, StateAfter vm program config k s := by
    intro k
    induction k with
    | zero => exact fun _ => ⟨_, after_zero _ _⟩
    | succ k ih =>
        intro hk
        obtain ⟨s, hs⟩ := ih (by omega)
        rcases runStep_cases hvm k program[k] s with ⟨t, hnext⟩ | ⟨exit, outcome, -, hret⟩
        · exact ⟨t, after_succ_iff.2 ⟨hk, s, hs, hnext⟩⟩
        · exact absurd ⟨exit, hret.endsBy hk hs⟩ hnone
  obtain ⟨s, hs⟩ := hall program.length le_rfl
  exact hnone ⟨.ranOut, .ranOut (reaches_iff.2 ⟨s.events, hs⟩)⟩

/-- What a run that ends in the named way leaves: the state its last pass found
and the outcome. -/
inductive Leaves (vm : CkbVm) (program : List UInt32) (config : InjectionConfig) :
    Exit → InjectionOutcome → Prop
  | returned {k : Nat} {s : RunState vm} {exit : Exit} {outcome : InjectionOutcome}
      (hk : k < program.length) (before : StateAfter vm program config k s)
      (returns : Returns vm k program[k] s exit outcome) : Leaves vm program config exit outcome
  | ranOut {s : RunState vm} (all : StateAfter vm program config program.length s) :
      Leaves vm program config .ranOut (finish vm s.machine s.events .injectionComplete)

theorem EndsBy.runProgram (hne : program ≠ []) (hvalid : validateProgram program = .ok ())
    {exit : Exit} (h : EndsBy vm program config exit) :
    ∃ outcome, runProgram vm program config = .ok outcome ∧
      Leaves vm program config exit outcome := by
  have hreturned : ∀ {k : Nat} {machine : vm.Machine} {decoder : vm.Decoder}
      (hk : k < program.length), Reaches vm program config k machine decoder →
      (∀ events, ∃ outcome,
        runStep vm k program[k] ⟨machine, decoder, events⟩ = .ok (.ret outcome) ∧
          Returns vm k program[k] ⟨machine, decoder, events⟩ exit outcome) →
      ∃ outcome, CkbRunner.runProgram vm program config = .ok outcome ∧
        Leaves vm program config exit outcome := by
    intro k machine decoder hk hbefore hpass
    obtain ⟨events, hs⟩ := reaches_iff.1 hbefore
    obtain ⟨outcome, hbody, hret⟩ := hpass events
    refine ⟨outcome, ?_, .returned hk hs hret⟩
    have hempty : program.isEmpty = false := by simpa using hne
    simp [CkbRunner.runProgram, hempty, hvalid, enumerateLoop_ret_iff.2 ⟨k, hk, _, hs, hbody⟩]
  cases h with
  | leftWindow hk before outside =>
      exact hreturned hk before fun _ => runStep_leftWindow outside
  | storeFailed hk before inside store =>
      exact hreturned hk before fun _ => runStep_storeFailed inside store
  | stepFailed hk before steps => exact hreturned hk before fun _ => runStep_stepFailed steps
  | stopped hk before steps stopped =>
      exact hreturned hk before fun _ => runStep_stopped steps stopped
  | ranOut all =>
      obtain ⟨events, hs⟩ := reaches_iff.1 all
      exact ⟨_, runProgram_of_stateAfter hne hvalid hs, .ranOut hs⟩

/-! ## The events of a run -/

/-- Each event was observed by the pass of its index, and each but the last by
a pass that went on. -/
def ObservedBy (vm : CkbVm) (program : List UInt32) (config : InjectionConfig)
    (events : List CommitEvent) : Prop :=
  ∀ i event, events[i]? = some event →
    ∃ (hi : i < program.length) (s : RunState vm) (stored machine' : vm.Machine)
      (decoder' : vm.Decoder) (result : Except String Unit),
      StateAfter vm program config i s ∧
        Steps vm program[i] s.machine s.decoder stored machine' decoder' result ∧
        event = observed vm i program[i] s.machine stored machine' result ∧
        (i + 1 < events.length → result = .ok () ∧ vm.running machine' = true ∧
          ∃ t, StateAfter vm program config (i + 1) t ∧ t.machine = machine')

/-- The passes of a run that went on. -/
theorem passes_of_stateAfter {n : Nat} {state : RunState vm}
    (h : StateAfter vm program config n state) :
    state.events.length = n ∧
      ∀ i event, state.events[i]? = some event →
        ∃ (hi : i < program.length) (s t : RunState vm) (stored : vm.Machine),
          StateAfter vm program config i s ∧ StateAfter vm program config (i + 1) t ∧
            Steps vm program[i] s.machine s.decoder stored t.machine t.decoder (.ok ()) ∧
            vm.running t.machine = true ∧
            event = observed vm i program[i] s.machine stored t.machine (.ok ()) := by
  obtain ⟨hlen, hsteps⟩ := h.pushed runStep_pushes rfl
  refine ⟨hlen, fun i event hevent => ?_⟩
  have hi : i < n := by
    rw [← hlen]
    exact (List.getElem?_eq_some_iff.1 hevent).1
  obtain ⟨hitem, s, t, b, hs, ht, hbody, hb, hget⟩ := hsteps i hi
  obtain ⟨stored, hsteps, hrunning, hevents⟩ := runStep_next_steps_iff.1 hbody
  obtain rfl : b = event := by
    rw [hget] at hevent
    exact Option.some.inj hevent
  obtain rfl : committed vm i program[i] s.machine stored t.machine = b := by
    rw [hevents] at hb
    simpa using hb
  exact ⟨hitem, s, t, stored, hs, ht, hsteps, hrunning, (observed_ok _ _ hrunning).symm⟩

theorem observedBy_of_stateAfter {n : Nat} {state : RunState vm}
    (h : StateAfter vm program config n state) : ObservedBy vm program config state.events := by
  intro i event hevent
  obtain ⟨hi, s, t, stored, hs, ht, hsteps, hrunning, rfl⟩ :=
    (passes_of_stateAfter h).2 i event hevent
  exact ⟨hi, s, stored, t.machine, t.decoder, _, hs, hsteps, rfl,
    fun _ => ⟨rfl, hrunning, t, ht, rfl⟩⟩

/-- The last step of a run adds an event, whatever its result. -/
theorem observedBy_append {k : Nat} {state : RunState vm} (hk : k < program.length)
    (h : StateAfter vm program config k state) {stored machine' : vm.Machine}
    {decoder' : vm.Decoder} {result : Except String Unit}
    (hlast : Steps vm program[k] state.machine state.decoder stored machine' decoder' result) :
    ObservedBy vm program config
      (state.events ++ [observed vm k program[k] state.machine stored machine' result]) := by
  obtain ⟨hlen, hpasses⟩ := passes_of_stateAfter h
  intro i event hevent
  rcases Nat.lt_or_ge i k with hlt | hge
  · rw [List.getElem?_append_left (by omega)] at hevent
    obtain ⟨hi, s, t, stored, hs, ht, hsteps, hrunning, rfl⟩ := hpasses i event hevent
    exact ⟨hi, s, stored, t.machine, t.decoder, _, hs, hsteps, rfl,
      fun _ => ⟨rfl, hrunning, t, ht, rfl⟩⟩
  · have hbound := (List.getElem?_eq_some_iff.1 hevent).1
    simp only [List.length_append, List.length_singleton, hlen] at hbound
    obtain rfl : i = k := by omega
    rw [List.getElem?_append_right (by omega), hlen, Nat.sub_self] at hevent
    refine ⟨hk, state, stored, machine', decoder', result, h, hlast,
      (Option.some.inj hevent).symm, fun hnot => ?_⟩
    simp only [List.length_append, List.length_singleton, hlen] at hnot
    omega

/-- A trace whose events follow the program and the program counter. -/
structure WellFormed (program : List UInt32) (trace : ExecutionTrace) : Prop where
  length_le : trace.events.length ≤ program.length
  order : ∀ i event, trace.events[i]? = some event → event.order = UInt64.ofNat i
  instruction : ∀ (i : Nat) (event : CommitEvent), trace.events[i]? = some event →
    program[i]?.map normalizeInstructionWidth = some event.instruction
  entry : ∀ event, trace.events[0]? = some event → event.pcBefore = INJECTION_ENTRY
  chain : ∀ i event next, trace.events[i]? = some event → trace.events[i + 1]? = some next →
    next.pcBefore = event.pcAfter
  window : ∀ event ∈ trace.events, PcInWindow event.pcBefore
  indices : ∀ event ∈ trace.events,
    (event.registerWrites.map fun write => write.index.toNat).Pairwise (· < ·)
  registers : ∀ event ∈ trace.events, ∀ write ∈ event.registerWrites,
    1 ≤ write.index.toNat ∧ write.index.toNat ≤ 31
  flags : ∀ i event, trace.events[i]? = some event → i + 1 < trace.events.length →
    event.trap = false ∧ event.halt = false

/-- A state delta names registers in increasing order. -/
theorem changedRegisters_indices (before after : Registers) :
    ((changedRegisters before after).map fun write => write.index.toNat).Pairwise (· < ·) := by
  have hnames : ((RegisterObservers.delta architectural before.file after.file).map
      Prod.fst).Sublist architectural := RegisterObservers.delta_names_sublist _ _
  have hsorted : architectural.Pairwise (· < ·) := by decide
  rw [changedRegisters_eq, List.map_map]
  have hindex : (fun change : Fin 32 × UInt64 => (toWrite change).index.toNat) =
      Fin.val ∘ Prod.fst := by
    funext change
    exact toWrite_index change
  show List.Pairwise _ (List.map (fun change => (toWrite change).index.toNat) _)
  rw [hindex, ← List.map_map, List.pairwise_map]
  exact hsorted.sublist hnames

theorem changedRegisters_bounds (before after : Registers) :
    ∀ write ∈ changedRegisters before after,
      1 ≤ write.index.toNat ∧ write.index.toNat ≤ 31 := by
  intro write hmem
  have hne := changedRegisters_index_ne_zero before after write hmem
  rw [changedRegisters_eq] at hmem
  obtain ⟨change, -, rfl⟩ := List.mem_map.1 hmem
  have hindex := toWrite_index change
  have hlt := change.1.isLt
  have hpos : (toWrite change).index.toNat ≠ 0 := fun hzero => hne (UInt8.toNat_inj.1 hzero)
  omega

theorem wellFormed_of_observedBy (hvm : vm.KeepsPc) {trace : ExecutionTrace}
    (h : ObservedBy vm program config trace.events) : WellFormed program trace := by
  have hpc : ∀ event ∈ trace.events, ∃ (order : Nat) (bits : UInt32)
      (machine stored machine' : vm.Machine) (result : Except String Unit),
      PcInWindow (vm.pc machine) ∧
        event = observed vm order bits machine stored machine' result := by
    intro event hevent
    obtain ⟨i, hi⟩ := List.mem_iff_getElem?.1 hevent
    obtain ⟨_, s, stored, machine', _, result, _, hsteps, rfl, _⟩ := h i event hi
    exact ⟨_, _, _, _, _, _, hsteps.window, rfl⟩
  constructor
  case length_le =>
    by_contra hlong
    have hget := List.getElem?_eq_getElem (l := trace.events) (i := program.length) (by omega)
    obtain ⟨hi, _⟩ := h _ _ hget
    exact absurd hi (lt_irrefl _)
  case order =>
    intro i event hevent
    obtain ⟨_, s, stored, machine', _, result, _, _, rfl, _⟩ := h i event hevent
    rfl
  case instruction =>
    intro i event hevent
    obtain ⟨hi, s, stored, machine', _, result, _, _, rfl, _⟩ := h i event hevent
    rw [List.getElem?_eq_getElem hi]
    rfl
  case entry =>
    intro event hevent
    obtain ⟨_, s, stored, machine', _, result, hs, _, rfl, _⟩ := h 0 event hevent
    rw [hs.eq_init]
    exact hvm.boot_pc config
  case chain =>
    intro i event next hevent hnext
    obtain ⟨_, s, stored, machine', _, result, _, _, rfl, hgoes⟩ := h i event hevent
    obtain ⟨_, s', stored', machine'', _, result', hs', _, rfl, _⟩ := h (i + 1) next hnext
    obtain ⟨_, _, t, ht, rfl⟩ := hgoes (List.getElem?_eq_some_iff.1 hnext).1
    obtain rfl := hs'.unique ht
    rfl
  case window =>
    intro event hevent
    obtain ⟨_, _, _, _, _, _, hwindow, rfl⟩ := hpc event hevent
    exact hwindow
  case indices =>
    intro event hevent
    obtain ⟨_, _, _, _, _, _, _, rfl⟩ := hpc event hevent
    exact changedRegisters_indices _ _
  case registers =>
    intro event hevent
    obtain ⟨_, _, _, _, _, _, _, rfl⟩ := hpc event hevent
    exact changedRegisters_bounds _ _
  case flags =>
    intro i event hevent hmore
    obtain ⟨_, s, stored, machine', _, result, _, _, rfl, hgoes⟩ := h i event hevent
    obtain ⟨rfl, hrunning, -⟩ := hgoes hmore
    simp [observed, hrunning, Except.isOk, Except.toBool]

/-! ## The end and the flags -/

/-- No event of the trace reports a trap or a halt. -/
def Unflagged (trace : ExecutionTrace) : Prop :=
  ∀ event ∈ trace.events, event.trap = false ∧ event.halt = false

/-- The last event of the trace reports a trap. -/
def LastTraps (trace : ExecutionTrace) : Prop :=
  ∃ event, trace.events.getLast? = some event ∧ event.trap = true

/-- What the trace of a run shows of the way it ended. -/
def Shows (program : List UInt32) (trace : ExecutionTrace) : Exit → Prop
  | .leftWindow | .storeFailed =>
      (∃ message, trace.traceEnd = .error message) ∧ Unflagged trace ∧
        trace.events.length < program.length
  | .stepFailed => (∃ message, trace.traceEnd = .error message) ∧ LastTraps trace
  | .stopped => (∃ code, trace.traceEnd = .completed (some code)) ∧ ¬Unflagged trace
  | .ranOut => trace.traceEnd = .injectionComplete ∧ Unflagged trace ∧
      trace.events.length = program.length

theorem unflagged_of_stateAfter {n : Nat} {state : RunState vm} (traceEnd : TraceEnd)
    (h : StateAfter vm program config n state) : Unflagged ⟨state.events, traceEnd⟩ := by
  intro event hevent
  obtain ⟨i, hi⟩ := List.mem_iff_getElem?.1 hevent
  obtain ⟨_, s, t, stored, _, _, _, hrunning, rfl⟩ := (passes_of_stateAfter h).2 i event hi
  simp [observed, hrunning, Except.isOk, Except.toBool]

theorem Leaves.wellFormed (hvm : vm.KeepsPc) {exit : Exit} {outcome : InjectionOutcome}
    (h : Leaves vm program config exit outcome) : WellFormed program outcome.trace := by
  suffices h : ObservedBy vm program config outcome.trace.events from
    wellFormed_of_observedBy hvm h
  cases h with
  | ranOut all => exact observedBy_of_stateAfter all
  | returned hk before returns =>
      cases returns with
      | leftWindow => exact observedBy_of_stateAfter before
      | storeFailed => exact observedBy_of_stateAfter before
      | stepFailed steps => exact observedBy_append hk before steps
      | stopped steps => exact observedBy_append hk before steps

theorem Leaves.shows {exit : Exit} {outcome : InjectionOutcome}
    (h : Leaves vm program config exit outcome) : Shows program outcome.trace exit := by
  cases h with
  | ranOut all => exact ⟨rfl, unflagged_of_stateAfter _ all, (passes_of_stateAfter all).1⟩
  | returned hk before returns =>
      have hlen := (passes_of_stateAfter before).1
      cases returns with
      | leftWindow message =>
          exact ⟨⟨message, rfl⟩, unflagged_of_stateAfter _ before, hlen.trans_lt hk⟩
      | storeFailed message =>
          exact ⟨⟨message, rfl⟩, unflagged_of_stateAfter _ before, hlen.trans_lt hk⟩
      | stepFailed => exact ⟨⟨_, rfl⟩, _, List.getLast?_concat, rfl⟩
      | stopped _ stopped =>
          refine ⟨⟨_, rfl⟩, fun hnone => ?_⟩
          have hhalt := (hnone _ (List.mem_append_right _ (List.mem_singleton_self _))).2
          simp [observed, stopped] at hhalt

/-- A trapping event is a flagged one. -/
theorem LastTraps.not_unflagged {trace : ExecutionTrace} (h : LastTraps trace) :
    ¬Unflagged trace := by
  obtain ⟨event, hlast, htrap⟩ := h
  intro hnone
  have := (hnone event (List.mem_of_getLast? hlast)).1
  rw [htrap] at this
  cases this

/-! What the trace shows decides the exit, up to the two that leave no event. -/

theorem Shows.eq_stepFailed {trace : ExecutionTrace} {exit : Exit}
    (h : Shows program trace exit) {message : String} (hend : trace.traceEnd = .error message)
    (htraps : LastTraps trace) : exit = .stepFailed := by
  cases exit with
  | stepFailed => rfl
  | leftWindow => exact absurd h.2.1 htraps.not_unflagged
  | storeFailed => exact absurd h.2.1 htraps.not_unflagged
  | stopped =>
      obtain ⟨⟨code, hcode⟩, -⟩ := h
      cases hend.symm.trans hcode
  | ranOut => cases hend.symm.trans h.1

theorem Shows.eq_stopped {trace : ExecutionTrace} {exit : Exit} (h : Shows program trace exit)
    {code : Option Int32} (hend : trace.traceEnd = .completed code) : exit = .stopped := by
  cases exit with
  | stopped => rfl
  | leftWindow | storeFailed | stepFailed =>
      obtain ⟨⟨message, hmessage⟩, -⟩ := h
      cases hend.symm.trans hmessage
  | ranOut => cases hend.symm.trans h.1

theorem Shows.eq_eventless {trace : ExecutionTrace} {exit : Exit} (h : Shows program trace exit)
    {message : String} (hend : trace.traceEnd = .error message) (hnone : Unflagged trace) :
    exit = .leftWindow ∨ exit = .storeFailed := by
  cases exit with
  | leftWindow => exact Or.inl rfl
  | storeFailed => exact Or.inr rfl
  | stepFailed => exact absurd hnone h.2.not_unflagged
  | stopped => exact absurd hnone h.2
  | ranOut => cases hend.symm.trans h.1

theorem Shows.eq_ranOut {trace : ExecutionTrace} {exit : Exit} (h : Shows program trace exit)
    (hend : trace.traceEnd = .injectionComplete) : exit = .ranOut := by
  cases exit with
  | ranOut => rfl
  | leftWindow | storeFailed | stepFailed =>
      obtain ⟨⟨message, hmessage⟩, -⟩ := h
      cases hend.symm.trans hmessage
  | stopped =>
      obtain ⟨⟨code, hcode⟩, -⟩ := h
      cases hend.symm.trans hcode

theorem Shows.eq_ranOut_of_length {trace : ExecutionTrace} {exit : Exit}
    (h : Shows program trace exit) (hlen : trace.events.length = program.length)
    (hnone : Unflagged trace) : exit = .ranOut := by
  cases exit with
  | ranOut => rfl
  | leftWindow | storeFailed => exact absurd hlen h.2.2.ne
  | stepFailed => exact absurd hnone h.2.not_unflagged
  | stopped => exact absurd hnone h.2

/-- Every injected run leaves a well-formed trace, and its end and flags say how
the run of the machine ended. -/
theorem runProgram_trace (hvm : vm.KeepsPc) (hne : program ≠ [])
    (hvalid : validateProgram program = .ok ()) :
    ∃ outcome, runProgram vm program config = .ok outcome ∧ WellFormed program outcome.trace ∧
      ((∃ message, outcome.trace.traceEnd = .error message) ∧ LastTraps outcome.trace ↔
        EndsBy vm program config .stepFailed) ∧
      ((∃ code, outcome.trace.traceEnd = .completed code) ↔
        EndsBy vm program config .stopped) ∧
      ((∃ message, outcome.trace.traceEnd = .error message) ∧ Unflagged outcome.trace ↔
        EndsBy vm program config .leftWindow ∨ EndsBy vm program config .storeFailed) ∧
      (outcome.trace.traceEnd = .injectionComplete ↔ EndsBy vm program config .ranOut) ∧
      (outcome.trace.traceEnd = .injectionComplete ↔
        outcome.trace.events.length = program.length ∧ Unflagged outcome.trace) := by
  obtain ⟨exit, hexit⟩ : ∃ exit, EndsBy vm program config exit := exists_endsBy hvm
  obtain ⟨outcome, hrun, hleaves⟩ := hexit.runProgram hne hvalid
  have hshows : ∀ {other}, EndsBy vm program config other → Shows program outcome.trace other := by
    intro other hother
    obtain ⟨outcome', hrun', hleaves'⟩ := hother.runProgram hne hvalid
    obtain rfl : outcome = outcome' := Except.ok.inj (hrun.symm.trans hrun')
    exact hleaves'.shows
  have htrace := hshows hexit
  refine ⟨outcome, hrun, hleaves.wellFormed hvm, ⟨?_, hshows⟩, ⟨?_, fun h => ?_⟩,
    ⟨?_, fun h => ?_⟩, ⟨fun hend => ?_, fun h => (hshows h).1⟩, ⟨fun hend => ?_, ?_⟩⟩
  · rintro ⟨⟨message, hend⟩, htraps⟩
    exact htrace.eq_stepFailed hend htraps ▸ hexit
  · rintro ⟨code, hend⟩
    exact htrace.eq_stopped hend ▸ hexit
  · obtain ⟨⟨code, hend⟩, -⟩ := hshows h
    exact ⟨some code, hend⟩
  · rintro ⟨⟨message, hend⟩, hnone⟩
    rcases htrace.eq_eventless hend hnone with rfl | rfl
    · exact Or.inl hexit
    · exact Or.inr hexit
  · rcases h with h | h
    · exact ⟨(hshows h).1, (hshows h).2.1⟩
    · exact ⟨(hshows h).1, (hshows h).2.1⟩
  · exact htrace.eq_ranOut hend ▸ hexit
  · obtain rfl := htrace.eq_ranOut hend
    exact ⟨htrace.2.2, htrace.2.1⟩
  · rintro ⟨hlen, hnone⟩
    obtain rfl := htrace.eq_ranOut_of_length hlen hnone
    exact htrace.1

end Run

/-! The runner on a machine that executes `addi x0, x0, 0`. -/

structure NopMachine where
  pc : UInt64
  running : Bool

def nopVm : CkbVm where
  Machine := NopMachine
  Decoder := Unit
  newWithMemory _ _ := ⟨0, false⟩
  updatePc pc machine := { machine with pc := pc }
  commitPc machine := machine
  setRunning running machine := { machine with running := running }
  newDecoder _ _ := ()
  pc := NopMachine.pc
  registers _ := Vector.replicate 32 0
  running := NopMachine.running
  exitCode _ := 0
  storeBytes _ _ machine := (machine, .ok ())
  resetInstructionsCache decoder := (decoder, .ok ())
  step machine decoder := ({ machine with pc := machine.pc + 4 }, decoder, .ok ())

theorem nopVm_keepsPc : nopVm.KeepsPc where
  commitPc_updatePc _ _ := rfl
  setRunning_pc _ _ := rfl
  storeBytes_pc _ _ _ := rfl
  reset decoder := ⟨decoder, rfl⟩

/-- `addi x0, x0, 0`, twice. -/
def nops : List UInt32 := [0x00000013, 0x00000013]

theorem nopVm_steps {pc : UInt64} (hinside : PcInWindow pc) :
    Steps nopVm 0x00000013 ⟨pc, true⟩ () ⟨pc, true⟩ ⟨pc + 4, true⟩ () (.ok ()) :=
  ⟨hinside, rfl, (), rfl, rfl⟩

theorem runProgram_trace_nop :
    ∃ outcome, runProgram nopVm nops ⟨0, 2, 1000⟩ = .ok outcome ∧
      WellFormed nops outcome.trace ∧ outcome.trace.events.length = 2 ∧
      outcome.trace.traceEnd = .injectionComplete := by
  obtain ⟨outcome, hrun, hformed, -, -, -, hend, hlength⟩ :=
    @runProgram_trace nopVm nops ⟨0, 2, 1000⟩ nopVm_keepsPc (List.cons_ne_nil _ _) rfl
  have hfirst := nopVm_steps ((inWindow_iff INJECTION_ENTRY).1 rfl)
  have hsecond := nopVm_steps ((inWindow_iff (INJECTION_ENTRY + 4)).1 rfl)
  have hall : EndsBy nopVm nops ⟨0, 2, 1000⟩ .ranOut :=
    .ranOut (.step Nat.one_lt_two (.step Nat.two_pos .boot hfirst rfl) hsecond rfl)
  exact ⟨outcome, hrun, hformed, (hlength.1 (hend.2 hall)).1, hend.2 hall⟩

end CkbSail.CkbRunner
