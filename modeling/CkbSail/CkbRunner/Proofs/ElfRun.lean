import CkbSail.CkbRunner.Elf
import CkbSail.CkbRunner.Proofs.InjectionTrace

/-!
# Traces of ELF runs

Whatever the machine does, the events of a run are numbered and chained, only the last
one traps or halts, and the end of the trace says which.
-/

namespace CkbSail.CkbRunner

open CkbSail.Core RustStd

theorem getElem?_concat_eq_some {α : Type} {xs : List α} {x y : α} {i : Nat} :
    (xs ++ [x])[i]? = some y ↔ xs[i]? = some y ∨ i = xs.length ∧ x = y := by
  rcases lt_trichotomy i xs.length with h | rfl | h
  · rw [List.getElem?_append_left h]
    constructor
    · exact Or.inl
    · rintro (hy | ⟨hi, -⟩)
      · exact hy
      · omega
  · simp
  · rw [List.getElem?_eq_none (by rw [List.length_append, List.length_singleton]; omega),
      List.getElem?_eq_none (by omega)]
    simp only [reduceCtorEq, false_or, false_iff, not_and]
    omega

/-! ## Linked events -/

/-- Events of one run, in order: each starts where the one before it ended, and none but
the last stops the run. -/
structure Linked (events : List CommitEvent) : Prop where
  order : ∀ i event, events[i]? = some event → event.order = UInt64.ofNat i
  chain : ∀ i event next, events[i]? = some event → events[i + 1]? = some next →
    next.pcBefore = event.pcAfter
  flags : ∀ i event, events[i]? = some event → i + 1 < events.length →
    event.trap = false ∧ event.halt = false
  memory : ∀ event ∈ events, event.memory = []
  indices : ∀ event ∈ events,
    (event.registerWrites.map fun write => write.index.toNat).Pairwise (· < ·)
  registers : ∀ event ∈ events, ∀ write ∈ event.registerWrites,
    1 ≤ write.index.toNat ∧ write.index.toNat ≤ 31

theorem Linked.nil : Linked [] where
  order := by simp
  chain := by simp
  flags := by simp
  memory := by simp
  indices := by simp
  registers := by simp

/-- One more event, after a run that has not stopped. -/
theorem Linked.concat {events : List CommitEvent} {event : CommitEvent} (h : Linked events)
    (hlast : ∀ last, events.getLast? = some last →
      last.trap = false ∧ last.halt = false ∧ event.pcBefore = last.pcAfter)
    (horder : event.order = UInt64.ofNat events.length) (hmemory : event.memory = [])
    (hindices : (event.registerWrites.map fun write => write.index.toNat).Pairwise (· < ·))
    (hregisters : ∀ write ∈ event.registerWrites,
      1 ≤ write.index.toNat ∧ write.index.toNat ≤ 31) : Linked (events ++ [event]) := by
  have hend : ∀ i other, events[i]? = some other → i + 1 = events.length →
      events.getLast? = some other := by
    intro i other hother hi
    rw [List.getLast?_eq_getElem?, ← hi]
    exact hother
  constructor
  case order =>
    intro i other hother
    rcases getElem?_concat_eq_some.1 hother with hold | ⟨rfl, rfl⟩
    · exact h.order i other hold
    · exact horder
  case chain =>
    intro i other next hother hnext
    rcases getElem?_concat_eq_some.1 hnext with hnext' | ⟨hi, rfl⟩
    · have hlt := (List.getElem?_eq_some_iff.1 hnext').1
      rcases getElem?_concat_eq_some.1 hother with hold | ⟨rfl, -⟩
      · exact h.chain i other next hold hnext'
      · omega
    · rcases getElem?_concat_eq_some.1 hother with hold | ⟨rfl, -⟩
      · exact (hlast other (hend i other hold hi)).2.2
      · omega
  case flags =>
    intro i other hother hi
    rw [List.length_append, List.length_singleton] at hi
    rcases getElem?_concat_eq_some.1 hother with hold | ⟨rfl, -⟩
    · by_cases hmore : i + 1 < events.length
      · exact h.flags i other hold hmore
      · have hstops := hlast other (hend i other hold (by omega))
        exact ⟨hstops.1, hstops.2.1⟩
    · omega
  case memory =>
    exact List.forall_mem_append.2 ⟨h.memory, List.forall_mem_singleton.2 hmemory⟩
  case indices =>
    exact List.forall_mem_append.2 ⟨h.indices, List.forall_mem_singleton.2 hindices⟩
  case registers =>
    exact List.forall_mem_append.2 ⟨h.registers, List.forall_mem_singleton.2 hregisters⟩

/-- An event that may stop the run is the last one. -/
theorem Linked.flags_or_last {events : List CommitEvent} (h : Linked events) {event : CommitEvent}
    (hevent : event ∈ events) :
    (event.trap = false ∧ event.halt = false) ∨ events.getLast? = some event := by
  obtain ⟨i, hi⟩ := List.mem_iff_getElem?.1 hevent
  have hlt : i < events.length := (List.getElem?_eq_some_iff.1 hi).1
  by_cases hmore : i + 1 < events.length
  · exact Or.inl (h.flags i event hi hmore)
  · refine Or.inr ?_
    rw [List.getLast?_eq_getElem?, ← hi]
    congr 1
    omega

/-! ## The loop -/

section Loop

variable {vm : ElfVm}

/-- What a run relies on: `running` reads the flag that `set_running` sets. -/
structure ElfVm.KeepsRunning (vm : ElfVm) : Prop where
  running_setRunning : ∀ running machine, vm.running (vm.setRunning running machine) = running

/-- A machine after events that all succeeded. -/
structure Progress (vm : ElfVm) (machine : vm.Machine) (events : List CommitEvent) : Prop where
  linked : Linked events
  started : events = [] → vm.running machine = true
  last : ∀ event, events.getLast? = some event →
    event.trap = false ∧ event.halt = !vm.running machine ∧ event.pcAfter = vm.pc machine

/-- The last event of the trace reports a halt. -/
def LastHalts (trace : ExecutionTrace) : Prop :=
  ∃ event, trace.events.getLast? = some event ∧ event.halt = true

/-- The trace of a run of at most `limit` steps. -/
structure ElfTrace (limit : Nat) (trace : ExecutionTrace) : Prop where
  linked : Linked trace.events
  length_le : trace.events.length ≤ limit
  stepLimit : trace.traceEnd = .stepLimit → trace.events.length = limit ∧ Unflagged trace
  completed : ∀ code, trace.traceEnd = .completed code → code.isSome = true ∧
    (∀ event ∈ trace.events, event.trap = false) ∧ LastHalts trace
  error : ∀ message, trace.traceEnd = .error message →
    LastTraps trace ∨ Unflagged trace ∧ trace.events.length < limit
  kinds : trace.traceEnd = .stepLimit ∨ (∃ code, trace.traceEnd = .completed code) ∨
    ∃ message, trace.traceEnd = .error message

theorem elfEvent_eq (order : Nat) (bits : UInt32) (stepped : vm.Machine) (pcBefore : UInt64)
    (before : Registers) (result : Except String Unit) :
    elfEvent vm order bits stepped pcBefore before result =
      { order := UInt64.ofNat order
        instruction := normalizeInstructionWidth bits
        pcBefore := pcBefore
        pcAfter := vm.pc stepped
        registerWrites := changedRegisters before (vm.registers stepped)
        memory := []
        trap := !result.isOk
        halt := !vm.running stepped } :=
  CommitEvent.normalize_eq_self (changedRegisters_index_ne_zero _ _) (by simp)

/-- An event of the loop, appended while the machine runs. -/
theorem Progress.linked_concat {machine : vm.Machine} {events : List CommitEvent}
    (h : Progress vm machine events) (hrunning : vm.running machine = true) (bits : UInt32)
    (stepped : vm.Machine) (result : Except String Unit) :
    Linked (events ++ [elfEvent vm events.length bits stepped (vm.pc machine)
      (vm.registers machine) result]) := by
  rw [elfEvent_eq]
  refine h.linked.concat (fun last hlast => ?_) rfl rfl (changedRegisters_indices _ _)
    (changedRegisters_bounds _ _)
  obtain ⟨htrap, hhalt, hpc⟩ := h.last last hlast
  rw [hrunning] at hhalt
  exact ⟨htrap, hhalt, hpc.symm⟩

theorem Progress.step {machine : vm.Machine} {events : List CommitEvent}
    (h : Progress vm machine events) (hrunning : vm.running machine = true) (bits : UInt32)
    (stepped : vm.Machine) :
    Progress vm stepped (events ++ [elfEvent vm events.length bits stepped (vm.pc machine)
      (vm.registers machine) (.ok ())]) := by
  refine ⟨h.linked_concat hrunning bits stepped _, by simp, fun event hevent => ?_⟩
  rw [List.getLast?_concat, Option.some.injEq, elfEvent_eq] at hevent
  subst hevent
  exact ⟨rfl, rfl, rfl⟩

theorem Progress.untrapped {machine : vm.Machine} {events : List CommitEvent}
    (h : Progress vm machine events) : ∀ event ∈ events, event.trap = false := by
  intro event hevent
  rcases h.linked.flags_or_last hevent with hflags | hlast
  · exact hflags.1
  · exact (h.last event hlast).1

theorem Progress.unflagged {machine : vm.Machine} {events : List CommitEvent}
    (h : Progress vm machine events) (hrunning : vm.running machine = true)
    (traceEnd : TraceEnd) : Unflagged ⟨events, traceEnd⟩ := by
  intro event hevent
  refine ⟨h.untrapped event hevent, ?_⟩
  rcases h.linked.flags_or_last hevent with hflags | hlast
  · exact hflags.2
  · rw [(h.last event hlast).2.1, hrunning]
    rfl

/-- A run that no error ends. -/
theorem Progress.ended {machine : vm.Machine} {events : List CommitEvent} {limit : Nat}
    (h : Progress vm machine events) (hlength : events.length ≤ limit)
    (hlimit : vm.running machine = true → events.length = limit) :
    ElfTrace limit ⟨events, ending vm machine⟩ := by
  cases hrunning : vm.running machine with
  | true =>
      have hending : ending vm machine = .stepLimit := by rw [ending, hrunning]; rfl
      rw [hending]
      exact ⟨h.linked, hlength, fun _ => ⟨hlimit hrunning, h.unflagged hrunning _⟩, nofun, nofun,
        Or.inl rfl⟩
  | false =>
      have hending : ending vm machine = .completed (some (vm.exitCode machine).toInt32) := by
        rw [ending, hrunning]
        rfl
      rw [hending]
      refine ⟨h.linked, hlength, nofun, ?_, nofun, Or.inr (Or.inl ⟨_, rfl⟩)⟩
      rintro code ⟨⟩
      refine ⟨rfl, h.untrapped, ?_⟩
      -- a stopped machine has stepped, because a run starts with the flag set
      cases hlast : events.getLast? with
      | none =>
          rw [h.started (List.getLast?_eq_none_iff.1 hlast)] at hrunning
          cases hrunning
      | some event =>
          refine ⟨event, hlast, ?_⟩
          rw [(h.last event hlast).2.1, hrunning]
          rfl

/-- The loop keeps what holds of the events so far. -/
theorem elfTrace_elfLoop (steps : Nat) {machine : vm.Machine} (decoder : vm.Decoder)
    {events : List CommitEvent} (h : Progress vm machine events) :
    ElfTrace (events.length + steps) (elfLoop vm steps machine decoder events) := by
  induction steps generalizing machine decoder events with
  | zero => exact h.ended le_rfl fun _ => rfl
  | succ steps ih =>
      rw [elfLoop]
      cases hrunning : vm.running machine with
      | false =>
          rw [if_pos Bool.false_ne_true]
          exact h.ended (Nat.le_add_right _ _) fun hrun => by rw [hrunning] at hrun; cases hrun
      | true =>
          rw [if_neg (not_not.2 rfl)]
          rcases hfetch : vm.executeLoad32 (vm.pc machine) machine with ⟨fetched, error | bits⟩
          · simp only [hfetch]
            refine ⟨h.linked, Nat.le_add_right _ _, nofun, nofun, fun _ _ => Or.inr ?_,
              Or.inr (Or.inr ⟨_, rfl⟩)⟩
            exact ⟨h.unflagged hrunning _, Nat.lt_add_of_pos_right (Nat.succ_pos _)⟩
          · rcases hstep : vm.step fetched decoder with ⟨stepped, decoder', error | u⟩
            · simp only [hfetch, hstep]
              have hlinked := h.linked_concat hrunning bits stepped (.error error)
              refine ⟨hlinked, ?_, nofun, nofun, fun _ _ => Or.inl ?_, Or.inr (Or.inr ⟨_, rfl⟩)⟩
              · simp only [List.length_append, List.length_singleton]
                omega
              · exact ⟨_, List.getLast?_concat, by rw [elfEvent_eq]; rfl⟩
            · simp only [hfetch, hstep]
              have hnext := ih decoder' (h.step hrunning bits stepped)
              rw [List.length_append, List.length_singleton, Nat.add_assoc, Nat.add_comm 1] at hnext
              exact hnext

theorem Progress.nil {machine : vm.Machine} (hrunning : vm.running machine = true) :
    Progress vm machine [] :=
  ⟨Linked.nil, fun _ => hrunning, by simp⟩

/-- Every trace of an ELF file is one of linked events within the step limit. -/
theorem runElf_elfTrace (hvm : vm.KeepsRunning)
    {readFile : String → Except String (List UInt8)} {path : String}
    {config : RunnerConfig} {trace : ExecutionTrace}
    (h : runElf vm readFile path config = .ok trace) :
    ElfTrace config.maxSteps.toNat trace ∧
      ∀ (i : Nat) (event : CommitEvent), trace.events[i]? = some event → event.order.toNat = i := by
  have htrace : ElfTrace config.maxSteps.toNat trace := by
    rw [runElf] at h
    cases hread : readFile path with
    | error fault => simp [hread] at h
    | ok bytes =>
        simp only [hread, runBytes] at h
        rcases hload : vm.loadProgram bytes (config.machine vm) with ⟨machine, error | u⟩
        · simp [hload] at h
        · simp only [hload, Except.ok.injEq] at h
          subst h
          have hrun := elfTrace_elfLoop config.maxSteps.toNat
            (vm.newDecoder config.isa config.version)
            (Progress.nil (hvm.running_setRunning true machine))
          rwa [List.length_nil, Nat.zero_add] at hrun
  refine ⟨htrace, fun i event hevent => ?_⟩
  have hlt := (List.getElem?_eq_some_iff.1 hevent).1
  have hbound := config.maxSteps.toNat_lt
  have hle := htrace.length_le
  rw [htrace.linked.order i event hevent, UInt64.toNat_ofNat']
  omega

end Loop

/-! ## An executable of two instructions -/

/-- An ELF executable with `addi x17, x0, 93; ecall` at its entry 0x10078. -/
def exitProgram : List UInt8 :=
  [0x7f, 0x45, 0x4c, 0x46, 2, 1, 1, 0, 0, 0, 0, 0, 0, 0, 0, 0, 2, 0, 0xf3, 0, 1, 0, 0, 0, 0x78,
    0, 1, 0, 0, 0, 0, 0, 0x40, 0, 0, 0, 0, 0, 0, 0, 0, 0, 0, 0, 0, 0, 0, 0, 0, 0, 0, 0, 0x40, 0,
    0x38, 0, 1, 0, 0x40, 0, 0, 0, 0, 0, 1, 0, 0, 0, 5, 0, 0, 0, 0, 0, 0, 0, 0, 0, 0, 0, 0, 0, 1,
    0, 0, 0, 0, 0, 0, 0, 1, 0, 0, 0, 0, 0, 0x80, 0, 0, 0, 0, 0, 0, 0, 0x80, 0, 0, 0, 0, 0, 0, 0,
    0, 0x10, 0, 0, 0, 0, 0, 0, 0x93, 0x08, 0xd0, 0x05, 0x73, 0, 0, 0]

/-- A machine that runs this executable; the system call 93 exits. -/
def exitVm : ElfVm where
  Machine := Registers × UInt64 × Bool
  Decoder := Unit
  newWithMemory _ _ := (Vector.replicate 32 0, 0, false)
  updatePc pc machine := (machine.1, pc, machine.2.2)
  commitPc machine := machine
  setRunning running machine := (machine.1, machine.2.1, running)
  newDecoder _ _ := ()
  pc machine := machine.2.1
  registers machine := machine.1
  running machine := machine.2.2
  exitCode _ := 0
  storeBytes _ _ machine := (machine, .error "memory out of bound")
  resetInstructionsCache decoder := (decoder, .ok ())
  step machine _ :=
    if machine.2.1 = 0x10078 then
      ((machine.1.setIfInBounds 17 93, 0x1007c, machine.2.2), (), .ok ())
    else if machine.2.1 = 0x1007c then ((machine.1, 0x10080, false), (), .ok ())
    else (machine, (), .error "invalid instruction")
  loadProgram bytes machine :=
    if bytes = exitProgram then ((machine.1, 0x10078, machine.2.2), .ok ())
    else (machine, .error "malformed entity: Too small")
  executeLoad32 address machine :=
    (machine,
      if address = 0x10078 then .ok 0x05d00893
      else if address = 0x1007c then .ok 0x00000073
      else .error "memory out of bound")

theorem exitVm_keepsRunning : exitVm.KeepsRunning where
  running_setRunning _ _ := rfl

def exitConfig : RunnerConfig := ⟨1, 2, 0xffffffffffffffff, 4194304, 1000⟩

def exitTrace : ExecutionTrace :=
  ⟨[⟨0, 0x05d00893, 0x10078, 0x1007c, [⟨17, 93⟩], [], false, false⟩,
    ⟨1, 0x00000073, 0x1007c, 0x10080, [], [], false, true⟩], .completed (some 0)⟩

theorem runElf_exit :
    runElf exitVm (fun _ => .ok exitProgram) "exit.elf" exitConfig = .ok exitTrace := by
  have hrun : (runElf exitVm (fun _ => .ok exitProgram) "exit.elf" exitConfig).toOption =
      some exitTrace := by decide +kernel
  cases hresult : runElf exitVm (fun _ => .ok exitProgram) "exit.elf" exitConfig with
  | error error =>
      rw [hresult] at hrun
      cases hrun
  | ok trace =>
      rw [hresult] at hrun
      rw [Option.some.inj hrun]

theorem runElf_elfTrace_exit : ElfTrace 1000 exitTrace ∧
    ∀ (i : Nat) (event : CommitEvent), exitTrace.events[i]? = some event →
      event.order.toNat = i :=
  runElf_elfTrace exitVm_keepsRunning runElf_exit

end CkbSail.CkbRunner
