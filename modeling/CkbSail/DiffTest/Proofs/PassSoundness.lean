import CkbSail.Core.Proofs.Comparator
import CkbSail.CkbRunner.Proofs.Injection
import CkbSail.SailRunner.Proofs.Dii

/-!
# What a passing comparison means for a whole run

The CKB side reports changes of the machine state, the Sail side the writes that
change its shadow file.  Both reports are deltas of register files that start
equal, so equal reports keep the files equal, step after step.
-/

namespace CkbSail.DiffTest

open CkbSail.Core RustStd ProofSupport CkbRunner SailRunner

/-- Event `k` of an injected run in which nothing but the program happened. -/
structure StepReport (program : List UInt32) (events : List CommitEvent) (k : Nat)
    (event : CommitEvent) : Prop where
  order : event.order = UInt64.ofNat k
  instruction : program[k]?.map normalizeInstructionWidth = some event.instruction
  entry : k = 0 → event.pcBefore = INJECTION_ENTRY
  chain : ∀ previous, 0 < k → events[k - 1]? = some previous →
    event.pcBefore = previous.pcAfter
  memory : event.memory = []
  trap : event.trap = false
  halt : event.halt = false

/-- What a pass promises of the two runs it compared. -/
structure PassMeans (vm : CkbVm) (config : InjectionConfig) (session : DiiSession)
    (program : List UInt32) (ckb sail : ExecutionTrace) : Prop where
  ckb_end : ckb.traceEnd = .injectionComplete
  sail_end : sail.traceEnd = .injectionComplete
  ckb_length : ckb.events.length = program.length
  sail_length : sail.events.length = program.length
  events : ∀ k < program.length, ∃ event, ckb.events[k]? = some event ∧
    sail.events[k]? = some event ∧ StepReport program ckb.events k event
  registers : ∀ k ≤ program.length, ∃ s t, CkbRunner.StateAfter vm program config k s ∧
    DiiSession.StateAfter session program k t ∧
    (vm.registers s.machine).Agree t.shadow.registers

variable {vm : CkbVm} {config : InjectionConfig} {session : DiiSession}
  {program : List UInt32}

/-- The two runs a passing comparison compared both covered the whole program. -/
theorem complete_of_passed [StrDebug] {outcome : InjectionOutcome} {trace : ExecutionTrace}
    {session' : DiiSession} (hckb : CkbRunner.runProgram vm program config = .ok outcome)
    (hsail : session.drive program = .ok (trace, session'))
    (hpass : (CompareResult.compare outcome.trace trace).passed = true) :
    ∃ s t, CkbRunner.StateAfter vm program config program.length s ∧
      DiiSession.StateAfter session program program.length t ∧
      outcome = finish vm s.machine s.events .injectionComplete ∧
      DiiSession.endOfTrace t = .ok (trace, session') ∧
      trace = ⟨t.events, .injectionComplete⟩ ∧ s.events = t.events := by
  obtain ⟨-, hevents, hterminal⟩ := (passed_iff _ _ _).1 hpass
  have hend : outcome.trace.traceEnd = trace.traceEnd := by simpa [terminalMatches] using hterminal
  obtain ⟨-, hrun⟩ := runProgram_ok hckb
  rcases DiiSession.drive_ok hsail with ⟨t, ht, hfinal⟩ | hhalt
  · have htrace := (DiiSession.endOfTrace_ok_iff.1 hfinal).1
    rw [htrace] at hend
    rcases hrun with ⟨s, hs, rfl⟩ | ⟨message, herror⟩ | ⟨code, hexit⟩
    · refine ⟨s, t, hs, ht, rfl, hfinal, htrace, ?_⟩
      rw [htrace] at hevents
      exact hevents
    · rw [herror] at hend
      cases hend
    · rw [hexit] at hend
      cases hend
  · rw [hhalt] at hend
    rcases hrun with ⟨s, hs, rfl⟩ | ⟨message, herror⟩ | ⟨code, hexit⟩
    · cases hend
    · rw [herror] at hend
      cases hend
    · rw [hexit] at hend
      cases hend

/-- Every event of a run of the CKB side is a step report. -/
theorem stepReport_of_stateAfter (hvm : vm.Lawful config) {n : Nat} {state : RunState vm}
    (h : CkbRunner.StateAfter vm program config n state) {k : Nat} (hk : k < n) :
    ∃ event, state.events[k]? = some event ∧ StepReport program state.events k event := by
  obtain ⟨-, hsteps⟩ := executed_of_stateAfter hvm h
  obtain ⟨s, t, event, hevent⟩ := hsteps k hk
  refine ⟨event, hevent.recorded, hevent.order, hevent.instruction, ?_, ?_, hevent.memory,
    hevent.trap, hevent.halt⟩
  · rintro rfl
    rw [hevent.pcBefore, hevent.before.eq_init]
    exact hvm.boot_pc
  · intro previous hpos hprevious
    obtain ⟨s', t', event', hevent'⟩ := hsteps (k - 1) (by omega)
    obtain rfl : event' = previous := by
      rw [hevent'.recorded] at hprevious
      exact Option.some.inj hprevious
    have hafter := hevent'.after
    rw [Nat.sub_add_cancel hpos] at hafter
    rw [hevent.pcBefore, hevent'.pcAfter, hafter.unique hevent.before]

/-- Runs that recorded the same events have the same registers after each step:
both files change by the recorded writes. -/
theorem registers_agree_of_events_eq (hvm : vm.Lawful config) {n : Nat} {state : RunState vm}
    {drive : DiiSession.DriveState} (hckb : CkbRunner.StateAfter vm program config n state)
    (hsail : DiiSession.StateAfter session program n drive)
    (hevents : state.events = drive.events) {k : Nat} (hk : k ≤ n) :
    ∃ s t, CkbRunner.StateAfter vm program config k s ∧
      DiiSession.StateAfter session program k t ∧
      (vm.registers s.machine).Agree t.shadow.registers := by
  induction k with
  | zero =>
      refine ⟨initialState vm config, session.initialState, after_zero _ _, after_zero _ _, ?_⟩
      have hboot : vm.registers (initialState vm config).machine = Vector.replicate 32 0 :=
        hvm.boot_registers
      rw [hboot]
      exact RegisterObservers.Agree.refl _
  | succ k ih =>
      obtain ⟨s, t, hs, ht, hagree⟩ := ih (by omega)
      obtain ⟨s₀, s₁, event, hstep⟩ := (executed_of_stateAfter hvm hckb).2 k hk
      obtain ⟨t₀, t₁, packet, event', hpacket⟩ := (DiiSession.observed_of_stateAfter hsail).2 k hk
      obtain rfl := hstep.before.unique hs
      obtain rfl := hpacket.before.unique ht
      obtain rfl : event = event' := by
        have h := hstep.recorded
        rw [hevents, hpacket.recorded] at h
        exact (Option.some.inj h).symm
      refine ⟨s₁, t₁, hstep.after, hpacket.after, ?_⟩
      have hwrites := hstep.registerWrites.symm.trans hpacket.registerWrites
      have hdelta := List.map_injective_iff.2 toWrite_injective hwrites
      exact RegisterObservers.agree_of_delta_eq hagree hdelta

/-- A pass is sound: both engines executed the whole program, step by step with
the same observations and the same registers. -/
theorem pass_sound [StrDebug] (hvm : vm.Lawful config) {outcome : InjectionOutcome}
    {trace : ExecutionTrace} {session' : DiiSession}
    (hckb : CkbRunner.runProgram vm program config = .ok outcome)
    (hsail : session.drive program = .ok (trace, session'))
    (hpass : (CompareResult.compare outcome.trace trace).passed = true) :
    PassMeans vm config session program outcome.trace trace := by
  obtain ⟨s, t, hs, ht, rfl, -, rfl, hevents⟩ := complete_of_passed hckb hsail hpass
  refine ⟨rfl, rfl, (executed_of_stateAfter hvm hs).1, (DiiSession.observed_of_stateAfter ht).1,
    fun k hk => ?_, fun k hk => registers_agree_of_events_eq hvm hs ht hevents hk⟩
  obtain ⟨event, hrecorded, hreport⟩ := stepReport_of_stateAfter hvm hs hk
  refine ⟨event, hrecorded, ?_, hreport⟩
  rw [← hrecorded]
  exact (congrArg (·[k]?) hevents).symm

/-! ## A concrete pair of runs -/

/-- A machine that executes ADDI and refuses everything else. -/
structure AddiMachine where
  registers : Registers
  pc : UInt64
  running : Bool
  stored : List UInt8

namespace AddiMachine

/-- The stored word. -/
def word (machine : AddiMachine) : UInt32 :=
  UInt32.ofNat (Nat.ofDigits 256 (machine.stored.map UInt8.toNat))

/-- The sign-extended immediate of the I format. -/
def immediate (word : UInt32) : UInt64 :=
  let imm := (word >>> 20).toUInt64
  if imm < 0x800 then imm else imm ||| 0xfffffffffffff000

def step (machine : AddiMachine) : AddiMachine × Unit × Except String Unit :=
  if machine.word &&& 0x707f ≠ 0x13 then (machine, (), .error "invalid instruction")
  else
    let rd := ((machine.word >>> 7) &&& 31).toNat
    let rs1 := ((machine.word >>> 15) &&& 31).toNat
    let value := machine.registers.toList.getD rs1 0 + immediate machine.word
    let registers :=
      if rd = 0 then machine.registers else machine.registers.setIfInBounds rd value
    ({ machine with registers := registers, pc := machine.pc + 4 }, (), .ok ())

end AddiMachine

def addiVm : CkbVm where
  Machine := AddiMachine
  Decoder := Unit
  newWithMemory _ _ := ⟨Vector.replicate 32 0, 0, false, []⟩
  updatePc pc machine := { machine with pc := pc }
  commitPc machine := machine
  setRunning running machine := { machine with running := running }
  newDecoder _ _ := ()
  pc := AddiMachine.pc
  registers := AddiMachine.registers
  running := AddiMachine.running
  exitCode _ := 0
  storeBytes _ bytes machine := ({ machine with stored := bytes }, .ok ())
  resetInstructionsCache decoder := (decoder, .ok ())
  step machine _ := machine.step

theorem addiVm_lawful (config : InjectionConfig) : addiVm.Lawful config where
  boot_pc := rfl
  boot_registers := rfl
  storeBytes_pc _ _ _ := rfl
  storeBytes_registers _ _ _ := rfl

/-- `addi x1, x1, 5`, executed twice. -/
def addiProgram : List UInt32 := [0x00508093, 0x00508093]

def addiPackets : List PacketBytes :=
  [packetBytes 0 0x80000000 0x80000004 0x00508093 5 1 0,
    packetBytes 1 0x80000004 0x80000008 0x00508093 10 1 0,
    packetBytes 0 0 0 0 0 0 1]

def addiSession : DiiSession :=
  ⟨⟨addiPackets.flatMap Vector.toList, [], fun _ => none, fun _ => none, ""⟩, []⟩

def addiConfig : InjectionConfig := ⟨1, 2, 0xffffffffffffffff⟩

def addiTrace : ExecutionTrace :=
  ⟨[⟨0, 0x00508093, 0x80000000, 0x80000004, [⟨1, 5⟩], [], false, false⟩,
    ⟨1, 0x00508093, 0x80000004, 0x80000008, [⟨1, 10⟩], [], false, false⟩], .injectionComplete⟩

theorem addi_ckb : (CkbRunner.runProgram addiVm addiProgram addiConfig).toOption.map
    InjectionOutcome.trace = some addiTrace := by decide +kernel

theorem addi_sail : (addiSession.drive addiProgram).toOption.map Prod.fst = some addiTrace := by
  decide +kernel

theorem pass_sound_addi : ∃ outcome session',
    CkbRunner.runProgram addiVm addiProgram addiConfig = .ok outcome ∧
      addiSession.drive addiProgram = .ok (addiTrace, session') ∧
      PassMeans addiVm addiConfig addiSession addiProgram outcome.trace addiTrace := by
  let _ := plainStrDebug
  obtain ⟨outcome, hckb, houtcome⟩ := exists_ok_of_toOption_map addi_ckb
  obtain ⟨⟨trace, session'⟩, hsail, htrace⟩ := exists_ok_of_toOption_map addi_sail
  simp only at htrace
  subst htrace
  refine ⟨outcome, session', hckb, hsail, pass_sound (addiVm_lawful _) hckb hsail ?_⟩
  rw [houtcome]
  decide +kernel

end CkbSail.DiffTest
