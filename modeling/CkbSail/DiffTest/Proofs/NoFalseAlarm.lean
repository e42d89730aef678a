import CkbSail.Core.ArchMachine
import CkbSail.DiffTest.Proofs.PassSoundness

/-!
# Engines that implement one machine are never reported to differ

CKB executes an abstract machine when a relation between the states survives
every step; the emulator reports it when packet `k` describes step `k`.  Both
runners then record the events of the abstract machine.
-/

namespace CkbSail.DiffTest

open CkbSail.Core RustStd ProofSupport CkbRunner SailRunner

/-- CKB executes the abstract machine along the run of a program. -/
def ExecutesMachine (vm : CkbVm) (config : InjectionConfig) (machine : ArchMachine)
    (program : List UInt32) : Prop :=
  ∃ R : vm.Machine → vm.Decoder → machine.State → Prop,
    R (vm.boot config) (vm.newDecoder config.isa config.version) machine.init ∧
    (∀ m d state, R m d state →
      vm.pc m = machine.pc state ∧ (vm.registers m).Agree (machine.registers state)) ∧
    ∀ (k : Nat) (hk : k < program.length) (m : vm.Machine) (d : vm.Decoder),
      R m d (machine.stateAt program k) →
        ∃ stored m' d', Executes vm program[k] m d stored m' d' ∧
          (vm.registers stored).Agree (vm.registers m) ∧
          R m' d' (machine.stateAt program (k + 1))

/-- A packet describes step `k`: the upper half of a compressed word is free, and
a write to x0 may be reported as no write. -/
structure Reports (machine : ArchMachine) (program : List UInt32) (k : Nat) (word : UInt32)
    (packet : V1Packet) : Prop where
  order : packet.order = UInt64.ofNat k
  pcRdata : packet.pcRdata = machine.pc (machine.stateAt program k)
  pcWdata : packet.pcWdata = machine.pc (machine.stateAt program (k + 1))
  insn : if word &&& 0b11 = 0b11 then packet.insn.toUInt32 = word
    else packet.insn.toUInt32 &&& 0xffff = word &&& 0xffff
  write : (∃ i value, machine.write word (machine.stateAt program k) = some (i, value) ∧
      packet.rdAddr.toNat = i.val ∧ packet.rdWdata = value) ∨
    (packet.rdAddr = 0 ∧
      ∀ i value, machine.write word (machine.stateAt program k) = some (i, value) → i = 0)
  memRmask : packet.memRmask = 0
  memWmask : packet.memWmask = 0
  trap : packet.trap = false
  halt : packet.halt = false
  intr : packet.intr = false

/-- The emulator sends one packet for every step of the machine, then a halt
packet, over a connection that does not fail. -/
structure ReportsMachine (machine : ArchMachine) (program : List UInt32)
    (session : DiiSession) (packets : List PacketBytes) : Prop where
  length : packets.length = program.length + 1
  incoming : ∃ rest, session.stream.incoming = packets.flatMap Vector.toList ++ rest
  writes : ∀ n, session.stream.writeFault n = none
  flushes : ∀ n, session.stream.flushFault n = none
  steps : ∀ (k : Nat) (hk : k < program.length) (bytes : PacketBytes), packets[k]? = some bytes →
    Reports machine program k program[k] (V1Packet.parse bytes)
  final : ∀ bytes, packets[program.length]? = some bytes → (V1Packet.parse bytes).halt = true

/-- Both engines run the same machine, inside the injection window. -/
structure SameMachine (vm : CkbVm) (config : InjectionConfig) (machine : ArchMachine)
    (program : List UInt32) (session : DiiSession) (packets : List PacketBytes) : Prop where
  window : ∀ k < program.length,
    INJECTION_ENTRY ≤ machine.pc (machine.stateAt program k) ∧
      machine.pc (machine.stateAt program k) ≤ INJECTION_ENTRY + INJECTION_WINDOW - 4
  ckb : ExecutesMachine vm config machine program
  sail : ReportsMachine machine program session packets

/-- Both runners return a trace, the comparison passes, the reset check accepts the
first packet, and at every step the two observers report the same writes. -/
def PassesClean [StrDebug] (vm : CkbVm) (config : InjectionConfig) (program : List UInt32)
    (session : DiiSession) (packets : List PacketBytes) : Prop :=
  ∃ outcome trace session',
    CkbRunner.runProgram vm program config = .ok outcome ∧
    session.drive program = .ok (trace, session') ∧
    (CompareResult.compare outcome.trace trace).passed = true ∧
    (∀ bytes, packets[0]? = some bytes → startedFromReset (V1Packet.parse bytes) = .ok ()) ∧
    ∀ k < program.length, ∃ s s' t bytes,
      CkbRunner.StateAfter vm program config k s ∧
      CkbRunner.StateAfter vm program config (k + 1) s' ∧
      DiiSession.StateAfter session program k t ∧ packets[k]? = some bytes ∧
      changedRegisters (vm.registers s.machine) (vm.registers s'.machine) =
        (t.shadow.observe (V1Packet.parse bytes).rdAddr
          (V1Packet.parse bytes).rdWdata).2.toList

/-! ## The CKB side records the events of the machine -/

section Ckb

variable {vm : CkbVm} {config : InjectionConfig} {machine : ArchMachine}
  {program : List UInt32}

theorem inWindow_of_bounds {pc : UInt64} (hlow : INJECTION_ENTRY ≤ pc)
    (hhigh : pc ≤ INJECTION_ENTRY + INJECTION_WINDOW - 4) : inWindow pc = true := by
  have h := UInt64.le_iff_toNat_le.1 hhigh
  have hbound : (INJECTION_ENTRY + INJECTION_WINDOW - 4).toNat = 0x8000fffc := rfl
  rw [hbound] at h
  have hadd : (pc + 4).toNat = pc.toNat + 4 := by
    rw [UInt64.toNat_add]
    have hfour : (4 : UInt64).toNat = 4 := rfl
    omega
  have hend : pc + 4 ≤ INJECTION_ENTRY + INJECTION_WINDOW := by
    have hsum : (INJECTION_ENTRY + INJECTION_WINDOW).toNat = 0x80010000 := rfl
    rw [UInt64.le_iff_toNat_le, hadd, hsum]
    omega
  simp only [inWindow, hlow, hend, decide_true, Bool.true_and, Bool.and_true, decide_eq_true_eq]
  omega

/-- The delta of a step, read off the machine or off any machine that agrees. -/
theorem changedRegisters_congr {a a' b b' : Registers} (ha : a.Agree a') (hb : b.Agree b') :
    changedRegisters a b = changedRegisters a' b' := by
  rw [changedRegisters_eq, changedRegisters_eq, RegisterObservers.delta_congr ha hb]

/-- The states of the run of a machine that CKB executes. -/
theorem ckb_stateAfter
    (hwindow : ∀ k < program.length, inWindow (machine.pc (machine.stateAt program k)) = true)
    (hexec : ExecutesMachine vm config machine program) {k : Nat} (hk : k ≤ program.length) :
    ∃ state, CkbRunner.StateAfter vm program config k state ∧
      (vm.registers state.machine).Agree (machine.registers (machine.stateAt program k)) ∧
      state.events = (machine.events program).take k := by
  obtain ⟨R, hboot, hobserved, hstep⟩ := hexec
  obtain ⟨state, hafter, hR, hevents⟩ : ∃ state, CkbRunner.StateAfter vm program config k state ∧
      R state.machine state.decoder (machine.stateAt program k) ∧
      state.events = (machine.events program).take k := after_of_progress
    (fun k (state : RunState vm) => R state.machine state.decoder (machine.stateAt program k) ∧
      state.events = (machine.events program).take k)
    ⟨hboot, by simp [initialState]⟩
    (by
      rintro k hk s ⟨hR, hevents⟩
      obtain ⟨stored, m', d', hexecutes, hstored, hR'⟩ := hstep k hk _ _ hR
      obtain ⟨hpc, hregs⟩ := hobserved _ _ _ hR
      obtain ⟨hpc', hregs'⟩ := hobserved _ _ _ hR'
      have hevent : committed vm k program[k] s.machine stored m' =
          machine.event program k program[k] := by
        unfold committed ArchMachine.event
        rw [hpc, hpc', changedRegisters_congr (hstored.trans hregs) hregs', changedRegisters_eq]
      refine ⟨⟨m', d', s.events ++ [machine.event program k program[k]]⟩,
        runStep_next_iff.2 ⟨?_, stored, hexecutes, ?_⟩, hR', ?_⟩
      · rw [hpc]
        exact hwindow k hk
      · rw [hevent]
      · rw [hevents, machine.take_succ_events program hk])
    hk
  exact ⟨state, hafter, (hobserved _ _ _ hR).2, hevents⟩

end Ckb

/-! ## The Sail side records the events of the machine -/

section Sail

variable {machine : ArchMachine} {program : List UInt32} {session : DiiSession}
  {packets : List PacketBytes}

/-- The reported word is the injected one, up to width. -/
theorem normalize_of_insn {word insn : UInt32}
    (h : if word &&& 0b11 = 0b11 then insn = word else insn &&& 0xffff = word &&& 0xffff) :
    normalizeInstructionWidth insn = normalizeInstructionWidth word := by
  split_ifs at h with hwide
  · rw [h]
  · have hlow : insn &&& 0b11 = word &&& 0b11 := by
      rw [← low_half_and_three insn, h, low_half_and_three]
    rw [normalizeInstructionWidth_of_compressed hwide,
      normalizeInstructionWidth_of_compressed (by rwa [hlow]), h]

/-- Applying a write to a file that agrees changes it like the machine's step. -/
theorem observe_agree {shadow : RegisterShadow} {registers registers' : Registers}
    (hagree : shadow.registers.Agree registers) {write : Option (Fin 32 × UInt64)}
    (hstep : registers'.Agree (written write registers)) {index : UInt8} {value : UInt64}
    (hwrite : (∃ i v, write = some (i, v) ∧ index.toNat = i.val ∧ value = v) ∨
      (index = 0 ∧ ∀ i v, write = some (i, v) → i = 0)) :
    (shadow.observe index value).1.registers.Agree registers' := by
  refine RegisterObservers.Agree.trans ?_ hstep.symm
  rcases hwrite with ⟨i, v, rfl, hindex, rfl⟩ | ⟨rfl, hzero⟩
  · have hlt : index.toNat < 32 := by omega
    have hi : (⟨index.toNat, hlt⟩ : Fin 32) = i := Fin.ext hindex
    intro j hj
    rw [(shadow.observe_of_lt index value hlt).1, hi, RegisterObservers.write_apply, written,
      Registers.file_set, Function.update_apply]
    by_cases hji : j = i
    · subst hji
      simp [hj]
    · simp [hji, hagree j hj]
  · rw [shadow.observe_of_hidden value (Or.inl rfl)]
    intro j hj
    rw [hagree j hj]
    cases write with
    | none => rfl
    | some w =>
        obtain ⟨i, v⟩ := w
        obtain rfl := hzero i v rfl
        rw [written, Registers.file_set, Function.update_of_ne (mem_architectural.1 hj)]

/-- A packet that reports a step becomes the event of the step. -/
theorem intoEvent_of_reports {k : Nat} {word : UInt32} {packet : V1Packet}
    (h : Reports machine program k word packet) {shadow : RegisterShadow}
    (hk : machine.stateAt program (k + 1) = machine.step word (machine.stateAt program k))
    (hagree : shadow.registers.Agree (machine.registers (machine.stateAt program k))) :
    (packet.intoEvent shadow).2 = machine.event program k word ∧
      (packet.intoEvent shadow).1.registers.Agree
        (machine.registers (machine.stateAt program (k + 1))) := by
  have hnext : (shadow.observe packet.rdAddr packet.rdWdata).1.registers.Agree
      (machine.registers (machine.stateAt program (k + 1))) := by
    rw [hk]
    exact observe_agree hagree (machine.step_registers _ _) h.write
  rw [V1Packet.intoEvent_eq]
  refine ⟨?_, hnext⟩
  rw [ArchMachine.event, ← RegisterObservers.delta_congr hagree hnext, h.order, h.pcRdata,
    h.pcWdata, h.trap, h.halt, normalize_of_insn h.insn,
    V1Packet.accesses_of_masks_zero h.memRmask h.memWmask, shadow.observe_delta]

/-- What holds after `k` passes over packets that report the machine. -/
structure InStep (machine : ArchMachine) (program : List UInt32) (packets : List PacketBytes)
    (rest : List UInt8) (k : Nat) (state : DiiSession.DriveState) : Prop where
  incoming : state.session.stream.incoming = (packets.drop k).flatMap Vector.toList ++ rest
  writes : ∀ n, state.session.stream.writeFault n = none
  flushes : ∀ n, state.session.stream.flushFault n = none
  shadow : state.shadow.registers.Agree (machine.registers (machine.stateAt program k))
  events : state.events = (machine.events program).take k

/-- Sending any command reads the next packet. -/
theorem InStep.answered {rest : List UInt8} {k : Nat} {state : DiiSession.DriveState}
    (h : InStep machine program packets rest k state) (hk : k < packets.length)
    (command : UInt64) (instruction : UInt32) :
    ∃ session', DiiSession.Answered state.session command instruction
        (V1Packet.parse packets[k]) session' ∧
      session'.stream.incoming = (packets.drop (k + 1)).flatMap Vector.toList ++ rest ∧
      (∀ n, session'.stream.writeFault n = none) ∧
      ∀ n, session'.stream.flushFault n = none := by
  have hsend := DiiSession.send_of_no_fault h.writes h.flushes command instruction
  refine ⟨_, ⟨_, hsend, DiiSession.receive_of_incoming ?_⟩, rfl, h.writes, h.flushes⟩
  rw [h.incoming, List.drop_eq_getElem_cons hk, List.flatMap_cons, List.append_assoc]

/-- The first packet of a reported run comes from the reset state. -/
theorem startedFromReset_of_reports {word : UInt32} {packet : V1Packet}
    (h : Reports machine program 0 word packet) : startedFromReset packet = .ok () := by
  rw [startedFromReset_eq_ok]
  refine ⟨h.order, ?_⟩
  rw [h.pcRdata, machine.stateAt_zero, machine.init_pc]

theorem sail_stateAfter (hsail : ReportsMachine machine program session packets) :
    ∃ rest, ∀ k ≤ program.length, ∃ state, DiiSession.StateAfter session program k state ∧
      InStep machine program packets rest k state := by
  obtain ⟨rest, hrest⟩ := hsail.incoming
  refine ⟨rest, fun k hk => after_of_progress (InStep machine program packets rest)
    ⟨by simpa [DiiSession.initialState] using hrest, hsail.writes, hsail.flushes, ?_,
      by simp [DiiSession.initialState]⟩ ?_ hk⟩
  · exact machine.init_registers.symm
  · intro k hk s hs
    have hk' : k < packets.length := by
      rw [hsail.length]
      omega
    obtain ⟨session', hanswered, hincoming, hwrites, hflushes⟩ :=
      hs.answered hk' CMD_INSTRUCTION program[k]
    have hreports := hsail.steps k hk packets[k] (List.getElem?_eq_getElem hk')
    obtain ⟨hevent, hshadow⟩ :=
      intoEvent_of_reports hreports (machine.stateAt_succ program hk) hs.shadow
    refine ⟨⟨session', _, _⟩, DiiSession.driveStep_next_iff.2
      ⟨_, hanswered, ?_, hreports.halt, rfl, rfl⟩, hincoming, hwrites, hflushes, hshadow, ?_⟩
    · rintro rfl
      exact startedFromReset_of_reports hreports
    · rw [hs.events, hevent, machine.take_succ_events program hk]

end Sail

/-! ## No false alarm -/

section Compare

variable {vm : CkbVm} {config : InjectionConfig} {machine : ArchMachine}
  {program : List UInt32} {session : DiiSession} {packets : List PacketBytes}

/-- Engines that run the same machine pass the comparison, on every non-empty
supported program. -/
theorem no_false_alarm [StrDebug] (hne : program ≠ [])
    (hvalid : validateProgram program = .ok ())
    (hsame : SameMachine vm config machine program session packets) :
    PassesClean vm config program session packets := by
  have hwindow : ∀ k < program.length,
      inWindow (machine.pc (machine.stateAt program k)) = true := fun k hk =>
    inWindow_of_bounds (hsame.window k hk).1 (hsame.window k hk).2
  have hckb := fun k (hk : k ≤ program.length) => ckb_stateAfter hwindow hsame.ckb hk
  obtain ⟨rest, hsail⟩ := sail_stateAfter hsame.sail
  obtain ⟨s, hs, -, hsevents⟩ := hckb program.length le_rfl
  obtain ⟨t, ht, htstep⟩ := hsail program.length le_rfl
  have hlast : program.length < packets.length := by
    rw [hsame.sail.length]
    omega
  obtain ⟨session', hanswered, -⟩ := htstep.answered hlast CMD_END_OF_TRACE 0
  have hhalt := hsame.sail.final _ (List.getElem?_eq_getElem hlast)
  have hdrive : session.drive program = .ok (⟨t.events, .injectionComplete⟩, session') := by
    rw [DiiSession.drive_of_stateAfter ht]
    exact DiiSession.endOfTrace_ok_iff.2 ⟨rfl, _, hanswered, hhalt⟩
  refine ⟨_, _, _, runProgram_of_stateAfter hne hvalid hs, hdrive, ?_, ?_, ?_⟩
  · refine (passed_iff _ _ _).2 ⟨?_, ?_, rfl⟩
    · intro hnil
      have hlen := congrArg List.length (hsevents.symm.trans hnil)
      simp [hne] at hlen
    · exact hsevents.trans htstep.events.symm
  · intro bytes hbytes
    have hpos : 0 < program.length := List.length_pos_iff.2 hne
    exact startedFromReset_of_reports (hsame.sail.steps 0 hpos bytes hbytes)
  · intro k hk
    obtain ⟨s₀, hs₀, hregs₀, -⟩ := hckb k (Nat.le_of_lt hk)
    obtain ⟨s₁, hs₁, hregs₁, -⟩ := hckb (k + 1) hk
    obtain ⟨t₀, ht₀, hstep⟩ := hsail k (Nat.le_of_lt hk)
    have hk' : k < packets.length := by omega
    have hreports := hsame.sail.steps k hk packets[k] (List.getElem?_eq_getElem hk')
    refine ⟨s₀, s₁, t₀, packets[k], hs₀, hs₁, ht₀, List.getElem?_eq_getElem hk', ?_⟩
    have hnext := (intoEvent_of_reports hreports (machine.stateAt_succ program hk) hstep.shadow).2
    rw [V1Packet.intoEvent_eq] at hnext
    rw [changedRegisters_eq, t₀.shadow.observe_delta,
      RegisterObservers.delta_congr (hregs₀.trans hstep.shadow.symm) (hregs₁.trans hnext.symm)]

end Compare

/-! ## A concrete machine on both sides -/

/-- The machine that executes `addi x1, x1, 5` at every step. -/
def addiArch : ArchMachine where
  State := Registers × UInt64
  init := (Vector.replicate 32 0, INJECTION_ENTRY)
  pc := Prod.snd
  registers := Prod.fst
  step _ state := (state.1.set 1 (state.1[1] + 5), state.2 + 4)
  write _ state := some (1, state.1[1] + 5)
  init_pc := rfl
  init_registers := RegisterObservers.Agree.refl _
  step_registers _ _ := RegisterObservers.Agree.refl _

theorem addi_step (m : AddiMachine) :
    AddiMachine.step { m with stored := leBytes 0x00508093 } =
      ({ m with
          stored := leBytes 0x00508093
          registers := m.registers.set 1 (m.registers[1] + 5)
          pc := m.pc + 4 }, (), .ok ()) := by
  have hword : AddiMachine.word { m with stored := leBytes 0x00508093 } = 0x00508093 := by
    show UInt32.ofNat (Nat.ofDigits 256 ((leBytes 0x00508093).map UInt8.toNat)) = 0x00508093
    decide
  have hkind : ¬(0x00508093 : UInt32) &&& 0x707f ≠ 0x13 := by decide
  have hrd : (((0x00508093 : UInt32) >>> 7) &&& 31).toNat = 1 := by decide
  have hrs1 : (((0x00508093 : UInt32) >>> 15) &&& 31).toNat = 1 := by decide
  have himm : AddiMachine.immediate 0x00508093 = 5 := by decide
  have hvalue : m.registers.toList.getD 1 0 = m.registers[1] := by simp
  have hset (value : UInt64) : m.registers.setIfInBounds 1 value = m.registers.set 1 value := by
    ext i hi
    simp [Vector.getElem_setIfInBounds, Vector.getElem_set]
  rw [AddiMachine.step, hword, if_neg hkind]
  simp only [hrd, hrs1, himm, hvalue, one_ne_zero, if_false, hset]

theorem addi_executes (program : List UInt32) (h : ∀ word ∈ program, word = 0x00508093) :
    ExecutesMachine addiVm addiConfig addiArch program := by
  refine ⟨fun m _ state => m.registers = state.1 ∧ m.pc = state.2 ∧ m.running = true,
    ⟨rfl, rfl, rfl⟩, ?_, ?_⟩
  · rintro m d state ⟨hregs, hpc, -⟩
    refine ⟨hpc, ?_⟩
    rw [← show m.registers = addiArch.registers state from hregs]
    exact RegisterObservers.Agree.refl _
  · rintro k hk m d ⟨hregs, hpc, hrunning⟩
    have hword : program[k] = 0x00508093 := h _ (List.getElem_mem hk)
    refine ⟨{ m with stored := leBytes 0x00508093 }, _, (),
      ⟨?_, ⟨(), rfl, addi_step m⟩, hrunning⟩, RegisterObservers.Agree.refl _, ?_⟩
    · rw [hword]
      rfl
    · rw [addiArch.stateAt_succ program hk]
      exact ⟨by rw [hregs]; rfl, by rw [hpc]; rfl, hrunning⟩

theorem addi_reports : ReportsMachine addiArch addiProgram addiSession addiPackets where
  length := rfl
  incoming := ⟨[], by simp [addiSession]⟩
  writes _ := rfl
  flushes _ := rfl
  steps := by
    intro k hk bytes hbytes
    have hcases : k = 0 ∨ k = 1 := by
      have : k < 2 := hk
      omega
    rcases hcases with rfl | rfl
    · obtain rfl : addiPackets[0] = bytes := Option.some.inj hbytes
      exact ⟨by decide +kernel, by decide +kernel, by decide +kernel, by decide +kernel +revert,
        Or.inl ⟨1, 5, rfl, by decide +kernel, by decide +kernel⟩, by decide +kernel,
        by decide +kernel, by decide +kernel, by decide +kernel, by decide +kernel⟩
    · obtain rfl : addiPackets[1] = bytes := Option.some.inj hbytes
      exact ⟨by decide +kernel, by decide +kernel, by decide +kernel, by decide +kernel +revert,
        Or.inl ⟨1, 10, rfl, by decide +kernel, by decide +kernel⟩, by decide +kernel,
        by decide +kernel, by decide +kernel, by decide +kernel, by decide +kernel⟩
  final := by
    intro bytes hbytes
    have hlast : addiPackets[addiProgram.length]? = some addiPackets[2] := rfl
    obtain rfl : addiPackets[2] = bytes := Option.some.inj (hlast.symm.trans hbytes)
    decide +kernel

theorem no_false_alarm_addi :
    @PassesClean plainStrDebug addiVm addiConfig addiProgram addiSession addiPackets :=
  @no_false_alarm _ _ addiArch _ _ _ plainStrDebug (by decide) (by decide)
    { window := by
        intro k hk
        have hcases : k = 0 ∨ k = 1 := by
          have : k < 2 := hk
          omega
        rcases hcases with rfl | rfl <;> decide +kernel
      ckb := addi_executes addiProgram (by simp [addiProgram])
      sail := addi_reports }

/-- A session in which the emulator only ends the trace. -/
def haltPackets : List PacketBytes := [packetBytes 0 0 0 0 0 0 1]

def haltSession : DiiSession :=
  ⟨⟨haltPackets.flatMap Vector.toList, [], fun _ => none, fun _ => none, ""⟩, []⟩

/-- The empty program is screened without error, but neither runner accepts it. -/
theorem empty_program_not_clean :
    validateProgram [] = .ok () ∧
      SameMachine addiVm addiConfig addiArch [] haltSession haltPackets ∧
      ¬@PassesClean plainStrDebug addiVm addiConfig [] haltSession haltPackets := by
  refine ⟨rfl, ⟨by simp, addi_executes [] (by simp), rfl, ⟨[], by simp [haltSession]⟩,
    fun _ => rfl, fun _ => rfl, by simp, ?_⟩, ?_⟩
  · intro bytes hbytes
    obtain rfl : haltPackets[0] = bytes := Option.some.inj hbytes
    decide +kernel
  · rintro ⟨outcome, trace, session', hckb, -⟩
    cases hckb

end CkbSail.DiffTest
