import CkbSail.DiffTest.Proofs.PassSoundness
import Mathlib

/-!
# Malformed packets behind a passing comparison

Three fields of a packet hold values the commit event has no room for: a
destination register past x31, instruction bits above 31, and the interrupt
flag.  The decoder drops all three.  A dropped destination register still shows
when CKB-VM changes a register at the same step; the other two never show.
-/

namespace CkbSail.DiffTest

open CkbSail.Core RustStd ProofSupport CkbRunner SailRunner

/-- The packet holds no value that its commit event leaves out. -/
structure WellFormed (packet : V1Packet) : Prop where
  register : packet.rdAddr.toNat < 32
  instruction : packet.insn >>> 32 = 0
  interrupt : packet.intr = false

instance (packet : V1Packet) : Decidable (WellFormed packet) :=
  decidable_of_iff (packet.rdAddr.toNat < 32 ∧ packet.insn >>> 32 = 0 ∧ packet.intr = false)
    ⟨fun ⟨hr, hi, ht⟩ => ⟨hr, hi, ht⟩, fun h => ⟨h.register, h.instruction, h.interrupt⟩⟩

/-- CKB-VM changes one of x1..x31 when it executes `bits` from this state. -/
def ChangesRegister (vm : CkbVm) (bits : UInt32) (state : RunState vm) : Prop :=
  let stored := (vm.storeBytes (vm.pc state.machine) (leBytes bits) state.machine).1
  let cleared := (vm.resetInstructionsCache state.decoder).1
  ∃ i, 1 ≤ i ∧ ∃ hi : i < 32,
    (vm.registers stored)[i] ≠ (vm.registers (vm.step stored cleared).1)[i]

/-- What a packet may hold, given the step of CKB-VM it is compared with. -/
structure Exposed (vm : CkbVm) (bits : UInt32) (state : RunState vm) (packet : V1Packet) :
    Prop where
  instruction : packet.insn >>> 32 = 0
  interrupt : packet.intr = false
  register : 32 ≤ packet.rdAddr.toNat → ChangesRegister vm bits state

variable {vm : CkbVm} {config : InjectionConfig} {session : DiiSession}
  {program : List UInt32}

/-- A machine that changes a register of x1..x31 reports a write. -/
theorem changedRegisters_ne_nil {before after : Registers} {i : Nat} (hpos : 1 ≤ i)
    (hi : i < 32) (hne : before[i] ≠ after[i]) : changedRegisters before after ≠ [] := by
  intro hnil
  rw [changedRegisters_eq, List.map_eq_nil_iff] at hnil
  have hself : before.Agree before := RegisterObservers.Agree.refl before.file
  have hagree := RegisterObservers.agree_of_delta_eq hself
    (hnil.trans (RegisterObservers.delta_self architectural before.file).symm)
  exact hne (Registers.agree_iff.1 hagree.symm i hi hpos)

/-- A packet whose destination register is past x31 reports no write. -/
theorem intoEvent_of_register_out_of_range {packet : V1Packet} (shadow : RegisterShadow)
    (h : 32 ≤ packet.rdAddr.toNat) : (packet.intoEvent shadow).2.registerWrites = [] := by
  rw [V1Packet.intoEvent_eq, shadow.observe_of_hidden packet.rdWdata (Or.inr h)]
  rfl

/-- A destination register past x31 does not pass against a step that changes a
register: one event has a write where the other has none. -/
theorem register_lt_of_changes {bits : UInt32} {s t : RunState vm} {stored : vm.Machine}
    {packet : V1Packet} {shadow : RegisterShadow} {k : Nat}
    (hexec : Executes vm bits s.machine s.decoder stored t.machine t.decoder)
    (hchanges : ChangesRegister vm bits s)
    (hevent : committed vm k bits s.machine stored t.machine = (packet.intoEvent shadow).2) :
    packet.rdAddr.toNat < 32 := by
  obtain ⟨cleared, hcleared, hstep⟩ := hexec.step
  obtain ⟨i, hpos, hi, hne⟩ := hchanges
  rw [hexec.store, hcleared, hstep] at hne
  by_contra hrange
  have hwrites := congrArg CommitEvent.registerWrites hevent
  rw [intoEvent_of_register_out_of_range shadow (by omega)] at hwrites
  exact changedRegisters_ne_nil hpos hi hne hwrites

/-- The instruction packets behind a passing comparison are well formed exactly
when every one of them has its instruction and interrupt fields clean and names a
register past x31 only where CKB-VM changes a register. -/
theorem wellFormed_iff_exposed [StrDebug] {outcome : InjectionOutcome} {trace : ExecutionTrace}
    {session' : DiiSession} (hckb : CkbRunner.runProgram vm program config = .ok outcome)
    (hsail : session.drive program = .ok (trace, session'))
    (hpass : (CompareResult.compare outcome.trace trace).passed = true) :
    (∀ bytes ∈ session'.rawPackets.take program.length, WellFormed (V1Packet.parse bytes)) ↔
      ∀ (k : Nat) (hk : k < program.length) (state : RunState vm) (bytes : PacketBytes),
        CkbRunner.StateAfter vm program config k state → session.packetAt k = some bytes →
          Exposed vm program[k] state (V1Packet.parse bytes) := by
  obtain ⟨s, t, hs, ht, -, hfinal, -, hevents⟩ := complete_of_passed hckb hsail hpass
  obtain ⟨-, packet, hanswered, -⟩ := DiiSession.endOfTrace_ok_iff.1 hfinal
  obtain ⟨last, -, hraw⟩ := hanswered.rawPackets
  have hlength := (DiiSession.decoded_of_stateAfter ht).length
  have htake : session'.rawPackets.take program.length = t.session.rawPackets := by
    rw [hraw, ← hlength, List.take_left]
  rw [htake]
  constructor
  · intro hall k hk state bytes _ hbytes
    obtain ⟨shadow, bytes', hpacket, hrecorded, -⟩ := DiiSession.packet_of_stateAfter ht hk
    obtain rfl : bytes = bytes' := Option.some.inj (hbytes.symm.trans hpacket)
    have hwell := hall bytes (List.mem_of_getElem? hrecorded)
    exact ⟨hwell.instruction, hwell.interrupt, fun hrange => absurd hwell.register (by omega)⟩
  · intro hall bytes hmem
    obtain ⟨k, hlt, hget⟩ := List.getElem_of_mem hmem
    have hk : k < program.length := by omega
    obtain ⟨shadow, bytes', hpacket, hrecorded, hobserved⟩ := DiiSession.packet_of_stateAfter ht hk
    obtain rfl : bytes = bytes' := by
      rw [List.getElem?_eq_getElem hlt, hget] at hrecorded
      exact Option.some.inj hrecorded
    obtain ⟨hitem, u, v, stored, hu, -, hexec, hcommitted⟩ := (committed_of_stateAfter hs).2 k hk
    have hexposed := hall k hk u bytes hu hpacket
    refine ⟨?_, hexposed.instruction, hexposed.interrupt⟩
    by_contra hrange
    have hevent : committed vm k program[k] u.machine stored v.machine =
        ((V1Packet.parse bytes).intoEvent shadow).2 := by
      rw [hevents, hobserved] at hcommitted
      exact (Option.some.inj hcommitted).symm
    exact hrange (register_lt_of_changes hexec (hexposed.register (by omega)) hevent)

theorem wellFormed_iff_exposed_addi : ∃ outcome session',
    CkbRunner.runProgram addiVm addiProgram addiConfig = .ok outcome ∧
      addiSession.drive addiProgram = .ok (addiTrace, session') ∧
      ((∀ bytes ∈ session'.rawPackets.take 2, WellFormed (V1Packet.parse bytes)) ↔
        ∀ (k : Nat) (hk : k < addiProgram.length) (state : RunState addiVm) (bytes : PacketBytes),
          CkbRunner.StateAfter addiVm addiProgram addiConfig k state →
            addiSession.packetAt k = some bytes →
              Exposed addiVm addiProgram[k] state (V1Packet.parse bytes)) := by
  let _ := plainStrDebug
  obtain ⟨outcome, hckb, houtcome⟩ := exists_ok_of_toOption_map addi_ckb
  obtain ⟨⟨trace, session'⟩, hsail, htrace⟩ := exists_ok_of_toOption_map addi_sail
  simp only at htrace
  subst htrace
  refine ⟨outcome, session', hckb, hsail, wellFormed_iff_exposed hckb hsail ?_⟩
  rw [houtcome]
  decide +kernel

/-! ## A malformed packet behind a pass -/

/-- `addi x0, x0, 0`. -/
def nopProgram : List UInt32 := [0x00000013]

theorem lastByte_lt : 87 < 88 := by omega

/-- The answer to it with all three fields malformed: a write to x40, the
instruction `0xdeadbeef00000013` and the interrupt flag. -/
def malformedPacket : PacketBytes :=
  (packetBytes 0 0x80000000 0x80000004 0xdeadbeef00000013 7 40 0).set 87 1 lastByte_lt

def malformedSession : DiiSession :=
  ⟨⟨[malformedPacket, packetBytes 0 0 0 0 0 0 1].flatMap Vector.toList, [], fun _ => none,
    fun _ => none, ""⟩, []⟩

def nopTrace : ExecutionTrace :=
  ⟨[⟨0, 0x00000013, 0x80000000, 0x80000004, [], [], false, false⟩], .injectionComplete⟩

theorem malformed_packet_passes : ∃ outcome session',
    CkbRunner.runProgram addiVm nopProgram addiConfig = .ok outcome ∧
      malformedSession.drive nopProgram = .ok (nopTrace, session') ∧
      (@CompareResult.compare plainStrDebug outcome.trace nopTrace).passed = true ∧
      malformedPacket ∈ session'.rawPackets.take nopProgram.length ∧
      (V1Packet.parse malformedPacket).rdAddr = 40 ∧
      (V1Packet.parse malformedPacket).insn = 0xdeadbeef00000013 ∧
      (V1Packet.parse malformedPacket).intr = true ∧
      ¬WellFormed (V1Packet.parse malformedPacket) := by
  have hckb : (CkbRunner.runProgram addiVm nopProgram addiConfig).toOption.map
      InjectionOutcome.trace = some nopTrace := by decide +kernel
  have hsail : (malformedSession.drive nopProgram).toOption.map
      (fun result => (result.1, result.2.rawPackets.take 1)) =
        some (nopTrace, [malformedPacket]) := by decide +kernel
  obtain ⟨outcome, hckb, houtcome⟩ := exists_ok_of_toOption_map hckb
  obtain ⟨⟨trace, session'⟩, hsail, hresult⟩ := exists_ok_of_toOption_map hsail
  obtain ⟨rfl, hpackets⟩ := Prod.mk.inj hresult
  refine ⟨outcome, session', hckb, hsail, ?_, ?_, by decide +kernel, by decide +kernel,
    by decide +kernel, by decide +kernel⟩
  · rw [houtcome]
    decide +kernel
  · have htake : session'.rawPackets.take nopProgram.length = [malformedPacket] := hpackets
    rw [htake]
    exact List.mem_singleton_self _

end CkbSail.DiffTest
