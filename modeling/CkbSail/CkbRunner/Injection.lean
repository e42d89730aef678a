import CkbSail.Core.Program
import CkbSail.Core.Event
import CkbSail.ProofSupport.EnumerateLoop

/-!
# The CKB-VM side of direct instruction injection

`runProgram` writes the k-th word at the current program counter and executes
one ordinary step of the machine, k running over the program.  The machine and
its decoder are an interface: what the runner reads is the register file, the
program counter and the running flag, and what it relies on is `Lawful`.
-/

namespace CkbSail.CkbRunner

open CkbSail.Core RustStd ProofSupport

/-- Size of the executable window above `INJECTION_ENTRY`. -/
def INJECTION_WINDOW : UInt64 := 64 * 1024

structure InjectionConfig where
  isa : UInt8
  version : UInt32
  maxCycles : UInt64
deriving DecidableEq, Repr

/-- The part of ckb-vm that `runProgram` calls.  An error is its display text. -/
structure CkbVm where
  Machine : Type
  Decoder : Type
  /-- `DefaultCoreMachine::new_with_memory`, built into a `DefaultMachine`. -/
  newWithMemory : InjectionConfig → Nat → Machine
  updatePc : UInt64 → Machine → Machine
  commitPc : Machine → Machine
  setRunning : Bool → Machine → Machine
  /-- `DefaultDecoder::new`. -/
  newDecoder : UInt8 → UInt32 → Decoder
  pc : Machine → UInt64
  registers : Machine → Registers
  running : Machine → Bool
  exitCode : Machine → Int8
  storeBytes : UInt64 → List UInt8 → Machine → Machine × Except String Unit
  resetInstructionsCache : Decoder → Decoder × Except String Unit
  step : Machine → Decoder → Machine × Decoder × Except String Unit

namespace CkbVm

variable (vm : CkbVm)

/-- The machine the first word is injected into. -/
def boot (config : InjectionConfig) : vm.Machine :=
  let memorySize := (INJECTION_ENTRY + INJECTION_WINDOW).toNat
  vm.setRunning true (vm.commitPc (vm.updatePc INJECTION_ENTRY
    (vm.newWithMemory config memorySize)))

/-- What the runner relies on: a fresh machine has zero registers and the
program counter it was given, and storing bytes changes neither. -/
structure Lawful (config : InjectionConfig) : Prop where
  boot_pc : vm.pc (vm.boot config) = INJECTION_ENTRY
  boot_registers : vm.registers (vm.boot config) = Vector.replicate 32 0
  storeBytes_pc : ∀ address bytes machine,
    vm.pc (vm.storeBytes address bytes machine).1 = vm.pc machine
  storeBytes_registers : ∀ address bytes machine,
    vm.registers (vm.storeBytes address bytes machine).1 = vm.registers machine

end CkbVm

/-- The state delta: every register of x1..x31 whose value changed. -/
def changedRegisters (before after : Registers) : List RegisterWrite :=
  (before.toList.zip after.toList).zipIdx.filterMap fun ((old, new), index) =>
    if index ≠ 0 && old ≠ new then some ⟨UInt8.ofNat index, new⟩ else none

structure InjectionOutcome where
  trace : ExecutionTrace
  registers : Registers
  pc : UInt64
deriving DecidableEq

/-- `u32::to_le_bytes`. -/
def leBytes (bits : UInt32) : List UInt8 :=
  [bits.toUInt8, (bits >>> 8).toUInt8, (bits >>> 16).toUInt8, (bits >>> 24).toUInt8]

/-- Whether a word stored at `pc` lies inside the injection window; the addition
of 4 is checked, because a branch can wrap the program counter. -/
def inWindow (pc : UInt64) : Bool :=
  INJECTION_ENTRY ≤ pc && (pc.toNat + 4 < 2 ^ 64 && pc + 4 ≤ INJECTION_ENTRY + INJECTION_WINDOW)

section Run

variable (vm : CkbVm)

structure RunState where
  machine : vm.Machine
  decoder : vm.Decoder
  events : List CommitEvent

def finish (machine : vm.Machine) (events : List CommitEvent) (traceEnd : TraceEnd) :
    InjectionOutcome :=
  ⟨⟨events, traceEnd⟩, vm.registers machine, vm.pc machine⟩

/-- One pass of the loop of `run_program`. -/
def runStep (order : Nat) (bits : UInt32) (state : RunState vm) :
    Except Error (Flow InjectionOutcome (RunState vm)) :=
  let pcBefore := vm.pc state.machine
  if ¬inWindow pcBefore then
    .ok (.ret (finish vm state.machine state.events (.error
      (s!"program counter {alternateHex pcBefore.toNat} left the injection window " ++
        s!"[{alternateHex INJECTION_ENTRY.toNat}, " ++
        s!"{alternateHex (INJECTION_ENTRY + INJECTION_WINDOW).toNat})"))))
  else
    match vm.storeBytes pcBefore (leBytes bits) state.machine with
    | (machine, .error error) =>
        .ok (.ret (finish vm machine state.events (.error
          s!"failed to inject instruction at {alternateHex pcBefore.toNat}: {error}")))
    | (machine, .ok ()) =>
        -- the decoder caches by program counter, so a revisited address must
        -- not return the previously injected word
        match vm.resetInstructionsCache state.decoder with
        | (_, .error error) =>
            .error ((Error.msg error).context "failed to reset the CKB-VM instruction cache")
        | (decoder, .ok ()) =>
            let before := vm.registers machine
            let (machine, decoder, result) := vm.step machine decoder
            let after := vm.registers machine
            let event : CommitEvent :=
              { order := UInt64.ofNat order
                instruction := normalizeInstructionWidth bits
                pcBefore := pcBefore
                pcAfter := vm.pc machine
                registerWrites := changedRegisters before after
                memory := []
                trap := !result.isOk
                halt := !vm.running machine }
            let events := state.events ++ [event.normalize]
            match result with
            | .error error => .ok (.ret (finish vm machine events (.error error)))
            | .ok () =>
                if ¬vm.running machine then
                  .ok (.ret (finish vm machine events
                    (.completed (some (vm.exitCode machine).toInt32))))
                else .ok (.next ⟨machine, decoder, events⟩)

def initialState (config : InjectionConfig) : RunState vm :=
  ⟨vm.boot config, vm.newDecoder config.isa config.version, []⟩

def runProgram (program : List UInt32) (config : InjectionConfig) :
    Except Error InjectionOutcome :=
  if program.isEmpty then
    .error (.msg "an injected program must contain at least one instruction")
  else
    match validateProgram program with
    | .error error => .error (.msg error.display)
    | .ok () =>
        match enumerateLoop (runStep vm) 0 program (initialState vm config) with
        | .error error => .error error
        | .ok (.ret outcome) => .ok outcome
        | .ok (.next state) =>
            .ok (finish vm state.machine state.events .injectionComplete)

end Run

end CkbSail.CkbRunner
