import CkbSail.CkbRunner.Injection

/-!
# Running an ELF file

The loop steps the loaded program until it stops, fails or has taken its number
of steps.
-/

namespace CkbSail.CkbRunner

open CkbSail.Core RustStd ProofSupport

structure RunnerConfig where
  isa : UInt8
  version : UInt32
  maxCycles : UInt64
  memorySize : Nat
  maxSteps : UInt64
deriving DecidableEq, Repr

/-- What `runBytes` calls of ckb-vm beside the injection runner. -/
structure ElfVm extends CkbVm where
  loadProgram : List UInt8 → Machine → Machine × Except String Unit
  /-- `memory_mut().execute_load32`. -/
  executeLoad32 : UInt64 → Machine → Machine × Except String UInt32

section Run

variable (vm : ElfVm)

/-- The machine an ELF file is loaded into. -/
def RunnerConfig.machine (config : RunnerConfig) : vm.Machine :=
  vm.newWithMemory ⟨config.isa, config.version, config.maxCycles⟩ config.memorySize

/-- How a run ends that no error ends. -/
def ending (machine : vm.Machine) : TraceEnd :=
  if vm.running machine then .stepLimit else .completed (some (vm.exitCode machine).toInt32)

/-- The event of one step, after the fetch. -/
def elfEvent (order : Nat) (instruction : UInt32) (stepped : vm.Machine) (pcBefore : UInt64)
    (before : Registers) (result : Except String Unit) : CommitEvent :=
  CommitEvent.normalize
    { order := UInt64.ofNat order
      instruction := normalizeInstructionWidth instruction
      pcBefore := pcBefore
      pcAfter := vm.pc stepped
      registerWrites := changedRegisters before (vm.registers stepped)
      -- committed data accesses are not exposed here, so none is a missing observation
      memory := []
      trap := !result.isOk
      halt := !vm.running stepped }

/-- The loop of `run_bytes`, with the number of steps that are left. -/
def elfLoop : Nat → vm.Machine → vm.Decoder → List CommitEvent → ExecutionTrace
  | 0, machine, _, events => ⟨events, ending vm machine⟩
  | steps + 1, machine, decoder, events =>
      if ¬vm.running machine then ⟨events, ending vm machine⟩
      else
        let pcBefore := vm.pc machine
        let before := vm.registers machine
        match vm.executeLoad32 pcBefore machine with
        | (_, .error error) =>
            ⟨events, .error s!"instruction fetch at {alternateHex pcBefore.toNat}: {error}"⟩
        | (fetched, .ok bits) =>
            let (stepped, decoder, result) := vm.step fetched decoder
            let event := elfEvent vm events.length bits stepped pcBefore before result
            match result with
            | .error error => ⟨events ++ [event], .error error⟩
            | .ok () => elfLoop steps stepped decoder (events ++ [event])

def runBytes (program : List UInt8) (config : RunnerConfig) : Except Error ExecutionTrace :=
  match vm.loadProgram program (config.machine vm) with
  | (_, .error error) => .error ((Error.msg error).context "failed to load ELF in CKB-VM")
  | (machine, .ok ()) =>
      .ok (elfLoop vm config.maxSteps.toNat (vm.setRunning true machine)
        (vm.newDecoder config.isa config.version) [])

/-- `run_elf`, with the file system as `readFile`. -/
def runElf (readFile : String → Except String (List UInt8)) (path : String)
    (config : RunnerConfig) : Except Error ExecutionTrace :=
  match readFile path with
  | .error fault => .error ((Error.msg fault).context s!"failed to read ELF {path}")
  | .ok bytes => runBytes vm bytes config

end Run

end CkbSail.CkbRunner
