import CkbSail.Core.Program
import CkbSail.Core.Event
import Mathlib

/-!
# The machine both engines are meant to be

An abstract machine executes one word per step and writes at most one integer
register.  Its run determines the events that both engines should record.
-/

namespace CkbSail.Core

open ProofSupport

theorem registerIndex_lt (i : Fin 32) : i.val < 32 := i.isLt

/-- A register file after an optional write. -/
def written (write : Option (Fin 32 × UInt64)) (registers : Registers) : Registers :=
  match write with
  | none => registers
  | some (i, value) => registers.set i value (registerIndex_lt i)

/-- A machine in the reset state whose steps write at most one integer register,
possibly x0 and possibly the value already held. -/
structure ArchMachine where
  State : Type
  init : State
  pc : State → UInt64
  registers : State → Registers
  step : UInt32 → State → State
  write : UInt32 → State → Option (Fin 32 × UInt64)
  init_pc : pc init = INJECTION_ENTRY
  init_registers : (registers init).Agree (Vector.replicate 32 0)
  step_registers : ∀ word state,
    (registers (step word state)).Agree (written (write word state) (registers state))

namespace ArchMachine

variable (machine : ArchMachine) (program : List UInt32)

/-- The state before step `k` of a program. -/
def stateAt (k : Nat) : machine.State :=
  (program.take k).foldl (fun state word => machine.step word state) machine.init

@[simp] theorem stateAt_zero : machine.stateAt program 0 = machine.init := rfl

theorem stateAt_succ {k : Nat} (hk : k < program.length) :
    machine.stateAt program (k + 1) = machine.step program[k] (machine.stateAt program k) := by
  rw [stateAt, List.take_succ_eq_append_getElem hk, List.foldl_append]
  rfl

/-- The event of step `k`. -/
def event (k : Nat) (word : UInt32) : CommitEvent :=
  { order := UInt64.ofNat k
    instruction := normalizeInstructionWidth word
    pcBefore := machine.pc (machine.stateAt program k)
    pcAfter := machine.pc (machine.stateAt program (k + 1))
    registerWrites := (RegisterObservers.delta architectural
      (machine.registers (machine.stateAt program k)).file
      (machine.registers (machine.stateAt program (k + 1))).file).map toWrite
    memory := []
    trap := false
    halt := false }

/-- The events of the whole program. -/
def events : List CommitEvent := program.mapIdx fun k word => machine.event program k word

@[simp] theorem length_events : (machine.events program).length = program.length := by
  rw [events, List.length_mapIdx]

theorem take_succ_events {k : Nat} (hk : k < program.length) :
    (machine.events program).take (k + 1) =
      (machine.events program).take k ++ [machine.event program k program[k]] := by
  rw [List.take_succ_eq_append_getElem (by rwa [length_events])]
  simp only [events, List.getElem_mapIdx]

end ArchMachine

end CkbSail.Core
