import CkbSail.RustStd.Format

/-!
# Injected programs and their supported subset

Both backends run the same list of raw instruction words.  Classes of
instructions whose observation is missing on one side are refused before either
engine is started.
-/

namespace CkbSail.Core

open RustStd

/-- Reset program counter of an injected program. -/
def INJECTION_ENTRY : UInt64 := 0x80000000

structure UnsupportedInstruction where
  index : Nat
  bits : UInt32
  reason : String
deriving DecidableEq, Repr

def UnsupportedInstruction.display (error : UnsupportedInstruction) : String :=
  s!"unsupported instruction 0x{paddedHex 8 error.bits.toNat} at index {error.index}: {error.reason}"

def MEMORY_REASON : String :=
  "data-memory accesses are unsupported: CKB-VM does not expose committed read/write " ++
  "events at this boundary, so the memory field of a commit event would be missing " ++
  "rather than equal"

def SYSTEM_REASON : String :=
  "SYSTEM instructions are unsupported: CKB-VM syscalls and the Sail HTIF/CSR " ++
  "platform contracts differ and are excluded from the current MVP"

/-- Classify one raw instruction word against the supported subset. -/
def unsupportedInstruction (bits : UInt32) : Option String :=
  if bits &&& 0b11 = 0b11 then
    match (bits &&& 0x7f).toNat with
    | 0b0000011 | 0b0000111 => some MEMORY_REASON  -- LOAD, LOAD-FP
    | 0b0100011 | 0b0100111 => some MEMORY_REASON  -- STORE, STORE-FP
    | 0b0101111 => some MEMORY_REASON  -- AMO
    | 0b1110011 => some SYSTEM_REASON  -- SYSTEM
    | _ => none
  else
    let quadrant := (bits &&& 0b11).toNat
    let funct3 := ((bits >>> 13) &&& 0b111).toNat
    match quadrant, funct3 with
    | 0b00, 0b000 => none
    | 0b00, _ => some MEMORY_REASON
    | 0b10, 0b010 | 0b10, 0b011 | 0b10, 0b110 | 0b10, 0b111 => some MEMORY_REASON
    | 0b10, 0b100 => if bits &&& 0xffff = 0x9002 then some SYSTEM_REASON else none
    | _, _ => none

/-- The loop of `validate_program`, with the index of the head. -/
def validateFrom : Nat → List UInt32 → Except UnsupportedInstruction Unit
  | _, [] => .ok ()
  | index, bits :: rest =>
      match unsupportedInstruction bits with
      | some reason => .error ⟨index, bits, reason⟩
      | none => validateFrom (index + 1) rest

/-- Reject a program that leaves the honestly comparable subset. -/
def validateProgram (program : List UInt32) : Except UnsupportedInstruction Unit :=
  validateFrom 0 program

theorem validateFrom_eq_ok {index : Nat} {program : List UInt32} :
    validateFrom index program = .ok () ↔
      ∀ word ∈ program, unsupportedInstruction word = none := by
  induction program generalizing index with
  | nil => simp [validateFrom]
  | cons bits rest ih =>
      rw [validateFrom]
      cases h : unsupportedInstruction bits with
      | some reason => simp [h]
      | none => simp [h, ih]

theorem validateProgram_eq_ok {program : List UInt32} :
    validateProgram program = .ok () ↔
      ∀ word ∈ program, unsupportedInstruction word = none := validateFrom_eq_ok

/-- An error names the first refused word, counted from the index of the head. -/
theorem validateFrom_eq_error {index : Nat} {program : List UInt32}
    {error : UnsupportedInstruction} (h : validateFrom index program = .error error) :
    ∃ k, error.index = index + k ∧ program[k]? = some error.bits ∧
      unsupportedInstruction error.bits = some error.reason ∧
      ∀ j < k, ∀ word, program[j]? = some word → unsupportedInstruction word = none := by
  induction program generalizing index with
  | nil => simp [validateFrom] at h
  | cons bits rest ih =>
      rw [validateFrom] at h
      cases hbits : unsupportedInstruction bits with
      | some reason =>
          obtain rfl : UnsupportedInstruction.mk index bits reason = error := by
            simpa [hbits] using h
          exact ⟨0, rfl, rfl, hbits, by simp⟩
      | none =>
          obtain ⟨k, hindex, hget, hreason, hleast⟩ := ih (by simpa [hbits] using h)
          refine ⟨k + 1, by omega, by simpa using hget, hreason, ?_⟩
          intro j hj word hword
          cases j with
          | zero =>
              obtain rfl : bits = word := by simpa using hword
              exact hbits
          | succ j => exact hleast j (by omega) word (by simpa using hword)

end CkbSail.Core
