import CkbSail.Core.Program
import CkbSail.Core.Event
import CkbSail.ProofSupport.Rv64gc

/-!
# What the screening lets through

`unsupportedInstruction` is compared with the class of the RV64GC instruction a
word stands for.  It refuses every load, store, atomic and SYSTEM instruction
except two: the stack-pointer-relative floating-point accesses C.FLDSP and
C.FSDSP, whose 32-bit forms it does refuse.
-/

namespace CkbSail.Core

open ProofSupport Rv64gc

/-- C.FLDSP and C.FSDSP: quadrant 2 with funct3 001 or 101. -/
def FloatStackAccess (word : UInt32) : Prop :=
  quadrant word = 2 ∧ (funct3 word = 0b001 ∨ funct3 word = 0b101)

instance (word : UInt32) : Decidable (FloatStackAccess word) := by
  unfold FloatStackAccess
  infer_instance

/-- The words the screening is meant to refuse and does: 32-bit memory, atomic
and SYSTEM opcodes; quadrant 0 apart from C.ADDI4SPN; the integer
stack-pointer-relative accesses; C.EBREAK. -/
def RefusedWord (word : UInt32) : Prop :=
  (quadrant word = 3 ∧ (opcodeClass word).isMemoryOrSystem = true) ∨
  (quadrant word = 0 ∧ funct3 word ≠ 0) ∨
  (quadrant word = 2 ∧ funct3 word ∈ [0b010, 0b011, 0b110, 0b111]) ∨
  word &&& 0xffff = 0x9002

instance (word : UInt32) : Decidable (RefusedWord word) := by
  unfold RefusedWord
  infer_instance

/-- The two compressed-field readings of the code are the format's. -/
theorem unsupportedInstruction_compressed {word : UInt32} (h : quadrant word ≠ 3) :
    unsupportedInstruction word =
      match quadrant word, funct3 word with
      | 0b00, 0b000 => none
      | 0b00, _ => some MEMORY_REASON
      | 0b10, 0b010 | 0b10, 0b011 | 0b10, 0b110 | 0b10, 0b111 => some MEMORY_REASON
      | 0b10, 0b100 => if word &&& 0xffff = 0x9002 then some SYSTEM_REASON else none
      | _, _ => none := by
  rw [Ne, quadrant_eq_three_iff] at h
  rw [unsupportedInstruction, if_neg h]
  rfl

theorem unsupportedInstruction_wide {word : UInt32} (h : quadrant word = 3) :
    unsupportedInstruction word ≠ none ↔ (opcodeClass word).isMemoryOrSystem = true := by
  rw [quadrant_eq_three_iff] at h
  have hlt : (word &&& 0x7f).toNat < 128 := by
    rw [UInt32.toNat_and]
    exact Nat.and_lt_two_pow (n := 7) _ (by decide)
  rw [unsupportedInstruction, if_pos h, opcodeClass, opcode]
  generalize (word &&& 0x7f).toNat = major at hlt ⊢
  interval_cases major <;> decide

/-- C.EBREAK lies in quadrant 2 with funct3 100. -/
theorem ebreak_fields {word : UInt32} (h : word &&& 0xffff = 0x9002) :
    quadrant word = 2 ∧ funct3 word = 0b100 := by
  rw [← quadrant_low_half, ← funct3_low_half, h]
  decide

theorem unsupportedInstruction_ne_none_iff (word : UInt32) :
    unsupportedInstruction word ≠ none ↔ RefusedWord word := by
  by_cases hwide : quadrant word = 3
  · rw [unsupportedInstruction_wide hwide, RefusedWord]
    have hbreak : ¬word &&& 0xffff = 0x9002 := fun h => by
      have := (ebreak_fields h).1
      omega
    simp [hwide, hbreak]
  · rw [unsupportedInstruction_compressed hwide, RefusedWord]
    have hq := quadrant_lt word
    have hf := funct3_lt word
    have hbreak : word &&& 0xffff = 0x9002 → _ := ebreak_fields
    generalize quadrant word = q at *
    generalize funct3 word = f at *
    interval_cases q <;> interval_cases f <;> simp_all

/-- Screening looks only at the bits that survive width normalization. -/
theorem unsupportedInstruction_normalize (word : UInt32) :
    unsupportedInstruction (normalizeInstructionWidth word) = unsupportedInstruction word := by
  by_cases hwide : word &&& 0b11 = 0b11
  · rw [normalizeInstructionWidth_of_wide hwide]
  · rw [normalizeInstructionWidth_of_compressed hwide]
    have hq : quadrant word ≠ 3 := fun h => hwide ((quadrant_eq_three_iff word).1 h)
    have hmask : word &&& 0xffff &&& 0xffff = word &&& 0xffff := by
      rw [UInt32.and_assoc]
      rfl
    rw [unsupportedInstruction_compressed (by rwa [quadrant_low_half]),
      unsupportedInstruction_compressed hq, quadrant_low_half, funct3_low_half, hmask]

/-! ## Against the expansions -/

/-- The class a compressed word expands to, by quadrant and funct3. -/
theorem instructionClass_compressed {word : UInt32} (h : quadrant word ≠ 3) :
    instructionClass word = (expand (word &&& 0xffff)).map opcodeClass := by
  rw [Ne, quadrant_eq_three_iff] at h
  rw [instructionClass, instruction, if_neg h]

theorem instructionClass_wide {word : UInt32} (h : quadrant word = 3) :
    instructionClass word = some (opcodeClass word) := by
  rw [quadrant_eq_three_iff] at h
  rw [instructionClass, instruction, if_pos h]
  rfl

theorem isAccess_low_half (word : UInt32) : IsAccess (word &&& 0xffff) ↔ IsAccess word := by
  simp [IsAccess]

theorem isBreak_low_half (word : UInt32) :
    IsBreak (word &&& 0xffff) ↔ word &&& 0xffff = 0x9002 := by
  rw [isBreak_iff, UInt32.and_assoc]
  rfl

/-- In the compressed quadrants, the accesses are the refused ones and the two
floating-point ones. -/
theorem isAccess_iff {word : UInt32} (h : quadrant word ≠ 3) :
    IsAccess word ∨ word &&& 0xffff = 0x9002 ↔ RefusedWord word ∨ FloatStackAccess word := by
  have hq := quadrant_lt word
  have hf := funct3_lt word
  have hbreak : word &&& 0xffff = 0x9002 → _ := ebreak_fields
  unfold IsAccess RefusedWord FloatStackAccess
  generalize quadrant word = q at *
  generalize funct3 word = f at *
  interval_cases q <;> interval_cases f <;> simp_all

/-- An instruction is a memory access, atomic or SYSTEM exactly when the
screening refuses it or it is one of the two floating-point stack accesses;
otherwise it is a computation or outside both groups. -/
theorem isMemoryOrSystem_iff {word : UInt32} {cls : OpcodeClass}
    (h : instructionClass word = some cls) :
    cls.isMemoryOrSystem = true ↔ RefusedWord word ∨ FloatStackAccess word := by
  by_cases hwide : quadrant word = 3
  · rw [instructionClass_wide hwide, Option.some.injEq] at h
    subst h
    have hbreak : ¬word &&& 0xffff = 0x9002 := fun hb => by
      have := (ebreak_fields hb).1
      omega
    simp [RefusedWord, FloatStackAccess, hwide, hbreak]
  · rw [← isAccess_iff hwide]
    rw [instructionClass_compressed hwide, Option.map_eq_some_iff] at h
    obtain ⟨full, hfull, rfl⟩ := h
    have hclass := expand_class hfull
    rw [isAccess_low_half, isBreak_low_half] at hclass
    rcases hclass with ⟨hform, hmem⟩ | ⟨hform, hcomp⟩
    · simp [hform, hmem]
    · simp only [hform, iff_false, Bool.not_eq_true]
      revert hcomp
      cases opcodeClass full <;> decide

/-- The two floating-point stack accesses stand for memory accesses. -/
theorem FloatStackAccess.class {word : UInt32} (h : FloatStackAccess word) :
    ∃ cls, instructionClass word = some cls ∧ cls.isMemoryOrSystem = true := by
  obtain ⟨hq, hf⟩ := h
  have hwide : quadrant word ≠ 3 := by omega
  obtain ⟨full, hfull⟩ : ∃ full, expand (word &&& 0xffff) = some full := by
    rcases hf with hf | hf <;> simp [expand, hq, hf]
  refine ⟨opcodeClass full, by rw [instructionClass_compressed hwide, hfull]; rfl, ?_⟩
  rw [isMemoryOrSystem_iff (by rw [instructionClass_compressed hwide, hfull]; rfl)]
  exact Or.inr ⟨hq, hf⟩

/-! ## The screening of a program -/

/-- What the screening promises of a program: a word it lets through is no
memory, atomic or SYSTEM instruction in either width, no computation is refused,
the width of the fetched word does not matter, and an error names the least
refused index. -/
structure ScreeningAgrees (program : List UInt32) : Prop where
  sound : validateProgram program = .ok () → ∀ word ∈ program, ∀ cls,
    instructionClass word = some cls → cls.isMemoryOrSystem = false
  permissive : ∀ word cls, instructionClass word = some cls → cls.isComputation = true →
    unsupportedInstruction word = none
  width : ∀ word,
    unsupportedInstruction word = unsupportedInstruction (normalizeInstructionWidth word)
  located : ∀ error, validateProgram program = .error error →
    program[error.index]? = some error.bits ∧
      unsupportedInstruction error.bits = some error.reason ∧
      ∀ j < error.index, ∀ word, program[j]? = some word → unsupportedInstruction word = none

/-- No computation is refused. -/
theorem unsupportedInstruction_of_computation {word : UInt32} {cls : OpcodeClass}
    (h : instructionClass word = some cls) (hcomp : cls.isComputation = true) :
    unsupportedInstruction word = none := by
  by_contra hne
  have hmem := (isMemoryOrSystem_iff h).2 (Or.inl ((unsupportedInstruction_ne_none_iff word).1 hne))
  rw [OpcodeClass.not_memory_of_computation hcomp] at hmem
  exact Bool.false_ne_true hmem

/-- The screening keeps its promise exactly on the programs without a
floating-point stack access, and on those refused for another word. -/
theorem screeningAgrees_iff (program : List UInt32) :
    ScreeningAgrees program ↔
      (∀ word ∈ program, ¬FloatStackAccess word) ∨ ∃ word ∈ program, RefusedWord word := by
  constructor
  · intro h
    by_contra hneither
    simp only [not_or, not_forall, not_not, not_exists, not_and] at hneither
    obtain ⟨⟨word, hword, hfloat⟩, hnone⟩ := hneither
    have hok : validateProgram program = .ok () := by
      rw [validateProgram_eq_ok]
      intro w hw
      by_contra hne
      exact hnone w hw ((unsupportedInstruction_ne_none_iff w).1 hne)
    obtain ⟨cls, hcls, hmem⟩ := hfloat.class
    rw [h.sound hok word hword cls hcls] at hmem
    exact Bool.false_ne_true hmem
  · intro hcond
    refine ⟨?_, fun word cls => unsupportedInstruction_of_computation,
      fun word => (unsupportedInstruction_normalize word).symm, ?_⟩
    · intro hok word hword cls hcls
      have hsupported := validateProgram_eq_ok.1 hok
      have hnot : ∀ w ∈ program, ¬RefusedWord w := fun w hw hrefused =>
        (unsupportedInstruction_ne_none_iff w).2 hrefused (hsupported w hw)
      have hfloat : ¬FloatStackAccess word := by
        rcases hcond with hfloat | ⟨w, hw, hrefused⟩
        · exact hfloat word hword
        · exact absurd hrefused (hnot w hw)
      rw [Bool.eq_false_iff, Ne, isMemoryOrSystem_iff hcls]
      rintro (hrefused | hf)
      · exact hnot word hword hrefused
      · exact hfloat hf
    · intro error herror
      obtain ⟨k, hindex, hget, hreason, hleast⟩ := validateFrom_eq_error herror
      obtain rfl : error.index = k := by omega
      exact ⟨hget, hreason, hleast⟩

/-- C.FLDSP into f0 passes the screening, although FLD does not. -/
theorem not_screeningAgrees_fldsp : ¬ScreeningAgrees [0x2002] := by
  intro h
  have hclass : instructionClass 0x2002 = some .loadFp := by decide
  have := h.sound (by decide) 0x2002 (by decide) .loadFp hclass
  exact absurd this (by decide)

end CkbSail.Core
