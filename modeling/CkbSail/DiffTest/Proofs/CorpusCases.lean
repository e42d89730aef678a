import CkbSail.DiffTest.Proofs.Materialize
import CkbSail.DiffTest.Proofs.Description
import CkbSail.CkbRunner.Injection
import CkbSail.Scripts.RuntimeEvidence

/-!
# One case of the corpus

What the evidence validator asks of a case, and what executing its words from the
reset state has to show for the sentence that describes it.
-/

namespace CkbSail.DiffTest

open CkbSail.Core CkbRunner PythonStd RustStd ProofSupport Rv64i Encode Scripts.RuntimeEvidence

/-! ## What a case has to satisfy -/

/-- Whether the word under test has the opcode of the declared family. -/
def focusMatches (case : TestProgram) : Py Bool :=
  match case.instructions[case.focusStep]? with
  | none => .error .indexError
  | some word => do
      let (mask, value) ← family (.str case.family)
      matchesFamily (.int word.toNat) mask value

structure Approved (case : TestProgram) : Prop where
  nonempty : 1 ≤ case.instructions.length
  bounded : case.instructions.length ≤ 256
  focus : case.focusStep < case.instructions.length
  family : focusMatches case = .ok true
  supported : validateProgram case.instructions = .ok ()

instance (case : TestProgram) : Decidable (Approved case) :=
  decidable_of_iff (1 ≤ case.instructions.length ∧ case.instructions.length ≤ 256 ∧
      case.focusStep < case.instructions.length ∧ focusMatches case = .ok true ∧
      validateProgram case.instructions = .ok ())
    ⟨fun ⟨h₁, h₂, h₃, h₄, h₅⟩ => ⟨h₁, h₂, h₃, h₄, h₅⟩,
      fun ⟨h₁, h₂, h₃, h₄, h₅⟩ => ⟨h₁, h₂, h₃, h₄, h₅⟩⟩

/-- The hart both engines start from. -/
def resetState : State := .reset INJECTION_ENTRY

/-- Executing the words keeps every program counter in the window, and the word
under test is the named instruction, met with the named operands. -/
structure RunsAsDescribed (case : TestProgram) : Prop where
  described : ∃ sentence : Sentence, case.description = sentence.display
  inside : Along (fun s => inWindow s.pc = true) resetState case.instructions
  focus : ∀ sentence : Sentence, case.description = sentence.display →
    ∃ s word, run resetState (case.instructions.take case.focusStep) = some s ∧
      (∀ operand ∈ sentence.operands, s.x operand.1 = operand.2) ∧
      case.instructions[case.focusStep]? = some word ∧ decode word = some sentence.instruction

/-! ## Addresses -/

/-- The address of the k-th word of straight-line code. -/
def address (k : Nat) : UInt64 := INJECTION_ENTRY + 4 * UInt64.ofNat k

theorem address_add (k j : Nat) : address k + 4 * UInt64.ofNat j = address (k + j) := by
  rw [address, address, UInt64.ofNat_add, UInt64.mul_add, UInt64.add_assoc]

theorem toNat_address {k : Nat} (hk : k < 2 ^ 14) : (address k).toNat = 0x80000000 + 4 * k := by
  have hentry : INJECTION_ENTRY.toNat = 0x80000000 := rfl
  have hfour : (4 : UInt64).toNat = 4 := rfl
  rw [address, UInt64.toNat_add, UInt64.toNat_mul, UInt64.toNat_ofNat', hentry, hfour]
  omega

theorem inWindow_address {k : Nat} (hk : k < 2 ^ 14) : inWindow (address k) = true := by
  have hvalue := toNat_address hk
  have hentry : INJECTION_ENTRY.toNat = 0x80000000 := rfl
  have hwindow : INJECTION_WINDOW.toNat = 65536 := rfl
  have hfour : (4 : UInt64).toNat = 4 := rfl
  simp only [inWindow, Bool.and_eq_true, decide_eq_true_eq, UInt64.le_iff_toNat_le,
    UInt64.toNat_add, hvalue, hentry, hwindow, hfour]
  omega

/-! ## Supported words -/

theorem toNat_opcode (word : UInt32) : (opcode word).toNat = word.toNat % 128 := by
  rw [opcode, toNat_field, Nat.pow_zero, Nat.div_one]
  rfl

/-- The three formats are in the supported subset. -/
theorem supported_of_decode {word : UInt32} {i : Instruction} (h : decode word = some i) :
    unsupportedInstruction word = none := by
  have hopcode : (opcode word).toNat = 0b0110011 ∨ (opcode word).toNat = 0b0010011 ∨
      (opcode word).toNat = 0b1100011 :=
    (decode_cases h).imp And.left fun h => h.imp And.left And.left
  have hmask : (word &&& 0x7f).toNat = (opcode word).toNat := by
    rw [UInt32.toNat_and, toNat_opcode]
    exact Nat.and_two_pow_sub_one_eq_mod _ 7
  have hwide : word &&& 0b11 = 0b11 := by
    rw [← UInt32.toNat_inj, UInt32.toNat_and]
    have hlow : word.toNat &&& (0b11 : UInt32).toNat = word.toNat % 4 :=
      Nat.and_two_pow_sub_one_eq_mod _ 2
    rw [hlow]
    rw [toNat_opcode] at hopcode
    show word.toNat % 4 = 3
    omega
  rw [unsupportedInstruction, if_pos hwide, hmask]
  rcases hopcode with h | h | h <;> rw [h] <;> rfl

/-! ## The approved families -/

/-- A mask of adjacent bits cuts a field out. -/
theorem and_field (n k width : Nat) :
    n &&& ((2 ^ width - 1) * 2 ^ k) = n / 2 ^ k % 2 ^ width * 2 ^ k := by
  apply Nat.eq_of_testBit_eq
  intro i
  rw [Nat.testBit_and, Nat.testBit_mul_two_pow, Nat.testBit_mul_two_pow,
    Nat.testBit_two_pow_sub_one, Nat.testBit_mod_two_pow, Nat.testBit_div_two_pow]
  by_cases hi : k ≤ i
  · rw [Nat.sub_add_cancel hi]
    cases n.testBit i <;> simp [hi]
  · simp [hi]

theorem matchesFamily_iff {word : UInt32} {mask value : Nat} :
    matchesFamily (.int word.toNat) mask value = .ok true ↔ word.toNat &&& mask = value := by
  have hland : Int.land (word.toNat : Int) (mask : Int) = ((word.toNat &&& mask : Nat) : Int) := rfl
  rw [matchesFamily, hland, Except.ok.injEq, decide_eq_true_eq]
  exact Int.natCast_inj

theorem or_above {low high k : Nat} (h : low < 2 ^ k) : low ||| high * 2 ^ k = low + high * 2 ^ k := by
  rw [Nat.or_comm, Nat.mul_comm, ← Nat.two_pow_add_eq_or_of_lt h, Nat.add_comm]

/-- The mask of ADDI and BEQ: opcode and funct3. -/
theorem and_opcode_funct3 (word : UInt32) :
    word.toNat &&& 0x707f = (opcode word).toNat + (funct3 word).toNat * 2 ^ 12 := by
  have hmask : 0x707f = (2 ^ 7 - 1) * 2 ^ 0 ||| (2 ^ 3 - 1) * 2 ^ 12 := rfl
  have hlow : word.toNat / 2 ^ 0 % 2 ^ 7 * 2 ^ 0 < 2 ^ 12 := by omega
  rw [hmask, Nat.and_or_distrib_left, and_field, and_field, or_above hlow, opcode, funct3,
    toNat_field, toNat_field, Nat.pow_zero, Nat.mul_one]

/-- The mask of ADD: opcode, funct3 and funct7. -/
theorem and_opcode_funct3_funct7 (word : UInt32) :
    word.toNat &&& 0xfe00707f =
      (opcode word).toNat + (funct3 word).toNat * 2 ^ 12 + (funct7 word).toNat * 2 ^ 25 := by
  have hmask : 0xfe00707f = 0x707f ||| (2 ^ 7 - 1) * 2 ^ 25 := rfl
  have hlow : (opcode word).toNat + (funct3 word).toNat * 2 ^ 12 < 2 ^ 25 := by omega
  rw [hmask, Nat.and_or_distrib_left, and_opcode_funct3, and_field, or_above hlow, funct7,
    toNat_field]

theorem operation_eq_add {f3 : BitVec 3} {f7 : BitVec 7} :
    operation f3 f7 = some .add ↔ f3.toNat = 0 ∧ f7.toNat = 0 := by
  constructor
  · intro h
    unfold operation at h
    split at h <;> first | exact ⟨‹_›, ‹_›⟩ | cases h
  · rintro ⟨h3, h7⟩
    rw [operation, h3, h7]
    rfl

theorem operationImm_eq_add {f3 : BitVec 3} {immediate : BitVec 12} :
    operationImm f3 immediate = some .add ↔ f3.toNat = 0 := by
  constructor
  · intro h
    unfold operationImm at h
    split at h <;> first | assumption | cases h
  · intro h
    rw [operationImm, h]
    rfl

theorem condition_eq_eq {f3 : BitVec 3} : condition f3 = some .eq ↔ f3.toNat = 0 := by
  constructor
  · intro h
    unfold condition at h
    split at h <;> first | assumption | cases h
  · intro h
    rw [condition, h]
    rfl

/-- The approved mask of a family matches exactly the words of its instruction. -/
theorem decode_add_iff {word : UInt32} :
    (∃ d a b, decode word = some (.op .add d a b)) ↔ word.toNat &&& 0xfe00707f = 0x33 := by
  rw [and_opcode_funct3_funct7]
  constructor
  · rintro ⟨d, a, b, h⟩
    rcases decode_cases h with ⟨hopcode, o, ho, hi⟩ | ⟨-, o, -, hi⟩ | ⟨-, c, -, hi⟩ <;> cases hi
    have hcodes := operation_eq_add.1 ho
    omega
  · intro h
    have hcodes : (funct3 word).toNat = 0 ∧ (funct7 word).toNat = 0 := by omega
    exact ⟨_, _, _, decode_of_op (by omega) (operation_eq_add.2 hcodes)⟩

theorem decode_addi_iff {word : UInt32} :
    (∃ d a immediate, decode word = some (.opImm .add d a immediate)) ↔
      word.toNat &&& 0x707f = 0x13 := by
  rw [and_opcode_funct3]
  constructor
  · rintro ⟨d, a, immediate, h⟩
    rcases decode_cases h with ⟨-, o, -, hi⟩ | ⟨hopcode, o, ho, hi⟩ | ⟨-, c, -, hi⟩ <;> cases hi
    have hcode := operationImm_eq_add.1 ho
    omega
  · intro h
    have hcode : (funct3 word).toNat = 0 := by omega
    exact ⟨_, _, _, decode_of_opImm (by omega) (operationImm_eq_add.2 hcode)⟩

theorem decode_beq_iff {word : UInt32} :
    (∃ a b offset, decode word = some (.branch .eq a b offset)) ↔
      word.toNat &&& 0x707f = 0x63 := by
  rw [and_opcode_funct3]
  constructor
  · rintro ⟨a, b, offset, h⟩
    rcases decode_cases h with ⟨-, o, -, hi⟩ | ⟨-, o, -, hi⟩ | ⟨hopcode, c, hc, hi⟩ <;> cases hi
    have hcode := condition_eq_eq.1 hc
    omega
  · intro h
    have hcode : (funct3 word).toNat = 0 := by omega
    exact ⟨_, _, _, decode_of_branch (by omega) (condition_eq_eq.2 hcode)⟩

end CkbSail.DiffTest
