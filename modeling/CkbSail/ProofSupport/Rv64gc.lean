import Mathlib.Tactic.IntervalCases
import Mathlib.Tactic.Common

/-!
# RV64GC instruction words

The 32-bit encoding formats, the opcode classes of 32-bit words, and the
expansion of every 16-bit word of the C extension (with D) to the 32-bit word it
stands for.  Reserved 16-bit encodings have no expansion.
-/

namespace CkbSail.ProofSupport.Rv64gc

/-! ## 32-bit words -/

/-- The major opcodes that matter for the observation of a step. -/
inductive OpcodeClass where
  | load | loadFp | store | storeFp | amo | system
  | op | op32 | opImm | opImm32 | lui | auipc | jal | jalr | branch
  | other
deriving DecidableEq, Repr

def opcode (word : UInt32) : Nat := (word &&& 0x7f).toNat

def opcodeClass (word : UInt32) : OpcodeClass :=
  match opcode word with
  | 0b0000011 => .load
  | 0b0000111 => .loadFp
  | 0b0100011 => .store
  | 0b0100111 => .storeFp
  | 0b0101111 => .amo
  | 0b1110011 => .system
  | 0b0110011 => .op
  | 0b0111011 => .op32
  | 0b0010011 => .opImm
  | 0b0011011 => .opImm32
  | 0b0110111 => .lui
  | 0b0010111 => .auipc
  | 0b1101111 => .jal
  | 0b1100111 => .jalr
  | 0b1100011 => .branch
  | _ => .other

/-- Loads, stores and atomics of either register file, and SYSTEM. -/
def OpcodeClass.isMemoryOrSystem : OpcodeClass → Bool
  | .load | .loadFp | .store | .storeFp | .amo | .system => true
  | _ => false

/-- Register and immediate ALU operations, LUI and AUIPC, jumps and branches. -/
def OpcodeClass.isComputation : OpcodeClass → Bool
  | .op | .op32 | .opImm | .opImm32 | .lui | .auipc | .jal | .jalr | .branch => true
  | _ => false

theorem OpcodeClass.not_memory_of_computation {cls : OpcodeClass}
    (h : cls.isComputation = true) : cls.isMemoryOrSystem = false := by
  revert h
  cases cls <;> decide

/-- A word with the given major opcode and upper 25 bits. -/
def encode (opcode upper : UInt32) : UInt32 := opcode ||| (upper <<< 7)

/-- Masking with `2 ^ n - 1` keeps exactly the low `n` bits. -/
theorem getLsbD_mask (n i : Nat) (hn : n ≤ 32) :
    (BitVec.ofNat 32 (2 ^ n - 1)).getLsbD i = decide (i < n) := by
  rw [BitVec.getLsbD_ofNat, Nat.testBit_two_pow_sub_one]
  by_cases h : i < n
  · simp [h]
    omega
  · simp [h]

@[simp] theorem opcode_encode (major upper : UInt32) :
    opcode (encode major upper) = opcode major := by
  unfold opcode encode
  congr 1
  rw [← UInt32.toBitVec_inj]
  apply BitVec.eq_of_getLsbD_eq
  intro i hi
  have hmask := getLsbD_mask 7 i (by omega)
  simp only [Nat.reducePow, Nat.add_one_sub_one] at hmask
  simp [hmask]
  grind

/-- Bits `hi` down to `lo` of a word. -/
def bits (word hi lo : UInt32) : UInt32 := (word >>> lo) &&& ((1 <<< (hi - lo + 1)) - 1)

def rType (funct7 rs2 rs1 funct3 rd major : UInt32) : UInt32 :=
  encode major (rd ||| (funct3 <<< 5) ||| (rs1 <<< 8) ||| (rs2 <<< 13) ||| (funct7 <<< 18))

def iType (imm rs1 funct3 rd major : UInt32) : UInt32 :=
  encode major (rd ||| (funct3 <<< 5) ||| (rs1 <<< 8) ||| (bits imm 11 0 <<< 13))

def sType (imm rs2 rs1 funct3 major : UInt32) : UInt32 :=
  encode major (bits imm 4 0 ||| (funct3 <<< 5) ||| (rs1 <<< 8) ||| (rs2 <<< 13) |||
    (bits imm 11 5 <<< 18))

def bType (imm rs2 rs1 funct3 major : UInt32) : UInt32 :=
  encode major (bits imm 11 11 ||| (bits imm 4 1 <<< 1) ||| (funct3 <<< 5) |||
    (rs1 <<< 8) ||| (rs2 <<< 13) ||| (bits imm 10 5 <<< 18) ||| (bits imm 12 12 <<< 24))

def uType (imm rd major : UInt32) : UInt32 :=
  encode major (rd ||| (bits imm 31 12 <<< 5))

def jType (imm rd major : UInt32) : UInt32 :=
  encode major (rd ||| (bits imm 19 12 <<< 5) ||| (bits imm 11 11 <<< 13) |||
    (bits imm 10 1 <<< 14) ||| (bits imm 20 20 <<< 24))

/-! ## 16-bit words -/

/-- The quadrant and the funct3 of a 16-bit word. -/
def quadrant (word : UInt32) : Nat := (word &&& 0b11).toNat

def funct3 (word : UInt32) : Nat := ((word >>> 13) &&& 0b111).toNat

/-- Sign-extend a value of `width` bits. -/
def signExtend (width value : UInt32) : UInt32 :=
  if (value >>> (width - 1)) &&& 1 = 1 then value ||| (0xffffffff <<< width) else value

/-- The three-bit register fields name x8..x15. -/
def shortRegister (word lo : UInt32) : UInt32 := 8 + bits word (lo + 2) lo

/-- The six-bit immediate of the CI format, sign-extended. -/
def ciImmediate (c : UInt32) : UInt32 :=
  signExtend 6 ((bits c 12 12 <<< 5) ||| bits c 6 2)

def ciShift (c : UInt32) : UInt32 := (bits c 12 12 <<< 5) ||| bits c 6 2

def cjImmediate (c : UInt32) : UInt32 :=
  signExtend 12 ((bits c 12 12 <<< 11) ||| (bits c 11 11 <<< 4) ||| (bits c 10 9 <<< 8) |||
    (bits c 8 8 <<< 10) ||| (bits c 7 7 <<< 6) ||| (bits c 6 6 <<< 7) |||
    (bits c 5 3 <<< 1) ||| (bits c 2 2 <<< 5))

def cbImmediate (c : UInt32) : UInt32 :=
  signExtend 9 ((bits c 12 12 <<< 8) ||| (bits c 11 10 <<< 3) ||| (bits c 6 5 <<< 6) |||
    (bits c 4 3 <<< 1) ||| (bits c 2 2 <<< 5))

/-- Doubleword and word offsets of the CL and CS formats. -/
def clOffset8 (c : UInt32) : UInt32 := (bits c 12 10 <<< 3) ||| (bits c 6 5 <<< 6)

def clOffset4 (c : UInt32) : UInt32 :=
  (bits c 12 10 <<< 3) ||| (bits c 6 6 <<< 2) ||| (bits c 5 5 <<< 6)

/-- Offsets of the stack-pointer-relative loads and stores. -/
def cldspOffset (c : UInt32) : UInt32 :=
  (bits c 12 12 <<< 5) ||| (bits c 6 5 <<< 3) ||| (bits c 4 2 <<< 6)

def clwspOffset (c : UInt32) : UInt32 :=
  (bits c 12 12 <<< 5) ||| (bits c 6 4 <<< 2) ||| (bits c 3 2 <<< 6)

def csdspOffset (c : UInt32) : UInt32 := (bits c 12 10 <<< 3) ||| (bits c 9 7 <<< 6)

def cswspOffset (c : UInt32) : UInt32 := (bits c 12 9 <<< 2) ||| (bits c 8 7 <<< 6)

/-- Quadrant 1, funct3 100: shifts, ANDI and register arithmetic on x8..x15. -/
def expandMiscAlu (c : UInt32) : Option UInt32 :=
  let rd := shortRegister c 7
  let rs2 := shortRegister c 2
  match (bits c 11 10).toNat, (bits c 12 12).toNat, (bits c 6 5).toNat with
  | 0b00, _, _ => some (iType (ciShift c) rd 0b101 rd 0b0010011)
  | 0b01, _, _ => some (iType (0x400 ||| ciShift c) rd 0b101 rd 0b0010011)
  | 0b10, _, _ => some (iType (ciImmediate c) rd 0b111 rd 0b0010011)
  | _, 0, 0b00 => some (rType 0b0100000 rs2 rd 0b000 rd 0b0110011)
  | _, 0, 0b01 => some (rType 0 rs2 rd 0b100 rd 0b0110011)
  | _, 0, 0b10 => some (rType 0 rs2 rd 0b110 rd 0b0110011)
  | _, 0, _ => some (rType 0 rs2 rd 0b111 rd 0b0110011)
  | _, _, 0b00 => some (rType 0b0100000 rs2 rd 0b000 rd 0b0111011)
  | _, _, 0b01 => some (rType 0 rs2 rd 0b000 rd 0b0111011)
  | _, _, _ => none

/-- Quadrant 2, funct3 100: C.JR, C.MV, C.EBREAK, C.JALR and C.ADD. -/
def expandJumpMove (c : UInt32) : Option UInt32 :=
  let rd := bits c 11 7
  let rs2 := bits c 6 2
  if bits c 12 12 = 0 then
    if rs2 = 0 then
      if rd = 0 then none else some (iType 0 rd 0b000 0 0b1100111)
    else some (rType 0 rs2 0 0b000 rd 0b0110011)
  else if rs2 = 0 then
    if rd = 0 then some 0x00100073 else some (iType 0 rd 0b000 1 0b1100111)
  else some (rType 0 rs2 rd 0b000 rd 0b0110011)

/-- The 32-bit word a 16-bit word stands for. -/
def expand (c : UInt32) : Option UInt32 :=
  let rd := bits c 11 7
  let rs2 := bits c 6 2
  let rdShort := shortRegister c 2
  let rs1Short := shortRegister c 7
  match quadrant c, funct3 c with
  | 0, 0b000 =>
      -- C.ADDI4SPN; the all-zero immediate is reserved
      let imm := (bits c 10 7 <<< 6) ||| (bits c 12 11 <<< 4) ||| (bits c 5 5 <<< 3) |||
        (bits c 6 6 <<< 2)
      if imm = 0 then none else some (iType imm 2 0b000 rdShort 0b0010011)
  | 0, 0b001 => some (iType (clOffset8 c) rs1Short 0b011 rdShort 0b0000111)
  | 0, 0b010 => some (iType (clOffset4 c) rs1Short 0b010 rdShort 0b0000011)
  | 0, 0b011 => some (iType (clOffset8 c) rs1Short 0b011 rdShort 0b0000011)
  | 0, 0b101 => some (sType (clOffset8 c) rdShort rs1Short 0b011 0b0100111)
  | 0, 0b110 => some (sType (clOffset4 c) rdShort rs1Short 0b010 0b0100011)
  | 0, 0b111 => some (sType (clOffset8 c) rdShort rs1Short 0b011 0b0100011)
  | 0, _ => none
  | 1, 0b000 => some (iType (ciImmediate c) rd 0b000 rd 0b0010011)
  | 1, 0b001 =>
      if rd = 0 then none else some (iType (ciImmediate c) rd 0b000 rd 0b0011011)
  | 1, 0b010 => some (iType (ciImmediate c) 0 0b000 rd 0b0010011)
  | 1, 0b011 =>
      -- C.ADDI16SP when rd is x2, else C.LUI; zero immediates are reserved
      if rd = 2 then
        let imm := signExtend 10 ((bits c 12 12 <<< 9) ||| (bits c 6 6 <<< 4) |||
          (bits c 5 5 <<< 6) ||| (bits c 4 3 <<< 7) ||| (bits c 2 2 <<< 5))
        if imm = 0 then none else some (iType imm 2 0b000 2 0b0010011)
      else
        let imm := ciImmediate c <<< 12
        if imm = 0 then none else some (uType imm rd 0b0110111)
  | 1, 0b100 => expandMiscAlu c
  | 1, 0b101 => some (jType (cjImmediate c) 0 0b1101111)
  | 1, 0b110 => some (bType (cbImmediate c) 0 rs1Short 0b000 0b1100011)
  | 1, _ => some (bType (cbImmediate c) 0 rs1Short 0b001 0b1100011)
  | 2, 0b000 => some (iType (ciShift c) rd 0b001 rd 0b0010011)
  | 2, 0b001 => some (iType (cldspOffset c) 2 0b011 rd 0b0000111)
  | 2, 0b010 => if rd = 0 then none else some (iType (clwspOffset c) 2 0b010 rd 0b0000011)
  | 2, 0b011 => if rd = 0 then none else some (iType (cldspOffset c) 2 0b011 rd 0b0000011)
  | 2, 0b100 => expandJumpMove c
  | 2, 0b101 => some (sType (csdspOffset c) rs2 2 0b011 0b0100111)
  | 2, 0b110 => some (sType (cswspOffset c) rs2 2 0b010 0b0100011)
  | 2, _ => some (sType (csdspOffset c) rs2 2 0b011 0b0100011)
  | _, _ => none

/-- The 32-bit instruction a fetched word stands for: a word whose two low bits
are 11 is one, any other word is the 16-bit instruction in its low half. -/
def instruction (word : UInt32) : Option UInt32 :=
  if word &&& 0b11 = 0b11 then some word else expand (word &&& 0xffff)

/-- The class of the 32-bit instruction a word stands for. -/
def instructionClass (word : UInt32) : Option OpcodeClass := (instruction word).map opcodeClass

theorem quadrant_lt (word : UInt32) : quadrant word < 4 := by
  rw [quadrant, UInt32.toNat_and]
  exact Nat.and_lt_two_pow (n := 2) _ (by decide)

theorem funct3_lt (word : UInt32) : funct3 word < 8 := by
  rw [funct3, UInt32.toNat_and]
  exact Nat.and_lt_two_pow (n := 3) _ (by decide)

@[simp] theorem quadrant_low_half (word : UInt32) : quadrant (word &&& 0xffff) = quadrant word := by
  rw [quadrant, UInt32.and_assoc]
  rfl

@[simp] theorem funct3_low_half (word : UInt32) : funct3 (word &&& 0xffff) = funct3 word := by
  unfold funct3
  congr 1
  rw [← UInt32.toBitVec_inj]
  apply BitVec.eq_of_getLsbD_eq
  intro i hi
  have hmask := getLsbD_mask 3 i (by omega)
  simp only [Nat.reducePow, Nat.add_one_sub_one] at hmask
  simp only [UInt32.toBitVec_and, UInt32.toBitVec_shiftRight, BitVec.getLsbD_and,
    UInt32.toBitVec_ofNat, BitVec.ushiftRight_eq', BitVec.getLsbD_ushiftRight, hmask]
  by_cases h : i < 3
  · interval_cases i <;> simp
  · simp [h]

theorem quadrant_eq_three_iff (word : UInt32) : quadrant word = 3 ↔ word &&& 0b11 = 0b11 := by
  rw [quadrant, ← UInt32.toNat_inj]
  rfl

/-! ## The classes of the expansions -/

theorem opcodeClass_encode (major upper : UInt32) :
    opcodeClass (encode major upper) = opcodeClass major := by
  rw [opcodeClass, opcode_encode]
  rfl

@[simp] theorem opcodeClass_rType (funct7 rs2 rs1 funct3 rd major : UInt32) :
    opcodeClass (rType funct7 rs2 rs1 funct3 rd major) = opcodeClass major :=
  opcodeClass_encode major _

@[simp] theorem opcodeClass_iType (imm rs1 funct3 rd major : UInt32) :
    opcodeClass (iType imm rs1 funct3 rd major) = opcodeClass major :=
  opcodeClass_encode major _

@[simp] theorem opcodeClass_sType (imm rs2 rs1 funct3 major : UInt32) :
    opcodeClass (sType imm rs2 rs1 funct3 major) = opcodeClass major :=
  opcodeClass_encode major _

@[simp] theorem opcodeClass_bType (imm rs2 rs1 funct3 major : UInt32) :
    opcodeClass (bType imm rs2 rs1 funct3 major) = opcodeClass major :=
  opcodeClass_encode major _

@[simp] theorem opcodeClass_uType (imm rd major : UInt32) :
    opcodeClass (uType imm rd major) = opcodeClass major := opcodeClass_encode major _

@[simp] theorem opcodeClass_jType (imm rd major : UInt32) :
    opcodeClass (jType imm rd major) = opcodeClass major := opcodeClass_encode major _

theorem expandMiscAlu_class {c w : UInt32} (h : expandMiscAlu c = some w) :
    (opcodeClass w).isComputation = true := by
  unfold expandMiscAlu at h
  split at h <;> simp only [Option.some.injEq, reduceCtorEq] at h <;> subst h <;>
    simp only [opcodeClass_iType, opcodeClass_rType] <;> decide

/-- C.EBREAK: the 16-bit word 0x9002. -/
def IsBreak (c : UInt32) : Prop :=
  quadrant c = 2 ∧ funct3 c = 0b100 ∧ bits c 12 12 ≠ 0 ∧ bits c 6 2 = 0 ∧ bits c 11 7 = 0

theorem expandJumpMove_class {c w : UInt32} (hq : quadrant c = 2) (hf : funct3 c = 0b100)
    (h : expandJumpMove c = some w) :
    (IsBreak c ∧ (opcodeClass w).isMemoryOrSystem = true) ∨
      (¬IsBreak c ∧ (opcodeClass w).isComputation = true) := by
  simp only [expandJumpMove] at h
  split_ifs at h with h12 hrs2 hrd <;> obtain rfl := Option.some.inj h <;>
    simp [IsBreak, *] <;> decide

/-- The 16-bit words that stand for memory accesses: quadrant 0 apart from
C.ADDI4SPN, and the stack-pointer-relative accesses of quadrant 2. -/
def IsAccess (c : UInt32) : Prop :=
  (quadrant c = 0 ∧ funct3 c ≠ 0) ∨ (quadrant c = 2 ∧ funct3 c ∉ [0b000, 0b100])

/-- Every 16-bit word that stands for an instruction is a memory access, C.EBREAK,
or a computation. -/
theorem expand_class {c w : UInt32} (h : expand c = some w) :
    ((IsAccess c ∨ IsBreak c) ∧ (opcodeClass w).isMemoryOrSystem = true) ∨
      (¬(IsAccess c ∨ IsBreak c) ∧ (opcodeClass w).isComputation = true) := by
  have hq := quadrant_lt c
  have hf := funct3_lt c
  have hjump := fun h₁ h₂ => expandJumpMove_class (c := c) (w := w) h₁ h₂
  have hmisc := expandMiscAlu_class (c := c) (w := w)
  simp only [expand] at h
  simp only [IsAccess, IsBreak] at hjump ⊢
  generalize quadrant c = q at *
  generalize funct3 c = f at *
  interval_cases q <;> interval_cases f <;> simp only [reduceCtorEq] at h <;>
    simp at hjump ⊢ <;> try split_ifs at h
  all_goals try first | exact hmisc h | exact hjump h
  all_goals obtain rfl := Option.some.inj h
  all_goals simp only [opcodeClass_iType, opcodeClass_sType, opcodeClass_bType,
    opcodeClass_jType, opcodeClass_uType]
  all_goals decide

theorem toNat_field (word lo mask : UInt32) (n : Nat) (hlo : lo.toNat < 32)
    (hmask : mask.toNat = 2 ^ n - 1) :
    ((word >>> lo) &&& mask).toNat = word.toNat / 2 ^ lo.toNat % 2 ^ n := by
  rw [UInt32.toNat_and, UInt32.toNat_shiftRight, hmask, Nat.and_two_pow_sub_one_eq_mod,
    Nat.mod_eq_of_lt hlo, Nat.shiftRight_eq_div_pow]

theorem isBreak_iff (c : UInt32) : IsBreak c ↔ c &&& 0xffff = 0x9002 := by
  have hquadrant : quadrant c = c.toNat % 4 := by
    rw [quadrant, UInt32.toNat_and]
    exact Nat.and_two_pow_sub_one_eq_mod _ 2
  have hfunct3 : funct3 c = c.toNat / 8192 % 8 := toNat_field c 13 7 3 (by decide) rfl
  have hbit : (bits c 12 12).toNat = c.toNat / 4096 % 2 :=
    toNat_field c 12 1 1 (by decide) rfl
  have hrs2 : (bits c 6 2).toNat = c.toNat / 4 % 32 := toNat_field c 2 31 5 (by decide) rfl
  have hrd : (bits c 11 7).toNat = c.toNat / 128 % 32 := toNat_field c 7 31 5 (by decide) rfl
  have hhalf : (c &&& 0xffff).toNat = c.toNat % 65536 := by
    rw [UInt32.toNat_and]
    exact Nat.and_two_pow_sub_one_eq_mod _ 16
  simp only [IsBreak, hquadrant, hfunct3, ← UInt32.toNat_inj, ne_eq, hbit, hrs2, hrd, hhalf,
    UInt32.reduceToNat]
  omega

end CkbSail.ProofSupport.Rv64gc
