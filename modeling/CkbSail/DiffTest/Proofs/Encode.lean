import CkbSail.DiffTest.Encode
import CkbSail.ProofSupport.Rv64i
import Mathlib.Tactic.Common

/-!
# The encoders against the formats

Within their ranges the encoders do not panic, and the words they make decode to
the instructions they are named after.
-/

namespace CkbSail.DiffTest.Encode

open RustStd ProofSupport Rv64i

/-- The register an encoder argument names. -/
def reg (index : UInt8) : Reg := BitVec.ofNat 5 index.toNat

theorem register_eq_ok {index : UInt8} (h : index < 32) :
    register index = .ok index.toUInt32 := by
  rw [register, assertThat_of_true (by simpa using h)]
  rfl

theorem toNat_register {index : UInt8} (h : index < 32) :
    index.toUInt32.toNat = (reg index).toNat := by
  have hlt : index.toNat < 2 ^ 5 := UInt8.lt_iff_toNat_lt.1 h
  rw [UInt8.toNat_toUInt32, reg, BitVec.toNat_ofNat, Nat.mod_eq_of_lt hlt]

theorem register_lt {index : UInt8} (h : index < 32) : index.toUInt32.toNat < 2 ^ 5 := by
  rw [toNat_register h]
  exact (reg index).isLt

/-! ## Registers -/

theorem rType_eq_ok {funct7 funct3 opcode : UInt32} {rs2 rs1 rd : UInt8} (hrs2 : rs2 < 32)
    (hrs1 : rs1 < 32) (hrd : rd < 32) (hfunct7 : funct7.toNat < 2 ^ 7)
    (hfunct3 : funct3.toNat < 2 ^ 3) (hopcode : opcode.toNat < 2 ^ 7) :
    ∃ word, Encode.rType funct7 rs2 rs1 funct3 rd opcode = .ok word ∧
      word.toNat = funct7.toNat * 2 ^ 25 + (reg rs2).toNat * 2 ^ 20 + (reg rs1).toNat * 2 ^ 15 +
        funct3.toNat * 2 ^ 12 + (reg rd).toNat * 2 ^ 7 + opcode.toNat := by
  refine ⟨_, by rw [Encode.rType, register_eq_ok hrs2, register_eq_ok hrs1, register_eq_ok hrd]; rfl, ?_⟩
  have h2 := register_lt hrs2
  have h1 := register_lt hrs1
  have hd := register_lt hrd
  have h := toNat_shiftLeft 25 25 7 rfl (by decide) (by decide) hfunct7
  have h := toNat_or_shiftLeft h 20 20 5 rfl (by decide) (by decide) (by omega) h2
  have h := toNat_or_shiftLeft h 15 15 5 rfl (by decide) (by decide) (by omega) h1
  have h := toNat_or_shiftLeft h 12 12 3 rfl (by decide) (by decide) (by omega) hfunct3
  have h := toNat_or_shiftLeft h 7 7 5 rfl (by decide) (by decide) (by omega) hd
  rw [← toNat_register hrs2, ← toNat_register hrs1, ← toNat_register hrd]
  exact toNat_or h 7 (by omega) hopcode

theorem add_eq_ok {rd rs1 rs2 : UInt8} (hrd : rd < 32) (hrs1 : rs1 < 32) (hrs2 : rs2 < 32) :
    ∃ word, add rd rs1 rs2 = .ok word ∧
      decode word = some (.op .add (reg rd) (reg rs1) (reg rs2)) := by
  obtain ⟨word, hword, hvalue⟩ := rType_eq_ok hrs2 hrs1 hrd
    (by decide : (0 : UInt32).toNat < 2 ^ 7) (by decide : (0b000 : UInt32).toNat < 2 ^ 3)
    (by decide : OPCODE_OP.toNat < 2 ^ 7)
  have hfields : Fields word 0 (reg rs2) (reg rs1) 0 (reg rd) 0b0110011 := ⟨hvalue⟩
  exact ⟨word, hword, hfields.decode_op rfl⟩

/-! ## Immediates -/

/-- An immediate as the field that holds it. -/
def immediateField (immediate : Int32) : BitVec 12 := BitVec.ofInt 12 immediate.toInt

theorem toNat_ofInt_toInt (value : Int32) (width : Nat) (h : width ≤ 32) :
    (BitVec.ofInt width value.toInt).toNat = value.toUInt32.toNat % 2 ^ width := by
  have hdvd : (2 ^ width : Int) ∣ 2 ^ 32 := pow_dvd_pow 2 h
  have hvalue : value.toInt % 2 ^ width = (value.toUInt32.toNat : Int) % 2 ^ width := by
    have hcond : value.toInt = if 2 * value.toUInt32.toNat < 2 ^ 32 then
        (value.toUInt32.toNat : Int) else value.toUInt32.toNat - 2 ^ 32 :=
      BitVec.toInt_eq_toNat_cond value.toBitVec
    obtain ⟨q, hq⟩ := hdvd
    rw [hcond]
    split_ifs
    · rfl
    · rw [hq, Int.sub_mul_emod_self_left]
  rw [BitVec.toNat_ofInt, Int.natCast_pow, Nat.cast_ofNat, hvalue]
  exact_mod_cast Int.toNat_natCast (value.toUInt32.toNat % 2 ^ width)

/-- The words of the I format. -/
theorem toNat_iWord {immediate funct3 opcode : UInt32} {rs1 rd : UInt8} (hrs1 : rs1 < 32)
    (hrd : rd < 32) (himmediate : immediate.toNat < 2 ^ 12) (hfunct3 : funct3.toNat < 2 ^ 3)
    (hopcode : opcode.toNat < 2 ^ 7) :
    ((immediate <<< 20) ||| (rs1.toUInt32 <<< 15) ||| (funct3 <<< 12) ||| (rd.toUInt32 <<< 7) |||
        opcode).toNat =
      immediate.toNat * 2 ^ 20 + (reg rs1).toNat * 2 ^ 15 + funct3.toNat * 2 ^ 12 +
        (reg rd).toNat * 2 ^ 7 + opcode.toNat := by
  have h1 := register_lt hrs1
  have hd := register_lt hrd
  have h := toNat_shiftLeft 20 20 12 rfl (by decide) (by decide) himmediate
  have h := toNat_or_shiftLeft h 15 15 5 rfl (by decide) (by decide) (by omega) h1
  have h := toNat_or_shiftLeft h 12 12 3 rfl (by decide) (by decide) (by omega) hfunct3
  have h := toNat_or_shiftLeft h 7 7 5 rfl (by decide) (by decide) (by omega) hd
  rw [← toNat_register hrs1, ← toNat_register hrd]
  exact toNat_or h 7 (by omega) hopcode

theorem addi_eq_ok {rd rs1 : UInt8} {immediate : Int32} (hrd : rd < 32) (hrs1 : rs1 < 32)
    (himmediate : -2048 ≤ immediate ∧ immediate ≤ 2047) :
    ∃ word, addi rd rs1 immediate = .ok word ∧
      decode word = some (.opImm .add (reg rd) (reg rs1) (immediateField immediate)) := by
  have hmask : (immediate.toUInt32 &&& 0xfff).toNat = (immediateField immediate).toNat := by
    rw [UInt32.toNat_and, immediateField, toNat_ofInt_toInt immediate 12 (by decide)]
    exact Nat.and_two_pow_sub_one_eq_mod _ 12
  have hlt : (immediate.toUInt32 &&& 0xfff).toNat < 2 ^ 12 := by
    rw [hmask]
    exact (immediateField immediate).isLt
  have hword := toNat_iWord hrs1 hrd hlt (by decide : (0b000 : UInt32).toNat < 2 ^ 3)
    (by decide : OPCODE_OP_IMM.toNat < 2 ^ 7)
  have hoperation : operationImm 0b000 (immediateField immediate) = some .add := rfl
  refine ⟨_, ?_, Fields.decode_opImm (by rw [hword, hmask]; rfl) hoperation⟩
  rw [addi, Encode.iType, assertThat_of_true (by simpa using himmediate), register_eq_ok hrs1,
    register_eq_ok hrd]
  rfl

theorem slli_eq_ok {rd rs1 : UInt8} {shift : UInt32} (hrd : rd < 32) (hrs1 : rs1 < 32)
    (hshift : shift < 64) :
    ∃ word, slli rd rs1 shift = .ok word ∧
      decode word = some (.opImm .sll (reg rd) (reg rs1) (BitVec.ofNat 12 shift.toNat)) := by
  have hlt : shift.toNat < 64 := UInt32.lt_iff_toNat_lt.1 hshift
  have hfield : (BitVec.ofNat 12 shift.toNat).toNat = shift.toNat := by
    rw [BitVec.toNat_ofNat, Nat.mod_eq_of_lt (by omega)]
  have hword := toNat_iWord hrs1 hrd (by omega : shift.toNat < 2 ^ 12)
    (by decide : (0b001 : UInt32).toNat < 2 ^ 3) (by decide : OPCODE_OP_IMM.toNat < 2 ^ 7)
  have hoperation : operationImm 0b001 (BitVec.ofNat 12 shift.toNat) = some .sll := by
    rw [operationImm, hfield, Nat.div_eq_of_lt hlt]
    rfl
  refine ⟨_, ?_, Fields.decode_opImm (by rw [hword, hfield]; rfl) hoperation⟩
  rw [slli, assertThat_of_true (by simpa using hshift), register_eq_ok hrs1, register_eq_ok hrd]
  rfl

/-! ## Branches -/

/-- An offset as the four fields that hold it. -/
def offsetField (offset : Int32) : BitVec 13 := BitVec.ofInt 13 offset.toInt

/-- The bits of an offset as the encoder cuts them out. -/
theorem toNat_piece (offset : Int32) (k mask : UInt32) (n width : Nat) (hk : k.toNat = n)
    (hmask : mask.toNat = 2 ^ width - 1) (hn : n < 32) (hfits : n + width ≤ 13) :
    ((offset.toUInt32 >>> k) &&& mask).toNat = (offsetField offset).toNat / 2 ^ n % 2 ^ width := by
  have hpow : 2 ^ 13 = 2 ^ n * 2 ^ (13 - n) := by
    rw [← Nat.pow_add]
    congr 1
    omega
  have hdvd : 2 ^ width ∣ 2 ^ (13 - n) := Nat.pow_dvd_pow 2 (by omega)
  rw [UInt32.toNat_and, UInt32.toNat_shiftRight, hk, hmask, Nat.and_two_pow_sub_one_eq_mod,
    Nat.mod_eq_of_lt hn, Nat.shiftRight_eq_div_pow, offsetField,
    toNat_ofInt_toInt offset 13 (by decide), hpow, Nat.mod_mul_right_div_self,
    Nat.mod_mod_of_dvd _ hdvd]

/-- The pieces of an offset, placed in the word. -/
theorem toNat_bWord {rs1 rs2 : UInt8} (offset : Int32) (hrs1 : rs1 < 32) (hrs2 : rs2 < 32) :
    ((((offset.toUInt32 >>> 12) &&& 0x1) <<< 31) ||| (((offset.toUInt32 >>> 5) &&& 0x3f) <<< 25) |||
        (rs2.toUInt32 <<< 20) ||| (rs1.toUInt32 <<< 15) |||
        (((offset.toUInt32 >>> 1) &&& 0xf) <<< 8) ||| (((offset.toUInt32 >>> 11) &&& 0x1) <<< 7) |||
        OPCODE_BRANCH).toNat =
      (offsetField offset).toNat / 2 ^ 12 % 2 ^ 1 * 2 ^ 31 +
        (offsetField offset).toNat / 2 ^ 5 % 2 ^ 6 * 2 ^ 25 + (reg rs2).toNat * 2 ^ 20 +
        (reg rs1).toNat * 2 ^ 15 + (0b000 : BitVec 3).toNat * 2 ^ 12 +
        (offsetField offset).toNat / 2 ^ 1 % 2 ^ 4 * 2 ^ 8 +
        (offsetField offset).toNat / 2 ^ 11 % 2 ^ 1 * 2 ^ 7 + OPCODE_BRANCH.toNat := by
  have hfunct3 : (0b000 : BitVec 3).toNat * 2 ^ 12 = 0 := rfl
  have h2 := register_lt hrs2
  have h1 := register_lt hrs1
  have p12 := toNat_piece offset 12 0x1 12 1 rfl rfl (by decide) (by decide)
  have p5 := toNat_piece offset 5 0x3f 5 6 rfl rfl (by decide) (by decide)
  have p1 := toNat_piece offset 1 0xf 1 4 rfl rfl (by decide) (by decide)
  have p11 := toNat_piece offset 11 0x1 11 1 rfl rfl (by decide) (by decide)
  rw [hfunct3, Nat.add_zero, ← p12, ← p5, ← p1, ← p11, ← toNat_register hrs2,
    ← toNat_register hrs1]
  have b12 : ((offset.toUInt32 >>> 12) &&& 0x1).toNat < 2 ^ 1 := by omega
  have b5 : ((offset.toUInt32 >>> 5) &&& 0x3f).toNat < 2 ^ 6 := by omega
  have b1 : ((offset.toUInt32 >>> 1) &&& 0xf).toNat < 2 ^ 4 := by omega
  have b11 : ((offset.toUInt32 >>> 11) &&& 0x1).toNat < 2 ^ 1 := by omega
  clear p12 p5 p1 p11
  have h := toNat_shiftLeft 31 31 1 rfl (by decide) (by decide) b12
  have h := toNat_or_shiftLeft h 25 25 6 rfl (by decide) (by decide) (by omega) b5
  have h := toNat_or_shiftLeft h 20 20 5 rfl (by decide) (by decide) (by omega) h2
  have h := toNat_or_shiftLeft h 15 15 5 rfl (by decide) (by decide) (by omega) h1
  have h := toNat_or_shiftLeft h 8 8 4 rfl (by decide) (by decide) (by omega) b1
  have h := toNat_or_shiftLeft h 7 7 1 rfl (by decide) (by decide) (by omega) b11
  exact toNat_or h 7 (by omega) (by decide)

theorem offsetField_even {offset : Int32} (h : offset % 2 = 0) :
    (offsetField offset).toNat % 2 = 0 := by
  have hmod : offset.toInt.tmod 2 = 0 := by
    have hint := congrArg Int32.toInt h
    rwa [Int32.toInt_mod] at hint
  have heven : offset.toInt % 2 = 0 := Int.emod_eq_zero_of_dvd (Int.dvd_of_tmod_eq_zero hmod)
  rw [offsetField, BitVec.toNat_ofInt]
  omega

theorem beq_eq_ok {rs1 rs2 : UInt8} {offset : Int32} (hrs1 : rs1 < 32) (hrs2 : rs2 < 32)
    (hoffset : -4096 ≤ offset ∧ offset ≤ 4094) (heven : offset % 2 = 0) :
    ∃ word, beq rs1 rs2 offset = .ok word ∧
      decode word = some (.branch .eq (reg rs1) (reg rs2) (offsetField offset)) := by
  have hencodable : (-4096 ≤ offset && offset ≤ 4094 && offset % 2 == 0) = true := by
    simp only [Bool.and_eq_true, decide_eq_true_eq, beq_iff_eq]
    exact ⟨hoffset, heven⟩
  have hcondition : condition 0b000 = some .eq := rfl
  have hword := toNat_bWord offset hrs1 hrs2
  rw [show OPCODE_BRANCH.toNat = 0b1100011 from rfl] at hword
  refine ⟨_, ?_, Fields.decode_branch (offsetField_even heven) hword hcondition⟩
  rw [beq, assertThat_of_true hencodable]
  simp only [register_eq_ok hrs1, register_eq_ok hrs2]
  rfl

end CkbSail.DiffTest.Encode
