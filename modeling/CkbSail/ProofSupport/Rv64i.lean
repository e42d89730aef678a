import Mathlib.Logic.Function.Basic
import Mathlib.Data.Nat.Bitwise

/-!
# RV64I: the register, immediate and branch formats

Decoding of a 32-bit word by its format, and the step of a hart that executes
it.  A word of another major opcode, or with a reserved function code, decodes to
nothing.
-/

namespace CkbSail.ProofSupport.Rv64i

/-- The name of an integer register. -/
abbrev Reg := BitVec 5

/-- The operations of OP; OP-IMM has them with an immediate, apart from `sub`. -/
inductive Operation where
  | add | sub | sll | slt | sltu | xor | srl | sra | or | and
deriving DecidableEq, Repr

inductive Condition where
  | eq | ne | lt | ge | ltu | geu
deriving DecidableEq, Repr

inductive Instruction where
  | op (operation : Operation) (rd rs1 rs2 : Reg)
  | opImm (operation : Operation) (rd rs1 : Reg) (immediate : BitVec 12)
  | branch (condition : Condition) (rs1 rs2 : Reg) (offset : BitVec 13)
deriving DecidableEq, Repr

/-! ## Decoding -/

/-- `width` bits of a word from bit `low` up. -/
def field (low width : Nat) (word : UInt32) : BitVec width := word.toBitVec.extractLsb' low width

theorem toNat_field (low width : Nat) (word : UInt32) :
    (field low width word).toNat = word.toNat / 2 ^ low % 2 ^ width := by
  rw [field, BitVec.extractLsb'_toNat, Nat.shiftRight_eq_div_pow]
  rfl

def opcode : UInt32 → BitVec 7 := field 0 7
def rd : UInt32 → Reg := field 7 5
def funct3 : UInt32 → BitVec 3 := field 12 3
def rs1 : UInt32 → Reg := field 15 5
def rs2 : UInt32 → Reg := field 20 5
def funct7 : UInt32 → BitVec 7 := field 25 7

/-- The immediate of the I format. -/
def immediateI : UInt32 → BitVec 12 := field 20 12

/-- The offset of the B format: bits 12, 11, 10 to 5 and 4 to 1, and a zero. -/
def offsetB (word : UInt32) : BitVec 13 :=
  field 31 1 word ++ field 7 1 word ++ field 25 6 word ++ field 8 4 word ++ 0#1

/-- The operation of an OP word by its function codes. -/
def operation (funct3 : BitVec 3) (funct7 : BitVec 7) : Option Operation :=
  match funct3.toNat, funct7.toNat with
  | 0b000, 0 => some .add
  | 0b000, 0b0100000 => some .sub
  | 0b001, 0 => some .sll
  | 0b010, 0 => some .slt
  | 0b011, 0 => some .sltu
  | 0b100, 0 => some .xor
  | 0b101, 0 => some .srl
  | 0b101, 0b0100000 => some .sra
  | 0b110, 0 => some .or
  | 0b111, 0 => some .and
  | _, _ => none

/-- The operation of an OP-IMM word; the upper six bits of the immediate select
the shift, and its lower six are the amount. -/
def operationImm (funct3 : BitVec 3) (immediate : BitVec 12) : Option Operation :=
  match funct3.toNat, immediate.toNat / 64 with
  | 0b000, _ => some .add
  | 0b001, 0 => some .sll
  | 0b010, _ => some .slt
  | 0b011, _ => some .sltu
  | 0b100, _ => some .xor
  | 0b101, 0 => some .srl
  | 0b101, 0b010000 => some .sra
  | 0b110, _ => some .or
  | 0b111, _ => some .and
  | _, _ => none

def condition (funct3 : BitVec 3) : Option Condition :=
  match funct3.toNat with
  | 0b000 => some .eq
  | 0b001 => some .ne
  | 0b100 => some .lt
  | 0b101 => some .ge
  | 0b110 => some .ltu
  | 0b111 => some .geu
  | _ => none

def decode (word : UInt32) : Option Instruction :=
  match (opcode word).toNat with
  | 0b0110011 =>
      (operation (funct3 word) (funct7 word)).map fun o => .op o (rd word) (rs1 word) (rs2 word)
  | 0b0010011 =>
      (operationImm (funct3 word) (immediateI word)).map fun o =>
        .opImm o (rd word) (rs1 word) (immediateI word)
  | 0b1100011 =>
      (condition (funct3 word)).map fun c => .branch c (rs1 word) (rs2 word) (offsetB word)
  | _ => none

/-- The three formats. -/
theorem decode_cases {word : UInt32} {i : Instruction} (h : decode word = some i) :
    ((opcode word).toNat = 0b0110011 ∧ ∃ o, operation (funct3 word) (funct7 word) = some o ∧
        i = .op o (rd word) (rs1 word) (rs2 word)) ∨
      ((opcode word).toNat = 0b0010011 ∧
        ∃ o, operationImm (funct3 word) (immediateI word) = some o ∧
          i = .opImm o (rd word) (rs1 word) (immediateI word)) ∨
      ((opcode word).toNat = 0b1100011 ∧ ∃ c, condition (funct3 word) = some c ∧
        i = .branch c (rs1 word) (rs2 word) (offsetB word)) := by
  unfold decode at h
  split at h
  · obtain ⟨o, ho, rfl⟩ := Option.map_eq_some_iff.1 h
    exact Or.inl ⟨by assumption, o, ho, rfl⟩
  · obtain ⟨o, ho, rfl⟩ := Option.map_eq_some_iff.1 h
    exact Or.inr (Or.inl ⟨by assumption, o, ho, rfl⟩)
  · obtain ⟨c, hc, rfl⟩ := Option.map_eq_some_iff.1 h
    exact Or.inr (Or.inr ⟨by assumption, c, hc, rfl⟩)
  · cases h

theorem decode_of_op {word : UInt32} {o : Operation} (h : (opcode word).toNat = 0b0110011)
    (ho : operation (funct3 word) (funct7 word) = some o) :
    decode word = some (.op o (rd word) (rs1 word) (rs2 word)) := by
  rw [decode, h]
  show (operation _ _).map _ = _
  rw [ho, Option.map_some]

theorem decode_of_opImm {word : UInt32} {o : Operation} (h : (opcode word).toNat = 0b0010011)
    (ho : operationImm (funct3 word) (immediateI word) = some o) :
    decode word = some (.opImm o (rd word) (rs1 word) (immediateI word)) := by
  rw [decode, h]
  show (operationImm _ _).map _ = _
  rw [ho, Option.map_some]

theorem decode_of_branch {word : UInt32} {c : Condition} (h : (opcode word).toNat = 0b1100011)
    (hc : condition (funct3 word) = some c) :
    decode word = some (.branch c (rs1 word) (rs2 word) (offsetB word)) := by
  rw [decode, h]
  show (condition _).map _ = _
  rw [hc, Option.map_some]

/-! ## Assembled words -/

theorem toNat_shiftLeft {low : UInt32} (k : UInt32) (n width : Nat) (hk : k.toNat = n)
    (hn : n < 32) (hwidth : n + width ≤ 32) (hlow : low.toNat < 2 ^ width) :
    (low <<< k).toNat = low.toNat * 2 ^ n := by
  have hfits : low.toNat * 2 ^ n < 2 ^ 32 := by
    calc
      low.toNat * 2 ^ n < 2 ^ width * 2 ^ n :=
        Nat.mul_lt_mul_of_pos_right hlow (Nat.two_pow_pos _)
      _ = 2 ^ (n + width) := by rw [← Nat.pow_add, Nat.add_comm]
      _ ≤ 2 ^ 32 := Nat.pow_le_pow_right (by decide) hwidth
  rw [UInt32.toNat_shiftLeft, hk, Nat.mod_eq_of_lt hn, Nat.shiftLeft_eq, Nat.mod_eq_of_lt hfits]

/-- Bits from `width` up and bits below it do not meet. -/
theorem toNat_or {high low : UInt32} {value : Nat} (hvalue : high.toNat = value) (width : Nat)
    (hhigh : value % 2 ^ width = 0) (hlow : low.toNat < 2 ^ width) :
    (high ||| low).toNat = value + low.toNat := by
  obtain ⟨q, hq⟩ := Nat.dvd_of_mod_eq_zero hhigh
  rw [UInt32.toNat_or, hvalue, hq, ← Nat.two_pow_add_eq_or_of_lt hlow]

/-- A field placed below the bits of `high`. -/
theorem toNat_or_shiftLeft {high low : UInt32} {value : Nat} (hvalue : high.toNat = value)
    (k : UInt32) (n width : Nat) (hk : k.toNat = n) (hn : n < 32) (hwidth : n + width ≤ 32)
    (hhigh : value % 2 ^ (n + width) = 0) (hlow : low.toNat < 2 ^ width) :
    (high ||| (low <<< k)).toNat = value + low.toNat * 2 ^ n := by
  have hshift := toNat_shiftLeft k n width hk hn hwidth hlow
  have hfits : (low <<< k).toNat < 2 ^ (n + width) := by
    rw [hshift, Nat.pow_add, Nat.mul_comm]
    exact Nat.mul_lt_mul_of_pos_left hlow (Nat.two_pow_pos _)
  rw [toNat_or hvalue (n + width) hhigh hfits, hshift]

theorem field_eq {low width : Nat} {word : UInt32} {value : BitVec width}
    (h : word.toNat / 2 ^ low % 2 ^ width = value.toNat) : field low width word = value :=
  BitVec.eq_of_toNat_eq ((toNat_field low width word).trans h)

theorem toNat_offsetB (word : UInt32) :
    (offsetB word).toNat = word.toNat / 2 ^ 31 % 2 * 2 ^ 12 + word.toNat / 2 ^ 7 % 2 * 2 ^ 11 +
      word.toNat / 2 ^ 25 % 2 ^ 6 * 2 ^ 5 + word.toNat / 2 ^ 8 % 2 ^ 4 * 2 := by
  have happend : ∀ {n m : Nat} (x : BitVec n) (y : BitVec m),
      (x ++ y).toNat = x.toNat * 2 ^ m + y.toNat := by
    intro n m x y
    rw [BitVec.toNat_append, ← Nat.shiftLeft_add_eq_or_of_lt y.isLt, Nat.shiftLeft_eq]
  rw [offsetB, happend, happend, happend, happend, toNat_field, toNat_field, toNat_field,
    toNat_field]
  simp only [BitVec.toNat_ofNat]
  omega

/-- The word with the given fields. -/
structure Fields (word : UInt32) (f7 : BitVec 7) (b a : Reg) (f3 : BitVec 3) (d : Reg)
    (major : BitVec 7) : Prop where
  value : word.toNat = f7.toNat * 2 ^ 25 + b.toNat * 2 ^ 20 + a.toNat * 2 ^ 15 +
    f3.toNat * 2 ^ 12 + d.toNat * 2 ^ 7 + major.toNat

namespace Fields

variable {word : UInt32} {f7 : BitVec 7} {b a d : Reg} {f3 : BitVec 3} {major : BitVec 7}

section

variable (h : Fields word f7 b a f3 d major)
include h

theorem opcode_eq : opcode word = major := field_eq (by have := h.value; omega)
theorem rd_eq : rd word = d := field_eq (by have := h.value; omega)
theorem funct3_eq : funct3 word = f3 := field_eq (by have := h.value; omega)
theorem rs1_eq : rs1 word = a := field_eq (by have := h.value; omega)
theorem rs2_eq : rs2 word = b := field_eq (by have := h.value; omega)
theorem funct7_eq : funct7 word = f7 := field_eq (by have := h.value; omega)

/-- The pieces of the offset take the places of funct7 and rd. -/
theorem offsetB_eq {offset : BitVec 13}
    (hoffset : offset.toNat = f7.toNat / 2 ^ 6 * 2 ^ 12 + d.toNat % 2 * 2 ^ 11 +
      f7.toNat % 2 ^ 6 * 2 ^ 5 + d.toNat / 2 * 2) : offsetB word = offset := by
  have h7 : word.toNat / 2 ^ 25 % 2 ^ 7 = f7.toNat := by
    rw [← h.funct7_eq]
    exact (toNat_field 25 7 word).symm
  have hd : word.toNat / 2 ^ 7 % 2 ^ 5 = d.toNat := by
    rw [← h.rd_eq]
    exact (toNat_field 7 5 word).symm
  have hsign : word.toNat / 2 ^ 31 % 2 = f7.toNat / 2 ^ 6 := by
    rw [← h7, show 2 ^ 31 = 2 ^ 25 * 2 ^ 6 from rfl, ← Nat.div_div_eq_div_mul]
    generalize word.toNat / 2 ^ 25 = x
    omega
  have hhigh : word.toNat / 2 ^ 25 % 2 ^ 6 = f7.toNat % 2 ^ 6 := by omega
  have hbit : word.toNat / 2 ^ 7 % 2 = d.toNat % 2 := by omega
  have hlow : word.toNat / 2 ^ 8 % 2 ^ 4 = d.toNat / 2 := by
    rw [← hd, show 2 ^ 8 = 2 ^ 7 * 2 from rfl, ← Nat.div_div_eq_div_mul]
    generalize word.toNat / 2 ^ 7 = x
    omega
  apply BitVec.eq_of_toNat_eq
  rw [toNat_offsetB, hsign, hhigh, hbit, hlow, hoffset]

end

/-- The fields of a word of the I format. -/
theorem of_immediate {immediate : BitVec 12}
    (h : word.toNat = immediate.toNat * 2 ^ 20 + a.toNat * 2 ^ 15 + f3.toNat * 2 ^ 12 +
      d.toNat * 2 ^ 7 + major.toNat) :
    Fields word (immediate.extractLsb' 5 7) (immediate.extractLsb' 0 5) a f3 d major := by
  constructor
  rw [h, BitVec.extractLsb'_toNat, BitVec.extractLsb'_toNat, Nat.shiftRight_eq_div_pow,
    Nat.shiftRight_eq_div_pow]
  omega

theorem decode_op {o : Operation} (h : Fields word f7 b a f3 d 0b0110011)
    (ho : operation f3 f7 = some o) : decode word = some (.op o d a b) := by
  have hdecode := decode_of_op (o := o) (by rw [h.opcode_eq]; rfl : (opcode word).toNat = _)
    (by rw [h.funct3_eq, h.funct7_eq, ho])
  rw [hdecode, h.rd_eq, h.rs1_eq, h.rs2_eq]

theorem decode_opImm {immediate : BitVec 12} {o : Operation}
    (h : word.toNat = immediate.toNat * 2 ^ 20 + a.toNat * 2 ^ 15 + f3.toNat * 2 ^ 12 +
      d.toNat * 2 ^ 7 + 0b0010011)
    (ho : operationImm f3 immediate = some o) : decode word = some (.opImm o d a immediate) := by
  have hfields : Fields word _ _ a f3 d 0b0010011 := of_immediate h
  have himmediate : immediateI word = immediate := field_eq (by omega)
  have hdecode := decode_of_opImm (o := o) (by rw [hfields.opcode_eq]; rfl : (opcode word).toNat = _)
    (by rw [hfields.funct3_eq, himmediate, ho])
  rw [hdecode, hfields.rd_eq, hfields.rs1_eq, himmediate]

/-- The places the pieces of an offset take: funct7 and rd. -/
def offsetHigh (offset : BitVec 13) : BitVec 7 :=
  BitVec.ofNat 7 (offset.toNat / 2 ^ 12 % 2 ^ 1 * 2 ^ 6 + offset.toNat / 2 ^ 5 % 2 ^ 6)

def offsetLow (offset : BitVec 13) : BitVec 5 :=
  BitVec.ofNat 5 (offset.toNat / 2 ^ 1 % 2 ^ 4 * 2 + offset.toNat / 2 ^ 11 % 2 ^ 1)

theorem toNat_offsetHigh (offset : BitVec 13) : (offsetHigh offset).toNat =
    offset.toNat / 2 ^ 12 % 2 ^ 1 * 2 ^ 6 + offset.toNat / 2 ^ 5 % 2 ^ 6 := by
  have hsign := Nat.mod_lt (offset.toNat / 2 ^ 12) (Nat.two_pow_pos 1)
  have hhigh := Nat.mod_lt (offset.toNat / 2 ^ 5) (Nat.two_pow_pos 6)
  rw [offsetHigh, BitVec.toNat_ofNat, Nat.mod_eq_of_lt]
  generalize offset.toNat / 2 ^ 12 % 2 ^ 1 = sign at *
  generalize offset.toNat / 2 ^ 5 % 2 ^ 6 = high at *
  omega

theorem toNat_offsetLow (offset : BitVec 13) : (offsetLow offset).toNat =
    offset.toNat / 2 ^ 1 % 2 ^ 4 * 2 + offset.toNat / 2 ^ 11 % 2 ^ 1 := by
  have hlow := Nat.mod_lt (offset.toNat / 2 ^ 1) (Nat.two_pow_pos 4)
  have hbit := Nat.mod_lt (offset.toNat / 2 ^ 11) (Nat.two_pow_pos 1)
  rw [offsetLow, BitVec.toNat_ofNat, Nat.mod_eq_of_lt]
  generalize offset.toNat / 2 ^ 1 % 2 ^ 4 = low at *
  generalize offset.toNat / 2 ^ 11 % 2 ^ 1 = bit at *
  omega

/-- The pieces of an even number of thirteen bits. -/
theorem eq_pieces {n : Nat} (hlt : n < 2 ^ 13) (heven : n % 2 = 0) :
    n = n / 2 ^ 12 % 2 ^ 1 * 2 ^ 12 + n / 2 ^ 11 % 2 ^ 1 * 2 ^ 11 + n / 2 ^ 5 % 2 ^ 6 * 2 ^ 5 +
      n / 2 ^ 1 % 2 ^ 4 * 2 := by
  have h12 : n / 2 ^ 12 = n / 2 ^ 11 / 2 := by rw [Nat.div_div_eq_div_mul]; rfl
  have h11 : n / 2 ^ 11 = n / 2 ^ 5 / 2 ^ 6 := by rw [Nat.div_div_eq_div_mul]; rfl
  have h5 : n / 2 ^ 5 = n / 2 ^ 1 / 2 ^ 4 := by rw [Nat.div_div_eq_div_mul]; rfl
  omega

theorem decode_branch {offset : BitVec 13} {c : Condition} (heven : offset.toNat % 2 = 0)
    (h : word.toNat = offset.toNat / 2 ^ 12 % 2 ^ 1 * 2 ^ 31 +
      offset.toNat / 2 ^ 5 % 2 ^ 6 * 2 ^ 25 + b.toNat * 2 ^ 20 + a.toNat * 2 ^ 15 +
      f3.toNat * 2 ^ 12 + offset.toNat / 2 ^ 1 % 2 ^ 4 * 2 ^ 8 +
      offset.toNat / 2 ^ 11 % 2 ^ 1 * 2 ^ 7 + 0b1100011)
    (hc : condition f3 = some c) : decode word = some (.branch c a b offset) := by
  have hhigh := toNat_offsetHigh offset
  have hlow := toNat_offsetLow offset
  have hsum : offset.toNat = offset.toNat / 2 ^ 12 % 2 ^ 1 * 2 ^ 12 +
      offset.toNat / 2 ^ 11 % 2 ^ 1 * 2 ^ 11 + offset.toNat / 2 ^ 5 % 2 ^ 6 * 2 ^ 5 +
      offset.toNat / 2 ^ 1 % 2 ^ 4 * 2 := eq_pieces offset.isLt heven
  have hsign := Nat.mod_lt (offset.toNat / 2 ^ 12) (Nat.two_pow_pos 1)
  have hmiddle := Nat.mod_lt (offset.toNat / 2 ^ 5) (Nat.two_pow_pos 6)
  have hbit := Nat.mod_lt (offset.toNat / 2 ^ 11) (Nat.two_pow_pos 1)
  generalize offset.toNat / 2 ^ 12 % 2 ^ 1 = sign at *
  generalize offset.toNat / 2 ^ 5 % 2 ^ 6 = middle at *
  generalize offset.toNat / 2 ^ 1 % 2 ^ 4 = low at *
  generalize offset.toNat / 2 ^ 11 % 2 ^ 1 = bit at *
  have hfields : Fields word (offsetHigh offset) b a f3 (offsetLow offset) 0b1100011 := by
    constructor
    have hmajor : (0b1100011 : BitVec 7).toNat = 0b1100011 := rfl
    rw [h, hhigh, hlow, hmajor]
    omega
  have hoffset : offsetB word = offset := by
    have h12 : (sign * 2 ^ 6 + middle) / 2 ^ 6 = sign := by omega
    have h11 : (low * 2 + bit) % 2 = bit := by omega
    have h5 : (sign * 2 ^ 6 + middle) % 2 ^ 6 = middle := by omega
    have h1 : (low * 2 + bit) / 2 = low := by omega
    apply hfields.offsetB_eq
    rw [hhigh, hlow, h12, h11, h5, h1, hsum]
  have hdecode := decode_of_branch (c := c) (by rw [hfields.opcode_eq]; rfl : (opcode word).toNat = _)
    (by rw [hfields.funct3_eq, hc])
  rw [hdecode, hfields.rs1_eq, hfields.rs2_eq, hoffset]

end Fields

/-! ## Execution -/

/-- The state of a hart; x0 is zero. -/
@[ext] structure State where
  pc : UInt64
  x : Reg → UInt64
  x_zero : x 0 = 0

namespace State

/-- All registers zero. -/
def reset (pc : UInt64) : State := ⟨pc, fun _ => 0, rfl⟩

def setPc (s : State) (pc : UInt64) : State := { s with pc := pc }

/-- A write to x0 is discarded. -/
def write (s : State) (r : Reg) (value : UInt64) : State where
  pc := s.pc
  x := if r = 0 then s.x else Function.update s.x r value
  x_zero := by
    split_ifs with h
    · exact s.x_zero
    · rw [Function.update_of_ne (Ne.symm h), s.x_zero]

@[simp] theorem x_setPc (s : State) (pc : UInt64) : (s.setPc pc).x = s.x := rfl
@[simp] theorem pc_setPc (s : State) (pc : UInt64) : (s.setPc pc).pc = pc := rfl
@[simp] theorem pc_write (s : State) (r : Reg) (value : UInt64) : (s.write r value).pc = s.pc := rfl
@[simp] theorem pc_reset (pc : UInt64) : (reset pc).pc = pc := rfl
@[simp] theorem x_reset (pc : UInt64) (r : Reg) : (reset pc).x r = 0 := rfl

theorem x_write (s : State) (r : Reg) (value : UInt64) :
    (s.write r value).x = if r = 0 then s.x else Function.update s.x r value := rfl

theorem x_write_self (s : State) {r : Reg} (value : UInt64) (h : r ≠ 0) :
    (s.write r value).x r = value := by
  rw [x_write, if_neg h, Function.update_self]

theorem x_write_of_ne (s : State) {r r' : Reg} (value : UInt64) (h : r' ≠ r) :
    (s.write r value).x r' = s.x r' := by
  rw [x_write]
  split_ifs
  · rfl
  · rw [Function.update_of_ne h]

end State

/-- The registers an instruction reads. -/
def Instruction.sources : Instruction → List Reg
  | .op _ _ rs1 rs2 => [rs1, rs2]
  | .opImm _ _ rs1 _ => [rs1]
  | .branch _ rs1 rs2 _ => [rs1, rs2]

def extend {width : Nat} (value : BitVec width) : UInt64 := UInt64.ofBitVec (value.signExtend 64)

/-- Shift amounts are taken modulo 64. -/
def Operation.apply : Operation → UInt64 → UInt64 → UInt64
  | .add, a, b => a + b
  | .sub, a, b => a - b
  | .sll, a, b => a <<< b
  | .slt, a, b => if a.toInt64 < b.toInt64 then 1 else 0
  | .sltu, a, b => if a < b then 1 else 0
  | .xor, a, b => a ^^^ b
  | .srl, a, b => a >>> b
  | .sra, a, b => (a.toInt64 >>> (b % 64).toInt64).toUInt64
  | .or, a, b => a ||| b
  | .and, a, b => a &&& b

def Condition.holds : Condition → UInt64 → UInt64 → Bool
  | .eq, a, b => a = b
  | .ne, a, b => a ≠ b
  | .lt, a, b => a.toInt64 < b.toInt64
  | .ge, a, b => b.toInt64 ≤ a.toInt64
  | .ltu, a, b => a < b
  | .geu, a, b => b ≤ a

def execute (s : State) : Instruction → State
  | .op operation rd rs1 rs2 =>
      (s.write rd (operation.apply (s.x rs1) (s.x rs2))).setPc (s.pc + 4)
  | .opImm operation rd rs1 immediate =>
      (s.write rd (operation.apply (s.x rs1) (extend immediate))).setPc (s.pc + 4)
  | .branch condition rs1 rs2 offset =>
      s.setPc (s.pc + if condition.holds (s.x rs1) (s.x rs2) then extend offset else 4)

def step (s : State) (word : UInt32) : Option State := (decode word).map (execute s)

/-- Execute a stream of words: each is the one found at the program counter of its
turn, wherever the one before it went. -/
def run : State → List UInt32 → Option State
  | s, [] => some s
  | s, word :: words => (step s word).bind fun s => run s words

/-- Every state of the run of a stream exists and satisfies `P`. -/
def Along (P : State → Prop) : State → List UInt32 → Prop
  | s, [] => P s
  | s, word :: words => P s ∧ ∃ s', step s word = some s' ∧ Along P s' words

/-! ## Composition -/

variable {P : State → Prop} {s s' : State} {xs ys : List UInt32}

theorem run_cons {word : UInt32} {i : Instruction} (h : decode word = some i) :
    run s (word :: xs) = run (execute s i) xs := by
  rw [run, step, h, Option.map_some, Option.bind_some]

theorem run_append (h : run s xs = some s') : run s (xs ++ ys) = run s' ys := by
  induction xs generalizing s with
  | nil =>
      obtain rfl : s = s' := Option.some.inj h
      rfl
  | cons word words ih =>
      rw [List.cons_append, run]
      rw [run] at h
      cases hstep : step s word with
      | none => simp [hstep] at h
      | some middle =>
          rw [hstep] at h
          exact ih h

theorem Along.append (h : Along P s xs) (hrun : run s xs = some s') (hys : Along P s' ys) :
    Along P s (xs ++ ys) := by
  induction xs generalizing s with
  | nil =>
      obtain rfl : s = s' := Option.some.inj hrun
      exact hys
  | cons word words ih =>
      obtain ⟨hs, middle, hstep, hwords⟩ := h
      rw [run, hstep] at hrun
      exact ⟨hs, middle, hstep, ih hwords hrun⟩

/-! ## Straight-line code -/

/-- An instruction after which the next address follows. -/
def Instruction.isSequential : Instruction → Bool
  | .op .. | .opImm .. => true
  | .branch .. => false

def Sequential (word : UInt32) : Prop := ∃ i, decode word = some i ∧ i.isSequential = true

theorem step_sequential {word : UInt32} (h : Sequential word) :
    ∃ s', step s word = some s' ∧ s'.pc = s.pc + 4 := by
  obtain ⟨i, hdecode, hi⟩ := h
  refine ⟨execute s i, by rw [step, hdecode, Option.map_some], ?_⟩
  cases i with
  | op operation rd rs1 rs2 => rfl
  | opImm operation rd rs1 immediate => rfl
  | branch condition rs1 rs2 offset => cases hi

theorem run_sequential (h : ∀ word ∈ xs, Sequential word) :
    ∃ s', run s xs = some s' ∧ s'.pc = s.pc + 4 * UInt64.ofNat xs.length := by
  induction xs generalizing s with
  | nil => exact ⟨s, rfl, by simp⟩
  | cons word words ih =>
      obtain ⟨middle, hstep, hpc⟩ := step_sequential (s := s) (h word List.mem_cons_self)
      obtain ⟨s', hrun, hpc'⟩ := ih (s := middle) fun w hw => h w (List.mem_cons_of_mem _ hw)
      refine ⟨s', by rw [run, hstep]; exact hrun, ?_⟩
      rw [hpc', hpc, List.length_cons, UInt64.ofNat_add, UInt64.mul_add, UInt64.add_assoc,
        UInt64.add_comm (4 * _)]
      rfl

/-- The addresses of straight-line code. -/
theorem along_sequential {p : UInt64 → Prop} (h : ∀ word ∈ xs, Sequential word)
    (hp : ∀ k ≤ xs.length, p (s.pc + 4 * UInt64.ofNat k)) : Along (fun s => p s.pc) s xs := by
  induction xs generalizing s with
  | nil => simpa [Along] using hp 0 (Nat.zero_le _)
  | cons word words ih =>
      obtain ⟨middle, hstep, hpc⟩ := step_sequential (s := s) (h word List.mem_cons_self)
      refine ⟨by simpa using hp 0 (Nat.zero_le _), middle, hstep, ih ?_ fun k hk => ?_⟩
      · exact fun w hw => h w (List.mem_cons_of_mem _ hw)
      · have hnext := hp (k + 1) (by simpa using hk)
        rw [UInt64.ofNat_add, UInt64.mul_add] at hnext
        rw [hpc, UInt64.add_assoc, UInt64.add_comm 4]
        exact hnext

end CkbSail.ProofSupport.Rv64i
