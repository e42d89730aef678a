import CkbSail.RustStd.Checked

/-!
# RV64I encoders for the corpus

The instruction words of the corpus are assembled here, and the operands of a
case are built in registers from nothing but immediate operations.
-/

namespace CkbSail.DiffTest.Encode

open RustStd

def OPCODE_OP : UInt32 := 0b0110011
def OPCODE_OP_IMM : UInt32 := 0b0010011
def OPCODE_BRANCH : UInt32 := 0b1100011

def register (index : UInt8) : Panics UInt32 := do
  assertThat (index < 32) s!"x{index} is not an integer register"
  pure index.toUInt32

def rType (funct7 : UInt32) (rs2 rs1 : UInt8) (funct3 : UInt32) (rd : UInt8) (opcode : UInt32) :
    Panics UInt32 := do
  let rs2 ← register rs2
  let rs1 ← register rs1
  let rd ← register rd
  pure ((funct7 <<< 25) ||| (rs2 <<< 20) ||| (rs1 <<< 15) ||| (funct3 <<< 12) ||| (rd <<< 7) |||
    opcode)

def iType (immediate : Int32) (rs1 : UInt8) (funct3 : UInt32) (rd : UInt8) (opcode : UInt32) :
    Panics UInt32 := do
  assertThat (-2048 ≤ immediate && immediate ≤ 2047)
    s!"{immediate} does not fit in a signed 12-bit immediate"
  let rs1 ← register rs1
  let rd ← register rd
  pure (((immediate.toUInt32 &&& 0xfff) <<< 20) ||| (rs1 <<< 15) ||| (funct3 <<< 12) |||
    (rd <<< 7) ||| opcode)

/-- `add rd, rs1, rs2` -/
def add (rd rs1 rs2 : UInt8) : Panics UInt32 := rType 0 rs2 rs1 0b000 rd OPCODE_OP

/-- `addi rd, rs1, immediate` -/
def addi (rd rs1 : UInt8) (immediate : Int32) : Panics UInt32 :=
  iType immediate rs1 0b000 rd OPCODE_OP_IMM

/-- `slli rd, rs1, shift`; the shift amounts of RV64 have six bits. -/
def slli (rd rs1 : UInt8) (shift : UInt32) : Panics UInt32 := do
  assertThat (shift < 64) s!"{shift} is not an RV64 shift amount"
  let rs1 ← register rs1
  let rd ← register rd
  pure ((shift <<< 20) ||| (rs1 <<< 15) ||| ((0b001 : UInt32) <<< 12) ||| (rd <<< 7) |||
    OPCODE_OP_IMM)

/-- `beq rs1, rs2, offset`, relative to the branch itself. -/
def beq (rs1 rs2 : UInt8) (offset : Int32) : Panics UInt32 := do
  assertThat (-4096 ≤ offset && offset ≤ 4094 && offset % 2 == 0)
    s!"{offset} is not an encodable branch offset"
  -- funct3 is 0b000 and contributes nothing
  let bits := offset.toUInt32
  let rs2 ← register rs2
  let rs1 ← register rs1
  pure ((((bits >>> 12) &&& 0x1) <<< 31) ||| (((bits >>> 5) &&& 0x3f) <<< 25) ||| (rs2 <<< 20) |||
    (rs1 <<< 15) ||| (((bits >>> 1) &&& 0xf) <<< 8) ||| (((bits >>> 11) &&& 0x1) <<< 7) |||
    OPCODE_BRANCH)

/-- `addi x0, x0, 0`. -/
def nop : Panics UInt32 := addi 0 0 0

/-- A 9-bit head and five 11-bit chunks. -/
def chunks (value : UInt64) : List UInt64 :=
  [(value >>> 55) &&& 0x1ff, (value >>> 44) &&& 0x7ff, (value >>> 33) &&& 0x7ff,
    (value >>> 22) &&& 0x7ff, (value >>> 11) &&& 0x7ff, value &&& 0x7ff]

/-- The first non-zero chunk, or the last one. -/
def firstChunk (chunks : List UInt64) : Nat :=
  (chunks.findIdx? fun chunk => chunk ≠ 0).getD (chunks.length - 1)

/-- `chunk as i32`. -/
def chunkImmediate (chunk : UInt64) : Int32 := chunk.toUInt32.toInt32

/-- One pass of the loop of `materialize`. -/
def pushChunk (rd : UInt8) (program : List UInt32) (chunk : UInt64) : Panics (List UInt32) := do
  let shift ← slli rd rd 11
  let add ← addi rd rd (chunkImmediate chunk)
  pure (program ++ [shift] ++ [add])

/-- Build a 64-bit constant in `rd`: every chunk after the first is shifted in and
added, which stays inside the non-negative immediates. -/
def materialize (rd : UInt8) (value : UInt64) : Panics (List UInt32) := do
  assertThat (rd ≠ 0) "x0 cannot hold a value"
  let chunks := chunks value
  let first := firstChunk chunks
  let chunk ← indexed chunks first
  let head ← addi rd 0 (chunkImmediate chunk)
  let rest ← slicedFrom chunks (first + 1)
  rest.foldlM (pushChunk rd) [head]

end CkbSail.DiffTest.Encode
