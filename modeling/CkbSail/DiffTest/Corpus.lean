import CkbSail.Core.Serde
import CkbSail.DiffTest.Encode

/-!
# The corpus of injected test programs

Every case is one instruction under test, preceded by the instructions that build
its operands from the reset state.
-/

namespace CkbSail.DiffTest

open CkbSail.Core PythonStd RustStd Encode

/-- A replayable injected program.  A vector holds less than `isize::MAX` bytes,
so its length fits a 64-bit word. -/
structure TestProgram where
  id : String
  description : String
  family : String
  focusStep : Nat
  seed : Option UInt64
  instructions : List UInt32
  fits : instructions.length < 2 ^ 61
deriving DecidableEq

def TestProgram.toJson (case : TestProgram) : Json :=
  .obj [("id", .str case.id), ("description", .str case.description),
    ("family", .str case.family), ("focus_step", .int case.focusStep),
    ("seed", optionJson (fun seed => .int seed.toNat) case.seed),
    ("instructions", .arr (case.instructions.map fun word => .int word.toNat))]

/-- `TestProgram::new`; a vector of more bytes than it may hold panics. -/
def TestProgram.new (id description family : String) (setup tested : List UInt32) :
    Panics TestProgram :=
  let instructions := setup ++ tested
  if fits : instructions.length < 2 ^ 61 then
    .ok { id, description, family, focusStep := setup.length, seed := none, instructions, fits }
  else .error "capacity overflow"

def TestProgram.generated (case : TestProgram) (seed : UInt64) : TestProgram :=
  { case with seed := some seed }

def setup2 (rs1 : UInt8) (first : UInt64) (rs2 : UInt8) (second : UInt64) :
    Panics (List UInt32) := do
  let program ← materialize rs1 first
  let second ← materialize rs2 second
  pure (program ++ second)

/-! ## The fixed cases -/

/-- One entry of the table: the operands are built before the tested words. -/
def fixedCase (id description family : String) (setup : Panics (List UInt32))
    (tested : List (Panics UInt32)) : Panics TestProgram := do
  let setup ← setup
  let tested ← inOrder tested
  TestProgram.new id description family setup tested

def addCases : List (Panics TestProgram) :=
  [fixedCase "add-zero" "add x3, x1, x2 with both operands zero" "ADD"
      (setup2 1 0 2 0) [add 3 1 2],
    fixedCase "add-all-ones-wraps"
      "add x3, x1, x2 with x1 all ones and x2 = 1, wrapping to zero" "ADD"
      (setup2 1 0xffffffffffffffff 2 1) [add 3 1 2],
    fixedCase "add-signed-overflow"
      "add x3, x1, x2 crossing the signed maximum into the signed minimum" "ADD"
      (setup2 1 0x7fffffffffffffff 2 1) [add 3 1 2],
    fixedCase "add-signed-underflow"
      "add x3, x1, x2 crossing the signed minimum downwards" "ADD"
      (setup2 1 0x8000000000000000 2 0xffffffffffffffff) [add 3 1 2],
    fixedCase "add-unsigned-overflow" "add x3, x1, x2 with both operands all ones" "ADD"
      (setup2 1 0xffffffffffffffff 2 0xffffffffffffffff) [add 3 1 2],
    fixedCase "add-rd-aliases-rs1" "add x1, x1, x2 writes back into its first source" "ADD"
      (setup2 1 0x0123456789abcdef 2 0x1111111111111111) [add 1 1 2],
    fixedCase "add-rd-aliases-rs2" "add x2, x1, x2 writes back into its second source" "ADD"
      (setup2 1 0x0123456789abcdef 2 0x1111111111111111) [add 2 1 2],
    fixedCase "add-all-operands-alias" "add x1, x1, x1 doubles a register in place" "ADD"
      (materialize 1 0x4000000000000001) [add 1 1 1],
    fixedCase "add-rd-is-x0" "add x0, x1, x2 must discard its result" "ADD"
      (setup2 1 5 2 7) [add 0 1 2],
    fixedCase "add-writes-back-the-same-value"
      ("add x3, x1, x2 storing the value x3 already holds, which changes " ++
        "no architectural state") "ADD"
      (do
        let setup ← setup2 1 5 2 7
        let third ← materialize 3 12
        pure (setup ++ third))
      [add 3 1 2]]

def addiCases : List (Panics TestProgram) :=
  [fixedCase "addi-zero" "addi x1, x0, 0 from the reset state" "ADDI" (pure []) [addi 1 0 0],
    fixedCase "addi-maximum-immediate" "addi x1, x0, 2047 at the positive immediate boundary"
      "ADDI" (pure []) [addi 1 0 2047],
    fixedCase "addi-minimum-immediate"
      ("addi x1, x0, -2048 at the negative immediate boundary, which must " ++
        "sign-extend across the full register") "ADDI" (pure []) [addi 1 0 (-2048)],
    fixedCase "addi-signed-overflow" "addi x2, x1, 1 crossing the signed maximum" "ADDI"
      (materialize 1 0x7fffffffffffffff) [addi 2 1 1],
    fixedCase "addi-all-ones-wraps" "addi x2, x1, 1 with x1 all ones, wrapping to zero" "ADDI"
      (materialize 1 0xffffffffffffffff) [addi 2 1 1],
    fixedCase "addi-negative-into-zero"
      "addi x2, x1, -2048 with x1 = 2048, landing exactly on zero" "ADDI"
      (materialize 1 2048) [addi 2 1 (-2048)],
    fixedCase "addi-rd-aliases-rs1" "addi x1, x1, -1 decrements in place" "ADDI"
      (materialize 1 0x8000000000000000) [addi 1 1 (-1)],
    fixedCase "addi-rd-is-x0" "addi x0, x1, 5 must discard its result" "ADDI"
      (materialize 1 5) [addi 0 1 5]]

def beqCases : List (Panics TestProgram) :=
  [fixedCase "beq-taken-forward"
      ("beq x1, x2, +8 with equal operands; the next injected instruction " ++
        "therefore executes at the branch target") "BEQ"
      (setup2 1 42 2 42) [beq 1 2 8, addi 3 0 1],
    fixedCase "beq-not-taken-forward"
      "beq x1, x2, +8 with unequal operands; execution falls through" "BEQ"
      (setup2 1 42 2 43) [beq 1 2 8, addi 3 0 1],
    fixedCase "beq-taken-backward"
      "beq x1, x2, -8 with equal operands jumps back over its setup" "BEQ"
      (setup2 1 0 2 0) [beq 1 2 (-8), addi 3 0 7],
    fixedCase "beq-not-taken-backward"
      "beq x1, x2, -8 with unequal operands must not jump back" "BEQ"
      (setup2 1 1 2 2) [beq 1 2 (-8), addi 3 0 7],
    fixedCase "beq-x0-x0-always-taken"
      ("beq x0, x0, +8 from the reset state; the injected stream is " ++
        "positional, so the following instructions run at the target") "BEQ"
      (pure []) [beq 0 0 8, nop, addi 3 0 1],
    fixedCase "beq-sign-boundary-operands"
      ("beq x1, x2, +8 comparing the signed minimum against the signed " ++
        "maximum, which are unequal") "BEQ"
      (setup2 1 0x8000000000000000 2 0x7fffffffffffffff) [beq 1 2 8, addi 3 0 1],
    fixedCase "beq-equal-all-ones" "beq x1, x2, +12 with both operands all ones" "BEQ"
      (setup2 1 0xffffffffffffffff 2 0xffffffffffffffff) [beq 1 2 12, nop, nop, addi 3 0 1],
    fixedCase "beq-self-target"
      ("beq x31, x31, 0 takes a zero-displacement branch; the next injected " ++
        "instruction executes at the same PC, not from a memory fetch loop") "BEQ"
      (materialize 31 5) [beq 31 31 0, addi 3 0 1]]

def fixedCases : Panics (List TestProgram) := inOrder (addCases ++ addiCases ++ beqCases)

/-! ## The generated cases -/

structure SplitMix64 where
  state : UInt64
deriving DecidableEq, Repr

namespace SplitMix64

def new (seed : UInt64) : SplitMix64 := ⟨seed⟩

/-- The next word of the stream; the arithmetic wraps. -/
def next (random : SplitMix64) : UInt64 × SplitMix64 :=
  let state := random.state + 0x9e3779b97f4a7c15
  let z := state
  let z := (z ^^^ (z >>> 30)) * 0xbf58476d1ce4e5b9
  let z := (z ^^^ (z >>> 27)) * 0x94d049bb133111eb
  (z ^^^ (z >>> 31), ⟨state⟩)

end SplitMix64

/-- `{:#018x}`. -/
def operandHex (value : UInt64) : String := "0x" ++ paddedHex 16 value.toNat

/-- The case of one pass of the first loop of `generated_cases`. -/
def drawnAdd (index : Nat) (left right : UInt64) : Panics TestProgram := do
  let setup ← setup2 1 left 2 right
  let tested ← add 3 1 2
  TestProgram.new s!"random-add-{index}"
    s!"add x3, x1, x2 with x1 = {operandHex left} and x2 = {operandHex right}" "ADD" setup [tested]

def randomAdd (seed : UInt64) (index : Nat) (random : SplitMix64) :
    Panics (TestProgram × SplitMix64) := do
  let (left, random) := random.next
  let (right, random) := random.next
  let case ← drawnAdd index left right
  pure (case.generated seed, random)

/-- The case of one pass of the second loop; the immediate is drawn before it. -/
def drawnAddi (index : Nat) (base draw : UInt64) : Panics TestProgram := do
  let immediate ← checkedSub (draw % 4096).toUInt32.toInt32 2048
  let setup ← materialize 1 base
  let tested ← addi 2 1 immediate
  TestProgram.new s!"random-addi-{index}"
    s!"addi x2, x1, {immediate} with x1 = {operandHex base}" "ADDI" setup [tested]

def randomAddi (seed : UInt64) (index : Nat) (random : SplitMix64) :
    Panics (TestProgram × SplitMix64) := do
  let (base, random) := random.next
  let (draw, random) := random.next
  let case ← drawnAddi index base draw
  pure (case.generated seed, random)

/-- The case of one pass of the third loop. -/
def drawnBeq (index : Nat) (left right : UInt64) : Panics TestProgram := do
  let setup ← setup2 1 left 2 right
  let branch ← beq 1 2 8
  let after ← addi 3 0 1
  TestProgram.new s!"random-beq-{index}"
    s!"beq x1, x2, +8 with x1 = {operandHex left} and x2 = {operandHex right}" "BEQ" setup
    [branch, after]

/-- Every other branch compares equal operands. -/
def randomBeq (seed : UInt64) (index : Nat) (random : SplitMix64) :
    Panics (TestProgram × SplitMix64) := do
  let (left, random) := random.next
  let (right, random) := if index % 2 = 0 then (left, random) else random.next
  let case ← drawnBeq index left right
  pure (case.generated seed, random)

/-- A loop that pushes one case a pass and draws from the stream. -/
def pushCases (make : Nat → SplitMix64 → Panics (TestProgram × SplitMix64)) :
    List Nat → SplitMix64 → Panics (List TestProgram × SplitMix64)
  | [], random => .ok ([], random)
  | index :: indices, random => do
      let (case, random) ← make index random
      let (cases, random) ← pushCases make indices random
      pure (case :: cases, random)

def generatedCases (seed : UInt64) : Panics (List TestProgram) := do
  let random := SplitMix64.new seed
  let (adds, random) ← pushCases (randomAdd seed) (List.range 3) random
  let (addis, random) ← pushCases (randomAddi seed) (List.range 2) random
  let (beqs, _) ← pushCases (randomBeq seed) (List.range 2) random
  pure (adds ++ addis ++ beqs)

/-- The fixed part of the corpus, then the cases derived from the seed. -/
def week2Corpus (seed : UInt64) : Panics (List TestProgram) := do
  let corpus ← fixedCases
  let generated ← generatedCases seed
  pure (corpus ++ generated)

end CkbSail.DiffTest
