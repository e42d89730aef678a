import CkbSail.DiffTest.Corpus
import CkbSail.Core.Program
import CkbSail.RustStd.Fs
import CkbSail.RustStd.Text
import CkbSail.SailRunner.Dii

/-!
# Replayable evidence artifacts

An artifact keeps everything a run recorded; `write` stores it under the id of
its case.
-/

namespace CkbSail.DiffTest

open CkbSail.Core RustStd PythonStd SailRunner

/-- Bumped whenever the artifact layout changes in a way a reader must notice. -/
def ARTIFACT_SCHEMA_VERSION : UInt32 := 3

structure CkbSourceBaseline where
  baselineId : String
  upstreamCommit : String
  patchSha256 : String
  sourceTreeSha256 : String
  manifestSha256 : String
  identityKind : String
deriving DecidableEq, Repr

def CkbSourceBaseline.toJson (baseline : CkbSourceBaseline) : Json :=
  .obj [("baseline_id", .str baseline.baselineId),
    ("upstream_commit", .str baseline.upstreamCommit),
    ("patch_sha256", .str baseline.patchSha256),
    ("source_tree_sha256", .str baseline.sourceTreeSha256),
    ("manifest_sha256", .str baseline.manifestSha256),
    ("identity_kind", .str baseline.identityKind)]

/-- The recorded environment; paths are UTF-8 text. -/
structure Environment where
  ckbVmCommit : Option String
  ckbVmSourceBaseline : Option CkbSourceBaseline
  sailRiscvCommit : Option String
  sailModelVersion : Option String
  sailBin : String
  sailConfig : String
  sailConfigSha256 : Option String
  ckbVmIsaBits : UInt8
  ckbVmIsa : String
  ckbVmVersion : UInt32
  rustc : Option String
  cargo : Option String
  sailCompiler : Option String
deriving DecidableEq, Repr

def Environment.toJson (environment : Environment) : Json :=
  .obj [("ckb_vm_commit", optionJson .str environment.ckbVmCommit),
    ("ckb_vm_source_baseline",
      optionJson CkbSourceBaseline.toJson environment.ckbVmSourceBaseline),
    ("sail_riscv_commit", optionJson .str environment.sailRiscvCommit),
    ("sail_model_version", optionJson .str environment.sailModelVersion),
    ("sail_bin", .str environment.sailBin), ("sail_config", .str environment.sailConfig),
    ("sail_config_sha256", optionJson .str environment.sailConfigSha256),
    ("ckb_vm_isa_bits", .int environment.ckbVmIsaBits.toNat),
    ("ckb_vm_isa", .str environment.ckbVmIsa),
    ("ckb_vm_version", .int environment.ckbVmVersion.toNat),
    ("rustc", optionJson .str environment.rustc), ("cargo", optionJson .str environment.cargo),
    ("sail_compiler", optionJson .str environment.sailCompiler)]

structure InitialState where
  pc : UInt64
  integerRegisters : String
deriving DecidableEq, Repr

/-- `InitialState::default()`. -/
def InitialState.reset : InitialState := ⟨INJECTION_ENTRY, "x0..x31 = 0"⟩

def InitialState.toJson (state : InitialState) : Json :=
  .obj [("pc", .int state.pc.toNat), ("integer_registers", .str state.integerRegisters)]

structure Replay where
  fromArtifact : String
  fromCorpus : Option String
deriving DecidableEq, Repr

def Replay.toJson (replay : Replay) : Json :=
  .obj [("from_artifact", .str replay.fromArtifact),
    ("from_corpus", optionJson .str replay.fromCorpus)]

/-- One recorded run of one program against both engines. -/
structure Artifact where
  schemaVersion : UInt32
  case : TestProgram
  instructionsHex : List String
  environment : Environment
  initialState : InitialState
  passed : Bool
  classification : String
  comparison : Option CompareResult
  error : Option String
  ckbTrace : Option ExecutionTrace
  sailTrace : Option ExecutionTrace
  sailRawPackets : List String
  replay : Replay

def Artifact.toJson (artifact : Artifact) : Json :=
  .obj [("schema_version", .int artifact.schemaVersion.toNat), ("case", artifact.case.toJson),
    ("instructions_hex", .arr (artifact.instructionsHex.map .str)),
    ("environment", artifact.environment.toJson),
    ("initial_state", artifact.initialState.toJson), ("passed", .bool artifact.passed),
    ("classification", .str artifact.classification),
    ("comparison", optionJson CompareResult.toJson artifact.comparison),
    ("error", optionJson .str artifact.error),
    ("ckb_trace", optionJson ExecutionTrace.toJson artifact.ckbTrace),
    ("sail_trace", optionJson ExecutionTrace.toJson artifact.sailTrace),
    ("sail_raw_packets", .arr (artifact.sailRawPackets.map .str)),
    ("replay", artifact.replay.toJson)]

def hexWords (instructions : List UInt32) : List String :=
  instructions.map fun word => "0x" ++ paddedHex 8 word.toNat

def hexBytes (packets : List PacketBytes) : List String :=
  packets.map fun packet =>
    String.join (packet.toList.map fun byte => paddedHex 2 byte.toNat)

/-- The instruction of one hexadecimal word. -/
def readWord (index : Nat) (word : String) : Except Error UInt32 :=
  match stripPrefix ['0', 'x'] word.toList with
  | none => .error (.msg s!"instruction {index} is not 0x-prefixed: {word}")
  | some digits =>
      match fromStrRadix (2 ^ 32) 16 digits with
      | .error error =>
          .error ((Error.msg error.display).context
            s!"instruction {index} is not hexadecimal: {word}")
      | .ok value => .ok (UInt32.ofNat value)

def readWords : Nat → List String → Except Error (List UInt32)
  | _, [] => .ok []
  | index, word :: words =>
      match readWord index word with
      | .error error => .error error
      | .ok instruction =>
          match readWords (index + 1) words with
          | .error error => .error error
          | .ok instructions => .ok (instruction :: instructions)

/-- Rebuild the injected program from the artifact's own hexadecimal words. -/
def Artifact.program (artifact : Artifact) : Except Error TestProgram :=
  match readWords 0 artifact.instructionsHex with
  | .error error => .error error
  | .ok instructions =>
      if instructions.isEmpty then
        .error (.msg "the artifact contains no instructions to replay")
      else if hsame : instructions = artifact.case.instructions then
        .ok { artifact.case with
          instructions := instructions
          fits := hsame ▸ artifact.case.fits }
      else
        .error (.msg "the artifact's hexadecimal program disagrees with its recorded case")

/-! ## The disk -/

/-- `Path::join`. -/
def joinPath (directory name : String) : String :=
  if name.startsWith "/" || directory = "" then name
  else if directory.endsWith "/" then directory ++ name
  else directory ++ "/" ++ name

/-- What a file holds: the JSON text of a value and a line break, the first bytes of that
after a write that broke off, or something else. -/
inductive Contents where
  | json (value : Json)
  | part (value : Json) (length : Nat)
  | other (bytes : List UInt8)

abbrev Disk := Fs.Disk Contents

/-- Store a value as JSON in a directory and return its path. -/
def storeJson (directory name : String) (value : Json) (disk : Disk) :
    Except Error String × Disk :=
  match disk.createDirAll directory with
  | (.error fault, disk) =>
      (.error ((Error.msg fault).context s!"failed to create {directory}"), disk)
  | (.ok (), disk) =>
      let path := joinPath directory name
      match disk.write path (.json value) (.part value) with
      | (.error fault, disk) =>
          (.error ((Error.msg fault).context s!"failed to write {path}"), disk)
      | (.ok (), disk) => (.ok path, disk)

def Artifact.write (artifact : Artifact) (directory : String) (disk : Disk) :
    Except Error String × Disk :=
  storeJson directory (artifact.case.id ++ ".json") artifact.toJson disk

end CkbSail.DiffTest
