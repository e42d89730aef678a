import CkbSail.SailRunner.Dii
import CkbSail.SailRunner.RvfiText

/-!
# Running an ELF file on the Sail emulator

The emulator prints a textual trace; how it ended is read off its output and off
the last event.
-/

namespace CkbSail.SailRunner

open CkbSail.Core RustStd

/-- `str::parse::<i32>().ok()`. -/
def parseI32 : List Char → Option Int32
  | ['-'] => none
  | '-' :: digits =>
      (accumulate (2 ^ 31 + 1) 10 digits 0).toOption.map fun n => Int32.ofInt (-n)
  | text => (fromStrRadix (2 ^ 31) 10 text).toOption.map Int32.ofNat

/-- The exit code on a line `FAILURE: code`. -/
def failureCode (line : List Char) : Option Int32 :=
  (stripPrefix "FAILURE:".toList (trim line)).bind fun value => parseI32 (trim value)

def terminalFromOutput (output : List Char) (events : List CommitEvent) (maxSteps : UInt64) :
    TraceEnd :=
  if (lines output).any fun line => trim line = "SUCCESS".toList then .completed (some 0)
  else
    match (lines output).findSome? failureCode with
    | some code => .completed (some code)
    | none =>
        if maxSteps.toNat ≤ events.length then .stepLimit
        else if events.getLast?.any CommitEvent.trap then .trap "Sail RVFI trap"
        else if events.getLast?.any CommitEvent.halt then .completed none
        else .error "Sail ended without SUCCESS, FAILURE, trap, halt, or step limit"

/-- What a finished emulator leaves behind; the texts are those of
`String::from_utf8_lossy`. -/
structure Output where
  status : ExitStatus
  stdout : String
  stderr : String

/-- The host of an ELF run. -/
structure ElfHost where
  isFile : String → Bool
  /-- `Command::new(sail_bin).args(args).output()`. -/
  output : String → List String → Except String Output

/-- The arguments of the emulator. -/
def elfArguments (elf config : String) (maxSteps : UInt64) : List String :=
  [elf, "--config", config, "--trace-rvfi", "--trace-step", "--inst-limit", toString maxSteps]

def executeElf (host : ElfHost) (elf sailBin config : String) (maxSteps : UInt64) :
    Except Fault ExecutionTrace :=
  if ¬host.isFile sailBin then
    .error (.error (.msg s!"Sail emulator not found: {sailBin}"))
  else if ¬host.isFile config then
    .error (.error (.msg s!"Materialized Sail config not found: {config}"))
  else
    match host.output sailBin (elfArguments elf config maxSteps) with
    | .error fault =>
        .error (.error ((Error.msg fault).context s!"failed to run Sail emulator {sailBin}"))
    | .ok output =>
        let combined := output.stdout.toList ++ '\n' :: output.stderr.toList
        if ¬output.status.success then
          .error (.error (.msg (s!"Sail exited {output.status.display}: " ++
            String.ofList (trim output.stderr.toList))))
        else
          match parseRvfiText combined with
          | .error fault => .error fault
          | .ok [] =>
              .error (.error (.msg ("Sail produced no RVFI records. In this sail-riscv revision, " ++
                "--trace-rvfi only prints packets in RVFI-DII mode; drive the " ++
                "model through the RVFI-DII client (see `dii`) or a dedicated " ++
                "exporter rather than accepting an empty trace")))
          | .ok events => .ok ⟨events, terminalFromOutput combined events maxSteps⟩

end CkbSail.SailRunner
