import CkbSail.ProofSupport.FaultyProgram
import Mathlib

/-!
# The launcher of the clean room's machine

`launch` makes the disks of a throw-away machine, boots it, collects the evidence and
destroys the disks.  The state is which of the disks exist; every other step is what the
host reports of it.
-/

namespace CkbSail.Scripts.EphemeralVm

open ProofSupport

/-- What a step raises: `require` with its message, or the host. -/
inductive Failure where
  | required (message : String)
  | host (error : String)
deriving DecidableEq, Repr

/-- The disks in the output directory. -/
inductive Disk where
  | overlay
  | evidence
  | secrets
deriving DecidableEq, Repr

/-- The disks that exist, as regular files. -/
abbrev Disks := Disk → Bool

def noDisks : Disks := fun _ => false

/-! ## The secrets -/

/-- The environment of the launcher. -/
abbrev Environment := List (String × String)

/-- `environment.get(name, "")`. -/
def Environment.get (environment : Environment) (name : String) : String :=
  (environment.lookup name).getD ""

def SECRET_URLS : List String :=
  ["WEEK6_INSTALL_ARCHIVE_URL", "WEEK6_INSTALL_MANIFEST_URL", "WEEK6_DECODER_ARCHIVE_URL"]

def PROXY_VARIABLES : List String :=
  ["HTTP_PROXY", "HTTPS_PROXY", "http_proxy", "https_proxy", "NO_PROXY", "no_proxy"]

def SECRETS_BYTES : Nat := 1024 * 1024

def requireThat (condition : Bool) (message : String) : Except Failure Unit :=
  if condition then .ok () else .error (.required message)

/-- A text that fits between single quotes on one line. -/
def quotable (value : String) : Bool := !value.contains '\n' && !value.contains '\''

def secretLine (environment : Environment) (name : String) : Except Failure String := do
  let value := environment.get name
  requireThat (value.startsWith "https://" && quotable value) ("missing/non-HTTPS " ++ name)
  pure (name ++ "='" ++ value ++ "'")

/-- The line of a proxy variable that is set. -/
def proxyLine (environment : Environment) (name : String) : Except Failure (List String) := do
  let value := environment.get name
  requireThat (quotable value) ("unsafe proxy variable " ++ name)
  pure (if value = "" then [] else [name ++ "='" ++ value ++ "'"])

def secretsBlob (environment : Environment) : Except Failure (List UInt8) := do
  let secrets ← SECRET_URLS.mapM (secretLine environment)
  let proxies ← PROXY_VARIABLES.mapM (proxyLine environment)
  let blob := ("\n".intercalate (secrets ++ proxies.flatten) ++ "\n").toUTF8
  requireThat (blob.size < SECRETS_BYTES) "secrets blob too large"
  pure (blob.data.toList ++ List.replicate (SECRETS_BYTES - blob.size) 0)

/-! ## The machine -/

structure Arguments where
  out : String
  image : String
  qemu : String
  qemuImg : String
  cloudLocalds : String
  vcpus : Nat
  memoryGb : Nat
  diskGb : Nat
  evidenceGb : Nat
  timeoutHours : Nat
deriving DecidableEq, Repr

def Disk.path (args : Arguments) : Disk → String
  | .overlay => args.out ++ "/overlay.qcow2"
  | .evidence => args.out ++ "/evidence.raw"
  | .secrets => args.out ++ "/secrets.raw"

def SHARED_FILESYSTEM_FLAGS : List String :=
  ["-virtfs", "-fsdev", "virtio-9p", "virtiofs", "vhost-user-fs"]

def qemuArgv (args : Arguments) : Except Failure (List String) := do
  let argv := [args.qemu, "-machine", "q35,accel=kvm", "-cpu", "host", "-smp", toString args.vcpus,
    "-m", toString args.memoryGb ++ "G", "-display", "none", "-no-reboot",
    "-serial", "file:" ++ args.out ++ "/console.log",
    "-drive", "file=" ++ Disk.overlay.path args ++ ",if=none,format=qcow2,cache=unsafe,id=root",
    "-device", "virtio-blk-pci,drive=root,bootindex=0",
    "-drive", "file=" ++ Disk.evidence.path args ++ ",if=none,format=raw,id=evidence",
    "-device", "virtio-blk-pci,drive=evidence,serial=clean-room-evidence",
    "-drive", "file=" ++ Disk.secrets.path args ++ ",if=none,format=raw,id=secrets,readonly=on",
    "-device", "virtio-blk-pci,drive=secrets,serial=clean-room-secrets",
    "-drive", "file=" ++ args.out ++ "/seed.iso,if=virtio,format=raw,readonly=on",
    "-netdev", "user,id=net0", "-device", "virtio-net-pci,netdev=net0"]
  requireThat (!argv.any fun item => SHARED_FILESYSTEM_FLAGS.any fun flag =>
      decide (flag.toList <:+: item.toList))
    "shared host filesystem is not allowed"
  pure argv

/-! ## The host -/

/-- The steps that only succeed or raise. -/
inductive Step where
  | environmentId
  | started
  | userData
  | metaData
  | openSecrets
  | writeSecrets (blob : List UInt8)
  | closeSecrets
  | chmodSecrets
  | openEvidence
  | truncateEvidence (bytes : Nat)
  | openOutput
  | finished
  | hostDirectory
  | recordDirectory
  | copy (source target : String)
  | digestEvidence
  | record
  | writeRecord
  | writeSummary
  | failedAt
deriving DecidableEq, Repr

inductive Tool where
  | cloudLocalds
  | qemuImg
  | qemuVersion
  | qemu
deriving DecidableEq, Repr

/-- The files `launch` looks for. -/
inductive Looked where
  | console
  | exitCode
  | report
deriving DecidableEq, Repr

structure FailureRecord where
  error : Failure
  secretsDestroyed : Bool
  overlayDestroyed : Bool
deriving DecidableEq, Repr

/-- What the host does at each step.  A tool runs with its arguments and a time limit, and
may leave or remove any of the disks. -/
structure Host where
  step : Step → Except Failure Unit
  tool : Tool → List String → Nat → Disks → Except Failure Int × Disks
  isFile : Looked → Bool
  extract : Except Failure Nat
  guestCode : Except Failure Int
  overwrite : Disk → Except Failure Unit
  unlink : Disk → Except Failure Unit
  writeFailure : FailureRecord → Except Failure Unit

/-- The returned summary. -/
structure Summary where
  status : String
  extractedMembers : Nat
deriving DecidableEq, Repr

def RECORD_STATUS : String := "guest_completed_evidence_extracted_overlay_destroyed"

abbrev Launch := Program Disks Failure

variable (host : Host)

def step (s : Step) : Launch Unit := .check fun _ => host.step s

def require (condition : Bool) (message : String) : Launch Unit :=
  .check fun _ => requireThat condition message

/-- `path.open("xb")` of a disk. -/
def create (s : Step) (disk : Disk) : Launch Unit := .perform fun disks =>
  match host.step s with
  | .error failure => (.error failure, disks)
  | .ok () => (.ok (), Function.update disks disk true)

/-- `run_host`. -/
def runHost (tool : Tool) (argv : List String) (timeout : Nat) : Launch Int := do
  match ← Program.query (host.tool tool argv timeout) with
  | .error failure => Program.raise failure
  | .ok returncode => pure returncode

/-- Overwrite and unlink a disk; whether it is gone. -/
def destroy (disk : Disk) : Launch Bool := do
  let disks ← Program.get
  if disks disk then
    Program.check fun _ => host.overwrite disk
    Program.perform fun disks =>
      match host.unlink disk with
      | .error failure => (.error failure, disks)
      | .ok () => (.ok (), Function.update disks disk false)
  let disks ← Program.get
  pure (!disks disk)

/-! ## The launch -/

variable (args : Arguments)

/-- The seed of the machine. -/
def describe : Launch Unit := do
  step host .environmentId
  step host .started
  step host .userData
  step host .metaData

/-- Write the secrets into their disk. -/
def fill (environment : Environment) : Launch Unit := do
  Program.andFinally
    (do
      let blob ← Program.check fun _ => secretsBlob environment
      step host (.writeSecrets blob))
    (step host .closeSecrets)
  step host .chmodSecrets

/-- The steps before the `try`. -/
def prepare (environment : Environment) : Launch Unit := do
  describe host
  create host .openSecrets .secrets
  fill host environment

/-- Make the other disks and run the machine; the exit code of QEMU. -/
def boot : Launch Int := do
  let localds ← runHost host .cloudLocalds
    [args.cloudLocalds, args.out ++ "/seed.iso", args.out ++ "/user-data", args.out ++ "/meta-data"]
    120
  require (localds = 0) "cloud-init seed creation failed"
  let created ← runHost host .qemuImg
    [args.qemuImg, "create", "-f", "qcow2", "-F", "qcow2", "-b", args.image,
      Disk.overlay.path args, toString args.diskGb ++ "G"] 120
  require (created = 0) "overlay creation failed"
  create host .openEvidence .evidence
  step host (.truncateEvidence (args.evidenceGb * 1024 ^ 3))
  let version ← runHost host .qemuVersion [args.qemu, "--version"] 30
  require (version = 0) "qemu version probe failed"
  let argv ← Program.check fun _ => qemuArgv args
  step host .openOutput
  let qemu ← runHost host .qemu argv (args.timeoutHours * 3600)
  step host .finished
  pure qemu

/-- What is copied beside the report. -/
def COPIES : List (String × String) :=
  (["console.log", "user-data", "meta-data"].map fun name => (name, name)) ++
    ["controller.stdout", "controller.stderr", "exit-code"].map fun name =>
      ("host/guest/" ++ name, "guest-" ++ name)

def copyAll : List (String × String) → Launch Unit
  | [] => pure ()
  | (source, target) :: copies => do
      step host (.copy source target)
      copyAll copies

/-- Extract the evidence and copy what belongs beside it; the number of members. -/
def collect (qemu : Int) : Launch Nat := do
  require (qemu = 0) ("qemu exited " ++ toString qemu)
  require (host.isFile .console) "console log absent"
  step host .hostDirectory
  let extracted ← Program.check fun _ => host.extract
  require (host.isFile .exitCode) "guest exit code absent"
  let guestCode ← Program.check fun _ => host.guestCode
  require (guestCode = 0 && host.isFile .report)
    ("guest controller failed: exit " ++ toString guestCode)
  step host .recordDirectory
  copyAll host COPIES
  step host .digestEvidence
  pure extracted

/-- `destroy(overlay) and destroy(evidence)`. -/
def destroyBoth : Launch Bool := do
  if ← destroy host .overlay then destroy host .evidence else pure false

/-- The body of the `try`. -/
def body : Launch Summary := do
  let qemu ← boot host args
  require (← destroy host .secrets) "secrets disk not destroyed"
  let extracted ← collect host qemu
  require (← destroyBoth host) "overlay/evidence disk not destroyed"
  step host .record
  step host .writeRecord
  step host .writeSummary
  pure ⟨RECORD_STATUS, extracted⟩

/-- The `except` clause. -/
def cleanUp (failure : Failure) : Launch Summary := do
  let _ ← destroy host .secrets
  let _ ← destroy host .overlay
  step host .failedAt
  let disks ← Program.get
  Program.check fun _ => host.writeFailure ⟨failure, !disks .secrets, !disks .overlay⟩
  Program.raise failure

/-- `launch`, from where the output directory is there. -/
def launch (environment : Environment) : Launch Summary := do
  prepare host environment
  (body host args).handle (cleanUp host)

end CkbSail.Scripts.EphemeralVm
