import CkbSail.Core.Program
import CkbSail.Core.Event
import CkbSail.ProofSupport.EnumerateLoop
import Mathlib.Data.Nat.Digits.Defs

/-!
# The RVFI-DII client

The client writes one command word for every injected instruction and reads one
fixed-size execution packet for it.  The emulator is whatever produces the bytes
that arrive: nothing is assumed of them.
-/

namespace CkbSail.SailRunner

open CkbSail.Core RustStd ProofSupport

/-- Size of a v1 execution packet: 704 bits. -/
def V1_PACKET_BYTES : Nat := 88

/-- `[u8; V1_PACKET_BYTES]`. -/
abbrev PacketBytes := Vector UInt8 88

def CMD_END_OF_TRACE : UInt64 := 0

def CMD_INSTRUCTION : UInt64 := 1

/-! ## Packets -/

structure V1Packet where
  order : UInt64
  pcRdata : UInt64
  pcWdata : UInt64
  insn : UInt64
  rdWdata : UInt64
  memAddr : UInt64
  memRdata : UInt64
  memWdata : UInt64
  memRmask : UInt8
  memWmask : UInt8
  rdAddr : UInt8
  trap : Bool
  halt : Bool
  intr : Bool
deriving DecidableEq, Repr

namespace V1Packet

/-- `u64::from_le_bytes` of the eight bytes at `offset`. -/
def word (bytes : PacketBytes) (offset : Nat) : UInt64 :=
  UInt64.ofNat (Nat.ofDigits 256 (((bytes.toList.drop offset).take 8).map UInt8.toNat))

def parse (bytes : PacketBytes) : V1Packet where
  order := word bytes 0
  pcRdata := word bytes 8
  pcWdata := word bytes 16
  insn := word bytes 24
  -- 32: rs1_rdata, 40: rs2_rdata
  rdWdata := word bytes 48
  memAddr := word bytes 56
  memRdata := word bytes 64
  memWdata := word bytes 72
  memRmask := bytes[80]
  memWmask := bytes[81]
  -- 82: rs1_addr, 83: rs2_addr
  rdAddr := bytes[84]
  trap := bytes[85] ≠ 0
  halt := bytes[86] ≠ 0
  intr := bytes[87] ≠ 0

/-- The commit event of a packet, reduced to what both sides can observe; the
shadow file records the reported write. -/
def intoEvent (packet : V1Packet) (shadow : RegisterShadow) : RegisterShadow × CommitEvent :=
  let (shadow, write) := shadow.observe packet.rdAddr packet.rdWdata
  let event : CommitEvent :=
    { order := packet.order
      instruction := normalizeInstructionWidth packet.insn.toUInt32
      pcBefore := packet.pcRdata
      pcAfter := packet.pcWdata
      registerWrites := write.toList
      memory :=
        if packet.memRmask = 0 ∧ packet.memWmask = 0 then []
        else [{ address := packet.memAddr
                readMask := packet.memRmask.toUInt32
                writeMask := packet.memWmask.toUInt32
                readData := packet.memRdata
                writeData := packet.memWdata }]
      trap := packet.trap
      halt := packet.halt }
  (shadow, event.normalize)

def debug (packet : V1Packet) : String :=
  s!"V1Packet \x7b order: {packet.order}, pc_rdata: {packet.pcRdata}, " ++
  s!"pc_wdata: {packet.pcWdata}, insn: {packet.insn}, rd_wdata: {packet.rdWdata}, " ++
  s!"mem_addr: {packet.memAddr}, mem_rdata: {packet.memRdata}, " ++
  s!"mem_wdata: {packet.memWdata}, mem_rmask: {packet.memRmask}, " ++
  s!"mem_wmask: {packet.memWmask}, rd_addr: {packet.rdAddr}, trap: {packet.trap}, " ++
  s!"halt: {packet.halt}, intr: {packet.intr} \x7d"

end V1Packet

/-! ## The session -/

/-- The socket of one session: the bytes the emulator sends before it closes the
connection or the deadline passes, the words written so far, and the faults of
the host. -/
structure TcpStream where
  incoming : List UInt8
  sent : List UInt64
  writeFault : Nat → Option String
  flushFault : Nat → Option String
  readFault : String

structure DiiSession where
  stream : TcpStream
  rawPackets : List PacketBytes

/-- Refuse a session that did not begin at the architectural reset state. -/
def startedFromReset (first : V1Packet) : Except Error Unit :=
  ensure (first.order = 0 && first.pcRdata = INJECTION_ENTRY)
    ("the first RVFI-DII packet is not from a reset emulator: " ++
      s!"rvfi_order {first.order} at pc {alternateHex first.pcRdata.toNat}, " ++
      s!"expected order 0 at {alternateHex INJECTION_ENTRY.toNat}")

namespace DiiSession

def send (session : DiiSession) (command : UInt64) (instruction : UInt32) :
    Except Error DiiSession :=
  let word := (command <<< 48) ||| instruction.toUInt64
  let count := session.stream.sent.length
  match session.stream.writeFault count with
  | some fault => .error ((Error.msg fault).context "failed to write an RVFI-DII command word")
  | none =>
      match session.stream.flushFault count with
      | some fault =>
          .error ((Error.msg fault).context "failed to flush an RVFI-DII command word")
      | none =>
          .ok { session with stream :=
            { session.stream with sent := session.stream.sent ++ [word] } }

/-- `read_exact` of one packet, kept among the raw packets. -/
def receive (session : DiiSession) : Except Error (V1Packet × DiiSession) :=
  if h : 88 ≤ session.stream.incoming.length then
    let bytes : PacketBytes := ⟨(session.stream.incoming.take 88).toArray, by simpa using h⟩
    .ok (V1Packet.parse bytes,
      { stream := { session.stream with incoming := session.stream.incoming.drop 88 }
        rawPackets := session.rawPackets ++ [bytes] })
  else
    .error ((Error.msg session.stream.readFault).context
      "failed to read a full v1 execution packet")

structure DriveState where
  session : DiiSession
  shadow : RegisterShadow
  events : List CommitEvent

/-- One pass of the loop of `drive`. -/
def driveStep (index : Nat) (bits : UInt32) (state : DriveState) :
    Except Error (Flow (ExecutionTrace × DiiSession) DriveState) :=
  match state.session.send CMD_INSTRUCTION bits with
  | .error error => .error (error.context s!"failed to inject instruction {index}")
  | .ok session =>
      match session.receive with
      | .error error =>
          .error (error.context s!"no execution packet for instruction {index}")
      | .ok (packet, session) =>
          match if index = 0 then startedFromReset packet else .ok () with
          | .error error => .error error
          | .ok () =>
              let (shadow, event) := packet.intoEvent state.shadow
              let events := state.events ++ [event]
              if packet.halt then .ok (.ret (⟨events, .completed none⟩, session))
              else .ok (.next ⟨session, shadow, events⟩)

def initialState (session : DiiSession) : DriveState :=
  ⟨{ session with rawPackets := [] }, RegisterShadow.zeroed, []⟩

/-- The command that ends the trace and the packet that answers it. -/
def endOfTrace (state : DriveState) : Except Error (ExecutionTrace × DiiSession) :=
  match state.session.send CMD_END_OF_TRACE 0 with
  | .error error => .error (error.context "failed to end the RVFI-DII trace")
  | .ok session =>
      match session.receive with
      | .error error => .error (error.context "no packet after the end-of-trace command")
      | .ok (finalPacket, session) =>
          if ¬finalPacket.halt then
            .error (.msg ("the end-of-trace packet did not report rvfi_halt: " ++
              finalPacket.debug))
          else .ok (⟨state.events, .injectionComplete⟩, session)

def drive (session : DiiSession) (program : List UInt32) :
    Except Error (ExecutionTrace × DiiSession) :=
  match enumerateLoop driveStep 0 program session.initialState with
  | .error error => .error error
  | .ok (.ret result) => .ok result
  | .ok (.next state) => endOfTrace state

end DiiSession

/-! ## The whole run -/

structure DiiConfig where
  sailBin : String
  sailConfig : String
deriving DecidableEq, Repr

structure DiiOutcome where
  trace : ExecutionTrace
  rawPackets : List PacketBytes

structure ExitStatus where
  success : Bool
  display : String
deriving DecidableEq, Repr

/-- What the host does during one run: which files exist, how the session
starts, what the emulator prints and how it exits. -/
structure SailHost where
  isFile : String → Bool
  start : Except Error TcpStream
  stdout : String
  stderr : String
  status : Except Error ExitStatus

/-- Fold the diagnostics of the emulator into the result of the session. -/
def shutdown (host : SailHost) (result : Except Error (ExecutionTrace × DiiSession)) :
    Except Error DiiOutcome :=
  let pipes := s!"stdout: {host.stdout}; stderr: {host.stderr}"
  match result, context "failed to reap the Sail emulator" host.status with
  | .ok (trace, session), .ok status =>
      if status.success then .ok ⟨trace, session.rawPackets⟩
      else .error (.msg (s!"the Sail emulator exited {status.display} after producing a trace; " ++
        pipes))
  | .ok _, .error error => .error error
  | .error error, .ok status =>
      .error (error.context (s!"Sail emulator exited {status.display}; " ++ pipes))
  | .error error, .error _ =>
      .error (error.context ("Sail emulator could not be reaped; " ++ pipes))

def runProgram (host : SailHost) (program : List UInt32) (config : DiiConfig) :
    Except Error DiiOutcome :=
  if program.isEmpty then
    .error (.msg "an injected program must contain at least one instruction")
  else
    match validateProgram program with
    | .error error => .error (.msg error.display)
    | .ok () =>
        if ¬host.isFile config.sailBin then
          .error (.msg s!"Sail emulator not found: {config.sailBin} (run `make sail-config`)")
        else if ¬host.isFile config.sailConfig then
          .error (.msg (s!"Materialized Sail config not found: {config.sailConfig} " ++
            "(run `make sail-config`)"))
        else
          match host.start with
          | .error error => .error error
          | .ok stream => shutdown host (DiiSession.drive ⟨stream, []⟩ program)

end CkbSail.SailRunner
