import CkbSail.SailRunner.Proofs.Dii

/-!
# The client over any byte stream

A session whose writes succeed is determined by the bytes that arrive.  The
state after `k` passes is the one `consumed` describes for the first `k`
packets, so the run ends well exactly on the streams that `Injects` and `Halts`
describe.
-/

namespace CkbSail.SailRunner

open CkbSail.Core RustStd ProofSupport

namespace DiiSession

/-- Writing and flushing a command word succeeds. -/
structure Writes (session : DiiSession) : Prop where
  write : ∀ count, session.stream.writeFault count = none
  flush : ∀ count, session.stream.flushFault count = none

/-- The word that injects an instruction. -/
def instructionWord (bits : UInt32) : UInt64 := (CMD_INSTRUCTION <<< 48) ||| bits.toUInt64

/-- The word that ends the trace. -/
def endOfTraceWord : UInt64 := (CMD_END_OF_TRACE <<< 48) ||| (0 : UInt32).toUInt64

/-- The session after a packet was cut off the stream and one word was written. -/
def after (session : DiiSession) (word : UInt64) (bytes : PacketBytes) (rest : List UInt8) :
    DiiSession :=
  { stream := { session.stream with incoming := rest, sent := session.stream.sent ++ [word] }
    rawPackets := session.rawPackets ++ [bytes] }

/-- With writes that succeed, an answer is the next packet of the stream. -/
theorem answered_iff {session session' : DiiSession} (hwrites : session.Writes)
    {command : UInt64} {instruction : UInt32} {packet : V1Packet} :
    Answered session command instruction packet session' ↔
      ∃ bytes rest, session.stream.incoming = bytes.toList ++ rest ∧
        packet = V1Packet.parse bytes ∧
        session' = session.after ((command <<< 48) ||| instruction.toUInt64) bytes rest := by
  have hsend := send_of_no_fault hwrites.write hwrites.flush command instruction
  constructor
  · intro h
    obtain ⟨bytes, rfl, -, hincoming⟩ := h.received
    obtain ⟨sent, hsent, hreceive⟩ := h
    rw [hsend] at hsent
    obtain rfl := Except.ok.inj hsent
    have hread := hreceive.symm.trans (receive_of_incoming hincoming)
    exact ⟨bytes, _, hincoming, rfl, (Prod.mk.inj (Except.ok.inj hread)).2⟩
  · rintro ⟨bytes, rest, hincoming, rfl, rfl⟩
    exact ⟨_, hsend, receive_of_incoming hincoming⟩

/-- A pass returns exactly on a packet with `rvfi_halt`, whose event it keeps. -/
theorem driveStep_ret_iff {index : Nat} {bits : UInt32} {s : DriveState}
    {result : ExecutionTrace × DiiSession} :
    driveStep index bits s = .ok (.ret result) ↔
      ∃ packet session', Answered s.session CMD_INSTRUCTION bits packet session' ∧
        (index = 0 → startedFromReset packet = .ok ()) ∧ packet.halt = true ∧
        result = (⟨s.events ++ [(packet.intoEvent s.shadow).2], .completed none⟩, session') := by
  constructor
  · intro h
    unfold driveStep at h
    rcases hsend : s.session.send CMD_INSTRUCTION bits with e | sent
    · simp [hsend] at h
    rcases hreceive : sent.receive with e | ⟨packet, session⟩
    · simp [hsend, hreceive] at h
    rcases hreset : (if index = 0 then startedFromReset packet else .ok ()) with e | _
    · simp [hsend, hreceive, hreset] at h
    cases hhalt : packet.halt with
    | true =>
        simp only [hsend, hreceive, hreset, hhalt, if_true, Except.ok.injEq, Flow.ret.injEq] at h
        refine ⟨packet, session, ⟨sent, hsend, hreceive⟩, ?_, hhalt, h.symm⟩
        intro hzero
        simpa [hzero] using hreset
    | false => simp [hsend, hreceive, hreset, hhalt] at h
  · rintro ⟨packet, session', ⟨sent, hsend, hreceive⟩, hreset, hhalt, rfl⟩
    have hcheck : (if index = 0 then startedFromReset packet else .ok ()) = .ok () := by
      split_ifs with hzero
      · exact hreset hzero
      · rfl
    simp [driveStep, hsend, hreceive, hcheck, hhalt]

/-! ## The state after some passes -/

/-- The reset check on a first packet. -/
def FromReset (bytes : PacketBytes) : Prop :=
  (V1Packet.parse bytes).order = 0 ∧ (V1Packet.parse bytes).pcRdata = INJECTION_ENTRY

/-- Packets that keep the loop of `drive` going. -/
structure KeepsGoing (packets : List PacketBytes) : Prop where
  clear : ∀ bytes ∈ packets, (V1Packet.parse bytes).halt = false
  reset : ∀ bytes, packets.head? = some bytes → FromReset bytes

/-- The state of the loop once the given packets were consumed. -/
def consumed (session : DiiSession) (program : List UInt32) (packets : List PacketBytes)
    (rest : List UInt8) : DriveState :=
  let decoded := V1Packet.decode RegisterShadow.zeroed packets
  { session :=
      { stream := { session.stream with
          incoming := rest
          sent := session.stream.sent ++ (program.take packets.length).map instructionWord }
        rawPackets := packets }
    shadow := decoded.1
    events := decoded.2 }

variable {session : DiiSession} {program : List UInt32}

theorem Writes.consumed (hwrites : session.Writes) (packets : List PacketBytes)
    (rest : List UInt8) : (session.consumed program packets rest).session.Writes :=
  ⟨hwrites.write, hwrites.flush⟩

/-- The packet at the head of the rest answers the next command word. -/
theorem answered_consumed (hwrites : session.Writes) (program : List UInt32)
    (packets : List PacketBytes) (bytes : PacketBytes) (rest : List UInt8) (command : UInt64)
    (instruction : UInt32) :
    let before := (session.consumed program packets (bytes.toList ++ rest)).session
    Answered before command instruction (V1Packet.parse bytes)
      (before.after ((command <<< 48) ||| instruction.toUInt64) bytes rest) :=
  (answered_iff (hwrites.consumed packets _)).2 ⟨bytes, rest, rfl, rfl, rfl⟩

theorem consumed_snoc {packets : List PacketBytes} (bytes : PacketBytes) (rest rest' : List UInt8)
    (hk : packets.length < program.length) :
    session.consumed program (packets ++ [bytes]) rest' =
      let before := session.consumed program packets rest
      let decoded := (V1Packet.parse bytes).intoEvent before.shadow
      ⟨before.session.after (instructionWord program[packets.length]) bytes rest', decoded.1,
        before.events ++ [decoded.2]⟩ := by
  have htake : program.take (packets ++ [bytes]).length =
      program.take packets.length ++ [program[packets.length]] := by
    rw [List.length_append, List.length_singleton, List.take_succ_eq_append_getElem hk]
  simp only [consumed, htake, V1Packet.decode_append, List.map_append, ← List.append_assoc]
  rfl

theorem KeepsGoing.snoc_iff {packets : List PacketBytes} {bytes : PacketBytes} :
    KeepsGoing (packets ++ [bytes]) ↔
      KeepsGoing packets ∧ (V1Packet.parse bytes).halt = false ∧
        (packets.length = 0 → FromReset bytes) := by
  constructor
  · intro h
    refine ⟨⟨fun b hb => h.clear b (List.mem_append_left _ hb), fun b hb => h.reset b ?_⟩,
      h.clear bytes (by simp), fun hnil => h.reset bytes ?_⟩
    · rw [List.head?_append, hb]
      rfl
    · rw [List.length_eq_zero_iff.1 hnil]
      rfl
  · rintro ⟨h, hclear, hreset⟩
    constructor
    · intro b hb
      rcases List.mem_append.1 hb with hb | hb
      · exact h.clear b hb
      · rwa [List.mem_singleton.1 hb]
    · intro b hb
      cases packets with
      | nil =>
          obtain rfl : bytes = b := Option.some.inj hb
          exact hreset rfl
      | cons first packets => exact h.reset b hb

/-- The loop has gone `k` times exactly on a stream that begins with `k` packets
that keep it going. -/
theorem stateAfter_iff (hwrites : session.Writes) {k : Nat} {state : DriveState} :
    StateAfter session program k state ↔
      k ≤ program.length ∧ ∃ packets rest, packets.length = k ∧ KeepsGoing packets ∧
        session.stream.incoming = packets.flatMap Vector.toList ++ rest ∧
        state = session.consumed program packets rest := by
  induction k generalizing state with
  | zero =>
      constructor
      · intro h
        obtain rfl := h.eq_init
        refine ⟨Nat.zero_le _, [], session.stream.incoming, rfl, ⟨by simp, by simp⟩, rfl, ?_⟩
        simp [initialState, consumed, V1Packet.decode]
      · rintro ⟨-, packets, rest, hlength, -, hincoming, rfl⟩
        obtain rfl := List.length_eq_zero_iff.1 hlength
        rw [List.flatMap_nil, List.nil_append] at hincoming
        subst hincoming
        have hstart : session.consumed program [] session.stream.incoming =
            session.initialState := by
          simp [initialState, consumed, V1Packet.decode]
        rw [hstart]
        exact after_zero _ _
  | succ k ih =>
      constructor
      · intro h
        obtain ⟨hk, s, hs, hbody⟩ := after_succ_iff.1 h
        obtain ⟨-, packets, rest, rfl, hgoing, hincoming, rfl⟩ := ih.1 hs
        obtain ⟨packet, hanswered, hreset, hhalt, hshadow, hevents⟩ := driveStep_next_iff.1 hbody
        obtain ⟨bytes, rest', hrest, rfl, hsession⟩ :=
          (answered_iff (hwrites.consumed packets rest)).1 hanswered
        refine ⟨hk, packets ++ [bytes], rest', by simp, ?_, ?_, ?_⟩
        · exact KeepsGoing.snoc_iff.2 ⟨hgoing, hhalt, fun h => startedFromReset_eq_ok.1 (hreset h)⟩
        · have hrest : rest = bytes.toList ++ rest' := hrest
          rw [hincoming, hrest]
          simp
        · rw [consumed_snoc bytes rest rest' hk]
          obtain ⟨session', shadow, events⟩ := state
          simp only at hsession hshadow hevents
          rw [hsession, hshadow, hevents]
          rfl
      · rintro ⟨hk, packets', rest', hlength, hgoing, hincoming, rfl⟩
        obtain ⟨packets, bytes, rfl⟩ :=
          (List.eq_nil_or_concat' packets').resolve_left (by rintro rfl; simp at hlength)
        obtain rfl : packets.length = k := by simpa using hlength
        obtain ⟨hgoing, hhalt, hreset⟩ := KeepsGoing.snoc_iff.1 hgoing
        rw [List.flatMap_append, List.flatMap_singleton, List.append_assoc] at hincoming
        refine after_succ_iff.2 ⟨hk, session.consumed program packets (bytes.toList ++ rest'),
          ih.2 ⟨by omega, packets, _, rfl, hgoing, hincoming, rfl⟩, ?_⟩
        rw [consumed_snoc bytes (bytes.toList ++ rest') rest' hk]
        refine driveStep_next_iff.2 ⟨V1Packet.parse bytes,
          answered_consumed hwrites program packets bytes rest' CMD_INSTRUCTION _,
          fun h => startedFromReset_eq_ok.2 (hreset h), hhalt, rfl, rfl⟩

/-! ## The end of the run -/

/-- A trace comes from the loop and the end-of-trace command, or from a pass that
returned. -/
theorem drive_eq_ok_iff {result : ExecutionTrace × DiiSession} :
    session.drive program = .ok result ↔
      (∃ state, StateAfter session program program.length state ∧ endOfTrace state = .ok result) ∨
        ∃ (k : Nat) (hk : k < program.length) (state : DriveState),
          StateAfter session program k state ∧
            driveStep k program[k] state = .ok (.ret result) := by
  constructor
  · intro h
    unfold drive at h
    rcases hloop : enumerateLoop driveStep 0 program session.initialState with e | flow
    · simp [hloop] at h
    · cases flow with
      | ret early =>
          obtain rfl : early = result := by simpa [hloop] using h
          exact Or.inr (enumerateLoop_ret_iff.1 hloop)
      | next state =>
          exact Or.inl ⟨state, enumerateLoop_next_iff.1 hloop, by simpa [hloop] using h⟩
  · rintro (⟨state, hstate, hend⟩ | hpass)
    · rw [drive_of_stateAfter hstate, hend]
    · simp [drive, enumerateLoop_ret_iff.2 hpass]

/-- The stream begins with one packet for each word, all without `rvfi_halt` and
the first from a reset emulator, and a packet with `rvfi_halt`. -/
structure Injects (session : DiiSession) (program : List UInt32) (packets : List PacketBytes)
    (final : PacketBytes) : Prop where
  length : packets.length = program.length
  going : KeepsGoing packets
  halts : (V1Packet.parse final).halt = true
  arrives : (packets ++ [final]).flatMap Vector.toList <+: session.stream.incoming

/-- The stream begins with packets for at most all words of which just the last
has `rvfi_halt`, the first from a reset emulator. -/
structure Halts (session : DiiSession) (program : List UInt32) (packets : List PacketBytes)
    (last : PacketBytes) : Prop where
  length : packets.length + 1 ≤ program.length
  clear : ∀ bytes ∈ packets, (V1Packet.parse bytes).halt = false
  halts : (V1Packet.parse last).halt = true
  reset : ∀ bytes, (packets ++ [last]).head? = some bytes → FromReset bytes
  arrives : (packets ++ [last]).flatMap Vector.toList <+: session.stream.incoming

/-- The result of a run whose words were all injected. -/
structure Injected (session : DiiSession) (program : List UInt32) (packets : List PacketBytes)
    (final : PacketBytes) (result : ExecutionTrace × DiiSession) : Prop where
  trace : result.1 =
    ⟨(V1Packet.decode RegisterShadow.zeroed packets).2, .injectionComplete⟩
  rawPackets : result.2.rawPackets = packets ++ [final]
  sent : result.2.stream.sent =
    session.stream.sent ++ program.map instructionWord ++ [endOfTraceWord]

/-- The result of a run that a packet with `rvfi_halt` ended. -/
structure Halted (session : DiiSession) (program : List UInt32) (packets : List PacketBytes)
    (last : PacketBytes) (result : ExecutionTrace × DiiSession) : Prop where
  trace : result.1 =
    ⟨(V1Packet.decode RegisterShadow.zeroed (packets ++ [last])).2, .completed none⟩
  rawPackets : result.2.rawPackets = packets ++ [last]
  sent : result.2.stream.sent =
    session.stream.sent ++ (program.take (packets ++ [last]).length).map instructionWord

theorem Injects.drive (hwrites : session.Writes) {packets : List PacketBytes}
    {final : PacketBytes} (h : Injects session program packets final) :
    ∃ result, session.drive program = .ok result ∧
      Injected session program packets final result := by
  obtain ⟨rest, hincoming⟩ := h.arrives
  rw [List.flatMap_append, List.flatMap_singleton, List.append_assoc] at hincoming
  have hstate : StateAfter session program program.length
      (session.consumed program packets (final.toList ++ rest)) :=
    (stateAfter_iff hwrites).2 ⟨le_rfl, packets, _, h.length, h.going, hincoming.symm, rfl⟩
  have hanswered := answered_consumed hwrites program packets final rest CMD_END_OF_TRACE 0
  refine ⟨(_, _), drive_eq_ok_iff.2 (Or.inl ⟨_, hstate,
    endOfTrace_ok_iff.2 ⟨rfl, _, hanswered, h.halts⟩⟩), rfl, rfl, ?_⟩
  simp only [after, consumed, h.length, List.take_length]
  rfl

theorem Halts.drive (hwrites : session.Writes) {packets : List PacketBytes}
    {last : PacketBytes} (h : Halts session program packets last) :
    ∃ result, session.drive program = .ok result ∧
      Halted session program packets last result := by
  obtain ⟨rest, hincoming⟩ := h.arrives
  rw [List.flatMap_append, List.flatMap_singleton, List.append_assoc] at hincoming
  have hk : packets.length < program.length := h.length
  have hgoing : KeepsGoing packets := by
    refine ⟨h.clear, fun bytes hbytes => h.reset bytes ?_⟩
    rw [List.head?_append, hbytes]
    rfl
  have hreset : packets.length = 0 → FromReset last := by
    intro hnil
    rw [List.length_eq_zero_iff.1 hnil] at h
    exact h.reset last rfl
  have hstate : StateAfter session program packets.length
      (session.consumed program packets (last.toList ++ rest)) :=
    (stateAfter_iff hwrites).2 ⟨hk.le, packets, _, rfl, hgoing, hincoming.symm, rfl⟩
  have hanswered := answered_consumed hwrites program packets last rest CMD_INSTRUCTION
    program[packets.length]
  have hsnoc := @consumed_snoc session program packets last (last.toList ++ rest) rest hk
  refine ⟨(_, _), drive_eq_ok_iff.2 (Or.inr ⟨_, hk, _, hstate, driveStep_ret_iff.2
    ⟨_, _, hanswered, fun hzero => startedFromReset_eq_ok.2 (hreset hzero), h.halts, rfl⟩⟩),
    ?_, rfl, ?_⟩
  · rw [ExecutionTrace.mk.injEq]
    exact ⟨(congrArg DriveState.events hsnoc).symm, rfl⟩
  · exact (congrArg (fun state => state.session.stream.sent) hsnoc).symm

/-- A run ends with a trace only on the two kinds of streams. -/
theorem injects_or_halts (hwrites : session.Writes) {result : ExecutionTrace × DiiSession}
    (h : session.drive program = .ok result) :
    (∃ packets final, Injects session program packets final) ∨
      ∃ packets last, Halts session program packets last := by
  rcases drive_eq_ok_iff.1 h with ⟨state, hstate, hend⟩ | ⟨k, hk, state, hstate, hpass⟩
  · left
    obtain ⟨-, packets, rest, hlength, hgoing, hincoming, rfl⟩ := (stateAfter_iff hwrites).1 hstate
    obtain ⟨trace, session'⟩ := result
    obtain ⟨-, packet, hanswered, hhalt⟩ := endOfTrace_ok_iff.1 hend
    obtain ⟨final, rest', hrest, rfl, -⟩ :=
      (answered_iff (hwrites.consumed packets rest)).1 hanswered
    refine ⟨packets, final, hlength, hgoing, hhalt, rest', ?_⟩
    have hrest : rest = final.toList ++ rest' := hrest
    rw [hincoming, hrest]
    simp
  · right
    obtain ⟨-, packets, rest, rfl, hgoing, hincoming, rfl⟩ := (stateAfter_iff hwrites).1 hstate
    obtain ⟨packet, session', hanswered, hreset, hhalt, -⟩ := driveStep_ret_iff.1 hpass
    obtain ⟨last, rest', hrest, rfl, -⟩ :=
      (answered_iff (hwrites.consumed packets rest)).1 hanswered
    refine ⟨packets, last, hk, hgoing.clear, hhalt, ?_, rest', ?_⟩
    · intro bytes hbytes
      cases packets with
      | nil =>
          obtain rfl : last = bytes := Option.some.inj hbytes
          exact startedFromReset_eq_ok.1 (hreset rfl)
      | cons first packets => exact hgoing.reset bytes hbytes
    · have hrest : rest = last.toList ++ rest' := hrest
      rw [hincoming, hrest]
      simp

/-- The client is exact on every byte stream: which streams give a trace, which
trace, and what was consumed and written for it. -/
theorem drive_exact (hwrites : session.Writes) :
    ((∃ trace session', session.drive program = .ok (trace, session') ∧
        trace.traceEnd = .injectionComplete) ↔
      ∃ packets final, Injects session program packets final) ∧
    ((∃ trace session', session.drive program = .ok (trace, session') ∧
        trace.traceEnd = .completed none) ↔
      ∃ packets last, Halts session program packets last) ∧
    ((∃ error, session.drive program = .error error) ↔
      (¬∃ packets final, Injects session program packets final) ∧
        ¬∃ packets last, Halts session program packets last) ∧
    ∀ result, session.drive program = .ok result →
      (∃ packets final, Injects session program packets final ∧
        Injected session program packets final result) ∨
      ∃ packets last, Halts session program packets last ∧
        Halted session program packets last result := by
  have hresult : ∀ result, session.drive program = .ok result →
      (∃ packets final, Injects session program packets final ∧
        Injected session program packets final result) ∨
      ∃ packets last, Halts session program packets last ∧
        Halted session program packets last result := by
    intro result h
    rcases injects_or_halts hwrites h with ⟨packets, final, hinjects⟩ | ⟨packets, last, hhalts⟩
    · obtain ⟨result', h', hinjected⟩ := hinjects.drive hwrites
      obtain rfl := Except.ok.inj (h.symm.trans h')
      exact Or.inl ⟨packets, final, hinjects, hinjected⟩
    · obtain ⟨result', h', hhalted⟩ := hhalts.drive hwrites
      obtain rfl := Except.ok.inj (h.symm.trans h')
      exact Or.inr ⟨packets, last, hhalts, hhalted⟩
  refine ⟨⟨?_, ?_⟩, ⟨?_, ?_⟩, ⟨?_, ?_⟩, hresult⟩
  · rintro ⟨trace, session', h, hend⟩
    rcases hresult _ h with ⟨packets, final, hinjects, -⟩ | ⟨packets, last, -, hhalted⟩
    · exact ⟨packets, final, hinjects⟩
    · have htrace : trace = _ := hhalted.trace
      rw [htrace] at hend
      cases hend
  · rintro ⟨packets, final, hinjects⟩
    obtain ⟨⟨trace, session'⟩, h, hinjected⟩ := hinjects.drive hwrites
    exact ⟨trace, session', h, congrArg ExecutionTrace.traceEnd hinjected.trace⟩
  · rintro ⟨trace, session', h, hend⟩
    rcases hresult _ h with ⟨packets, final, -, hinjected⟩ | ⟨packets, last, hhalts, -⟩
    · have htrace : trace = _ := hinjected.trace
      rw [htrace] at hend
      cases hend
    · exact ⟨packets, last, hhalts⟩
  · rintro ⟨packets, last, hhalts⟩
    obtain ⟨⟨trace, session'⟩, h, hhalted⟩ := hhalts.drive hwrites
    exact ⟨trace, session', h, congrArg ExecutionTrace.traceEnd hhalted.trace⟩
  · rintro ⟨error, h⟩
    constructor
    · rintro ⟨packets, final, hinjects⟩
      obtain ⟨result, h', -⟩ := hinjects.drive hwrites
      cases h.symm.trans h'
    · rintro ⟨packets, last, hhalts⟩
      obtain ⟨result, h', -⟩ := hhalts.drive hwrites
      cases h.symm.trans h'
  · rintro ⟨hnone, hnone'⟩
    cases h : session.drive program with
    | error error => exact ⟨error, rfl⟩
    | ok result => exact absurd (injects_or_halts hwrites h) (not_or.2 ⟨hnone, hnone'⟩)

/-- `addi x1, x1, 5` twice from reset, and the answer to the end of the trace. -/
def twoAdditions : List PacketBytes :=
  [packetBytes 0 INJECTION_ENTRY 0x80000004 0x00508093 5 1 0,
    packetBytes 1 0x80000004 0x80000008 0x00508093 10 1 0]

def traceEndPacket : PacketBytes := packetBytes 0 0 0 0 0 0 1

def twoAdditionsSession : DiiSession :=
  ⟨⟨(twoAdditions ++ [traceEndPacket]).flatMap Vector.toList, [], fun _ => none, fun _ => none,
    "end of file"⟩, []⟩

theorem drive_exact_twoAdditions : ∃ trace session',
    twoAdditionsSession.drive [0x00508093, 0x00508093] = .ok (trace, session') ∧
      trace.traceEnd = .injectionComplete ∧ trace.events.length = 2 ∧
      session'.rawPackets.length = 3 := by
  have hwrites : twoAdditionsSession.Writes := ⟨fun _ => rfl, fun _ => rfl⟩
  have hreset : FromReset (packetBytes 0 INJECTION_ENTRY 0x80000004 0x00508093 5 1 0) := by
    unfold FromReset
    decide +kernel
  have hinjects : Injects twoAdditionsSession [0x00508093, 0x00508093] twoAdditions
      traceEndPacket := by
    refine ⟨rfl, ⟨?_, ?_⟩, by decide +kernel, List.prefix_rfl⟩
    · simp only [twoAdditions, List.mem_cons, List.not_mem_nil, or_false]
      rintro bytes (rfl | rfl) <;> decide +kernel
    · intro bytes hbytes
      obtain rfl := Option.some.inj hbytes
      exact hreset
  obtain ⟨hcomplete, -, -, hresult⟩ := @drive_exact twoAdditionsSession
    [0x00508093, 0x00508093] hwrites
  obtain ⟨trace, session', hdrive, hend⟩ := hcomplete.2 ⟨_, _, hinjects⟩
  rcases hresult _ hdrive with ⟨packets, final, hpackets, hinjected⟩ | ⟨packets, last, -, hhalted⟩
  · have hlength : packets.length = 2 := hpackets.length
    have htrace : trace = _ := hinjected.trace
    have hraw : session'.rawPackets = packets ++ [final] := hinjected.rawPackets
    refine ⟨trace, session', hdrive, hend, ?_, ?_⟩
    · rw [htrace, V1Packet.length_decode, hlength]
    · rw [hraw, List.length_append, hlength, List.length_singleton]
  · have htrace : trace = _ := hhalted.trace
    rw [htrace] at hend
    cases hend

end DiiSession

end CkbSail.SailRunner
