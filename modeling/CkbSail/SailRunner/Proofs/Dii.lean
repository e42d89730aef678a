import CkbSail.SailRunner.Dii

/-!
# Runs of the RVFI-DII client

`driveStep_next_iff` says once what a pass that goes on has done, and
`observed_of_stateAfter` what this gives for every event of a run.
-/

namespace CkbSail.SailRunner

open CkbSail.Core RustStd ProofSupport

/-! ## Events of packets -/

namespace V1Packet

/-- The memory accesses of a packet, before normalization. -/
def accesses (packet : V1Packet) : List MemoryAccess :=
  if packet.memRmask = 0 ∧ packet.memWmask = 0 then []
  else [⟨packet.memAddr, packet.memRmask.toUInt32, packet.memWmask.toUInt32, packet.memRdata,
    packet.memWdata⟩]

theorem toUInt32_ne_zero {mask : UInt8} : mask.toUInt32 ≠ 0 ↔ mask ≠ 0 := by
  rw [not_iff_not, ← UInt32.toNat_inj, ← UInt8.toNat_inj]
  simp

theorem accesses_masks (packet : V1Packet) :
    ∀ access ∈ packet.accesses, access.readMask ≠ 0 ∨ access.writeMask ≠ 0 := by
  unfold accesses
  split_ifs with h
  · simp
  · intro access hmem
    obtain rfl := List.mem_singleton.1 hmem
    rw [toUInt32_ne_zero, toUInt32_ne_zero]
    rwa [not_and_or] at h

theorem accesses_of_masks_zero {packet : V1Packet} (hr : packet.memRmask = 0)
    (hw : packet.memWmask = 0) : packet.accesses = [] := if_pos ⟨hr, hw⟩

/-- The event of a packet is already normal. -/
theorem intoEvent_eq (packet : V1Packet) (shadow : RegisterShadow) :
    packet.intoEvent shadow =
      ((shadow.observe packet.rdAddr packet.rdWdata).1,
        { order := packet.order
          instruction := normalizeInstructionWidth packet.insn.toUInt32
          pcBefore := packet.pcRdata
          pcAfter := packet.pcWdata
          registerWrites := (shadow.observe packet.rdAddr packet.rdWdata).2.toList
          memory := packet.accesses
          trap := packet.trap
          halt := packet.halt }) := by
  refine Prod.ext rfl ?_
  exact CommitEvent.normalize_eq_self
    (shadow.observe_index_ne_zero packet.rdAddr packet.rdWdata) packet.accesses_masks

/-- The event reports exactly the change of the shadow file. -/
theorem intoEvent_registerWrites (packet : V1Packet) (shadow : RegisterShadow) :
    (packet.intoEvent shadow).2.registerWrites =
      (RegisterObservers.delta architectural shadow.registers.file
        (packet.intoEvent shadow).1.registers.file).map toWrite := by
  rw [intoEvent_eq]
  exact shadow.observe_delta packet.rdAddr packet.rdWdata

end V1Packet

namespace V1Packet

/-- The decoder folded over a list of packets, the shadow file passed along. -/
def decode : RegisterShadow → List PacketBytes → RegisterShadow × List CommitEvent
  | shadow, [] => (shadow, [])
  | shadow, bytes :: packets =>
      let (shadow, event) := (parse bytes).intoEvent shadow
      let (shadow, events) := decode shadow packets
      (shadow, event :: events)

theorem length_decode (shadow : RegisterShadow) (packets : List PacketBytes) :
    (decode shadow packets).2.length = packets.length := by
  induction packets generalizing shadow with
  | nil => rfl
  | cons bytes packets ih => simp [decode, ih]

theorem decode_append (shadow : RegisterShadow) (left right : List PacketBytes) :
    decode shadow (left ++ right) =
      let (middle, before) := decode shadow left
      let (after, events) := decode middle right
      (after, before ++ events) := by
  induction left generalizing shadow with
  | nil => rfl
  | cons bytes left ih =>
      simp only [List.cons_append, decode, ih]

end V1Packet

/-! ## One pass -/

theorem startedFromReset_eq_ok {packet : V1Packet} :
    startedFromReset packet = .ok () ↔
      packet.order = 0 ∧ packet.pcRdata = INJECTION_ENTRY := by
  simp [startedFromReset]

namespace DiiSession

theorem send_of_no_fault {session : DiiSession} (hwrite : ∀ n, session.stream.writeFault n = none)
    (hflush : ∀ n, session.stream.flushFault n = none) (command : UInt64)
    (instruction : UInt32) :
    session.send command instruction =
      .ok { session with stream := { session.stream with
        sent := session.stream.sent ++ [(command <<< 48) ||| instruction.toUInt64] } } := by
  simp [send, hwrite, hflush]

/-- A full packet at the head of the incoming bytes is read. -/
theorem receive_of_incoming {session : DiiSession} {bytes : PacketBytes} {rest : List UInt8}
    (h : session.stream.incoming = bytes.toList ++ rest) :
    session.receive =
      .ok (V1Packet.parse bytes,
        { stream := { session.stream with incoming := rest }
          rawPackets := session.rawPackets ++ [bytes] }) := by
  have hlen : 88 ≤ session.stream.incoming.length := by simp [h]
  have htake : session.stream.incoming.take 88 = bytes.toList := by
    rw [h, List.take_append_of_le_length (by simp), List.take_of_length_le (by simp)]
  have hdrop : session.stream.incoming.drop 88 = rest := by
    rw [h, List.drop_append_of_le_length (by simp), List.drop_of_length_le (by simp)]
    rfl
  have hbytes : (⟨(session.stream.incoming.take 88).toArray, by simpa using hlen⟩ :
      PacketBytes) = bytes := by
    apply Vector.toArray_inj.1
    rw [Vector.toArray_mk, htake]
    exact Array.toArray_toList
  rw [receive, dif_pos hlen]
  simp only [hbytes, hdrop]

/-- One command word written and its packet read. -/
def Answered (session : DiiSession) (command : UInt64) (instruction : UInt32)
    (packet : V1Packet) (session' : DiiSession) : Prop :=
  ∃ sent, session.send command instruction = .ok sent ∧ sent.receive = .ok (packet, session')

/-- The packet of an answer is cut off the stream and kept among the raw packets. -/
theorem Answered.received {session session' : DiiSession} {command : UInt64}
    {instruction : UInt32} {packet : V1Packet}
    (h : Answered session command instruction packet session') :
    ∃ bytes, packet = V1Packet.parse bytes ∧
      session'.rawPackets = session.rawPackets ++ [bytes] ∧
      session.stream.incoming = bytes.toList ++ session'.stream.incoming := by
  obtain ⟨sent, hsend, hreceive⟩ := h
  have hkept : sent.rawPackets = session.rawPackets ∧
      sent.stream.incoming = session.stream.incoming := by
    unfold send at hsend
    cases hwrite : session.stream.writeFault session.stream.sent.length with
    | some fault => simp [hwrite] at hsend
    | none =>
        cases hflush : session.stream.flushFault session.stream.sent.length with
        | some fault => simp [hwrite, hflush] at hsend
        | none =>
            simp only [hwrite, hflush, Except.ok.injEq] at hsend
            rw [← hsend]
            exact ⟨rfl, rfl⟩
  unfold receive at hreceive
  split_ifs at hreceive
  obtain ⟨rfl, rfl⟩ := Prod.mk.inj (Except.ok.inj hreceive)
  refine ⟨_, rfl, by rw [hkept.1], ?_⟩
  rw [← hkept.2]
  exact (List.take_append_drop 88 sent.stream.incoming).symm

/-- The packet of an answer is kept among the raw packets. -/
theorem Answered.rawPackets {session session' : DiiSession} {command : UInt64}
    {instruction : UInt32} {packet : V1Packet}
    (h : Answered session command instruction packet session') :
    ∃ bytes, packet = V1Packet.parse bytes ∧
      session'.rawPackets = session.rawPackets ++ [bytes] := by
  obtain ⟨bytes, hpacket, hraw, -⟩ := h.received
  exact ⟨bytes, hpacket, hraw⟩

/-- A pass goes on exactly when a packet without `rvfi_halt` is read, the first
one from a reset emulator; it pushes the event of the packet. -/
theorem driveStep_next_iff {index : Nat} {bits : UInt32} {s t : DriveState} :
    driveStep index bits s = .ok (.next t) ↔
      ∃ packet, Answered s.session CMD_INSTRUCTION bits packet t.session ∧
        (index = 0 → startedFromReset packet = .ok ()) ∧ packet.halt = false ∧
        t.shadow = (packet.intoEvent s.shadow).1 ∧
        t.events = s.events ++ [(packet.intoEvent s.shadow).2] := by
  constructor
  · intro h
    unfold driveStep at h
    rcases hsend : s.session.send CMD_INSTRUCTION bits with e | sent
    · simp [hsend] at h
    rcases hreceive : sent.receive with e | ⟨packet, session⟩
    · simp [hsend, hreceive] at h
    rcases hreset : (if index = 0 then startedFromReset packet else .ok ()) with e | _
    · simp [hsend, hreceive, hreset] at h
    cases hhalt : packet.halt with
    | true => simp [hsend, hreceive, hreset, hhalt] at h
    | false =>
        simp only [hsend, hreceive, hreset, hhalt, Bool.false_eq_true, if_false,
          Except.ok.injEq, Flow.next.injEq] at h
        subst h
        refine ⟨packet, ⟨sent, hsend, hreceive⟩, ?_, hhalt, rfl, rfl⟩
        intro hzero
        simpa [hzero] using hreset
  · rintro ⟨packet, ⟨sent, hsend, hreceive⟩, hreset, hhalt, hshadow, hevents⟩
    have hcheck : (if index = 0 then startedFromReset packet else .ok ()) = .ok () := by
      split_ifs with hzero
      · exact hreset hzero
      · rfl
    obtain ⟨session, shadow, events⟩ := t
    simp only at hshadow hevents hreceive
    subst hshadow
    subst hevents
    simp [driveStep, hsend, hreceive, hcheck, hhalt]

theorem driveStep_pushes : Pushes driveStep DriveState.events := by
  intro index bits s t h
  obtain ⟨packet, _, _, _, _, hevents⟩ := driveStep_next_iff.1 h
  exact ⟨_, hevents⟩

/-- A trace a pass returns early ends with an exit without a code. -/
theorem driveStep_ret {index : Nat} {bits : UInt32} {s : DriveState}
    {result : ExecutionTrace × DiiSession} (h : driveStep index bits s = .ok (.ret result)) :
    result.1.traceEnd = .completed none := by
  unfold driveStep at h
  rcases hsend : s.session.send CMD_INSTRUCTION bits with e | sent
  · simp [hsend] at h
  rcases hreceive : sent.receive with e | ⟨packet, session⟩
  · simp [hsend, hreceive] at h
  rcases hreset : (if index = 0 then startedFromReset packet else .ok ()) with e | _
  · simp [hsend, hreceive, hreset] at h
  cases hhalt : packet.halt with
  | true =>
      simp only [hsend, hreceive, hreset, hhalt, if_true, Except.ok.injEq, Flow.ret.injEq] at h
      subst h
      rfl
  | false => simp [hsend, hreceive, hreset, hhalt] at h

/-! ## Whole runs -/

variable {session : DiiSession} {program : List UInt32}

/-- The state after the first `k` passes of a run. -/
abbrev StateAfter (session : DiiSession) (program : List UInt32) (k : Nat)
    (state : DriveState) : Prop :=
  After driveStep program session.initialState k state

/-- The end-of-trace command succeeds exactly when a halt packet answers it. -/
theorem endOfTrace_ok_iff {state : DriveState} {trace : ExecutionTrace}
    {session' : DiiSession} :
    endOfTrace state = .ok (trace, session') ↔
      trace = ⟨state.events, .injectionComplete⟩ ∧
        ∃ packet, Answered state.session CMD_END_OF_TRACE 0 packet session' ∧
          packet.halt = true := by
  unfold endOfTrace Answered
  constructor
  · intro h
    rcases hsend : state.session.send CMD_END_OF_TRACE 0 with e | sent
    · simp [hsend] at h
    rcases hreceive : sent.receive with e | ⟨packet, session⟩
    · simp [hsend, hreceive] at h
    cases hhalt : packet.halt with
    | true =>
        obtain ⟨rfl, rfl⟩ : _ = trace ∧ session = session' := by
          simpa [hsend, hreceive, hhalt] using h
        exact ⟨rfl, packet, ⟨sent, rfl, hreceive⟩, hhalt⟩
    | false => simp [hsend, hreceive, hhalt] at h
  · rintro ⟨rfl, packet, ⟨sent, hsend, hreceive⟩, hhalt⟩
    simp [hsend, hreceive, hhalt]

/-- The raw packets of a state, folded by the binary decoder from a zero shadow,
give its events and its shadow. -/
structure Decoded (k : Nat) (state : DriveState) : Prop where
  length : state.session.rawPackets.length = k
  running : ∀ bytes ∈ state.session.rawPackets, (V1Packet.parse bytes).halt = false
  events : V1Packet.decode RegisterShadow.zeroed state.session.rawPackets =
    (state.shadow, state.events)

theorem decoded_of_stateAfter {k : Nat} {state : DriveState}
    (h : StateAfter session program k state) : Decoded k state := by
  refine h.induct Decoded ⟨rfl, by simp [initialState], rfl⟩ ?_
  intro k hk s t hs hbody
  obtain ⟨packet, hanswered, _, hhalt, hshadow, hevents⟩ := driveStep_next_iff.1 hbody
  obtain ⟨bytes, rfl, hraw⟩ := hanswered.rawPackets
  refine ⟨by rw [hraw, List.length_append, hs.length]; rfl, ?_, ?_⟩
  · intro bytes' hmem
    rw [hraw, List.mem_append, List.mem_singleton] at hmem
    rcases hmem with hmem | rfl
    · exact hs.running bytes' hmem
    · exact hhalt
  · rw [hraw, V1Packet.decode_append, hs.events, hshadow, hevents]
    rfl

/-- A trace either covers all the words, or ends with an exit without a code. -/
theorem drive_ok {trace : ExecutionTrace} {session' : DiiSession}
    (h : session.drive program = .ok (trace, session')) :
    (∃ state, StateAfter session program program.length state ∧
        endOfTrace state = .ok (trace, session')) ∨
      trace.traceEnd = .completed none := by
  unfold drive at h
  rcases hloop : enumerateLoop driveStep 0 program session.initialState with e | flow
  · simp [hloop] at h
  · cases flow with
    | ret early =>
        obtain ⟨k, hk, s, hs, hret⟩ := enumerateLoop_ret_iff.1 hloop
        obtain rfl : early = (trace, session') := by simpa [hloop] using h
        exact Or.inr (driveStep_ret hret)
    | next state =>
        exact Or.inl ⟨state, enumerateLoop_next_iff.1 hloop, by simpa [hloop] using h⟩

theorem drive_of_stateAfter {state : DriveState}
    (h : StateAfter session program program.length state) :
    session.drive program = endOfTrace state := by
  simp [drive, enumerateLoop_next_iff.2 h]

/-- Packet `k` of a run that went on: the session states around it and its event. -/
structure Observed (session : DiiSession) (program : List UInt32) (events : List CommitEvent)
    (k : Nat) (s t : DriveState) (packet : V1Packet) (event : CommitEvent) : Prop where
  before : StateAfter session program k s
  after : StateAfter session program (k + 1) t
  recorded : events[k]? = some event
  notHalt : packet.halt = false
  reset : k = 0 → startedFromReset packet = .ok ()
  shadow : t.shadow = (packet.intoEvent s.shadow).1
  event_eq : event = (packet.intoEvent s.shadow).2

/-- Every packet of a run that read `n` of them. -/
theorem observed_of_stateAfter {n : Nat} {state : DriveState}
    (h : StateAfter session program n state) :
    state.events.length = n ∧
      ∀ k < n, ∃ s t packet event, Observed session program state.events k s t packet event := by
  obtain ⟨hlen, hsteps⟩ := h.pushed driveStep_pushes rfl
  refine ⟨hlen, fun k hk => ?_⟩
  obtain ⟨hitem, s, t, event, hs, ht, hbody, hb, hget⟩ := hsteps k hk
  obtain ⟨packet, _, hreset, hhalt, hshadow, hevents⟩ := driveStep_next_iff.1 hbody
  obtain rfl : (packet.intoEvent s.shadow).2 = event := by
    rw [hevents] at hb
    simpa using hb
  exact ⟨s, t, packet, _, hs, ht, hget, hhalt, hreset, hshadow, rfl⟩

theorem Observed.registerWrites {events : List CommitEvent} {k : Nat} {s t : DriveState}
    {packet : V1Packet} {event : CommitEvent}
    (h : Observed session program events k s t packet event) :
    event.registerWrites =
      (RegisterObservers.delta architectural s.shadow.registers.file
        t.shadow.registers.file).map toWrite := by
  rw [h.event_eq, h.shadow]
  exact packet.intoEvent_registerWrites s.shadow

/-- The `k`-th 88-byte window of the bytes that arrive. -/
def packetAt (session : DiiSession) (k : Nat) : Option PacketBytes :=
  let window := (session.stream.incoming.drop (88 * k)).take 88
  if h : window.length = 88 then some ⟨window.toArray, by simpa using h⟩ else none

theorem packetAt_of_incoming {packets : List PacketBytes} {rest : List UInt8} {k : Nat}
    {bytes : PacketBytes}
    (hincoming : session.stream.incoming = packets.flatMap Vector.toList ++ rest)
    (hbytes : packets[k]? = some bytes) : session.packetAt k = some bytes := by
  have hwindow : (session.stream.incoming.drop (88 * k)).take 88 = bytes.toList := by
    rw [hincoming]
    clear hincoming
    induction packets generalizing k with
    | nil => simp at hbytes
    | cons first packets ih =>
        cases k with
        | zero =>
            obtain rfl : first = bytes := by simpa using hbytes
            simp
        | succ k =>
            have hskip : 88 * (k + 1) = first.toList.length + 88 * k := by
              rw [Vector.length_toList]
              omega
            rw [List.flatMap_cons, List.append_assoc, hskip, ← List.drop_drop,
              List.drop_left]
            exact ih (by simpa using hbytes)
  have hlength : ((session.stream.incoming.drop (88 * k)).take 88).length = 88 := by
    rw [hwindow, Vector.length_toList]
  rw [packetAt, dif_pos hlength, Option.some.injEq]
  apply Vector.toArray_inj.1
  rw [Vector.toArray_mk, hwindow]
  exact Array.toArray_toList

/-- The raw packets of a state are the ones cut off the stream. -/
theorem incoming_of_stateAfter {k : Nat} {state : DriveState}
    (h : StateAfter session program k state) :
    session.stream.incoming =
      state.session.rawPackets.flatMap Vector.toList ++ state.session.stream.incoming := by
  refine h.induct (fun _ state => session.stream.incoming =
    state.session.rawPackets.flatMap Vector.toList ++ state.session.stream.incoming) rfl ?_
  intro k hk s t hs hbody
  obtain ⟨packet, hanswered, -⟩ := driveStep_next_iff.1 hbody
  obtain ⟨bytes, -, hraw, hincoming⟩ := hanswered.received
  rw [hs, hincoming, hraw]
  simp

theorem driveStep_pushes_rawPackets :
    Pushes driveStep fun state => state.session.rawPackets := by
  intro index bits s t h
  obtain ⟨packet, hanswered, -⟩ := driveStep_next_iff.1 h
  obtain ⟨bytes, -, hraw⟩ := hanswered.rawPackets
  exact ⟨bytes, hraw⟩

/-- Event `k` of a run is the event of packet `k` of the stream. -/
theorem packet_of_stateAfter {n : Nat} {state : DriveState}
    (h : StateAfter session program n state) {k : Nat} (hk : k < n) :
    ∃ shadow bytes, session.packetAt k = some bytes ∧
      state.session.rawPackets[k]? = some bytes ∧
      state.events[k]? = some ((V1Packet.parse bytes).intoEvent shadow).2 := by
  obtain ⟨-, hevents⟩ := h.pushed driveStep_pushes rfl
  obtain ⟨-, hpackets⟩ := h.pushed driveStep_pushes_rawPackets rfl
  obtain ⟨hitem, s, t, event, hs, ht, hbody, hpushed, hevent⟩ := hevents k hk
  obtain ⟨-, s', t', bytes, hs', ht', -, hraw, hbytes⟩ := hpackets k hk
  obtain rfl := hs.unique hs'
  obtain rfl := ht.unique ht'
  obtain ⟨packet, hanswered, -, -, -, hnext⟩ := driveStep_next_iff.1 hbody
  obtain ⟨bytes', rfl, hraw'⟩ := hanswered.rawPackets
  obtain rfl : bytes = bytes' := by
    rw [hraw] at hraw'
    simpa using hraw'
  obtain rfl : event = ((V1Packet.parse bytes).intoEvent s.shadow).2 := by
    rw [hnext] at hpushed
    simpa using hpushed.symm
  exact ⟨s.shadow, bytes, packetAt_of_incoming (incoming_of_stateAfter h) hbytes, hbytes, hevent⟩

/-- The first event of a session starts at the injection entry: the reset check
looked at its packet. -/
theorem entry_of_stateAfter {n : Nat} {state : DriveState} (h : StateAfter session program n state)
    {event : CommitEvent} (hevent : state.events[0]? = some event) :
    event.pcBefore = INJECTION_ENTRY := by
  obtain ⟨hlength, hobserved⟩ := observed_of_stateAfter h
  have hpos : 0 < n := by
    rw [← hlength]
    exact (List.getElem?_eq_some_iff.1 hevent).1
  obtain ⟨s, t, packet, event', hpacket⟩ := hobserved 0 hpos
  obtain rfl : event = event' := Option.some.inj (hevent.symm.trans hpacket.recorded)
  rw [hpacket.event_eq, V1Packet.intoEvent_eq]
  exact (startedFromReset_eq_ok.1 (hpacket.reset rfl)).2

end DiiSession

/-! ## The outcome -/

theorem shutdown_ok {host : SailHost} {result : Except Error (ExecutionTrace × DiiSession)}
    {outcome : DiiOutcome} (h : shutdown host result = .ok outcome) :
    ∃ session, result = .ok (outcome.trace, session) ∧
      outcome.rawPackets = session.rawPackets := by
  unfold shutdown at h
  rcases result with error | ⟨trace, session⟩
  · cases hstatus : host.status <;> simp [hstatus, context] at h
  · cases hstatus : host.status with
    | error error => simp [hstatus, context] at h
    | ok status =>
        by_cases hsuccess : status.success = true
        · obtain rfl : ⟨trace, session.rawPackets⟩ = outcome := by
            simpa [hstatus, context, hsuccess] using h
          exact ⟨session, rfl, rfl⟩
        · simp [hstatus, context, hsuccess] at h

/-- An outcome is that of a session driven to its end. -/
theorem runProgram_ok {host : SailHost} {program : List UInt32} {config : DiiConfig}
    {outcome : DiiOutcome} (h : runProgram host program config = .ok outcome) :
    ∃ stream session, DiiSession.drive ⟨stream, []⟩ program = .ok (outcome.trace, session) ∧
      outcome.rawPackets = session.rawPackets := by
  unfold runProgram at h
  by_cases hempty : program.isEmpty = true
  · simp [hempty] at h
  cases hvalid : validateProgram program with
  | error error => simp [hempty, hvalid] at h
  | ok _ =>
      by_cases hbin : host.isFile config.sailBin = true
      · by_cases hconfig : host.isFile config.sailConfig = true
        · cases hstart : host.start with
          | error error => simp [hempty, hvalid, hbin, hconfig, hstart] at h
          | ok stream =>
              exact ⟨stream, shutdown_ok (by simpa [hempty, hvalid, hbin, hconfig, hstart] using h)⟩
        · simp [hempty, hvalid, hbin, hconfig] at h
      · simp [hempty, hvalid, hbin] at h

/-! ## Packets with given fields -/

/-- `u64::to_le_bytes`. -/
def leBytes64 (value : UInt64) : List UInt8 :=
  (List.range 8).map fun i => (value >>> UInt64.ofNat (8 * i)).toUInt8

/-- The bytes of a packet that reports a register write or the end of a trace. -/
def packetBytes (order pcRdata pcWdata insn rdWdata : UInt64) (rdAddr halt : UInt8) :
    PacketBytes :=
  ⟨(leBytes64 order ++ leBytes64 pcRdata ++ leBytes64 pcWdata ++ leBytes64 insn ++
      List.replicate 16 0 ++ leBytes64 rdWdata ++ List.replicate 28 0 ++
      [rdAddr, 0, halt, 0]).toArray, by simp [leBytes64]⟩

end CkbSail.SailRunner
