import CkbSail.SailRunner.Proofs.RvfiRender

/-!
# The textual and the binary observer

The textual parser reports every register write and every instruction word as it
stands; the binary client reports state changes and normalized words.  They agree on
the packets for which that makes no difference.
-/

namespace CkbSail.SailRunner

open CkbSail.Core RustStd ProofSupport

theorem foldlM_parseLine {textLines : List (List Char)} {tokens : List (RvfiField × List Char)}
    (h : textLines.map fieldLine = tokens.map some) (state : List CommitEvent × EventBuilder) :
    textLines.foldlM parseLine state = tokens.foldlM rvfiReader.step state := by
  induction textLines generalizing tokens state with
  | nil =>
      obtain rfl : tokens = [] := by simpa using h.symm
      rfl
  | cons line textLines ih =>
      cases tokens with
      | nil => simp at h
      | cons token tokens =>
          obtain ⟨hline, hrest⟩ := List.cons.inj h
          rw [List.foldlM_cons, List.foldlM_cons, parseLine_of_field hline]
          cases rvfiReader.step state token with
          | error fault => rfl
          | ok next => exact ih hrest next

/-- Rendered packets are parsed to their events. -/
theorem parse_renderText (widths : RvfiField → Nat) {packets : List V1Packet}
    (hinsn : ∀ packet ∈ packets, packet.insn.toNat < 2 ^ 32) :
    parseRvfiText (renderText widths packets) = .ok (packets.map V1Packet.textEvent) := by
  have hblocks : ∀ block ∈ packets.map (recordLines widths), Terminated isOrder block := by
    intro block hmem
    obtain ⟨packet, -, rfl⟩ := List.mem_map.1 hmem
    exact terminated_recordLines widths packet
  have hrecords : List.Forall₂ (fun block event => rvfiReader.record block = .ok event)
      (packets.map (recordLines widths)) (packets.map V1Packet.textEvent) := by
    rw [List.forall₂_map_left_iff, List.forall₂_map_right_iff, List.forall₂_same]
    exact fun packet hmem => record_recordLines widths (hinsn packet hmem)
  have hread := rvfiReader.foldlM_step_blocks hblocks hrecords []
  rw [parseRvfiText, foldlM_parseLine (fieldLines_renderText widths packets)]
  exact congrArg (Except.map Prod.fst) hread

/-! ## Words -/

theorem normalizeInstructionWidth_eq_self {word : UInt32} :
    normalizeInstructionWidth word = word ↔ (word &&& 0b11 ≠ 0b11 → word >>> 16 = 0) := by
  by_cases hwide : word &&& 0b11 = 0b11
  · simp [normalizeInstructionWidth_of_wide hwide, hwide]
  · have hlow : (word &&& 0xffff).toNat = word.toNat % 2 ^ 16 :=
      (UInt32.toNat_and ..).trans (Nat.and_two_pow_sub_one_eq_mod word.toNat 16)
    have hhigh : (word >>> 16).toNat = word.toNat / 2 ^ 16 := by
      rw [UInt32.toNat_shiftRight, Nat.shiftRight_eq_div_pow]
      rfl
    have hzero : (0 : UInt32).toNat = 0 := rfl
    rw [normalizeInstructionWidth_of_compressed hwide, ← UInt32.toNat_inj, hlow,
      forall_prop_of_true hwide, ← UInt32.toNat_inj, hhigh, hzero]
    omega

/-! ## Register values -/

/-- The value the last of some packets wrote to a register, zero before the first. -/
def heldValue (index : UInt8) (packets : List V1Packet) : UInt64 :=
  packets.foldl (fun held packet => if packet.rdAddr = index then packet.rdWdata else held) 0

theorem registers_observe (shadow : RegisterShadow) (index : UInt8) (value : UInt64) {i : Nat}
    (hi : i < 32) (hpos : 1 ≤ i) :
    (shadow.observe index value).1.registers[i] =
      if index.toNat = i then value else shadow.registers[i] := by
  by_cases hzero : index = 0
  · subst hzero
    have hne : ¬(0 : UInt8).toNat = i := fun h => absurd hpos (by simp [← h])
    rw [shadow.observe_of_hidden value (Or.inl rfl), if_neg hne]
  · by_cases hlt : index.toNat < 32
    · rw [shadow.observe_of_visible value hzero hlt]
      by_cases hsame : shadow.registers[index.toNat] = value
      · rw [if_pos hsame]
        split_ifs with heq
        · subst heq
          exact hsame
        · rfl
      · rw [if_neg hsame]
        exact Vector.getElem_set hlt hi
    · have hne : ¬index.toNat = i := fun h => hlt (h ▸ hi)
      rw [shadow.observe_of_hidden value (Or.inr (by omega)), if_neg hne]

theorem registers_decode (shadow : RegisterShadow) (packets : List PacketBytes) {index : UInt8}
    (hindex : index.toNat < 32) (hpos : 1 ≤ index.toNat) :
    (V1Packet.decode shadow packets).1.registers[index.toNat] =
      (packets.map V1Packet.parse).foldl
        (fun held packet => if packet.rdAddr = index then packet.rdWdata else held)
        shadow.registers[index.toNat] := by
  induction packets generalizing shadow with
  | nil => rfl
  | cons bytes packets ih =>
      rw [List.map_cons, List.foldl_cons, V1Packet.decode]
      refine (ih _).trans ?_
      congr 1
      rw [V1Packet.intoEvent_eq]
      refine (registers_observe _ _ _ hindex hpos).trans ?_
      simp only [UInt8.toNat_inj]

/-! ## Events -/

/-- A packet on which the two observers agree after some others: its word needs no
normalization, and its write changes the register. -/
def Plain (before : List V1Packet) (packet : V1Packet) : Prop :=
  (packet.insn.toUInt32 &&& 0b11 ≠ 0b11 → packet.insn.toUInt32 >>> 16 = 0) ∧
    (packet.rdAddr ≠ 0 → packet.rdWdata ≠ heldValue packet.rdAddr before)

theorem intoEvent_eq_textEvent (before : List PacketBytes) {packet : V1Packet}
    (hrd : packet.rdAddr.toNat < 32) :
    (packet.intoEvent (V1Packet.decode .zeroed before).1).2 = packet.textEvent ↔
      Plain (before.map V1Packet.parse) packet := by
  have hwrites : ((V1Packet.decode .zeroed before).1.observe packet.rdAddr
      packet.rdWdata).2.toList = packet.textEvent.registerWrites ↔
        (packet.rdAddr ≠ 0 →
          packet.rdWdata ≠ heldValue packet.rdAddr (before.map V1Packet.parse)) := by
    by_cases hzero : packet.rdAddr = 0
    · rw [RegisterShadow.observe_of_hidden _ _ (Or.inl hzero)]
      simp [V1Packet.textEvent, hzero]
    · have hpos : 1 ≤ packet.rdAddr.toNat := Nat.one_le_iff_ne_zero.2 fun h =>
        hzero (UInt8.toNat_inj.1 h)
      have hheld : (V1Packet.decode .zeroed before).1.registers[packet.rdAddr.toNat] =
          heldValue packet.rdAddr (before.map V1Packet.parse) := by
        rw [registers_decode _ _ hrd hpos, heldValue]
        congr 1
        simp [RegisterShadow.zeroed]
      rw [RegisterShadow.observe_of_visible _ _ hzero hrd, hheld]
      split_ifs with hsame
      · simp [V1Packet.textEvent, hzero, hsame]
      · simp [V1Packet.textEvent, hzero, Ne.symm hsame]
  rw [V1Packet.intoEvent_eq, Plain, ← normalizeInstructionWidth_eq_self, ← hwrites]
  simp [V1Packet.textEvent]

theorem decode_eq_map_iff (f : PacketBytes → CommitEvent) (shadow : RegisterShadow)
    (packets : List PacketBytes) :
    (V1Packet.decode shadow packets).2 = packets.map f ↔
      ∀ before bytes after, packets = before ++ bytes :: after →
        ((V1Packet.parse bytes).intoEvent (V1Packet.decode shadow before).1).2 = f bytes := by
  induction packets generalizing shadow with
  | nil => simp [V1Packet.decode]
  | cons first packets ih =>
      rw [V1Packet.decode, List.map_cons, List.cons.injEq, ih]
      constructor
      · rintro ⟨hfirst, hrest⟩ before bytes after hsplit
        cases before with
        | nil =>
            obtain ⟨rfl, rfl⟩ := List.cons.inj hsplit
            exact hfirst
        | cons b before =>
            obtain ⟨rfl, rfl⟩ := List.cons.inj hsplit
            exact hrest before bytes after rfl
      · intro h
        refine ⟨h [] first packets rfl, fun before bytes after hsplit => ?_⟩
        subst hsplit
        exact h (first :: before) bytes after rfl

/-- The two observers agree on a list of packets exactly when every packet is plain
after those before it. -/
theorem text_agrees_iff (widths : RvfiField → Nat) {packets : List PacketBytes}
    (hrd : ∀ bytes ∈ packets, (V1Packet.parse bytes).rdAddr.toNat < 32)
    (hinsn : ∀ bytes ∈ packets, (V1Packet.parse bytes).insn.toNat < 2 ^ 32) :
    parseRvfiText (renderText widths (packets.map V1Packet.parse)) =
        .ok (V1Packet.decode .zeroed packets).2 ↔
      ∀ before bytes after, packets = before ++ bytes :: after →
        Plain (before.map V1Packet.parse) (V1Packet.parse bytes) := by
  have hparsed := @parse_renderText widths (packets.map V1Packet.parse) (by simpa using hinsn)
  rw [hparsed, Except.ok.injEq, List.map_map, eq_comm, decode_eq_map_iff]
  refine forall_congr' fun before => forall_congr' fun bytes => forall_congr' fun after =>
    imp_congr_right fun hsplit => ?_
  have hmem : bytes ∈ packets := by simp [hsplit]
  exact intoEvent_eq_textEvent before (hrd bytes hmem)

/-- The widths the emulator prints. -/
def printedWidths : RvfiField → Nat
  | .halt | .trap | .rdAddr => 2
  | .memWmask | .memRmask => 8
  | .memWdata | .memRdata => 64
  | _ => 16

/-- The packet of `addi x1, x1, imm`, which leaves a value in x1. -/
def addiPacket (imm value : UInt8) : PacketBytes :=
  let word : List UInt8 := [0x93, 0x80, imm <<< 4, 0]
  let bytes : List UInt8 := List.replicate 24 0 ++ word ++ List.replicate 20 0 ++ [value] ++
    List.replicate 35 0 ++ [1, 0, 0, 0]
  ⟨bytes.toArray, by simp [bytes, word]⟩

/-- Three additions in a row, the second and third over the value the one before left. -/
def addiRun : List PacketBytes := [addiPacket 5 5, addiPacket 3 8, addiPacket 1 9]

theorem text_agrees_addi :
    parseRvfiText (renderText printedWidths (addiRun.map V1Packet.parse)) =
      .ok (V1Packet.decode .zeroed addiRun).2 := by
  have hrd : ∀ bytes ∈ addiRun, (V1Packet.parse bytes).rdAddr.toNat < 32 := by
    simp only [addiRun, List.mem_cons, List.not_mem_nil, or_false]
    rintro bytes (rfl | rfl | rfl) <;> decide +kernel
  have hinsn : ∀ bytes ∈ addiRun, (V1Packet.parse bytes).insn.toNat < 2 ^ 32 := by
    simp only [addiRun, List.mem_cons, List.not_mem_nil, or_false]
    rintro bytes (rfl | rfl | rfl) <;> decide +kernel
  have hfirst : Plain [] (V1Packet.parse (addiPacket 5 5)) := by
    unfold Plain
    decide +kernel
  have hsecond : Plain [V1Packet.parse (addiPacket 5 5)] (V1Packet.parse (addiPacket 3 8)) := by
    unfold Plain
    decide +kernel
  have hthird : Plain [V1Packet.parse (addiPacket 5 5), V1Packet.parse (addiPacket 3 8)]
      (V1Packet.parse (addiPacket 1 9)) := by
    unfold Plain
    decide +kernel
  refine (text_agrees_iff printedWidths hrd hinsn).2 fun before bytes after hsplit => ?_
  rcases before with - | ⟨b₁, - | ⟨b₂, - | ⟨b₃, before⟩⟩⟩ <;>
    simp only [addiRun, List.nil_append, List.cons_append, List.cons.injEq] at hsplit
  · obtain ⟨rfl, -⟩ := hsplit
    exact hfirst
  · obtain ⟨rfl, rfl, -⟩ := hsplit
    exact hsecond
  · obtain ⟨rfl, rfl, rfl, -⟩ := hsplit
    exact hthird
  · simp at hsplit

/-- An instruction that writes to x1 the zero x1 already holds. -/
theorem text_disagrees_same_value :
    (∀ bytes ∈ [addiPacket 0 0], (V1Packet.parse bytes).rdAddr.toNat < 32) ∧
      (∀ bytes ∈ [addiPacket 0 0], (V1Packet.parse bytes).insn.toNat < 2 ^ 32) ∧
      parseRvfiText (renderText printedWidths ([addiPacket 0 0].map V1Packet.parse)) ≠
        .ok (V1Packet.decode .zeroed [addiPacket 0 0]).2 := by
  have hinsn : (V1Packet.parse (addiPacket 0 0)).insn.toNat < 2 ^ 32 := by decide +kernel
  refine ⟨List.forall_mem_singleton.2 (by decide +kernel), List.forall_mem_singleton.2 hinsn, ?_⟩
  have hparsed := @parse_renderText printedWidths ([addiPacket 0 0].map V1Packet.parse)
    (List.forall_mem_singleton.2 hinsn)
  rw [hparsed]
  intro h
  have hevents : [(V1Packet.parse (addiPacket 0 0)).textEvent] =
      (V1Packet.decode .zeroed [addiPacket 0 0]).2 := Except.ok.inj h
  exact absurd hevents (by decide +kernel)

end CkbSail.SailRunner
