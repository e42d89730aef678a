import CkbSail.SailRunner.Proofs.Dii
import CkbSail.SailRunner.Proofs.RvfiText

/-!
# Packets as text records

A packet written as one text record, in the layout the emulator prints, is parsed
back; the width a number is padded to does not matter.
-/

namespace CkbSail.SailRunner

open CkbSail.Core RustStd ProofSupport

/-- The name of a field, padded to the column of the colon. -/
def RvfiField.label (field : RvfiField) : List Char :=
  field.name.toList ++ List.replicate (13 - field.name.toList.length) ' '

/-- A value as it stands after the colon. -/
def renderValue (width : Nat) (value : UInt64) : List Char :=
  [' ', '0', 'x'] ++ zeroPad width (Nat.toDigits 16 value.toNat)

def renderLine (field : RvfiField) (width : Nat) (value : UInt64) : List Char :=
  field.label ++ ':' :: renderValue width value

/-- `u64::from(flag)`. -/
def flagValue (flag : Bool) : UInt64 := if flag then 1 else 0

/-- The fields of the record of a packet, in order. -/
def V1Packet.recordFields (packet : V1Packet) : List (RvfiField × UInt64) :=
  [(.halt, flagValue packet.halt), (.trap, flagValue packet.trap),
    (.rdAddr, packet.rdAddr.toUInt64), (.memWmask, packet.memWmask.toUInt64),
    (.memRmask, packet.memRmask.toUInt64), (.memWdata, packet.memWdata),
    (.memRdata, packet.memRdata), (.memAddr, packet.memAddr), (.rdWdata, packet.rdWdata),
    (.insn, packet.insn), (.pcWdata, packet.pcWdata), (.pcRdata, packet.pcRdata),
    (.order, packet.order)]

/-- The text of some packets, one record after the other. -/
def renderText (widths : RvfiField → Nat) (packets : List V1Packet) : List Char :=
  packets.flatMap fun packet => packet.recordFields.flatMap fun entry =>
    renderLine entry.1 (widths entry.1) entry.2 ++ ['\n']

/-! ## Numbers -/

theorem drop_zeroPad {width : Nat} {digits : List Char} (h : digits.length ≤ 16) :
    (zeroPad width digits).drop ((zeroPad width digits).length - 16) =
      zeroPad (min width 16) digits := by
  simp only [zeroPad, List.length_append, List.length_replicate]
  rw [List.drop_append_of_le_length (by rw [List.length_replicate]; omega), List.drop_replicate]
  congr 2
  omega

theorem parseNumber_renderValue (width : Nat) (value : UInt64) :
    parseNumber (renderValue width value) = .ok value := by
  have hhex : ∀ c ∈ zeroPad width (Nat.toDigits 16 value.toNat), IsLowerHex c := fun c hc =>
    isLowerHex_of_mem_zeroPad hc
  have htoken : ∀ c ∈ '0' :: 'x' :: zeroPad width (Nat.toDigits 16 value.toNat),
      isWhitespace c = false ∧ c ≠ '_' := by
    intro c hc
    rcases List.mem_cons.1 hc with rfl | hc
    · decide
    · rcases List.mem_cons.1 hc with rfl | hc
      · decide
      · refine ⟨(hhex c hc).not_whitespace, ?_⟩
        rintro rfl
        exact absurd (hhex _ hc) (by decide)
  have hfirst := firstToken_of_blank (by simp) fun c hc => (htoken c hc).1
  have hfilter := List.filter_eq_self.2 fun c hc => decide_eq_true (htoken c hc).2
  have hstart : stripPrefix ['0', 'x'] ('0' :: 'x' ::
      zeroPad width (Nat.toDigits 16 value.toNat)) =
        some (zeroPad width (Nat.toDigits 16 value.toNat)) := by
    simp [stripPrefix, List.isPrefixOf]
  have hascii : ∀ c ∈ zeroPad width (Nat.toDigits 16 value.toNat), c.utf8Size = 1 := fun c hc =>
    (hhex c hc).utf8Size_eq
  have hdigits : (Nat.toDigits 16 value.toNat).length ≤ 16 :=
    length_toDigits_le (by omega) value.toNat_lt
  have hslice := sliceFrom_of_ascii hascii (Nat.sub_le _ 16)
  rw [drop_zeroPad hdigits] at hslice
  rw [parseNumber, renderValue, List.cons_append, List.cons_append, List.cons_append,
    List.nil_append, hfirst]
  simp only [hfilter, hstart, Option.some_or, byteLen_of_ascii hascii, hslice, Except.bind,
    parseRadix, fromStrRadix_zeroPad value.toNat_lt, UInt64.ofNat_toNat]

/-! ## Lines -/

theorem fieldLine_renderLine (field : RvfiField) (width : Nat) (value : UInt64) :
    fieldLine (renderLine field width value) = some (field, renderValue width value) := by
  have hcolon : ':' ∉ field.label := by cases field <;> decide
  have hname : trim field.label = field.name.toList := by cases field <;> decide
  have hstart : ['r', 'v', 'f', 'i', '_'].isPrefixOf field.name.toList = true := by
    cases field <;> decide
  have hfield : RvfiField.ofName? field.name.toList = some field := by cases field <;> decide
  have htrim : trim (renderLine field width value) = renderLine field width value := by
    obtain ⟨rest, hlabel⟩ : ∃ rest, field.label = 'r' :: rest := by
      cases field <;> exact ⟨_, rfl⟩
    have hne : zeroPad width (Nat.toDigits 16 value.toNat) ≠ [] := by simp [zeroPad]
    have hlast := isLowerHex_of_mem_zeroPad (List.getLast_mem hne)
    have hsplit := List.dropLast_append_getLast hne
    have hline : renderLine field width value = 'r' :: ((rest ++ [':', ' ', '0', 'x'] ++
        (zeroPad width (Nat.toDigits 16 value.toNat)).dropLast) ++
          [(zeroPad width (Nat.toDigits 16 value.toNat)).getLast hne]) := by
      rw [List.append_assoc (rest ++ _), hsplit, renderLine, renderValue, hlabel]
      simp
    rw [hline]
    exact trim_of_ends (by decide) hlast.not_whitespace
  have hsplit : splitOnce ':' (renderLine field width value) =
      some (field.label, renderValue width value) := splitOnce_append hcolon _
  simp only [fieldLine, rvfiLine, htrim, hsplit, hname, hstart, if_true, Option.bind_some, hfield,
    Option.map_some]

theorem renderLine_plain (field : RvfiField) (width : Nat) (value : UInt64) :
    '\n' ∉ renderLine field width value ∧ '\r' ∉ renderLine field width value := by
  have hlabel : '\n' ∉ field.label ∧ '\r' ∉ field.label := by cases field <;> decide
  have hdigits : ∀ c, ¬IsLowerHex c → c ∉ zeroPad width (Nat.toDigits 16 value.toNat) :=
    fun c hc hmem => hc (isLowerHex_of_mem_zeroPad hmem)
  have hfeed := hdigits '\n' (by decide)
  have hreturn := hdigits '\r' (by decide)
  simp [renderLine, renderValue, hlabel, hfeed, hreturn]

theorem lines_render (widths : RvfiField → Nat) (entries : List (RvfiField × UInt64))
    (rest : List Char) :
    lines ((entries.flatMap fun entry => renderLine entry.1 (widths entry.1) entry.2 ++ ['\n']) ++
        rest) =
      (entries.map fun entry => renderLine entry.1 (widths entry.1) entry.2) ++ lines rest := by
  induction entries with
  | nil => rfl
  | cons entry entries ih =>
      obtain ⟨hfeed, hreturn⟩ := renderLine_plain entry.1 (widths entry.1) entry.2
      have hline := lines_line hfeed hreturn
        ((entries.flatMap fun entry => renderLine entry.1 (widths entry.1) entry.2 ++ ['\n']) ++
          rest)
      rw [List.flatMap_cons, List.map_cons, List.cons_append, ← ih, ← hline]
      simp

/-! ## Records -/

/-- The recognized lines of the record of a packet. -/
def recordLines (widths : RvfiField → Nat) (packet : V1Packet) : List (RvfiField × List Char) :=
  packet.recordFields.map fun entry => (entry.1, renderValue (widths entry.1) entry.2)

theorem fieldLines_renderText (widths : RvfiField → Nat) (packets : List V1Packet) :
    (lines (renderText widths packets)).map fieldLine =
      (packets.map (recordLines widths)).flatten.map some := by
  induction packets with
  | nil => rfl
  | cons packet packets ih =>
      rw [renderText, List.flatMap_cons, lines_render, List.map_append, ← renderText, ih,
        List.map_map, List.map_cons, List.flatten_cons, List.map_append, recordLines, List.map_map]
      congr 1
      exact List.map_congr_left fun entry _ => fieldLine_renderLine ..

/-- The event the parser makes of the record of a packet. -/
def V1Packet.textEvent (packet : V1Packet) : CommitEvent where
  order := packet.order
  instruction := packet.insn.toUInt32
  pcBefore := packet.pcRdata
  pcAfter := packet.pcWdata
  registerWrites := if packet.rdAddr = 0 then [] else [⟨packet.rdAddr, packet.rdWdata⟩]
  memory := packet.accesses
  trap := packet.trap
  halt := packet.halt

theorem readValue_renderValue (name : List Char) (width : Nat) (value : UInt64) :
    readValue name (renderValue width value) = .ok value := by
  rw [readValue, parseNumber_renderValue]
  rfl

theorem terminated_recordLines (widths : RvfiField → Nat) (packet : V1Packet) :
    Terminated isOrder (recordLines widths packet) := by
  refine ⟨(recordLines widths packet).dropLast, _, rfl, rfl, ?_⟩
  simp [recordLines, V1Packet.recordFields, isOrder]

theorem taken_recordLines (widths : RvfiField → Nat) (entries : List (RvfiField × UInt64)) :
    ∀ builder : EventBuilder,
      (entries.map fun entry => (entry.1, renderValue (widths entry.1) entry.2)).foldlM
          rvfiReader.accept builder =
        (entries.foldlM (fun (builder : EventBuilder) entry => builder.set entry.1 entry.2)
          builder).mapError .error := by
  induction entries with
  | nil => exact fun builder => rfl
  | cons entry entries ih =>
      intro builder
      rw [List.map_cons, List.foldlM_cons, List.foldlM_cons]
      simp only [rvfiReader, readValue_renderValue, Except.bind]
      cases builder.set entry.1 entry.2 with
      | error error => rfl
      | ok next => exact ih next

/-- The builder a record of a packet leaves. -/
def V1Packet.builder (packet : V1Packet) : EventBuilder where
  order := some packet.order
  instruction := some packet.insn.toUInt32
  pcBefore := some packet.pcRdata
  pcAfter := some packet.pcWdata
  rdAddress := some packet.rdAddr
  rdValue := some packet.rdWdata
  memoryAddress := some packet.memAddr
  memoryReadMask := some packet.memRmask.toUInt32
  memoryWriteMask := some packet.memWmask.toUInt32
  memoryReadData := some packet.memRdata
  memoryWriteData := some packet.memWdata
  trap := packet.trap
  halt := packet.halt

theorem fill_recordFields {packet : V1Packet} (hinsn : packet.insn.toNat < 2 ^ 32) :
    packet.recordFields.foldlM (fun (builder : EventBuilder) entry => builder.set entry.1 entry.2)
      .empty = .ok packet.builder := by
  have hflag : ∀ flag, decide (flagValue flag ≠ 0) = flag := by decide
  have hrd := @narrow_ok _ 8 packet.rdAddr.toUInt64 (by simpa using packet.rdAddr.toNat_lt)
    UInt64.toUInt8 RvfiField.rdAddr.name
  have hmask : ∀ (mask : UInt8) (name : String),
      narrow 32 UInt64.toUInt32 mask.toUInt64 name = .ok mask.toUInt32 := by
    intro mask name
    have hlt := mask.toNat_lt
    exact (narrow_ok (by rw [UInt8.toNat_toUInt64]; omega) _ _).trans (by simp)
  simp only [V1Packet.recordFields, List.foldlM_cons, List.foldlM_nil, EventBuilder.set, hmask, hrd,
    narrow_ok hinsn, Except.map, bind, Except.bind, pure, Except.pure, hflag, V1Packet.builder,
    UInt8.toUInt8_toUInt64]

theorem finish_builder (packet : V1Packet) : packet.builder.finish = .ok packet.textEvent := by
  have hmasks : (packet.memRmask.toUInt32 = 0 ∧ packet.memWmask.toUInt32 = 0) ↔
      (packet.memRmask = 0 ∧ packet.memWmask = 0) := by
    rw [← not_iff_not, not_and_or, not_and_or, ← ne_eq, ← ne_eq, V1Packet.toUInt32_ne_zero,
      V1Packet.toUInt32_ne_zero]
  have hnormal : packet.textEvent.normalize = packet.textEvent := by
    refine CommitEvent.normalize_eq_self ?_ packet.accesses_masks
    intro write hwrite
    unfold V1Packet.textEvent at hwrite
    split_ifs at hwrite with hzero
    · simp at hwrite
    · rw [List.mem_singleton.1 hwrite]
      exact hzero
  rw [← hnormal]
  simp only [EventBuilder.finish, V1Packet.builder, EventBuilder.required, Option.getD_some,
    bind, Except.bind,
    pure, Except.pure, V1Packet.textEvent, V1Packet.accesses, hmasks]
  by_cases hzero : packet.rdAddr = 0
  · by_cases hmask : packet.memRmask = 0 ∧ packet.memWmask = 0
    · simp only [if_pos hmask, hzero, if_true]
    · simp only [if_neg hmask, hzero, if_true]
  · by_cases hmask : packet.memRmask = 0 ∧ packet.memWmask = 0
    · simp only [if_pos hmask, hzero, if_false]
    · simp only [if_neg hmask, hzero, if_false]

/-- The record of a packet is read to its event. -/
theorem record_recordLines (widths : RvfiField → Nat) {packet : V1Packet}
    (hinsn : packet.insn.toNat < 2 ^ 32) :
    rvfiReader.record (recordLines widths packet) = .ok packet.textEvent := by
  have hfill := fill_recordFields hinsn
  have htaken : rvfiReader.taken (recordLines widths packet) = .ok packet.builder := by
    have hlines := taken_recordLines widths packet.recordFields .empty
    rw [hfill] at hlines
    exact hlines
  rw [Reader.record, htaken]
  change (packet.builder.finish).mapError Fault.error = _
  rw [finish_builder]
  rfl

end CkbSail.SailRunner
