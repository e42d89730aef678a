import CkbSail.RustStd.Text
import CkbSail.SailRunner.Dii

/-!
# Packets as hexadecimal text

Evidence keeps the raw packets as lines of two lower-case digits a byte.  The
line of a packet is read back as the packet.
-/

namespace CkbSail.SailRunner

open RustStd

/-- The bytes of consecutive pairs of digits. -/
def bytesOfPairs : List Char → Except ParseIntError (List UInt8)
  | high :: low :: rest =>
      match fromStrRadix 256 16 [high, low] with
      | .error error => .error error
      | .ok byte =>
          match bytesOfPairs rest with
          | .error error => .error error
          | .ok bytes => .ok (UInt8.ofNat byte :: bytes)
  | _ => .ok []

/-- The packet of a line of 176 digits. -/
def packetOfLine (line : List Char) : Option PacketBytes :=
  if line.length = 2 * V1_PACKET_BYTES then
    match bytesOfPairs line with
    | .error _ => none
    | .ok bytes =>
        if h : bytes.length = 88 then some ⟨bytes.toArray, by simpa using h⟩ else none
  else none

/-- The digits of a packet, two for each byte. -/
def packetDigits (packet : PacketBytes) : List Char :=
  packet.toList.flatMap fun byte => zeroPad 2 (Nat.toDigits 16 byte.toNat)

theorem length_byteDigits (byte : UInt8) :
    (zeroPad 2 (Nat.toDigits 16 byte.toNat)).length = 2 :=
  length_zeroPad (length_toDigits_le (by omega) byte.toNat_lt)

theorem length_packetDigits (packet : PacketBytes) : (packetDigits packet).length = 176 := by
  rw [packetDigits, List.length_flatMap, List.map_congr_left fun byte _ => length_byteDigits byte,
    List.map_const']
  simp

theorem isLowerHex_of_mem_packetDigits {packet : PacketBytes} {c : Char}
    (h : c ∈ packetDigits packet) : IsLowerHex c := by
  obtain ⟨byte, -, hbyte⟩ := List.mem_flatMap.1 h
  exact isLowerHex_of_mem_zeroPad hbyte

theorem bytesOfPairs_digits (bytes : List UInt8) :
    bytesOfPairs (bytes.flatMap fun byte => zeroPad 2 (Nat.toDigits 16 byte.toNat)) =
      .ok bytes := by
  induction bytes with
  | nil => rfl
  | cons byte bytes ih =>
      obtain ⟨high, low, hpair⟩ := List.length_eq_two.1 (length_byteDigits byte)
      have hread : fromStrRadix 256 16 [high, low] = .ok byte.toNat := by
        rw [← hpair]
        exact fromStrRadix_zeroPad byte.toNat_lt
      simp only [List.flatMap_cons, hpair, List.cons_append, List.nil_append, bytesOfPairs, hread,
        ih, UInt8.ofNat_toNat]

/-- The line of a packet is read back. -/
theorem packetOfLine_packetDigits (packet : PacketBytes) :
    packetOfLine (packetDigits packet) = some packet := by
  have hbytes : bytesOfPairs (packetDigits packet) = .ok packet.toList :=
    bytesOfPairs_digits packet.toList
  have hlength : packet.toList.length = 88 := by simp
  have hline : (packetDigits packet).length = 2 * V1_PACKET_BYTES := length_packetDigits packet
  rw [packetOfLine, if_pos hline, hbytes]
  simp only [hlength, dif_pos, Option.some.injEq]
  exact Vector.toArray_inj.1 Array.toArray_toList

/-! ## The captured-packet format -/

/-- `u8::from_str_radix` of the digits of one byte. -/
def parseByte (number : Nat) (digits : List Char) : Except Fault UInt8 :=
  match fromStrRadix 256 16 digits with
  | .error error =>
      .error (.error ((Error.msg error.display).context s!"line {number + 1} is not hexadecimal"))
  | .ok byte => .ok (UInt8.ofNat byte)

def readByte (number : Nat) (line : List Char) (index : Nat) : Except Fault UInt8 :=
  match slice (index * 2) (index * 2 + 2) line with
  | .error fault => .error fault
  | .ok digits => parseByte number digits

def readPacket (number : Nat) (line : List Char) : Except Fault PacketBytes :=
  Vector.ofFnM fun index => readByte number line index.val

/-- A line that holds no packet. -/
def isSkipped (line : List Char) : Bool := line.isEmpty || line.head? = some '#'

/-- One pass of the loop of `parse_packet_hex`, on a trimmed line. -/
def parsePacketLine (number : Nat) (line : List Char) : Except Fault (Option PacketBytes) :=
  if isSkipped line then .ok none
  else if byteLen line ≠ V1_PACKET_BYTES * 2 then
    .error (.error (.msg (s!"line {number + 1} is {byteLen line} characters, " ++
      s!"not the {V1_PACKET_BYTES * 2} of a v1 packet")))
  else
    match readPacket number line with
    | .error fault => .error fault
    | .ok packet => .ok (some packet)

def parsePacketLines : Nat → List (List Char) → Except Fault (List PacketBytes)
  | _, [] => .ok []
  | number, line :: lines =>
      match parsePacketLine number (trim line) with
      | .error fault => .error fault
      | .ok packet =>
          match parsePacketLines (number + 1) lines with
          | .error fault => .error fault
          | .ok packets => .ok (packet.toList ++ packets)

/-- Decode the captured-packet fixture format: one hexadecimal packet per
non-comment line. -/
def parsePacketHex (text : List Char) : Except Fault (List PacketBytes) :=
  match parsePacketLines 0 (lines text) with
  | .error fault => .error fault
  | .ok packets =>
      if packets.isEmpty then .error (.error (.msg "no packets in the fixture")) else .ok packets

end CkbSail.SailRunner
