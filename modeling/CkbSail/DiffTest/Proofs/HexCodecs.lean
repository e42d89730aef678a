import CkbSail.DiffTest.Proofs.RawPackets
import CkbSail.SailRunner.Proofs.PacketHex

/-!
# Hexadecimal evidence read back

Packets and programs are stored as lower-case digits of fixed width.  Their
readers go through `from_str_radix`, which also takes a leading plus sign and,
for words, any number of digits; and the packet reader slices a line by bytes.
-/

namespace CkbSail.DiffTest

open CkbSail.Core RustStd SailRunner

/-! ## What a codec owes one input -/

/-- An accepted text holds, up to letter case, the lines of its packets; any other
text gives an error. -/
structure PacketTextExact (text : List Char) : Prop where
  lines : ∀ packets, parsePacketHex text = .ok packets →
    (packetLines text).map (List.map Char.toLower) = (hexBytes packets).map String.toList
  no_panic : parsePacketHex text ≠ .error .panic

/-- Accepted words are, up to letter case, the words of the program. -/
def WordsExact (artifact : Artifact) : Prop :=
  ∀ program, artifact.program = .ok program →
    artifact.instructionsHex.map (fun word => word.toList.map Char.toLower) =
      (hexWords program.instructions).map String.toList

/-! ## When the code does it -/

/-- No line that follows only lines of pairs has a character across a pair
boundary, and no line of a text of such lines holds a sign. -/
structure PacketTextPlain (text : List Char) : Prop where
  boundary : ∀ before line after, packetLines text = before ++ line :: after →
    (∀ read ∈ before, Readable read) → ¬SplitsChar line
  unsigned : (∀ line ∈ packetLines text, Readable line) →
    ∀ line ∈ packetLines text, '+' ∉ line

/-- The word is `0x`, at most one sign, and the digits of the instruction with any
number of zeros before them. -/
def Denotes (word : String) (instruction : UInt32) : Prop :=
  ∃ digits, (word.toList = '0' :: 'x' :: digits ∨ word.toList = '0' :: 'x' :: '+' :: digits) ∧
    digits.map Char.toLower = zeroPad digits.length (Nat.toDigits 16 instruction.toNat)

/-- Words that denote the program of the case have ten characters and no sign. -/
def WordsPlain (artifact : Artifact) : Prop :=
  artifact.instructionsHex ≠ [] →
    List.Forall₂ Denotes artifact.instructionsHex artifact.case.instructions →
      ∀ word ∈ artifact.instructionsHex, word.toList.length = 10 ∧ '+' ∉ word.toList

/-! ## Packets -/

theorem hexBytes_toList (packets : List PacketBytes) :
    (hexBytes packets).map String.toList = packets.map packetDigits := by
  rw [hexBytes_eq, List.map_map]
  exact List.map_congr_left fun packet _ => String.toList_ofList

/-- The lines of an accepted text are those of its packets exactly when they hold
no sign. -/
theorem lines_eq_iff {ls : List (List Char)} {packets : List PacketBytes}
    (h : List.Forall₂ (fun line packet => Readable line ∧
      bytesOfPairs line = .ok packet.toList) ls packets) :
    ls.map (List.map Char.toLower) = packets.map packetDigits ↔ ∀ line ∈ ls, '+' ∉ line := by
  induction h with
  | nil => simp
  | @cons line packet ls packets hline _ ih =>
      have hcase := lowerCase_of_bytesOfPairs hline.1.pairs hline.2
      rw [List.map_cons, List.map_cons, List.cons.injEq, ih, List.forall_mem_cons]
      exact and_congr_left fun _ => hcase

theorem packetTextExact_iff (text : List Char) : PacketTextExact text ↔ PacketTextPlain text := by
  constructor
  · intro h
    refine ⟨fun before line after hlines hread hsplits => h.no_panic ?_, fun hread => ?_⟩
    · exact parsePacketHex_eq_panic.2 ⟨before, line, after, hlines, hread, hsplits⟩
    · obtain ⟨packets, hpackets⟩ := exists_packets hread
      rw [← lines_eq_iff hpackets]
      by_cases hempty : packets = []
      · subst hempty
        rw [List.forall₂_nil_right_iff] at hpackets
        rw [hpackets]
        rfl
      · rw [h.lines packets (parsePacketHex_eq_ok.2 ⟨hempty, hpackets⟩), hexBytes_toList]
  · intro h
    refine ⟨fun packets hpackets => ?_, fun hpanic => ?_⟩
    · obtain ⟨-, hall⟩ := parsePacketHex_eq_ok.1 hpackets
      rw [hexBytes_toList, lines_eq_iff hall]
      exact h.unsigned (readable_of_forall₂ hall)
    · obtain ⟨before, line, after, hlines, hread, hsplits⟩ := parsePacketHex_eq_panic.1 hpanic
      exact h.boundary before line after hlines hread hsplits

/-! ## Words -/

theorem stripPrefix_eq_some {word digits : List Char} :
    stripPrefix ['0', 'x'] word = some digits ↔ word = '0' :: 'x' :: digits := by
  unfold stripPrefix
  split_ifs with h
  · obtain ⟨rest, rfl⟩ := List.isPrefixOf_iff_prefix.1 h
    simp
  · constructor
    · intro hnone
      cases hnone
    · rintro rfl
      exact absurd rfl h

/-- The digits of a number padded to `width` places have `width` places exactly
when the number fits them. -/
theorem lt_pow_of_length {width n : Nat}
    (h : (zeroPad width (Nat.toDigits 16 n)).length = width) : 0 < width ∧ n < 16 ^ width := by
  have hpos : 0 < (Nat.toDigits 16 n).length := List.length_pos_iff.2 Nat.toDigits_ne_nil
  rw [zeroPad, List.length_append, List.length_replicate] at h
  have hwidth : 0 < width := by omega
  exact ⟨hwidth, (Nat.length_toDigits_le_iff (by omega) hwidth).1 (by omega)⟩

/-- A word is read as an instruction exactly when it denotes it. -/
theorem readWord_eq_ok {index : Nat} {word : String} {instruction : UInt32} :
    readWord index word = .ok instruction ↔ Denotes word instruction := by
  have hdigits : ∀ {digits : List Char} {value : Nat},
      (digits ≠ [] ∧ accumulate (2 ^ 32) 16 digits 0 = .ok value) ↔ value < 2 ^ 32 ∧
        digits.map Char.toLower = zeroPad digits.length (Nat.toDigits 16 value) := by
    intro digits value
    rw [accumulate_eq_ok (by decide)]
    constructor
    · rintro ⟨hne, hlt, hpow, heq⟩
      exact ⟨hlt, heq.trans (zeroPad_eq_fixedDigits (List.length_pos_iff.2 hne) hpow).symm⟩
    · rintro ⟨hlt, heq⟩
      have hlength : (zeroPad digits.length (Nat.toDigits 16 value)).length = digits.length := by
        rw [← heq, List.length_map]
      obtain ⟨hpos, hpow⟩ := lt_pow_of_length hlength
      exact ⟨List.length_pos_iff.1 hpos, hlt, hpow, heq.trans (zeroPad_eq_fixedDigits hpos hpow)⟩
  constructor
  · intro h
    unfold readWord at h
    cases hstrip : stripPrefix ['0', 'x'] word.toList with
    | none => simp [hstrip] at h
    | some text =>
        cases hread : fromStrRadix (2 ^ 32) 16 text with
        | error e => simp only [hstrip, hread, reduceCtorEq] at h
        | ok value =>
            simp only [hstrip, hread, Except.ok.injEq] at h
            obtain ⟨digits, htext, hvalue⟩ := fromStrRadix_eq_ok.1 hread
            obtain ⟨hlt, heq⟩ := hdigits.1 hvalue
            have hinstruction : instruction.toNat = value := by
              rw [← h]
              exact UInt32.toNat_ofNat_of_lt' hlt
            rw [stripPrefix_eq_some] at hstrip
            rw [← hinstruction] at heq
            refine ⟨digits, ?_, heq⟩
            rcases htext with rfl | rfl
            · exact Or.inl hstrip
            · exact Or.inr hstrip
  · rintro ⟨digits, hword, heq⟩
    have hvalue := hdigits.2 ⟨instruction.toNat_lt, heq⟩
    have hread : ∃ text, stripPrefix ['0', 'x'] word.toList = some text ∧
        fromStrRadix (2 ^ 32) 16 text = .ok instruction.toNat := by
      rcases hword with hword | hword
      · exact ⟨digits, stripPrefix_eq_some.2 hword,
          fromStrRadix_eq_ok.2 ⟨digits, Or.inl rfl, hvalue⟩⟩
      · exact ⟨'+' :: digits, stripPrefix_eq_some.2 hword,
          fromStrRadix_eq_ok.2 ⟨digits, Or.inr rfl, hvalue⟩⟩
    obtain ⟨text, hstrip, hread⟩ := hread
    simp only [readWord, hstrip, hread, UInt32.ofNat_toNat]

theorem readWords_eq_ok {index : Nat} {words : List String} {instructions : List UInt32} :
    readWords index words = .ok instructions ↔ List.Forall₂ Denotes words instructions := by
  induction words generalizing index instructions with
  | nil => simp [readWords, eq_comm]
  | cons word words ih =>
      rw [readWords, List.forall₂_cons_left_iff]
      constructor
      · intro h
        cases hword : readWord index word with
        | error e => simp [hword] at h
        | ok instruction =>
            cases hrest : readWords (index + 1) words with
            | error e => simp [hword, hrest] at h
            | ok rest =>
                simp only [hword, hrest, Except.ok.injEq] at h
                exact ⟨instruction, rest, readWord_eq_ok.1 hword, ih.1 hrest, h.symm⟩
      · rintro ⟨instruction, rest, hword, hrest, rfl⟩
        simp only [readWord_eq_ok.2 hword, ih.2 hrest]

/-- The program of an artifact is its case, and its words denote it. -/
theorem program_eq_ok {artifact : Artifact} {program : TestProgram} :
    artifact.program = .ok program ↔ artifact.instructionsHex ≠ [] ∧
      List.Forall₂ Denotes artifact.instructionsHex artifact.case.instructions ∧
      program = artifact.case := by
  have hread := @readWords_eq_ok 0 artifact.instructionsHex artifact.case.instructions
  unfold Artifact.program
  constructor
  · intro h
    cases hwords : readWords 0 artifact.instructionsHex with
    | error e => simp [hwords] at h
    | ok instructions =>
        simp only [hwords] at h
        split_ifs at h with hempty hsame
        subst hsame
        have hall := hread.1 hwords
        refine ⟨?_, hall, (Except.ok.inj h).symm⟩
        intro hnil
        rw [hnil, List.forall₂_nil_left_iff] at hall
        exact hempty (by rw [hall]; rfl)
  · rintro ⟨hne, hall, rfl⟩
    have hempty : ¬artifact.case.instructions.isEmpty = true := by
      rw [List.isEmpty_iff]
      intro hnil
      rw [hnil, List.forall₂_nil_right_iff] at hall
      exact hne hall
    simp only [hread.2 hall, if_neg hempty, dif_pos]

/-- A word that denotes an instruction is its word, up to letter case, exactly when
it has ten characters and no sign. -/
theorem lowerCase_of_denotes {word : String} {instruction : UInt32} (h : Denotes word instruction) :
    word.toList.map Char.toLower = ("0x" ++ paddedHex 8 instruction.toNat).toList ↔
      word.toList.length = 10 ∧ '+' ∉ word.toList := by
  have hwritten : ("0x" ++ paddedHex 8 instruction.toNat).toList =
      '0' :: 'x' :: zeroPad 8 (Nat.toDigits 16 instruction.toNat) := by
    rw [String.toList_append, toList_paddedHex]
    rfl
  have hlength : (zeroPad 8 (Nat.toDigits 16 instruction.toNat)).length = 8 :=
    length_zeroPad (length_toDigits_le (by omega) instruction.toNat_lt)
  obtain ⟨digits, hword, heq⟩ := h
  rw [hwritten]
  constructor
  · intro hcase
    refine ⟨?_, fun hplus => ?_⟩
    · have := congrArg List.length hcase
      rw [List.length_map, List.length_cons, List.length_cons, hlength] at this
      exact this
    · have hmem : '+' ∈ word.toList.map Char.toLower := List.mem_map.2 ⟨'+', hplus, rfl⟩
      rw [hcase] at hmem
      have hdigit : '+' ∈ zeroPad 8 (Nat.toDigits 16 instruction.toNat) := by simpa using hmem
      exact absurd (isLowerHex_of_mem_zeroPad hdigit) (by decide)
  · rintro ⟨hten, hplus⟩
    rcases hword with hword | hword
    · rw [hword] at hten ⊢
      have height : digits.length = 8 := by simpa using hten
      rw [List.map_cons, List.map_cons, heq, height]
      rfl
    · rw [hword] at hplus
      exact absurd (by simp) hplus

theorem wordsExact_iff (artifact : Artifact) : WordsExact artifact ↔ WordsPlain artifact := by
  have hcase : List.Forall₂ Denotes artifact.instructionsHex artifact.case.instructions →
      (artifact.instructionsHex.map (fun word => word.toList.map Char.toLower) =
        (hexWords artifact.case.instructions).map String.toList ↔
        ∀ word ∈ artifact.instructionsHex, word.toList.length = 10 ∧ '+' ∉ word.toList) := by
    generalize artifact.instructionsHex = words
    generalize artifact.case.instructions = instructions
    intro hall
    induction hall with
    | nil => simp [hexWords]
    | @cons word instruction words instructions hword _ ih =>
        rw [hexWords, List.map_cons, List.map_cons, List.map_cons, ← hexWords, List.cons.injEq, ih,
          List.forall_mem_cons]
        exact and_congr_left fun _ => lowerCase_of_denotes hword
  constructor
  · intro h hne hall
    exact (hcase hall).1 (h artifact.case (program_eq_ok.2 ⟨hne, hall, rfl⟩))
  · intro h program hprogram
    obtain ⟨hne, hall, rfl⟩ := program_eq_ok.1 hprogram
    exact (hcase hall).2 (h hne hall)

/-- The words of a program denote it. -/
theorem denotes_hexWords (instructions : List UInt32) :
    List.Forall₂ Denotes (hexWords instructions) instructions := by
  rw [hexWords, List.forall₂_map_left_iff, List.forall₂_same]
  intro instruction _
  have hlength : (zeroPad 8 (Nat.toDigits 16 instruction.toNat)).length = 8 :=
    length_zeroPad (length_toDigits_le (by omega) instruction.toNat_lt)
  refine ⟨zeroPad 8 (Nat.toDigits 16 instruction.toNat), Or.inl ?_, ?_⟩
  · rw [String.toList_append, toList_paddedHex]
    rfl
  · rw [hlength]
    conv_rhs => rw [← List.map_id (zeroPad 8 (Nat.toDigits 16 instruction.toNat))]
    refine List.map_congr_left fun c hc => ?_
    have hcode := (isLowerHex_of_mem_zeroPad hc).code
    unfold Char.toLower
    rw [dif_neg]
    · rfl
    · rintro ⟨hlow, hhigh⟩
      have hlow : 65 ≤ c.toNat := hlow
      have hhigh : c.toNat ≤ 90 := hhigh
      omega

/-! ## Both codecs -/

/-- What the formatters write is read back; what the readers accept is what the
formatters write, and they do not panic, exactly for plain inputs. -/
theorem hex_codecs_exact_iff (text : List Char) (packets : List PacketBytes)
    (artifact : Artifact) :
    (packets ≠ [] → lines text = (hexBytes packets).map String.toList →
      parsePacketHex text = .ok packets) ∧
    (artifact.case.instructions ≠ [] →
      artifact.instructionsHex = hexWords artifact.case.instructions →
      artifact.program = .ok artifact.case) ∧
    (PacketTextExact text ↔ PacketTextPlain text) ∧
    (WordsExact artifact ↔ WordsPlain artifact) := by
  refine ⟨fun hne htext => ?_, fun hne hwords => ?_, packetTextExact_iff text, wordsExact_iff artifact⟩
  · rw [hexBytes_toList] at htext
    exact parsePacketHex_of_lines hne htext
  · have hall := denotes_hexWords artifact.case.instructions
    rw [← hwords] at hall
    refine program_eq_ok.2 ⟨fun hnil => hne ?_, hall, rfl⟩
    rw [hnil, List.forall₂_nil_left_iff] at hall
    exact hall

/-- A signed pair is accepted as a byte. -/
def signedLine : List Char := '+' :: List.replicate 175 '0'

/-- The first pair ends inside the second character, which takes two bytes. -/
def splitLine : List Char := '0' :: 'é' :: List.replicate 173 '0'

/-- The word of an instruction without its leading zeros. -/
def shortWord : Artifact := { addArtifact with instructionsHex := ["0x33"] }

theorem hex_codecs_not_exact :
    parsePacketHex signedLine = .ok [Vector.replicate 88 0] ∧ ¬PacketTextExact signedLine ∧
      parsePacketHex splitLine = .error .panic ∧ ¬PacketTextExact splitLine ∧
      shortWord.program = .ok addCase ∧ ¬WordsExact shortWord := by
  have hsigned : parsePacketHex signedLine = .ok [Vector.replicate 88 0] := by
    obtain ⟨packets, hpackets, rfl⟩ := exists_ok_of_toOption_map (f := id)
      (show (parsePacketHex signedLine).toOption.map id = some [Vector.replicate 88 0] by
        decide +kernel)
    exact hpackets
  have hsplit : parsePacketHex splitLine = .error .panic := by decide +kernel
  have hshort : shortWord.program = .ok addCase :=
    program_eq_ok.2 ⟨by decide, List.Forall₂.cons ⟨['3', '3'], Or.inl rfl, rfl⟩ List.Forall₂.nil, rfl⟩
  refine ⟨hsigned, fun h => ?_, hsplit, fun h => h.no_panic hsplit, hshort, fun h => ?_⟩
  · exact absurd (h.lines _ hsigned) (by decide +kernel)
  · exact absurd (h _ hshort) (by decide +kernel)

end CkbSail.DiffTest
