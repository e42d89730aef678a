import CkbSail.SailRunner.PacketHex

/-!
# What the captured-packet format accepts

A line is read pair by pair.  `readPacket_eq_ok` and `readPacket_panic_iff` say
which lines are read and which make the reader panic; the loop over the lines
stops at the first line that is not read.
-/

namespace CkbSail.SailRunner

open RustStd

/-! ## Filling an array -/

section Fill

variable {ε α : Type} {n : Nat} {f : Fin n → Except ε α}

theorem ofFnM_eq_ok {values : Vector α n} :
    Vector.ofFnM f = .ok values ↔ ∀ i : Fin n, f i = .ok values[i] := by
  induction n with
  | zero =>
      rw [Vector.ofFnM_zero]
      constructor
      · intro _ i
        exact i.elim0
      · intro _
        exact congrArg Except.ok (Vector.ext fun i hi => absurd hi (Nat.not_lt_zero i))
  | succ n ih =>
      rw [Vector.ofFnM_succ]
      constructor
      · intro h i
        cases hinit : Vector.ofFnM fun i : Fin n => f i.castSucc with
        | error e => simp [hinit, bind, Except.bind] at h
        | ok init =>
            cases hlast : f (Fin.last n) with
            | error e => simp [hinit, hlast, bind, Except.bind] at h
            | ok last =>
                simp only [hinit, hlast, bind, Except.bind, pure, Except.pure,
                  Except.ok.injEq] at h
                subst h
                refine Fin.lastCases ?_ (fun i => ?_) i
                · rw [hlast]
                  simp
                · rw [ih.1 hinit i]
                  simp
      · intro h
        have hinit : (Vector.ofFnM fun i : Fin n => f i.castSucc) = .ok values.pop := by
          refine ih.2 fun i => ?_
          rw [h i.castSucc]
          simp
        have hlast := h (Fin.last n)
        rw [hinit]
        simp only [bind, Except.bind, hlast, pure, Except.pure, Except.ok.injEq]
        ext i hi
        rw [Vector.getElem_push]
        split_ifs with hlt
        · simp
        · have : i = n := by omega
          simp [this]

/-- The first index that fails decides the error. -/
theorem ofFnM_eq_error {e : ε} :
    Vector.ofFnM f = .error e ↔
      ∃ i : Fin n, f i = .error e ∧ ∀ j < i, ∃ value, f j = .ok value := by
  induction n generalizing e with
  | zero =>
      rw [Vector.ofFnM_zero]
      constructor
      · intro h
        cases h
      · rintro ⟨i, -⟩
        exact i.elim0
  | succ n ih =>
      rw [Vector.ofFnM_succ]
      cases hinit : Vector.ofFnM fun i : Fin n => f i.castSucc with
      | error e' =>
          simp only [bind, Except.bind, Except.error.injEq]
          obtain ⟨i, hi, hbefore⟩ := ih.1 hinit
          constructor
          · rintro rfl
            refine ⟨i.castSucc, hi, fun j hj => ?_⟩
            exact hbefore (j.castLT (Nat.lt_trans hj i.isLt)) hj
          · rintro ⟨k, hk, hbelow⟩
            rcases Nat.lt_trichotomy i k with hlt | heq | hgt
            · obtain ⟨value, hvalue⟩ := hbelow i.castSucc hlt
              rw [hi] at hvalue
              cases hvalue
            · obtain rfl : i.castSucc = k := Fin.ext heq
              exact Except.error.inj (hi.symm.trans hk)
            · obtain ⟨value, hvalue⟩ := hbefore (k.castLT (Nat.lt_trans hgt i.isLt)) hgt
              rw [show (k.castLT (Nat.lt_trans hgt i.isLt)).castSucc = k from rfl, hk] at hvalue
              cases hvalue
      | ok init =>
          have hok := ofFnM_eq_ok.1 hinit
          simp only [bind, Except.bind]
          constructor
          · intro h
            refine ⟨Fin.last n, ?_, fun j hj => ⟨_, hok (j.castLT hj)⟩⟩
            cases hlast : f (Fin.last n) with
            | error e' => simpa [hlast] using h
            | ok last => simp [hlast, pure, Except.pure] at h
          · rintro ⟨i, hi, -⟩
            have hlast : i = Fin.last n := by
              refine Fin.eq_last_of_not_lt fun hlt => ?_
              have hvalue := hok (i.castLT hlt)
              rw [show (i.castLT hlt).castSucc = i from rfl, hi] at hvalue
              cases hvalue
            rw [← hlast, hi]

end Fill

/-! ## Pairs of digits -/

/-- Two characters that are read as a byte: two digits, or a sign and a digit. -/
def IsPair (high low : Char) : Prop :=
  (high = '+' ∨ (toDigit 16 high).isSome) ∧ (toDigit 16 low).isSome

instance (high low : Char) : Decidable (IsPair high low) := inferInstanceAs (Decidable (_ ∧ _))

/-- Consecutive pairs. -/
def IsPairs : List Char → Prop
  | [] => True
  | [_] => False
  | high :: low :: rest => IsPair high low ∧ IsPairs rest

instance decidableIsPairs : (text : List Char) → Decidable (IsPairs text)
  | [] => isTrue trivial
  | [_] => isFalse not_false
  | high :: low :: rest =>
      have := decidableIsPairs rest
      inferInstanceAs (Decidable (IsPair high low ∧ IsPairs rest))

theorem utf8Size_of_toDigit {c : Char} (h : (toDigit 16 c).isSome) : c.utf8Size = 1 := by
  have hcode : c.toNat ≤ 127 := by
    obtain ⟨digit, hdigit⟩ := Option.isSome_iff_exists.1 h
    rw [toDigit, Option.filter_eq_some_iff] at hdigit
    obtain ⟨hdigit, -⟩ := hdigit
    split_ifs at hdigit with hdecimal hlower hupper
    · exact Nat.le_trans hdecimal.2 (by decide)
    · exact Nat.le_trans hlower.2 (by decide)
    · exact Nat.le_trans hupper.2 (by decide)
  rw [Char.utf8Size_eq_one_iff, UInt32.le_iff_toNat_le]
  exact hcode

theorem IsPair.utf8Size {high low : Char} (h : IsPair high low) :
    high.utf8Size = 1 ∧ low.utf8Size = 1 := by
  refine ⟨?_, utf8Size_of_toDigit h.2⟩
  rcases h.1 with rfl | hdigit
  · rfl
  · exact utf8Size_of_toDigit hdigit

theorem accumulate_digit {c : Char} {digit : Nat} (h : toDigit 16 c = some digit) (cs : List Char) :
    accumulate 256 16 (c :: cs) 0 = accumulate 256 16 cs digit := by
  have hlt := (toDigit_eq_some_iff.1 h).1
  simp only [accumulate, h, Nat.zero_mul, Nat.zero_add, if_pos (by omega : digit < 256)]

theorem accumulate_pair {high low : Char} {a b : Nat} (ha : toDigit 16 high = some a)
    (hb : toDigit 16 low = some b) : accumulate 256 16 [high, low] 0 = .ok (a * 16 + b) := by
  have hlta := (toDigit_eq_some_iff.1 ha).1
  have hltb := (toDigit_eq_some_iff.1 hb).1
  rw [accumulate_digit ha]
  simp only [accumulate, hb, if_pos (by omega : a * 16 + b < 256)]

/-- A pair is read; its value fits a byte. -/
theorem fromStrRadix_of_isPair {high low : Char} (h : IsPair high low) :
    ∃ byte, fromStrRadix 256 16 [high, low] = .ok byte := by
  obtain ⟨b, hb⟩ := Option.isSome_iff_exists.1 h.2
  rcases h.1 with rfl | hdigit
  · refine ⟨b, fromStrRadix_eq_ok.2 ⟨[low], Or.inr rfl, List.cons_ne_nil _ _, ?_⟩⟩
    rw [accumulate_digit hb]
    rfl
  · obtain ⟨a, ha⟩ := Option.isSome_iff_exists.1 hdigit
    exact ⟨a * 16 + b, fromStrRadix_eq_ok.2
      ⟨[high, low], Or.inl rfl, List.cons_ne_nil _ _, accumulate_pair ha hb⟩⟩

/-- Every character of a text of digits is a digit. -/
theorem isSome_of_accumulate {cs : List Char} {n : Nat} (h : accumulate 256 16 cs 0 = .ok n) :
    ∀ c ∈ cs, (toDigit 16 c).isSome := by
  induction cs using List.reverseRecOn generalizing n with
  | nil => simp
  | append_singleton cs c ih =>
      obtain ⟨-, hcs, hc⟩ := accumulate_snoc_eq_ok.1 h
      intro d hd
      rcases List.mem_append.1 hd with hd | hd
      · exact ih hcs d hd
      · rw [List.mem_singleton.1 hd, hc]
        rfl

/-- What is read from two bytes is a pair. -/
theorem isPair_of_fromStrRadix {text : List Char} {byte : Nat} (hlen : byteLen text = 2)
    (h : fromStrRadix 256 16 text = .ok byte) : ∃ high low, text = [high, low] ∧ IsPair high low := by
  obtain ⟨digits, htext, hne, hvalue⟩ := fromStrRadix_eq_ok.1 h
  have hdigits := isSome_of_accumulate hvalue
  have hbytes : byteLen digits = digits.length :=
    byteLen_of_ascii fun c hc => utf8Size_of_toDigit (hdigits c hc)
  rcases htext with rfl | rfl
  · obtain ⟨high, low, rfl⟩ := List.length_eq_two.1 (hbytes.symm.trans hlen)
    exact ⟨high, low, rfl, Or.inr (hdigits high (by simp)), hdigits low (by simp)⟩
  · rw [byteLen_cons, show ('+' : Char).utf8Size = 1 from rfl] at hlen
    obtain ⟨low, rfl⟩ := List.length_eq_one_iff.1 (by omega : digits.length = 1)
    exact ⟨'+', low, rfl, Or.inl rfl, hdigits low (by simp)⟩

theorem IsPairs.byteLen {text : List Char} (h : IsPairs text) : byteLen text = text.length := by
  induction text using IsPairs.induct with
  | case1 => rfl
  | case2 c => exact h.elim
  | case3 high low rest ih =>
      obtain ⟨hhigh, hlow⟩ := h.1.utf8Size
      rw [byteLen_cons, byteLen_cons, hhigh, hlow, ih h.2, List.length_cons, List.length_cons]
      omega

theorem IsPairs.append {left right : List Char} (hl : IsPairs left) (hr : IsPairs right) :
    IsPairs (left ++ right) := by
  induction left using IsPairs.induct with
  | case1 => exact hr
  | case2 c => exact hl.elim
  | case3 high low rest ih => exact ⟨hl.1, ih hl.2⟩

theorem bytesOfPairs_append {left : List Char} {right : List Char} {bytes bytes' : List UInt8}
    (hpairs : IsPairs left) (hl : bytesOfPairs left = .ok bytes)
    (hr : bytesOfPairs right = .ok bytes') : bytesOfPairs (left ++ right) = .ok (bytes ++ bytes') := by
  induction left using IsPairs.induct generalizing bytes with
  | case1 =>
      obtain rfl : [] = bytes := Except.ok.inj hl
      exact hr
  | case2 c => exact hpairs.elim
  | case3 high low rest ih =>
      rw [bytesOfPairs] at hl
      rw [List.cons_append, List.cons_append, bytesOfPairs]
      cases hbyte : fromStrRadix 256 16 [high, low] with
      | error e => simp [hbyte] at hl
      | ok byte =>
          cases hrest : bytesOfPairs rest with
          | error e => simp [hbyte, hrest] at hl
          | ok tail =>
              obtain rfl : UInt8.ofNat byte :: tail = bytes := by simpa [hbyte, hrest] using hl
              simp only [ih hpairs.2 hrest, List.cons_append]

/-! ## Lines -/

section Line

variable {number : Nat} {text rest : List Char} {index : Nat}

/-- The byte after `index` pairs is read from what follows them. -/
theorem readByte_append (hpairs : IsPairs text) (hindex : text.length = index * 2) :
    readByte number (text ++ rest) index =
      (sliceTo 2 rest).bind fun digits => parseByte number digits := by
  have hslice : sliceFrom (index * 2) (text ++ rest) = .ok rest := by
    rw [← hindex, ← hpairs.byteLen]
    exact sliceFrom_append text rest
  simp only [readByte, slice, hslice, Nat.add_sub_cancel_left]
  cases sliceTo 2 rest <;> rfl

theorem parseByte_eq_ok {digits : List Char} {byte : UInt8} :
    parseByte number digits = .ok byte ↔
      ∃ value, fromStrRadix 256 16 digits = .ok value ∧ UInt8.ofNat value = byte := by
  unfold parseByte
  cases fromStrRadix 256 16 digits <;> simp

theorem parseByte_ne_panic (digits : List Char) : parseByte number digits ≠ .error .panic := by
  unfold parseByte
  cases fromStrRadix 256 16 digits <;> simp

/-- A byte is read exactly from a pair. -/
theorem readByte_eq_ok (hpairs : IsPairs text) (hindex : text.length = index * 2)
    {byte : UInt8} :
    readByte number (text ++ rest) index = .ok byte ↔
      ∃ high low tail, rest = high :: low :: tail ∧ IsPair high low ∧
        bytesOfPairs [high, low] = .ok [byte] := by
  rw [readByte_append hpairs hindex]
  constructor
  · intro h
    by_cases hboundary : IsCharBoundary 2 rest
    · obtain ⟨digits, tail, rfl, hlen, hslice⟩ := sliceTo_of_boundary hboundary
      rw [hslice] at h
      obtain ⟨value, hvalue, rfl⟩ := parseByte_eq_ok.1 h
      obtain ⟨high, low, rfl, hpair⟩ := isPair_of_fromStrRadix hlen hvalue
      exact ⟨high, low, tail, rfl, hpair, by simp [bytesOfPairs, hvalue]⟩
    · rw [sliceTo_of_not_boundary hboundary] at h
      cases h
  · rintro ⟨high, low, tail, rfl, hpair, hbyte⟩
    obtain ⟨hhigh, hlow⟩ := hpair.utf8Size
    have hlen : byteLen [high, low] = 2 := by
      rw [byteLen_cons, byteLen_cons, hhigh, hlow]
      rfl
    have hslice := sliceTo_append [high, low] tail
    rw [hlen] at hslice
    obtain ⟨value, hvalue⟩ := fromStrRadix_of_isPair hpair
    have hbyte : UInt8.ofNat value = byte := by simpa [bytesOfPairs, hvalue] using hbyte
    show (sliceTo 2 ([high, low] ++ tail)).bind _ = _
    rw [hslice]
    exact parseByte_eq_ok.2 ⟨value, hvalue, hbyte⟩

theorem readByte_eq_panic (hpairs : IsPairs text) (hindex : text.length = index * 2) :
    readByte number (text ++ rest) index = .error .panic ↔ ¬IsCharBoundary 2 rest := by
  rw [readByte_append hpairs hindex]
  constructor
  · intro h hboundary
    obtain ⟨digits, -, -, -, hslice⟩ := sliceTo_of_boundary hboundary
    rw [hslice] at h
    exact parseByte_ne_panic digits h
  · intro h
    rw [sliceTo_of_not_boundary h]
    rfl

/-- Bytes that are read one after the other come from consecutive pairs. -/
theorem exists_pairs (number : Nat) (line : List Char) (bytes : List UInt8)
    (h : ∀ (j : Nat) (hj : j < bytes.length), readByte number line j = .ok bytes[j]) :
    ∃ text rest, line = text ++ rest ∧ text.length = bytes.length * 2 ∧ IsPairs text ∧
      bytesOfPairs text = .ok bytes := by
  induction bytes using List.reverseRecOn with
  | nil => exact ⟨[], line, rfl, rfl, trivial, rfl⟩
  | append_singleton bytes byte ih =>
      have hbefore : ∀ (j : Nat) (hj : j < bytes.length),
          readByte number line j = .ok bytes[j] := by
        intro j hj
        rw [h j (by rw [List.length_append]; omega), List.getElem_append_left hj]
      obtain ⟨text, rest, rfl, hlen, hpairs, hbytes⟩ := ih hbefore
      have hlast := h bytes.length (by simp)
      rw [List.getElem_concat_length rfl] at hlast
      obtain ⟨high, low, tail, rfl, hpair, hbyte⟩ := (readByte_eq_ok hpairs hlen).1 hlast
      refine ⟨text ++ [high, low], tail, by simp, ?_, hpairs.append ⟨hpair, trivial⟩,
        bytesOfPairs_append hpairs hbytes hbyte⟩
      rw [List.length_append, List.length_append, hlen]
      simp
      omega

/-- Every byte of a line of pairs is read. -/
theorem readByte_of_isPairs (number : Nat) {line : List Char} (hpairs : IsPairs line)
    (hindex : index * 2 < line.length) (rest : List Char) :
    ∃ byte, readByte number (line ++ rest) index = .ok byte := by
  have hsplit : ∃ text high low tail, line = text ++ high :: low :: tail ∧
      text.length = index * 2 ∧ IsPairs text ∧ IsPair high low := by
    clear rest
    induction line using IsPairs.induct generalizing index with
    | case1 => simp at hindex
    | case2 c => exact hpairs.elim
    | case3 high low rest ih =>
        cases index with
        | zero => exact ⟨[], high, low, rest, rfl, rfl, trivial, hpairs.1⟩
        | succ index =>
            rw [List.length_cons, List.length_cons] at hindex
            obtain ⟨text, high', low', tail, rfl, hlen, htext, hpair⟩ :=
              ih hpairs.2 (by omega : index * 2 < rest.length)
            refine ⟨high :: low :: text, high', low', tail, rfl, ?_, ⟨hpairs.1, htext⟩, hpair⟩
            rw [List.length_cons, List.length_cons, hlen]
            omega
  obtain ⟨text, high, low, tail, rfl, hlen, htext, hpair⟩ := hsplit
  obtain ⟨value, hvalue⟩ := fromStrRadix_of_isPair hpair
  refine ⟨UInt8.ofNat value, ?_⟩
  rw [List.append_assoc]
  exact (readByte_eq_ok htext hlen).2
    ⟨high, low, tail ++ rest, rfl, hpair, by simp [bytesOfPairs, hvalue]⟩

/-- A line of pairs is read. -/
theorem exists_packet (number : Nat) {line : List Char} (hlen : byteLen line = V1_PACKET_BYTES * 2)
    (hpairs : IsPairs line) : ∃ packet, readPacket number line = .ok packet := by
  cases hresult : readPacket number line with
  | ok packet => exact ⟨packet, rfl⟩
  | error fault =>
      obtain ⟨index, hindex, -⟩ := ofFnM_eq_error.1 hresult
      have hlt : index.val * 2 < line.length := by
        rw [← hpairs.byteLen, hlen]
        have := index.isLt
        simp only [V1_PACKET_BYTES]
        omega
      obtain ⟨byte, hbyte⟩ := readByte_of_isPairs number hpairs hlt []
      rw [List.append_nil, hindex] at hbyte
      cases hbyte

/-- A line of the length of a packet is read exactly when it consists of pairs. -/
theorem readPacket_eq_ok {line : List Char} (hlen : byteLen line = V1_PACKET_BYTES * 2)
    {packet : PacketBytes} :
    readPacket number line = .ok packet ↔
      IsPairs line ∧ bytesOfPairs line = .ok packet.toList := by
  have hread : ∀ {packet}, readPacket number line = .ok packet →
      IsPairs line ∧ bytesOfPairs line = .ok packet.toList := by
    intro packet h
    obtain ⟨text, rest, rfl, htext, hpairs, hbytes⟩ := exists_pairs number line
      packet.toList fun j hj => by
        have hindex := ofFnM_eq_ok.1 h ⟨j, by simpa using hj⟩
        simpa using hindex
    have hrest : byteLen rest = 0 := by
      rw [byteLen_append, hpairs.byteLen, htext, Vector.length_toList] at hlen
      exact Nat.add_left_cancel (hlen.trans (Nat.add_zero _).symm)
    obtain rfl := eq_nil_of_byteLen hrest
    rw [List.append_nil]
    exact ⟨hpairs, hbytes⟩
  refine ⟨hread, fun ⟨hpairs, hbytes⟩ => ?_⟩
  obtain ⟨packet', hpacket⟩ := exists_packet number hlen hpairs
  have hbytes' := (hread hpacket).2
  rw [hbytes, Except.ok.injEq] at hbytes'
  rw [hpacket, Vector.toList_inj.1 hbytes']

/-- A line whose first characters are pairs and whose next two bytes are not whole
characters. -/
def Splits (line : List Char) : Prop :=
  ∃ text rest, line = text ++ rest ∧ IsPairs text ∧ rest ≠ [] ∧ ¬IsCharBoundary 2 rest

theorem IsPairs.even {text : List Char} (h : IsPairs text) : ∃ n, text.length = n * 2 := by
  induction text using IsPairs.induct with
  | case1 => exact ⟨0, rfl⟩
  | case2 c => exact h.elim
  | case3 high low rest ih =>
      obtain ⟨n, hn⟩ := ih h.2
      refine ⟨n + 1, ?_⟩
      rw [List.length_cons, List.length_cons]
      omega

theorem readPacket_eq_panic (number : Nat) {line : List Char}
    (hlen : byteLen line = V1_PACKET_BYTES * 2) :
    readPacket number line = .error .panic ↔ Splits line := by
  constructor
  · intro h
    obtain ⟨index, hpanic, hbefore⟩ := ofFnM_eq_error.1 h
    choose byte hbyte using hbefore
    obtain ⟨text, rest, rfl, htext, hpairs, -⟩ := exists_pairs number line
      (List.ofFn fun j : Fin index.val => byte ⟨j.val, by omega⟩ j.isLt) fun j hj => by
          rw [List.length_ofFn] at hj
          rw [List.getElem_ofFn]
          exact hbyte ⟨j, by omega⟩ hj
    rw [List.length_ofFn] at htext
    refine ⟨text, rest, rfl, hpairs, ?_, (readByte_eq_panic hpairs htext).1 hpanic⟩
    rintro rfl
    have := index.isLt
    rw [List.append_nil, hpairs.byteLen, htext, V1_PACKET_BYTES] at hlen
    omega
  · rintro ⟨text, rest, rfl, hpairs, hne, hboundary⟩
    obtain ⟨n, hn⟩ := hpairs.even
    have hpos : byteLen rest ≠ 0 := fun hzero => hne (eq_nil_of_byteLen hzero)
    have hlt : n < V1_PACKET_BYTES := by
      rw [byteLen_append, hpairs.byteLen, hn] at hlen
      omega
    refine ofFnM_eq_error.2 ⟨⟨n, hlt⟩, (readByte_eq_panic hpairs hn).2 hboundary, fun j hj => ?_⟩
    have hj : j.val < n := hj
    exact readByte_of_isPairs number hpairs (by omega) rest

end Line

/-! ## The text -/

/-- The trimmed lines that should hold a packet. -/
def packetLines (text : List Char) : List (List Char) :=
  ((lines text).map trim).filter fun line => !isSkipped line

/-- A line that is read as a packet. -/
structure Readable (line : List Char) : Prop where
  length : byteLen line = V1_PACKET_BYTES * 2
  pairs : IsPairs line

/-- A line at which the reader panics. -/
structure SplitsChar (line : List Char) : Prop where
  length : byteLen line = V1_PACKET_BYTES * 2
  splits : Splits line

/-- What a pass of the loop does with a line that is not skipped. -/
theorem parsePacketLine_cases (number : Nat) {line : List Char} (hskip : isSkipped line = false) :
    (∃ packet, parsePacketLine number line = .ok (some packet) ∧
        (Readable line ∧ bytesOfPairs line = .ok packet.toList) ∧ ¬SplitsChar line) ∨
      (parsePacketLine number line = .error .panic ∧ ¬Readable line ∧ SplitsChar line) ∨
      ∃ e, parsePacketLine number line = .error (.error e) ∧ ¬Readable line ∧
        ¬SplitsChar line := by
  rw [parsePacketLine, hskip]
  simp only [Bool.false_eq_true, if_false]
  by_cases hlen : byteLen line = V1_PACKET_BYTES * 2
  · have hok : ∀ {packet}, readPacket number line = .ok packet ↔ _ := readPacket_eq_ok hlen
    have hpanic := readPacket_eq_panic number hlen
    rw [if_neg (not_not.2 hlen)]
    cases hread : readPacket number line with
    | ok packet =>
        obtain ⟨hpairs, hbytes⟩ := hok.1 hread
        refine Or.inl ⟨packet, rfl, ⟨⟨hlen, hpairs⟩, hbytes⟩, fun hsplits => ?_⟩
        rw [hpanic.2 hsplits.splits] at hread
        cases hread
    | error fault =>
        have hnot : ¬Readable line := by
          intro hreadable
          obtain ⟨packet, hpacket⟩ := exists_packet number hlen hreadable.pairs
          rw [hread] at hpacket
          cases hpacket
        cases fault with
        | panic => exact Or.inr (Or.inl ⟨rfl, hnot, hlen, hpanic.1 hread⟩)
        | error e =>
            refine Or.inr (Or.inr ⟨e, rfl, hnot, fun hsplits => ?_⟩)
            rw [hpanic.2 hsplits.splits] at hread
            cases hread
  · rw [if_pos hlen]
    exact Or.inr (Or.inr ⟨_, rfl, fun h => hlen h.length, fun h => hlen h.length⟩)

/-- The packets are read in the order of their lines. -/
theorem parsePacketLines_eq_ok (number : Nat) {ls : List (List Char)}
    {packets : List PacketBytes} :
    parsePacketLines number ls = .ok packets ↔
      List.Forall₂ (fun line packet => Readable line ∧ bytesOfPairs line = .ok packet.toList)
        ((ls.map trim).filter fun line => !isSkipped line) packets := by
  induction ls generalizing number packets with
  | nil => simp [parsePacketLines, eq_comm]
  | cons line ls ih =>
      rw [parsePacketLines, List.map_cons]
      cases hskip : isSkipped (trim line) with
      | true =>
          rw [List.filter_cons_of_neg (by simp [hskip]), ← ih (number + 1),
            parsePacketLine, hskip]
          cases parsePacketLines (number + 1) ls <;> simp
      | false =>
          rw [List.filter_cons_of_pos (by simp [hskip])]
          rcases parsePacketLine_cases number hskip with
            ⟨packet, hread, ⟨hreadable, hbytes⟩, -⟩ | ⟨hread, hnot, -⟩ | ⟨e, hread, hnot, -⟩
          · rw [hread]
            constructor
            · intro h
              cases hrest : parsePacketLines (number + 1) ls with
              | error fault => simp [hrest] at h
              | ok rest =>
                  obtain rfl : packet :: rest = packets := by simpa [hrest] using h
                  exact List.Forall₂.cons ⟨hreadable, hbytes⟩ ((ih _).1 hrest)
            · intro hall
              obtain ⟨packet', rest, ⟨-, hbytes'⟩, hrest, rfl⟩ := List.forall₂_cons_left_iff.1 hall
              rw [hbytes, Except.ok.injEq] at hbytes'
              rw [(ih _).2 hrest, Vector.toList_inj.1 hbytes']
              rfl
          all_goals
            rw [hread]
            simp only [reduceCtorEq, false_iff]
            intro hall
            obtain ⟨packet, rest, ⟨hreadable, -⟩, -⟩ := List.forall₂_cons_left_iff.1 hall
            exact hnot hreadable

/-- The reader panics at the first line that is not read, if it does at all. -/
theorem parsePacketLines_eq_panic (number : Nat) {ls : List (List Char)} :
    parsePacketLines number ls = .error .panic ↔
      ∃ before line after,
        ((ls.map trim).filter fun line => !isSkipped line) = before ++ line :: after ∧
          (∀ read ∈ before, Readable read) ∧ SplitsChar line := by
  induction ls generalizing number with
  | nil => simp [parsePacketLines]
  | cons line ls ih =>
      rw [List.map_cons]
      cases hskip : isSkipped (trim line) with
      | true =>
          rw [List.filter_cons_of_neg (by simp [hskip]), ← ih (number + 1),
            parsePacketLines, parsePacketLine, hskip]
          cases parsePacketLines (number + 1) ls <;> simp
      | false =>
          rw [List.filter_cons_of_pos (by simp [hskip])]
          rcases parsePacketLine_cases number hskip with
            ⟨packet, hread, ⟨hreadable, -⟩, hnosplit⟩ | ⟨hread, -, hsplits⟩ |
              ⟨e, hread, hnot, hnosplit⟩
          · have hstep : parsePacketLines number (line :: ls) = .error .panic ↔
                parsePacketLines (number + 1) ls = .error .panic := by
              rw [parsePacketLines, hread]
              cases parsePacketLines (number + 1) ls <;> simp
            rw [hstep, ih]
            constructor
            · rintro ⟨before, bad, after, heq, hall, hbad⟩
              refine ⟨trim line :: before, bad, after, by rw [heq]; rfl, ?_, hbad⟩
              exact List.forall_mem_cons.2 ⟨hreadable, hall⟩
            · rintro ⟨before, bad, after, heq, hall, hbad⟩
              cases before with
              | nil =>
                  obtain ⟨rfl, -⟩ := List.cons.inj heq
                  exact absurd hbad hnosplit
              | cons first before =>
                  obtain ⟨-, heq⟩ := List.cons.inj heq
                  exact ⟨before, bad, after, heq, (List.forall_mem_cons.1 hall).2, hbad⟩
          · rw [parsePacketLines, hread]
            simp only [true_iff]
            exact ⟨[], _, _, rfl, by simp, hsplits⟩
          · rw [parsePacketLines, hread]
            simp only [Except.error.injEq, reduceCtorEq, false_iff]
            rintro ⟨before, bad, after, heq, hall, hbad⟩
            cases before with
            | nil =>
                obtain ⟨rfl, -⟩ := List.cons.inj heq
                exact hnosplit hbad
            | cons first before =>
                obtain ⟨rfl, -⟩ := List.cons.inj heq
                exact hnot (hall _ List.mem_cons_self)

theorem parsePacketHex_eq_ok {text : List Char} {packets : List PacketBytes} :
    parsePacketHex text = .ok packets ↔ packets ≠ [] ∧
      List.Forall₂ (fun line packet => Readable line ∧ bytesOfPairs line = .ok packet.toList)
        (packetLines text) packets := by
  rw [packetLines, ← parsePacketLines_eq_ok 0, parsePacketHex]
  cases parsePacketLines 0 (lines text) with
  | error fault => simp
  | ok read =>
      simp only [List.isEmpty_iff]
      split_ifs with hempty
      · subst hempty
        simp [eq_comm]
      · simp only [Except.ok.injEq, iff_and_self]
        rintro rfl
        exact hempty

theorem parsePacketHex_eq_panic {text : List Char} :
    parsePacketHex text = .error .panic ↔
      ∃ before line after, packetLines text = before ++ line :: after ∧
        (∀ read ∈ before, Readable read) ∧ SplitsChar line := by
  rw [packetLines, ← parsePacketLines_eq_panic 0, parsePacketHex]
  cases parsePacketLines 0 (lines text) with
  | error fault => simp
  | ok read =>
      simp only [reduceCtorEq, iff_false]
      split_ifs <;> simp

theorem readable_of_forall₂ {ls : List (List Char)} {packets : List PacketBytes}
    (h : List.Forall₂ (fun line packet => Readable line ∧
      bytesOfPairs line = .ok packet.toList) ls packets) : ∀ line ∈ ls, Readable line := by
  induction h with
  | nil => simp
  | cons hline _ ih => exact List.forall_mem_cons.2 ⟨hline.1, ih⟩

/-- Readable lines are read as some packets. -/
theorem exists_packets {ls : List (List Char)} (h : ∀ line ∈ ls, Readable line) :
    ∃ packets : List PacketBytes, List.Forall₂ (fun line packet => Readable line ∧
      bytesOfPairs line = .ok packet.toList) ls packets := by
  induction ls with
  | nil => exact ⟨[], List.Forall₂.nil⟩
  | cons line ls ih =>
      obtain ⟨hline, hrest⟩ := List.forall_mem_cons.1 h
      obtain ⟨packet, hpacket⟩ := exists_packet 0 hline.length hline.pairs
      obtain ⟨packets, hpackets⟩ := ih hrest
      have hbytes := ((readPacket_eq_ok hline.length).1 hpacket).2
      exact ⟨packet :: packets, List.Forall₂.cons ⟨hline, hbytes⟩ hpackets⟩

/-! ## Canonical digits -/

/-- A pair of digits is, up to letter case, what the formatter writes. -/
theorem lowerCase_pair {high low : Char} {value : Nat} (hplus : high ≠ '+')
    (h : fromStrRadix 256 16 [high, low] = .ok value) :
    value < 256 ∧ [high, low].map Char.toLower = zeroPad 2 (Nat.toDigits 16 value) := by
  obtain ⟨digits, htext, -, hvalue⟩ := fromStrRadix_eq_ok.1 h
  rcases htext with rfl | hsign
  · obtain ⟨hlt, hpow, hdigits⟩ := (accumulate_eq_ok (by omega)).1 hvalue
    exact ⟨hlt, hdigits.trans (zeroPad_eq_fixedDigits (by simp) hpow).symm⟩
  · exact absurd (List.cons.inj hsign).1 hplus

/-- A line of pairs is, up to letter case, what the formatter writes, unless it
holds a sign. -/
theorem lowerCase_of_bytesOfPairs {line : List Char} {bytes : List UInt8}
    (hpairs : IsPairs line) (hbytes : bytesOfPairs line = .ok bytes) :
    line.map Char.toLower =
        bytes.flatMap (fun byte => zeroPad 2 (Nat.toDigits 16 byte.toNat)) ↔ '+' ∉ line := by
  constructor
  · intro h hplus
    have hmem : '+' ∈ line.map Char.toLower := List.mem_map.2 ⟨'+', hplus, rfl⟩
    rw [h] at hmem
    obtain ⟨byte, -, hdigit⟩ := List.mem_flatMap.1 hmem
    exact absurd (isLowerHex_of_mem_zeroPad hdigit) (by decide)
  · intro hplus
    induction line using IsPairs.induct generalizing bytes with
    | case1 =>
        obtain rfl : [] = bytes := Except.ok.inj hbytes
        rfl
    | case2 c => exact hpairs.elim
    | case3 high low rest ih =>
        rw [bytesOfPairs] at hbytes
        cases hvalue : fromStrRadix 256 16 [high, low] with
        | error e => simp [hvalue] at hbytes
        | ok value =>
            cases hrest : bytesOfPairs rest with
            | error e => simp [hvalue, hrest] at hbytes
            | ok tail =>
                obtain rfl : UInt8.ofNat value :: tail = bytes := by
                  simpa [hvalue, hrest] using hbytes
                simp only [List.mem_cons, not_or] at hplus
                obtain ⟨hlt, hpair⟩ := lowerCase_pair (Ne.symm hplus.1) hvalue
                have hbyte : (UInt8.ofNat value).toNat = value := UInt8.toNat_ofNat_of_lt' hlt
                rw [List.flatMap_cons, hbyte, ← hpair, ← ih hpairs.2 hrest hplus.2.2]
                rfl

theorem isPairs_of_lowerHex {line : List Char} (h : ∀ c ∈ line, IsLowerHex c)
    (heven : line.length % 2 = 0) : IsPairs line := by
  have hdigit : ∀ c, IsLowerHex c → (toDigit 16 c).isSome := by
    intro c hc
    have hcode := hc.code
    have hc' : c = Char.ofNat c.toNat := c.ofNat_toNat.symm
    generalize c.toNat = n at *
    subst hc'
    rcases hcode with ⟨hlow, hhigh⟩ | ⟨hlow, hhigh⟩ <;> interval_cases n <;> decide
  induction line using IsPairs.induct with
  | case1 => trivial
  | case2 c => simp at heven
  | case3 high low rest ih =>
      rw [List.length_cons, List.length_cons] at heven
      refine ⟨⟨Or.inr (hdigit high (h high (by simp))), hdigit low (h low (by simp))⟩, ?_⟩
      exact ih (fun c hc => h c (by simp [hc])) (by omega)

/-- The digits of a packet are a line that is read. -/
theorem readable_packetDigits (packet : PacketBytes) : Readable (packetDigits packet) where
  length := by
    rw [byteLen_of_ascii fun c hc => (isLowerHex_of_mem_packetDigits hc).utf8Size_eq,
      length_packetDigits]
    rfl
  pairs := isPairs_of_lowerHex (fun c hc => isLowerHex_of_mem_packetDigits hc)
    (by rw [length_packetDigits])

theorem trim_of_lowerHex {line : List Char} (h : ∀ c ∈ line, IsLowerHex c) : trim line = line := by
  have hstart : ∀ {text : List Char}, (∀ c ∈ text, IsLowerHex c) → trimStart text = text := by
    intro text htext
    cases text with
    | nil => rfl
    | cons c cs => exact trimStart_of_head (htext c List.mem_cons_self).not_whitespace
  rw [trim, hstart h, hstart fun c hc => h c (List.mem_reverse.1 hc), List.reverse_reverse]

/-- The lines of packets, written by the formatter, are read back. -/
theorem parsePacketHex_of_lines {packets : List PacketBytes} (hne : packets ≠ [])
    {text : List Char} (htext : lines text = packets.map packetDigits) :
    parsePacketHex text = .ok packets := by
  have hlines : packetLines text = packets.map packetDigits := by
    have htrim : (packets.map packetDigits).map trim = packets.map packetDigits := by
      rw [List.map_map]
      exact List.map_congr_left fun packet _ =>
        trim_of_lowerHex fun c hc => isLowerHex_of_mem_packetDigits hc
    rw [packetLines, htext, htrim, List.filter_eq_self]
    intro line hline
    obtain ⟨packet, -, rfl⟩ := List.mem_map.1 hline
    have hlen := length_packetDigits packet
    cases hdigits : packetDigits packet with
    | nil => rw [hdigits] at hlen; cases hlen
    | cons c cs =>
        have hmem : c ∈ packetDigits packet := by simp [hdigits]
        have hc : IsLowerHex c := isLowerHex_of_mem_packetDigits hmem
        have hhash : c ≠ '#' := by
          rintro rfl
          exact absurd hc (by decide)
        simp [isSkipped, hhash]
  refine parsePacketHex_eq_ok.2 ⟨hne, ?_⟩
  rw [hlines, List.forall₂_map_left_iff, List.forall₂_same]
  exact fun packet _ => ⟨readable_packetDigits packet, bytesOfPairs_digits packet.toList⟩

end CkbSail.SailRunner
