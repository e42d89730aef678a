import CkbSail.SailRunner.RvfiText

/-!
# Where number parsing is exact

Numerals against what `parseNumber` reads.  Only the last digits of a long
hexadecimal or binary number are looked at, they are cut off by bytes, and the
standard library accepts a sign.
-/

namespace CkbSail.SailRunner

open RustStd

/-! ## Numerals -/

/-- A token as a numeral: decimal and at most the largest 64-bit word, or
hexadecimal or binary of any length. -/
inductive NumeralOf : List Char → Nat → Prop
  | decimal {text : List Char} (h : IsNumeral 10 text) (hfits : numeralValue 10 text < 2 ^ 64) :
      NumeralOf text (numeralValue 10 text)
  | hexadecimal {x : Char} {digits : List Char} (hx : x = 'x' ∨ x = 'X')
      (h : IsNumeral 16 digits) : NumeralOf ('0' :: x :: digits) (numeralValue 16 digits)
  | binary {b : Char} {digits : List Char} (hb : b = 'b' ∨ b = 'B') (h : IsNumeral 2 digits) :
      NumeralOf ('0' :: b :: digits) (numeralValue 2 digits)

/-- The first token of a text, without underscores. -/
def Token (raw token : List Char) : Prop :=
  ∃ whole, firstToken raw = some whole ∧ token = whole.filter fun c => c ≠ '_'

/-- What exact parsing of one text means. -/
structure ExactAt (raw : List Char) : Prop where
  value : ∀ value, parseNumber raw = .ok value ↔
    ∃ token n, Token raw token ∧ NumeralOf token n ∧ value = UInt64.ofNat n
  no_panic : parseNumber raw ≠ .error .panic

/-! ## What is read although it is no numeral -/

/-- A sign and digits. -/
def IsSigned (radix : Nat) (text : List Char) : Prop :=
  ∃ digits, text = '+' :: digits ∧ IsNumeral radix digits

/-- The last `width` bytes of the digits begin inside a character, or they are digits
after a sign, or they are digits and what is before them is not. -/
def CutBadly (radix width : Nat) (digits : List Char) : Prop :=
  ¬IsCharBoundary (byteLen digits - width) digits ∨
    ∃ high low, digits = high ++ low ∧ byteLen high = byteLen digits - width ∧
      (IsSigned radix low ∨ (IsNumeral radix low ∧ ∃ c ∈ high, ¬IsDigit radix c))

/-- The tokens that are misread. -/
inductive Misread : List Char → Prop
  | signed {digits : List Char} (h : IsNumeral 10 digits)
      (hfits : numeralValue 10 digits < 2 ^ 64) : Misread ('+' :: digits)
  | hexadecimal {x : Char} {digits : List Char} (hx : x = 'x' ∨ x = 'X')
      (h : CutBadly 16 16 digits) : Misread ('0' :: x :: digits)
  | binary {b : Char} {digits : List Char} (hb : b = 'b' ∨ b = 'B') (h : CutBadly 2 64 digits) :
      Misread ('0' :: b :: digits)

/-! ## The last digits -/

/-- What is done with the digits after a prefix. -/
def readCut (radix width : Nat) (digits : List Char) : Except Fault UInt64 :=
  (sliceFrom (byteLen digits - width) digits).bind (parseRadix radix)

section Cut

variable {radix width : Nat} {digits : List Char}

theorem parseRadix_ok_iff (hradix : 0 < radix) {value : UInt64} :
    parseRadix radix digits = .ok value ↔
      ∃ rest, (digits = rest ∨ digits = '+' :: rest) ∧ IsNumeral radix rest ∧
        numeralValue radix rest < 2 ^ 64 ∧ value = UInt64.ofNat (numeralValue radix rest) := by
  have hresult : parseRadix radix digits = .ok value ↔
      ∃ n, fromStrRadix (2 ^ 64) radix digits = .ok n ∧ value = UInt64.ofNat n := by
    rw [parseRadix]
    cases fromStrRadix (2 ^ 64) radix digits <;> simp [eq_comm]
  rw [hresult]
  constructor
  · rintro ⟨n, hread, rfl⟩
    obtain ⟨rest, htext, hnumeral, rfl, hlt⟩ :=
      (fromStrRadix_numeral hradix (by decide)).1 hread
    exact ⟨rest, htext, hnumeral, hlt, rfl⟩
  · rintro ⟨rest, htext, hnumeral, hlt, rfl⟩
    exact ⟨_, (fromStrRadix_numeral hradix (by decide)).2 ⟨rest, htext, hnumeral, rfl, hlt⟩, rfl⟩

theorem parseRadix_no_panic : parseRadix radix digits ≠ .error .panic := by
  rw [parseRadix]
  cases fromStrRadix (2 ^ 64) radix digits <;> simp

theorem byteLen_of_digits (h : ∀ c ∈ digits, IsDigit radix c) : byteLen digits = digits.length :=
  byteLen_of_ascii fun c hc => (h c hc).utf8Size_eq

/-- Two splits at the same byte are one split. -/
theorem split_unique {high low high' low' : List Char} (h : high ++ low = high' ++ low')
    (hbytes : byteLen high = byteLen high') : high = high' ∧ low = low' := by
  rcases List.append_eq_append_iff.1 h with ⟨middle, hhigh, hlow⟩ | ⟨middle, hhigh, hlow⟩
  · have hzero : byteLen middle = 0 := by
      rw [hhigh, byteLen_append] at hbytes
      omega
    obtain rfl := eq_nil_of_byteLen hzero
    rw [List.append_nil] at hhigh
    exact ⟨hhigh.symm, hlow⟩
  · have hzero : byteLen middle = 0 := by
      rw [hhigh, byteLen_append] at hbytes
      omega
    obtain rfl := eq_nil_of_byteLen hzero
    rw [List.append_nil] at hhigh
    exact ⟨hhigh, hlow.symm⟩

/-- What reading the last digits of a split has to give. -/
def CutExact (radix width : Nat) (digits : List Char) : Prop :=
  (∀ value, readCut radix width digits = .ok value ↔
    IsNumeral radix digits ∧ value = UInt64.ofNat (numeralValue radix digits)) ∧
  readCut radix width digits ≠ .error .panic

theorem readCut_of_split {high low : List Char} (hdigits : digits = high ++ low)
    (hbytes : byteLen high = byteLen digits - width) :
    readCut radix width digits = parseRadix radix low := by
  rw [readCut, ← hbytes, hdigits, sliceFrom_append]
  rfl

/-- The last digits of a numeral are its value modulo 2 ^ 64. -/
theorem ofNat_numeralValue {high low : List Char} (hpow : radix ^ width = 2 ^ 64)
    (hdigits : digits = high ++ low) (hbytes : byteLen high = byteLen digits - width)
    (hnumeral : IsNumeral radix digits) :
    UInt64.ofNat (numeralValue radix digits) = UInt64.ofNat (numeralValue radix low) := by
  have hhigh : ∀ c ∈ high, IsDigit radix c := fun c hc =>
    hnumeral.2 c (by rw [hdigits]; exact List.mem_append_left _ hc)
  have hlow : ∀ c ∈ low, IsDigit radix c := fun c hc =>
    hnumeral.2 c (by rw [hdigits]; exact List.mem_append_right _ hc)
  have hsum : byteLen digits = high.length + low.length := by
    rw [hdigits, byteLen_append, byteLen_of_digits hhigh, byteLen_of_digits hlow]
  rw [byteLen_of_digits hhigh, hsum] at hbytes
  rw [hdigits, numeralValue_append]
  rcases Nat.lt_or_ge low.length width with hlt | hge
  · have hnil : high = [] := by
      apply List.length_eq_zero_iff.1
      omega
    rw [hnil, numeralValue, List.foldl_nil, Nat.zero_mul, Nat.zero_add]
  · have hwidth : low.length = width ∨ high = [] := by
      rcases Nat.eq_zero_or_pos high.length with hzero | hpos
      · exact Or.inr (List.length_eq_zero_iff.1 hzero)
      · exact Or.inl (by omega)
    rcases hwidth with hwidth | hnil
    · rw [hwidth, hpow, UInt64.ofNat_add, UInt64.ofNat_mul]
      show UInt64.ofNat (numeralValue radix high) * 0 + _ = _
      rw [UInt64.mul_zero, UInt64.zero_add]
    · rw [hnil, numeralValue, List.foldl_nil, Nat.zero_mul, Nat.zero_add]

theorem not_isNumeral_signed (h : IsSigned radix digits) : ¬IsNumeral radix digits := by
  obtain ⟨rest, rfl, -⟩ := h
  intro hnumeral
  exact not_isDigit_plus radix (hnumeral.2 '+' List.mem_cons_self)

/-- A text of at most `width` bytes is read whenever it is digits after at most one sign. -/
theorem parseRadix_short (hradix : 0 < radix) (hpow : radix ^ width = 2 ^ 64)
    (hsize : byteLen digits ≤ width) {value : UInt64} :
    parseRadix radix digits = .ok value ↔
      ∃ rest, (digits = rest ∨ digits = '+' :: rest) ∧ IsNumeral radix rest ∧
        value = UInt64.ofNat (numeralValue radix rest) := by
  rw [parseRadix_ok_iff hradix]
  refine exists_congr fun rest => and_congr_right fun htext => and_congr_right fun hnumeral => ?_
  have hlength : rest.length ≤ width := by
    rw [← byteLen_of_digits hnumeral.2]
    rcases htext with rfl | rfl
    · exact hsize
    · rw [byteLen_cons] at hsize
      omega
  have hlt : numeralValue radix rest < 2 ^ 64 := by
    calc
      numeralValue radix rest < radix ^ rest.length := numeralValue_lt hnumeral.2
      _ ≤ radix ^ width := Nat.pow_le_pow_right hradix hlength
      _ = 2 ^ 64 := hpow
  exact and_iff_right hlt

/-- The last digits of a numeral are a numeral. -/
theorem isNumeral_low {high low : List Char} (hwidth : 0 < width) (hdigits : digits = high ++ low)
    (hbytes : byteLen high = byteLen digits - width) (h : IsNumeral radix digits) :
    IsNumeral radix low := by
  refine ⟨?_, fun c hc => h.2 c (by rw [hdigits]; exact List.mem_append_right _ hc)⟩
  rintro rfl
  rw [List.append_nil] at hdigits
  subst hdigits
  exact h.1 (eq_nil_of_byteLen (by omega))

theorem cutExact_iff (hradix : 0 < radix) (hwidth : 0 < width) (hpow : radix ^ width = 2 ^ 64) :
    CutExact radix width digits ↔ ¬CutBadly radix width digits := by
  by_cases hboundary : IsCharBoundary (byteLen digits - width) digits
  · obtain ⟨high, low, hdigits, hbytes, -⟩ := sliceTo_of_boundary hboundary
    have hread : readCut radix width digits = parseRadix radix low :=
      readCut_of_split hdigits hbytes
    have hsize : byteLen low ≤ width := by
      have hsum : byteLen digits = byteLen high + byteLen low := by
        rw [hdigits, byteLen_append]
      omega
    have hbad : CutBadly radix width digits ↔
        IsSigned radix low ∨ (IsNumeral radix low ∧ ∃ c ∈ high, ¬IsDigit radix c) := by
      constructor
      · rintro (hnot | ⟨high', low', hdigits', hbytes', h⟩)
        · exact absurd hboundary hnot
        · obtain ⟨rfl, rfl⟩ := split_unique (hdigits.symm.trans hdigits')
            (hbytes.trans hbytes'.symm)
          exact h
      · exact fun h => Or.inr ⟨high, low, hdigits, hbytes, h⟩
    have hlow : IsNumeral radix digits → IsNumeral radix low :=
      isNumeral_low hwidth hdigits hbytes
    have hshort := @parseRadix_short radix width low hradix hpow hsize
    rw [hbad, CutExact, hread, not_or, not_and]
    constructor
    · rintro ⟨hvalue, -⟩
      refine ⟨?_, ?_⟩
      · rintro ⟨rest, htext, hrest⟩
        have hnumeral := ((hvalue _).1 (hshort.2 ⟨rest, Or.inr htext, hrest, rfl⟩)).1
        exact not_isNumeral_signed ⟨rest, htext, hrest⟩ (hlow hnumeral)
      · rintro hnumeral ⟨c, hc, hdigit⟩
        have hall := ((hvalue _).1 (hshort.2 ⟨low, Or.inl rfl, hnumeral, rfl⟩)).1
        exact hdigit (hall.2 c (by rw [hdigits]; exact List.mem_append_left _ hc))
    · rintro ⟨hsigned, hhigh⟩
      refine ⟨fun value => ?_, parseRadix_no_panic⟩
      rw [hshort]
      constructor
      · rintro ⟨rest, rfl | htext, hrest, rfl⟩
        · have hall : ∀ c ∈ high, IsDigit radix c := by
            intro c hc
            by_contra hdigit
            exact hhigh hrest ⟨c, hc, hdigit⟩
          have hnumeral : IsNumeral radix digits := by
            refine ⟨?_, fun c hc => ?_⟩
            · rw [hdigits]
              exact List.append_ne_nil_of_right_ne_nil _ hrest.1
            · rw [hdigits] at hc
              exact (List.mem_append.1 hc).elim (hall c) (hrest.2 c)
          exact ⟨hnumeral, (ofNat_numeralValue hpow hdigits hbytes hnumeral).symm⟩
        · exact absurd ⟨rest, htext, hrest⟩ hsigned
      · rintro ⟨hnumeral, rfl⟩
        exact ⟨low, Or.inl rfl, hlow hnumeral, ofNat_numeralValue hpow hdigits hbytes hnumeral⟩
  · have hpanic : readCut radix width digits = .error .panic := by
      rw [readCut, sliceFrom_of_not_boundary hboundary]
      rfl
    exact ⟨fun h => absurd hpanic h.2, fun h => absurd (Or.inl hboundary) h⟩

end Cut

/-! ## Tokens -/

theorem stripPrefix_pair {a b : Char} {token rest : List Char} :
    stripPrefix [a, b] token = some rest ↔ token = a :: b :: rest := by
  rw [stripPrefix]
  constructor
  · intro h
    split_ifs at h with hstart
    obtain ⟨tail, rfl⟩ := List.isPrefixOf_iff_prefix.1 hstart
    rw [← Option.some.inj h]
    rfl
  · rintro rfl
    simp

theorem stripPrefix_either {a b c : Char} {token : List Char} :
    (stripPrefix [a, b] token).or (stripPrefix [a, c] token) = none ↔
      ∀ rest, token ≠ a :: b :: rest ∧ token ≠ a :: c :: rest := by
  rw [Option.or_eq_none_iff, Option.eq_none_iff_forall_ne_some, Option.eq_none_iff_forall_ne_some]
  simp only [ne_eq, stripPrefix_pair]
  exact forall_and.symm

/-- What is done with a token. -/
def readToken (token : List Char) : Except Fault UInt64 :=
  match (stripPrefix ['0', 'x'] token).or (stripPrefix ['0', 'X'] token) with
  | some hex => readCut 16 16 hex
  | none =>
      match (stripPrefix ['0', 'b'] token).or (stripPrefix ['0', 'B'] token) with
      | some binary => readCut 2 64 binary
      | none => parseRadix 10 token

/-- What exact reading of one token means. -/
def TokenExact (token : List Char) : Prop :=
  (∀ value, readToken token = .ok value ↔ ∃ n, NumeralOf token n ∧ value = UInt64.ofNat n) ∧
    readToken token ≠ .error .panic

theorem readToken_hex {x : Char} {digits : List Char} (hx : x = 'x' ∨ x = 'X') :
    readToken ('0' :: x :: digits) = readCut 16 16 digits := by
  rcases hx with rfl | rfl <;> rfl

theorem readToken_binary {b : Char} {digits : List Char} (hb : b = 'b' ∨ b = 'B') :
    readToken ('0' :: b :: digits) = readCut 2 64 digits := by
  rcases hb with rfl | rfl <;> rfl

theorem numeralOf_hex {x : Char} {digits : List Char} (hx : x = 'x' ∨ x = 'X') {n : Nat} :
    NumeralOf ('0' :: x :: digits) n ↔ IsNumeral 16 digits ∧ n = numeralValue 16 digits := by
  constructor
  · intro h
    generalize htoken : '0' :: x :: digits = token at h
    cases h with
    | decimal hnumeral hfits =>
        subst htoken
        have hdigit := hnumeral.2 x (by simp)
        rcases hx with rfl | rfl <;> exact absurd hdigit (by decide)
    | hexadecimal _ hnumeral =>
        obtain ⟨-, rfl⟩ := List.cons.inj (List.cons.inj htoken).2
        exact ⟨hnumeral, rfl⟩
    | binary hb _ =>
        obtain ⟨rfl, -⟩ := List.cons.inj (List.cons.inj htoken).2
        rcases hx with rfl | rfl <;> rcases hb with hb | hb <;> exact absurd hb (by decide)
  · rintro ⟨hnumeral, rfl⟩
    exact .hexadecimal hx hnumeral

theorem numeralOf_binary {b : Char} {digits : List Char} (hb : b = 'b' ∨ b = 'B') {n : Nat} :
    NumeralOf ('0' :: b :: digits) n ↔ IsNumeral 2 digits ∧ n = numeralValue 2 digits := by
  constructor
  · intro h
    generalize htoken : '0' :: b :: digits = token at h
    cases h with
    | decimal hnumeral hfits =>
        subst htoken
        have hdigit := hnumeral.2 b (by simp)
        rcases hb with rfl | rfl <;> exact absurd hdigit (by decide)
    | hexadecimal hx _ =>
        obtain ⟨rfl, -⟩ := List.cons.inj (List.cons.inj htoken).2
        rcases hx with hx | hx <;> rcases hb with rfl | rfl <;> exact absurd hx (by decide)
    | binary _ hnumeral =>
        obtain ⟨-, rfl⟩ := List.cons.inj (List.cons.inj htoken).2
        exact ⟨hnumeral, rfl⟩
  · rintro ⟨hnumeral, rfl⟩
    exact .binary hb hnumeral

theorem misread_hex {x : Char} {digits : List Char} (hx : x = 'x' ∨ x = 'X') :
    Misread ('0' :: x :: digits) ↔ CutBadly 16 16 digits := by
  constructor
  · intro h
    generalize htoken : '0' :: x :: digits = token at h
    cases h with
    | signed _ _ => exact absurd (List.cons.inj htoken).1 (by decide)
    | hexadecimal _ hcut =>
        obtain ⟨-, rfl⟩ := List.cons.inj (List.cons.inj htoken).2
        exact hcut
    | binary hb _ =>
        obtain ⟨rfl, -⟩ := List.cons.inj (List.cons.inj htoken).2
        rcases hx with rfl | rfl <;> rcases hb with hb | hb <;> exact absurd hb (by decide)
  · exact .hexadecimal hx

theorem misread_binary {b : Char} {digits : List Char} (hb : b = 'b' ∨ b = 'B') :
    Misread ('0' :: b :: digits) ↔ CutBadly 2 64 digits := by
  constructor
  · intro h
    generalize htoken : '0' :: b :: digits = token at h
    cases h with
    | signed _ _ => exact absurd (List.cons.inj htoken).1 (by decide)
    | hexadecimal hx _ =>
        obtain ⟨rfl, -⟩ := List.cons.inj (List.cons.inj htoken).2
        rcases hx with hx | hx <;> rcases hb with rfl | rfl <;> exact absurd hx (by decide)
    | binary _ hcut =>
        obtain ⟨-, rfl⟩ := List.cons.inj (List.cons.inj htoken).2
        exact hcut
  · exact .binary hb

/-- A token without a prefix is read as a decimal number, with a sign or without. -/
theorem decimalExact_iff {token : List Char}
    (hhex : ∀ rest, token ≠ '0' :: 'x' :: rest ∧ token ≠ '0' :: 'X' :: rest)
    (hbinary : ∀ rest, token ≠ '0' :: 'b' :: rest ∧ token ≠ '0' :: 'B' :: rest) :
    TokenExact token ↔ ¬Misread token := by
  have hread : readToken token = parseRadix 10 token := by
    rw [readToken, stripPrefix_either.2 hhex]
    simp only [stripPrefix_either.2 hbinary]
  have hnumeral : ∀ n, NumeralOf token n ↔
      IsNumeral 10 token ∧ numeralValue 10 token < 2 ^ 64 ∧ n = numeralValue 10 token := by
    refine fun n => ⟨fun h => ?_, fun ⟨h, hfits, hn⟩ => hn ▸ .decimal h hfits⟩
    cases h with
    | decimal h hfits => exact ⟨h, hfits, rfl⟩
    | hexadecimal hx _ => rcases hx with rfl | rfl <;> simp at hhex
    | binary hb _ => rcases hb with rfl | rfl <;> simp at hbinary
  have hmisread : Misread token ↔
      ∃ digits, token = '+' :: digits ∧ IsNumeral 10 digits ∧ numeralValue 10 digits < 2 ^ 64 := by
    refine ⟨fun h => ?_, fun ⟨digits, htoken, h, hfits⟩ => htoken ▸ .signed h hfits⟩
    cases h with
    | signed h hfits => exact ⟨_, rfl, h, hfits⟩
    | hexadecimal hx _ => rcases hx with rfl | rfl <;> simp at hhex
    | binary hb _ => rcases hb with rfl | rfl <;> simp at hbinary
  rw [TokenExact, hread, hmisread]
  constructor
  · rintro ⟨hvalue, -⟩ ⟨digits, htoken, h, hfits⟩
    obtain ⟨n, hn, -⟩ := (hvalue _).1
      ((parseRadix_ok_iff (by omega)).2 ⟨digits, Or.inr htoken, h, hfits, rfl⟩)
    exact not_isNumeral_signed ⟨digits, htoken, h⟩ ((hnumeral n).1 hn).1
  · intro hsigned
    refine ⟨fun value => ?_, parseRadix_no_panic⟩
    rw [parseRadix_ok_iff (by omega)]
    constructor
    · rintro ⟨rest, rfl | htext, h, hfits, rfl⟩
      · exact ⟨_, .decimal h hfits, rfl⟩
      · exact absurd ⟨rest, htext, h, hfits⟩ hsigned
    · rintro ⟨n, hn, rfl⟩
      obtain ⟨h, hfits, rfl⟩ := (hnumeral n).1 hn
      exact ⟨token, Or.inl rfl, h, hfits, rfl⟩

theorem tokenExact_iff {token : List Char} : TokenExact token ↔ ¬Misread token := by
  by_cases hhex : ∃ x digits, (x = 'x' ∨ x = 'X') ∧ token = '0' :: x :: digits
  · obtain ⟨x, digits, hx, rfl⟩ := hhex
    rw [misread_hex hx, ← cutExact_iff (by omega) (by omega) (by norm_num), TokenExact, CutExact,
      readToken_hex hx]
    simp only [numeralOf_hex hx, and_assoc, exists_and_left, exists_eq_left]
  · by_cases hbinary : ∃ b digits, (b = 'b' ∨ b = 'B') ∧ token = '0' :: b :: digits
    · obtain ⟨b, digits, hb, rfl⟩ := hbinary
      rw [misread_binary hb, ← cutExact_iff (by omega) (by omega) (by norm_num), TokenExact,
        CutExact, readToken_binary hb]
      simp only [numeralOf_binary hb, and_assoc, exists_and_left, exists_eq_left]
    · refine decimalExact_iff (fun rest => ⟨?_, ?_⟩) fun rest => ⟨?_, ?_⟩
      · exact fun h => hhex ⟨'x', rest, Or.inl rfl, h⟩
      · exact fun h => hhex ⟨'X', rest, Or.inr rfl, h⟩
      · exact fun h => hbinary ⟨'b', rest, Or.inl rfl, h⟩
      · exact fun h => hbinary ⟨'B', rest, Or.inr rfl, h⟩

/-- Number parsing is exact on a text exactly when its token is not misread. -/
theorem parseNumber_exact_iff (raw : List Char) :
    ExactAt raw ↔ ¬∃ token, Token raw token ∧ Misread token := by
  cases hfirst : firstToken raw with
  | none =>
      have hnone : ∀ token, ¬Token raw token := by
        rintro token ⟨whole, hwhole, -⟩
        rw [hfirst] at hwhole
        cases hwhole
      have hread : parseNumber raw = .error (.error (.msg "empty number")) := by
        rw [parseNumber, hfirst]
      constructor
      · rintro - ⟨token, htoken, -⟩
        exact hnone token htoken
      · intro
        refine ⟨fun value => ?_, by rw [hread]; simp⟩
        rw [hread]
        constructor
        · intro h
          cases h
        · rintro ⟨token, n, htoken, -⟩
          exact absurd htoken (hnone token)
  | some whole =>
      have htoken : ∀ token, Token raw token ↔ token = whole.filter fun c => c ≠ '_' := by
        intro token
        constructor
        · rintro ⟨other, hother, rfl⟩
          rw [Option.some.inj (hfirst.symm.trans hother)]
        · exact fun h => ⟨whole, hfirst, h⟩
      have hread : parseNumber raw = readToken (whole.filter fun c => c ≠ '_') := by
        rw [parseNumber, hfirst]
        rfl
      have hexact : ExactAt raw ↔ TokenExact (whole.filter fun c => c ≠ '_') := by
        constructor
        · rintro ⟨hvalue, hpanic⟩
          simp only [htoken, exists_and_left, exists_eq_left] at hvalue
          rw [hread] at hvalue hpanic
          exact ⟨hvalue, hpanic⟩
        · rintro ⟨hvalue, hpanic⟩
          refine ⟨fun value => ?_, by rw [hread]; exact hpanic⟩
          simp only [htoken, exists_and_left, exists_eq_left]
          rw [hread]
          exact hvalue value
      rw [hexact, tokenExact_iff]
      simp only [htoken, exists_eq_left]

theorem not_exactAt {raw whole : List Char} {value : UInt64} (hfirst : firstToken raw = some whole)
    (hread : parseNumber raw = .ok value)
    (hnot : ∀ n, ¬NumeralOf (whole.filter fun c => c ≠ '_') n) : ¬ExactAt raw := by
  intro h
  obtain ⟨token, n, ⟨other, hother, rfl⟩, hnumeral, -⟩ := (h.value value).1 hread
  rw [← Option.some.inj (hfirst.symm.trans hother)] at hnumeral
  exact hnot n hnumeral

/-- A bad digit above the last sixteen goes unnoticed, a sign is accepted, and a cut
inside a character panics. -/
theorem parseNumber_inexact :
    ¬ExactAt "0xg0000000000000005".toList ∧ ¬ExactAt "+5".toList ∧
      ¬ExactAt "0xé000000000000000".toList := by
  refine ⟨?_, ?_, fun h => h.no_panic (by decide +kernel)⟩
  · have hfirst : firstToken "0xg0000000000000005".toList =
        some ('0' :: 'x' :: "g0000000000000005".toList) := by decide +kernel
    refine not_exactAt hfirst (by decide +kernel : parseNumber _ = .ok 5) fun n hnumeral => ?_
    have hfilter : ('0' :: 'x' :: "g0000000000000005".toList).filter (fun c => c ≠ '_') =
        '0' :: 'x' :: "g0000000000000005".toList := by decide +kernel
    rw [hfilter, numeralOf_hex (Or.inl rfl)] at hnumeral
    exact absurd hnumeral.1 (by decide +kernel)
  · have hfirst : firstToken "+5".toList = some ['+', '5'] := by decide +kernel
    refine not_exactAt hfirst (by decide +kernel : parseNumber _ = .ok 5) fun n hnumeral => ?_
    have hfilter : ['+', '5'].filter (fun c => c ≠ '_') = ['+', '5'] := by decide
    rw [hfilter] at hnumeral
    generalize htoken : ['+', '5'] = token at hnumeral
    cases hnumeral with
    | decimal h _ =>
        subst htoken
        exact absurd h (by decide +kernel)
    | hexadecimal _ _ => exact absurd (List.cons.inj htoken).1 (by decide)
    | binary _ _ => exact absurd (List.cons.inj htoken).1 (by decide)

end CkbSail.SailRunner
