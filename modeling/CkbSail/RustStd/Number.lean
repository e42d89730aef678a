import CkbSail.RustStd.Format
import Mathlib.Data.List.Induction
import Mathlib.Data.Nat.Digits.Defs
import Mathlib.Tactic.IntervalCases

/-!
# Numbers as digits

`fromStrRadix` reads what the hexadecimal formatters write, whatever the width
they pad to.
-/

namespace CkbSail.RustStd

/-- `char::to_digit`. -/
def toDigit (radix : Nat) (c : Char) : Option Nat :=
  let digit :=
    if '0' ≤ c ∧ c ≤ '9' then some (c.toNat - '0'.toNat)
    else if 'a' ≤ c ∧ c ≤ 'z' then some (c.toNat - 'a'.toNat + 10)
    else if 'A' ≤ c ∧ c ≤ 'Z' then some (c.toNat - 'A'.toNat + 10)
    else none
  digit.filter fun d => d < radix

inductive ParseIntError where
  | empty
  | invalidDigit
  | posOverflow
deriving DecidableEq, Repr

def ParseIntError.display : ParseIntError → String
  | .empty => "cannot parse integer from empty string"
  | .invalidDigit => "invalid digit found in string"
  | .posOverflow => "number too large to fit in target type"

/-- The digits of an unsigned number below `bound`, after those that made `result`;
a digit is looked at before the overflow it causes. -/
def accumulate (bound radix : Nat) : List Char → Nat → Except ParseIntError Nat
  | [], result => .ok result
  | c :: cs, result =>
      match toDigit radix c with
      | none => .error .invalidDigit
      | some digit =>
          if result * radix + digit < bound then
            accumulate bound radix cs (result * radix + digit)
          else .error .posOverflow

/-- `from_str_radix` of the unsigned type of the values below `bound`. -/
def fromStrRadix (bound radix : Nat) (text : List Char) : Except ParseIntError Nat :=
  match text with
  | [] => .error .empty
  | ['+'] | ['-'] => .error .invalidDigit
  | '+' :: digits => accumulate bound radix digits 0
  | digits => accumulate bound radix digits 0

/-! ## Written digits -/

/-- A digit as the lower-case formatters write it. -/
def IsLowerHex (c : Char) : Prop := ('0' ≤ c ∧ c ≤ '9') ∨ ('a' ≤ c ∧ c ≤ 'f')

instance (c : Char) : Decidable (IsLowerHex c) := inferInstanceAs (Decidable (_ ∨ _))

theorem isLowerHex_digitChar {digit : Nat} (h : digit < 16) : IsLowerHex digit.digitChar := by
  interval_cases digit <;> decide

theorem toDigit_digitChar {digit : Nat} (h : digit < 16) :
    toDigit 16 digit.digitChar = some digit := by
  interval_cases digit <;> decide

theorem isLowerHex_of_mem_toDigits {n : Nat} {c : Char} (h : c ∈ Nat.toDigits 16 n) :
    IsLowerHex c := by
  induction n using Nat.strong_induction_on with
  | _ n ih =>
      rw [Nat.toDigits_eq_if (by omega)] at h
      split_ifs at h with hlt
      · rw [List.mem_singleton.1 h]
        exact isLowerHex_digitChar hlt
      · rcases List.mem_append.1 h with hhigh | hlow
        · exact ih (n / 16) (by omega) hhigh
        · rw [List.mem_singleton.1 hlow]
          exact isLowerHex_digitChar (by omega)

theorem isLowerHex_of_mem_zeroPad {width n : Nat} {c : Char}
    (h : c ∈ zeroPad width (Nat.toDigits 16 n)) : IsLowerHex c := by
  rcases List.mem_append.1 h with hzero | hdigit
  · rw [List.eq_of_mem_replicate hzero]
    decide
  · exact isLowerHex_of_mem_toDigits hdigit

theorem length_zeroPad {width : Nat} {digits : List Char} (h : digits.length ≤ width) :
    (zeroPad width digits).length = width := by
  rw [zeroPad, List.length_append, List.length_replicate]
  omega

@[simp] theorem toList_paddedHex (width n : Nat) :
    (paddedHex width n).toList = zeroPad width (Nat.toDigits 16 n) := by
  simp [paddedHex]

theorem length_toDigits_le {width n : Nat} (hwidth : 0 < width) (h : n < 16 ^ width) :
    (Nat.toDigits 16 n).length ≤ width :=
  (Nat.length_toDigits_le_iff (by omega) hwidth).2 h

/-! ## Reading them back -/

theorem accumulate_append (bound radix : Nat) (xs ys : List Char) (result : Nat) :
    accumulate bound radix (xs ++ ys) result =
      (accumulate bound radix xs result).bind fun value => accumulate bound radix ys value := by
  induction xs generalizing result with
  | nil => rfl
  | cons x xs ih =>
      rw [List.cons_append, accumulate, accumulate]
      cases toDigit radix x with
      | none => rfl
      | some digit =>
          simp only [ih]
          split_ifs <;> rfl

variable {bound : Nat}

theorem accumulate_zeros (hbound : 0 < bound) (k : Nat) (cs : List Char) :
    accumulate bound 16 (List.replicate k '0' ++ cs) 0 = accumulate bound 16 cs 0 := by
  induction k with
  | zero => rfl
  | succ k ih =>
      have hzero : toDigit 16 '0' = some 0 := toDigit_digitChar (by omega : 0 < 16)
      rw [List.replicate_succ, List.cons_append, accumulate]
      simpa only [hzero, Nat.zero_mul, Nat.zero_add, hbound, if_true] using ih

theorem accumulate_toDigits {n : Nat} (h : n < bound) :
    accumulate bound 16 (Nat.toDigits 16 n) 0 = .ok n := by
  induction n using Nat.strong_induction_on with
  | _ n ih =>
      have hlast : n / 16 * 16 + n % 16 = n := by omega
      rw [Nat.toDigits_eq_if (by omega)]
      split_ifs with hlt
      · simp only [accumulate, toDigit_digitChar hlt, Nat.zero_mul, Nat.zero_add, if_pos h]
      · rw [accumulate_append, ih (n / 16) (by omega) (by omega)]
        simp only [Except.bind, accumulate, toDigit_digitChar (Nat.mod_lt n (by omega : 0 < 16)),
          hlast, if_pos h]

/-- A text of digits is read by its digits. -/
theorem fromStrRadix_of_lowerHex {radix : Nat} {text : List Char} (hne : text ≠ [])
    (hdigits : ∀ c ∈ text, IsLowerHex c) :
    fromStrRadix bound radix text = accumulate bound radix text 0 := by
  cases text with
  | nil => exact absurd rfl hne
  | cons c cs =>
      have hc := hdigits c (List.mem_cons_self ..)
      have hplus : c ≠ '+' := by
        rintro rfl
        exact absurd hc (by decide)
      have hminus : c ≠ '-' := by
        rintro rfl
        exact absurd hc (by decide)
      unfold fromStrRadix
      split <;> simp_all

theorem fromStrRadix_zeroPad {width n : Nat} (h : n < bound) :
    fromStrRadix bound 16 (zeroPad width (Nat.toDigits 16 n)) = .ok n := by
  have hne : zeroPad width (Nat.toDigits 16 n) ≠ [] := by simp [zeroPad]
  rw [fromStrRadix_of_lowerHex hne fun c hc => isLowerHex_of_mem_zeroPad hc, zeroPad,
    accumulate_zeros (by omega), accumulate_toDigits h]

/-! ## What is read -/

theorem toNat_digitChar {digit : Nat} (h : digit < 16) :
    digit.digitChar.toNat = if digit < 10 then 48 + digit else 87 + digit := by
  interval_cases digit <;> rfl

/-- A hexadecimal digit is a lower-case digit up to letter case. -/
theorem toDigit_eq_some_iff {c : Char} {digit : Nat} :
    toDigit 16 c = some digit ↔ digit < 16 ∧ c.toLower = digit.digitChar := by
  have hc : c = Char.ofNat c.toNat := c.ofNat_toNat.symm
  constructor
  · intro h
    rw [toDigit, Option.filter_eq_some_iff] at h
    obtain ⟨h, hlt⟩ := h
    have hlt : digit < 16 := by simpa using hlt
    refine ⟨hlt, ?_⟩
    split_ifs at h with hdecimal hlower hupper
    · have hlow : 48 ≤ c.toNat := hdecimal.1
      have hhigh : c.toNat ≤ 57 := hdecimal.2
      obtain rfl := Option.some.inj h
      generalize c.toNat = n at *
      subst hc
      interval_cases n <;> decide
    · have hlow : 97 ≤ c.toNat := hlower.1
      obtain rfl := Option.some.inj h
      have hhigh : c.toNat - 97 + 10 < 16 := hlt
      have hhigh : c.toNat ≤ 102 := by omega
      generalize c.toNat = n at *
      subst hc
      interval_cases n <;> decide
    · have hlow : 65 ≤ c.toNat := hupper.1
      obtain rfl := Option.some.inj h
      have hhigh : c.toNat - 65 + 10 < 16 := hlt
      have hhigh : c.toNat ≤ 70 := by omega
      generalize c.toNat = n at *
      subst hc
      interval_cases n <;> decide
  · rintro ⟨hlt, hlower⟩
    unfold Char.toLower at hlower
    split_ifs at hlower with hupper
    · -- an upper-case letter is 32 below the digit it is read as
      have hlow : 65 ≤ c.toNat := hupper.1
      have hhigh : c.toNat ≤ 90 := hupper.2
      have hadd : (c.val + ('a'.val - 'A'.val)).toNat = c.toNat + 32 := by
        have hlt : c.val.toNat ≤ 90 := hhigh
        rw [UInt32.toNat_add, show ('a'.val - 'A'.val).toNat = 32 from rfl]
        exact Nat.mod_eq_of_lt (by omega)
      have hvalue : c.toNat + 32 = digit.digitChar.toNat :=
        hadd.symm.trans (congrArg Char.toNat hlower)
      rw [toNat_digitChar hlt] at hvalue
      have hten : 10 ≤ digit := by
        by_contra hfew
        rw [if_pos (by omega)] at hvalue
        omega
      rw [if_neg (by omega)] at hvalue
      have hcode : c.toNat = 55 + digit := by omega
      rw [hc, hcode]
      interval_cases digit <;> decide
    · rw [hlower]
      exact toDigit_digitChar hlt

/-- The last `width` lower-case digits of a number. -/
def fixedDigits : Nat → Nat → List Char
  | 0, _ => []
  | width + 1, n => fixedDigits width (n / 16) ++ [(n % 16).digitChar]

@[simp] theorem length_fixedDigits (width n : Nat) : (fixedDigits width n).length = width := by
  induction width generalizing n with
  | zero => rfl
  | succ width ih => simp [fixedDigits, ih]

theorem fixedDigits_zero (width : Nat) : fixedDigits width 0 = List.replicate width '0' := by
  induction width with
  | zero => rfl
  | succ width ih =>
      rw [fixedDigits, Nat.zero_div, ih, List.replicate_succ']
      rfl

/-- Padding writes exactly the digits of a number that has no more of them. -/
theorem zeroPad_eq_fixedDigits {width n : Nat} (hwidth : 0 < width) (h : n < 16 ^ width) :
    zeroPad width (Nat.toDigits 16 n) = fixedDigits width n := by
  induction width generalizing n with
  | zero => exact absurd hwidth (Nat.lt_irrefl 0)
  | succ width ih =>
      rw [Nat.toDigits_eq_if (by omega), fixedDigits]
      split_ifs with hlt
      · have hzero : n / 16 = 0 := by omega
        rw [hzero, fixedDigits_zero, Nat.mod_eq_of_lt hlt, zeroPad]
        rfl
      · have hhigh : n / 16 < 16 ^ width := by
          rw [Nat.pow_succ] at h
          omega
        have hpos : 0 < width := by
          rcases Nat.eq_zero_or_pos width with rfl | hpos
          · rw [Nat.pow_zero] at hhigh
            omega
          · exact hpos
        rw [← ih hpos hhigh, zeroPad, zeroPad, List.length_append, List.length_singleton,
          Nat.add_sub_add_right, List.append_assoc]

/-- The last digit of a text is the last digit of what is read. -/
theorem accumulate_snoc_eq_ok {cs : List Char} {c : Char} {n : Nat} :
    accumulate bound 16 (cs ++ [c]) 0 = .ok n ↔
      n < bound ∧ accumulate bound 16 cs 0 = .ok (n / 16) ∧ toDigit 16 c = some (n % 16) := by
  rw [accumulate_append]
  cases hcs : accumulate bound 16 cs 0 with
  | error e => simp [Except.bind]
  | ok value =>
      cases hc : toDigit 16 c with
      | none => simp [Except.bind, accumulate, hc]
      | some digit =>
          have hlt := (toDigit_eq_some_iff.1 hc).1
          simp only [Except.bind, accumulate, hc, Except.ok.injEq, Option.some.injEq]
          split_ifs with hfits
          · rw [Except.ok.injEq]
            omega
          · constructor
            · intro h
              cases h
            · omega

/-- A text of digits is read exactly when it is, up to letter case, the digits of
the result. -/
theorem accumulate_eq_ok {cs : List Char} {n : Nat} (hbound : 0 < bound) :
    accumulate bound 16 cs 0 = .ok n ↔
      n < bound ∧ n < 16 ^ cs.length ∧ cs.map Char.toLower = fixedDigits cs.length n := by
  induction cs using List.reverseRecOn generalizing n with
  | nil =>
      simp only [accumulate, Except.ok.injEq, List.length_nil, Nat.pow_zero, Nat.lt_one_iff,
        List.map_nil, fixedDigits, and_true]
      omega
  | append_singleton cs c ih =>
      rw [accumulate_snoc_eq_ok, ih, toDigit_eq_some_iff, List.length_append,
        List.length_singleton, fixedDigits, List.map_append, List.map_singleton, Nat.pow_succ]
      constructor
      · rintro ⟨hlt, ⟨-, hpow, hcs⟩, -, hc⟩
        exact ⟨hlt, by omega, by rw [hcs, hc]⟩
      · rintro ⟨hlt, hpow, hdigits⟩
        obtain ⟨hcs, hc⟩ := List.append_inj' hdigits rfl
        exact ⟨hlt, ⟨by omega, by omega, hcs⟩, Nat.mod_lt n (by omega), List.singleton_inj.1 hc⟩

/-- What is read is digits, with at most one sign before them. -/
theorem fromStrRadix_eq_ok {radix : Nat} {text : List Char} {n : Nat} :
    fromStrRadix bound radix text = .ok n ↔
      ∃ digits, (text = digits ∨ text = '+' :: digits) ∧ digits ≠ [] ∧
        accumulate bound radix digits 0 = .ok n := by
  constructor
  · intro h
    unfold fromStrRadix at h
    split at h
    · cases h
    · cases h
    · cases h
    · next digits hne =>
      exact ⟨digits, Or.inr rfl, fun hnil => hne (by rw [hnil]), h⟩
    · next hempty _ _ _ => exact ⟨text, Or.inl rfl, hempty, h⟩
  · rintro ⟨digits, rfl | rfl, hne, h⟩
    · unfold fromStrRadix
      split
      · exact absurd rfl hne
      · cases h
      · cases h
      · cases h
      · exact h
    · unfold fromStrRadix
      split <;> simp_all

/-! ## Numerals -/

def IsDigit (radix : Nat) (c : Char) : Prop := (toDigit radix c).isSome

instance (radix : Nat) (c : Char) : Decidable (IsDigit radix c) :=
  inferInstanceAs (Decidable ((toDigit radix c).isSome = true))

/-- A text of one or more digits. -/
def IsNumeral (radix : Nat) (text : List Char) : Prop := text ≠ [] ∧ ∀ c ∈ text, IsDigit radix c

instance (radix : Nat) (text : List Char) : Decidable (IsNumeral radix text) :=
  @instDecidableAnd _ _ inferInstance (List.decidableBAll _ text)

/-- One more digit. -/
def pushDigit (radix n : Nat) (c : Char) : Nat := n * radix + (toDigit radix c).getD 0

/-- The value of a numeral. -/
def numeralValue (radix : Nat) (text : List Char) : Nat := text.foldl (pushDigit radix) 0

section Numeral

variable {radix : Nat} {text : List Char} {c : Char}

theorem toDigit_lt {digit : Nat} (h : toDigit radix c = some digit) : digit < radix := by
  unfold toDigit at h
  simpa using (Option.filter_eq_some_iff.1 h).2

theorem le_foldl_pushDigit (hradix : 0 < radix) (start : Nat) :
    start ≤ text.foldl (pushDigit radix) start := by
  induction text generalizing start with
  | nil => exact Nat.le_refl _
  | cons c cs ih =>
      rw [List.foldl_cons]
      calc
        start ≤ start * radix := Nat.le_mul_of_pos_right start hradix
        _ ≤ pushDigit radix start c := Nat.le_add_right _ _
        _ ≤ _ := ih _

/-- Reading succeeds on digits whose value fits. -/
theorem accumulate_ok_iff (hradix : 0 < radix) {start n : Nat} (hstart : start < bound) :
    accumulate bound radix text start = .ok n ↔
      (∀ c ∈ text, IsDigit radix c) ∧ text.foldl (pushDigit radix) start = n ∧ n < bound := by
  induction text generalizing start with
  | nil =>
      simp only [accumulate, Except.ok.injEq, List.not_mem_nil, false_implies, implies_true,
        List.foldl_nil, true_and]
      omega
  | cons c cs ih =>
      rw [accumulate, List.forall_mem_cons, List.foldl_cons]
      cases hdigit : toDigit radix c with
      | none => simp [IsDigit, hdigit]
      | some digit =>
          have hpush : pushDigit radix start c = start * radix + digit := by
            rw [pushDigit, hdigit, Option.getD_some]
          have hvalid : IsDigit radix c := by simp [IsDigit, hdigit]
          simp only [hpush, hvalid, true_and]
          split_ifs with hfits
          · exact ih hfits
          · have hgrow : start * radix + digit ≤ cs.foldl (pushDigit radix) _ :=
              le_foldl_pushDigit hradix _
            simp only [false_iff, not_and]
            omega

theorem fromStrRadix_numeral (hradix : 0 < radix) (hbound : 0 < bound) {n : Nat} :
    fromStrRadix bound radix text = .ok n ↔
      ∃ digits, (text = digits ∨ text = '+' :: digits) ∧ IsNumeral radix digits ∧
        numeralValue radix digits = n ∧ n < bound := by
  rw [fromStrRadix_eq_ok]
  constructor
  · rintro ⟨digits, htext, hne, hvalue⟩
    obtain ⟨hdigits, hfold, hlt⟩ := (accumulate_ok_iff hradix hbound).1 hvalue
    exact ⟨digits, htext, ⟨hne, hdigits⟩, hfold, hlt⟩
  · rintro ⟨digits, htext, ⟨hne, hdigits⟩, hfold, hlt⟩
    exact ⟨digits, htext, hne, (accumulate_ok_iff hradix hbound).2 ⟨hdigits, hfold, hlt⟩⟩

theorem foldl_pushDigit (start : Nat) :
    text.foldl (pushDigit radix) start =
      start * radix ^ text.length + text.foldl (pushDigit radix) 0 := by
  induction text generalizing start with
  | nil => simp
  | cons c cs ih =>
      rw [List.foldl_cons, List.foldl_cons, ih, ih (pushDigit radix 0 c), List.length_cons,
        Nat.pow_succ', pushDigit, pushDigit, Nat.zero_mul, Nat.zero_add, Nat.add_mul, Nat.mul_assoc,
        Nat.add_assoc]

theorem numeralValue_append (high low : List Char) : numeralValue radix (high ++ low) =
    numeralValue radix high * radix ^ low.length + numeralValue radix low := by
  rw [numeralValue, List.foldl_append, foldl_pushDigit]
  rfl

theorem numeralValue_lt (h : ∀ c ∈ text, IsDigit radix c) :
    numeralValue radix text < radix ^ text.length := by
  induction text with
  | nil => simp [numeralValue]
  | cons c cs ih =>
      obtain ⟨digit, hdigit⟩ := Option.isSome_iff_exists.1 (h c List.mem_cons_self)
      have hlt := toDigit_lt hdigit
      have htail := ih fun d hd => h d (List.mem_cons_of_mem _ hd)
      have hhead : numeralValue radix [c] = digit := by
        rw [numeralValue, List.foldl_cons, List.foldl_nil, pushDigit, hdigit, Option.getD_some,
          Nat.zero_mul, Nat.zero_add]
      have hsplit : numeralValue radix ([c] ++ cs) = _ := numeralValue_append [c] cs
      rw [List.cons_append, List.nil_append, hhead] at hsplit
      rw [hsplit, List.length_cons, Nat.pow_succ']
      calc
        digit * radix ^ cs.length + numeralValue radix cs
            < digit * radix ^ cs.length + radix ^ cs.length := Nat.add_lt_add_left htail _
        _ = (digit + 1) * radix ^ cs.length := by rw [Nat.succ_mul]
        _ ≤ radix * radix ^ cs.length := Nat.mul_le_mul_right _ hlt

theorem IsDigit.code (h : IsDigit radix c) : c.toNat ≤ 127 := by
  obtain ⟨digit, hdigit⟩ := Option.isSome_iff_exists.1 h
  unfold toDigit at hdigit
  obtain ⟨hvalue, -⟩ := Option.filter_eq_some_iff.1 hdigit
  split_ifs at hvalue with hdecimal hlower hupper
  · have hle : c.toNat ≤ 57 := hdecimal.2
    omega
  · have hle : c.toNat ≤ 122 := hlower.2
    omega
  · have hle : c.toNat ≤ 90 := hupper.2
    omega

theorem IsDigit.utf8Size_eq (h : IsDigit radix c) : c.utf8Size = 1 := by
  rw [Char.utf8Size_eq_one_iff, UInt32.le_iff_toNat_le]
  exact h.code

theorem not_isDigit_plus (radix : Nat) : ¬IsDigit radix '+' := by
  intro h
  obtain ⟨digit, hdigit⟩ := Option.isSome_iff_exists.1 h
  unfold toDigit at hdigit
  obtain ⟨hvalue, -⟩ := Option.filter_eq_some_iff.1 hdigit
  rw [if_neg (by decide), if_neg (by decide), if_neg (by decide)] at hvalue
  cases hvalue

end Numeral

end CkbSail.RustStd
