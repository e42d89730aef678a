import CkbSail.DiffTest.Corpus
import CkbSail.ProofSupport.Rv64i
import CkbSail.RustStd.Number
import Mathlib

/-!
# What the description of a generated case says

A sentence names the instruction under test with its registers and its immediate
or offset, and the values its source registers hold.  No two sentences read the
same.
-/

namespace CkbSail.DiffTest

open RustStd ProofSupport Rv64i

inductive Sentence where
  | add (rd rs1 rs2 : Reg) (left right : UInt64)
  | addi (rd rs1 : Reg) (immediate : BitVec 12) (base : UInt64)
  /-- A branch forwards. -/
  | beq (rs1 rs2 : Reg) (offset : BitVec 12) (left right : UInt64)
deriving DecidableEq, Repr

namespace Sentence

def name (r : Reg) : String := s!"x{r.toNat}"

def addText (rd rs1 rs2 : Reg) (left right : UInt64) : String :=
  s!"add {name rd}, {name rs1}, {name rs2}" ++
    s!" with {name rs1} = {operandHex left} and {name rs2} = {operandHex right}"

def addiText (rd rs1 : Reg) (immediate : BitVec 12) (base : UInt64) : String :=
  s!"addi {name rd}, {name rs1}, {immediate.toInt} with {name rs1} = {operandHex base}"

def beqText (rs1 rs2 : Reg) (offset : BitVec 12) (left right : UInt64) : String :=
  s!"beq {name rs1}, {name rs2}, +{offset.toNat}" ++
    s!" with {name rs1} = {operandHex left} and {name rs2} = {operandHex right}"

def display : Sentence → String
  | add rd rs1 rs2 left right => addText rd rs1 rs2 left right
  | addi rd rs1 immediate base => addiText rd rs1 immediate base
  | beq rs1 rs2 offset left right => beqText rs1 rs2 offset left right

/-- The instruction a sentence names. -/
def instruction : Sentence → Instruction
  | add rd rs1 rs2 _ _ => .op .add rd rs1 rs2
  | addi rd rs1 immediate _ => .opImm .add rd rs1 immediate
  | beq rs1 rs2 offset _ _ => .branch .eq rs1 rs2 (offset.setWidth 13)

/-- The values it says the source registers hold. -/
def operands : Sentence → List (Reg × UInt64)
  | add _ rs1 rs2 left right => [(rs1, left), (rs2, right)]
  | addi _ rs1 _ base => [(rs1, base)]
  | beq rs1 rs2 _ left right => [(rs1, left), (rs2, right)]

/-! ## Fields between separators -/

/-- The characters of a number or a name. -/
def isFieldChar (c : Char) : Bool := c.isAlphanum || c = '-'

def IsField (text : String) : Prop := ∀ c ∈ text.toList, isFieldChar c = true

/-- A separator begins with another character. -/
def IsSeparator (text : String) : Prop := ∃ c cs, text.toList = c :: cs ∧ isFieldChar c = false

/-- Separators, each followed by a field. -/
def weave (pieces : List (String × String)) : List Char :=
  pieces.flatMap fun piece => piece.1.toList ++ piece.2.toList

theorem takeWhile_field {field : String} {pieces : List (String × String)} (hfield : IsField field)
    (hpieces : ∀ piece ∈ pieces, IsSeparator piece.1) :
    (field.toList ++ weave pieces).takeWhile isFieldChar = field.toList := by
  rw [List.takeWhile_append_of_pos hfield]
  cases pieces with
  | nil => simp [weave]
  | cons piece pieces =>
      obtain ⟨c, cs, htext, hc⟩ := hpieces piece List.mem_cons_self
      rw [weave, List.flatMap_cons, htext, List.cons_append, List.cons_append,
        List.takeWhile_cons_of_neg (by simp [hc]), List.append_nil]

/-- The fields between given separators can be read back. -/
theorem weave_injective {ps qs : List (String × String)}
    (hseparators : ps.map Prod.fst = qs.map Prod.fst)
    (htail : ∀ separator ∈ (ps.map Prod.fst).tail, IsSeparator separator)
    (hp : ∀ field ∈ ps.map Prod.snd, IsField field) (hq : ∀ field ∈ qs.map Prod.snd, IsField field)
    (h : weave ps = weave qs) : ps.map Prod.snd = qs.map Prod.snd := by
  induction ps generalizing qs with
  | nil =>
      cases qs with
      | nil => rfl
      | cons q qs => cases hseparators
  | cons p ps ih =>
      cases qs with
      | nil => cases hseparators
      | cons q qs =>
          obtain ⟨hhead, hrest⟩ := List.cons.inj hseparators
          have htext : p.2.toList ++ weave ps = q.2.toList ++ weave qs := by
            rw [weave, weave, List.flatMap_cons, List.flatMap_cons, List.append_assoc,
              List.append_assoc, hhead] at h
            exact List.append_cancel_left h
          have hps : ∀ piece ∈ ps, IsSeparator piece.1 :=
            fun piece hmem => htail piece.1 (List.mem_map_of_mem hmem)
          have hqs : ∀ piece ∈ qs, IsSeparator piece.1 := by
            intro piece hmem
            apply htail
            rw [List.map_cons, List.tail_cons, hrest]
            exact List.mem_map_of_mem hmem
          have hfield : p.2.toList = q.2.toList := by
            rw [← takeWhile_field (hp p.2 List.mem_cons_self) hps, htext,
              takeWhile_field (hq q.2 List.mem_cons_self) hqs]
          rw [hfield] at htext
          have hfields := ih hrest (fun separator hmem => htail separator (List.mem_of_mem_tail hmem))
            (fun field hmem => hp field (List.mem_cons_of_mem _ hmem))
            (fun field hmem => hq field (List.mem_cons_of_mem _ hmem))
            (List.append_cancel_left htext)
          rw [List.map_cons, List.map_cons, String.toList_inj.1 hfield, hfields]

/-! ## The fields -/

theorem isFieldChar_of_isDigit {c : Char} (h : c.isDigit = true) : isFieldChar c = true := by
  rw [isFieldChar, Char.isAlphanum, h, Bool.or_true, Bool.true_or]

theorem isField_repr (n : Nat) : IsField n.repr := by
  intro c hc
  rw [Nat.toList_repr] at hc
  exact isFieldChar_of_isDigit (Nat.isDigit_of_mem_toDigits (by decide) (by decide) hc)

theorem isField_nat (n : Nat) : IsField (toString n) := isField_repr n

theorem isField_append {s t : String} (hs : IsField s) (ht : IsField t) : IsField (s ++ t) := by
  intro c hc
  rw [String.toList_append, List.mem_append] at hc
  rcases hc with hc | hc
  · exact hs c hc
  · exact ht c hc

theorem isField_name (r : Reg) : IsField (name r) :=
  isField_append (List.all_eq_true.1 rfl) (isField_repr r.toNat)

theorem isField_int (i : Int) : IsField (toString i) := by
  cases i with
  | ofNat n => exact isField_repr n
  | negSucc n => exact isField_append (List.all_eq_true.1 rfl) (isField_repr (n + 1))

theorem isField_operandHex (value : UInt64) : IsField (operandHex value) := by
  refine isField_append (List.all_eq_true.1 rfl) fun c hc => ?_
  rw [toList_paddedHex] at hc
  rcases isLowerHex_of_mem_zeroPad hc with ⟨hlow, hhigh⟩ | ⟨hlow, hhigh⟩
  · apply isFieldChar_of_isDigit
    simp only [Char.isDigit, Bool.and_eq_true, decide_eq_true_eq]
    exact ⟨hlow, hhigh⟩
  · have hletter : c.isLower = true := by
      have hz : c ≤ 'z' := Char.le_trans hhigh (by decide)
      simp only [Char.isLower, Bool.and_eq_true, decide_eq_true_eq]
      exact ⟨hlow, hz⟩
    rw [isFieldChar, Char.isAlphanum, Char.isAlpha, hletter, Bool.or_true, Bool.true_or,
      Bool.true_or]

theorem repr_injective {m n : Nat} (h : m.repr = n.repr) : m = n := by
  have hdigits : Nat.toDigits 10 m = Nat.toDigits 10 n := by
    rw [← Nat.toList_repr, ← Nat.toList_repr, h]
  rw [← Nat.ofDigitChars_ten_toDigits (n := m), hdigits, Nat.ofDigitChars_ten_toDigits]

theorem name_injective {r r' : Reg} (h : name r = name r') : r = r' :=
  BitVec.eq_of_toNat_eq (repr_injective ((String.append_right_inj _).1 h))

theorem minus_not_mem_repr (n : Nat) : '-' ∉ n.repr.toList := by
  intro h
  rw [Nat.toList_repr] at h
  exact absurd (Nat.isDigit_of_mem_toDigits (by decide) (by decide) h) (by decide)

theorem int_injective {i j : Int} (h : toString i = toString j) : i = j := by
  have hminus : ∀ n m : Nat, n.repr ≠ "-" ++ m.repr := by
    intro n m heq
    refine minus_not_mem_repr n ?_
    rw [heq, String.toList_append]
    exact List.mem_append_left _ (by decide)
  cases i with
  | ofNat n =>
      cases j with
      | ofNat m => rw [repr_injective h]
      | negSucc m => exact absurd h (hminus n (m + 1))
  | negSucc n =>
      cases j with
      | ofNat m => exact absurd h.symm (hminus m (n + 1))
      | negSucc m => rw [Nat.succ.inj (repr_injective ((String.append_right_inj _).1 h))]

theorem operandHex_injective {a b : UInt64} (h : operandHex a = operandHex b) : a = b := by
  have hdigits : zeroPad 16 (Nat.toDigits 16 a.toNat) = zeroPad 16 (Nat.toDigits 16 b.toNat) := by
    rw [← toList_paddedHex, ← toList_paddedHex, (String.append_right_inj _).1 h]
  have ha : fromStrRadix (2 ^ 64) 16 (zeroPad 16 (Nat.toDigits 16 a.toNat)) = .ok a.toNat :=
    fromStrRadix_zeroPad a.toNat_lt
  have hb : fromStrRadix (2 ^ 64) 16 (zeroPad 16 (Nat.toDigits 16 b.toNat)) = .ok b.toNat :=
    fromStrRadix_zeroPad b.toNat_lt
  rw [hdigits, hb] at ha
  exact (UInt64.toNat_inj.1 (Except.ok.inj ha)).symm

/-! ## Reading a sentence back -/

def pieces : Sentence → List (String × String)
  | add rd rs1 rs2 left right =>
      [("add ", name rd), (", ", name rs1), (", ", name rs2), (" with ", name rs1),
        (" = ", operandHex left), (" and ", name rs2), (" = ", operandHex right)]
  | addi rd rs1 immediate base =>
      [("addi ", name rd), (", ", name rs1), (", ", toString immediate.toInt),
        (" with ", name rs1), (" = ", operandHex base)]
  | beq rs1 rs2 offset left right =>
      [("beq ", name rs1), (", ", name rs2), (", +", toString offset.toNat),
        (" with ", name rs1), (" = ", operandHex left), (" and ", name rs2),
        (" = ", operandHex right)]

/-- The text of separators and fields. -/
def text : List (String × String) → String
  | [] => ""
  | (separator, field) :: rest => separator ++ field ++ text rest

theorem toList_text (ps : List (String × String)) : (text ps).toList = weave ps := by
  induction ps with
  | nil => rfl
  | cons p ps ih =>
      rw [text, String.toList_append, String.toList_append, ih]
      rfl

theorem display_eq (s : Sentence) : s.display = text s.pieces := by
  cases s with
  | add rd rs1 rs2 left right =>
      rw [display, pieces]
      unfold addText
      simp only [text, String.append_assoc, String.append_empty]
      rfl
  | addi rd rs1 immediate base =>
      rw [display, pieces]
      unfold addiText
      simp only [text, String.append_assoc, String.append_empty]
      rfl
  | beq rs1 rs2 offset left right =>
      rw [display, pieces]
      unfold beqText
      simp only [text, String.append_assoc, String.append_empty]
      rfl

theorem isField_pieces (s : Sentence) : ∀ field ∈ s.pieces.map Prod.snd, IsField field := by
  cases s <;>
    simp only [pieces, List.map_cons, List.map_nil, List.forall_mem_cons, isField_name,
      isField_operandHex, isField_int, isField_nat, true_and] <;>
    simp

/-- The separators of the three kinds, after the mnemonics. -/
theorem isSeparator_pieces (s : Sentence) :
    ∀ separator ∈ (s.pieces.map Prod.fst).tail, IsSeparator separator := by
  have hcomma : IsSeparator ", " := ⟨',', _, rfl, rfl⟩
  have hplus : IsSeparator ", +" := ⟨',', _, rfl, rfl⟩
  have hwith : IsSeparator " with " := ⟨' ', _, rfl, rfl⟩
  have hequals : IsSeparator " = " := ⟨' ', _, rfl, rfl⟩
  have hand : IsSeparator " and " := ⟨' ', _, rfl, rfl⟩
  cases s <;>
    simp only [pieces, List.map_cons, List.map_nil, List.tail_cons, List.forall_mem_cons, *,
      true_and] <;>
    simp

theorem fields_eq {s t : Sentence} (h : weave s.pieces = weave t.pieces)
    (hseparators : s.pieces.map Prod.fst = t.pieces.map Prod.fst) :
    s.pieces.map Prod.snd = t.pieces.map Prod.snd :=
  weave_injective hseparators (isSeparator_pieces s) (isField_pieces s) (isField_pieces t) h

/-- The mnemonics tell the three kinds apart. -/
theorem weave_ne {a b x y : String} {ps qs : List (String × String)} (ha : 4 ≤ a.toList.length)
    (hb : 4 ≤ b.toList.length) (hne : a.toList.take 4 ≠ b.toList.take 4) :
    weave ((a, x) :: ps) ≠ weave ((b, y) :: qs) := by
  have htake : ∀ {c z : String} {rs : List (String × String)}, 4 ≤ c.toList.length →
      (weave ((c, z) :: rs)).take 4 = c.toList.take 4 := by
    intro c z rs hc
    rw [weave, List.flatMap_cons, List.append_assoc, List.take_append_of_le_length hc]
  intro h
  rw [← htake ha, ← htake hb, h] at hne
  exact hne rfl

theorem display_injective {s t : Sentence} (h : s.display = t.display) : s = t := by
  have htext : weave s.pieces = weave t.pieces := by
    rw [← toList_text, ← toList_text, ← display_eq, ← display_eq, h]
  cases s <;> cases t
  case add.add rd rs1 rs2 left right rd' rs1' rs2' left' right' =>
    have hfields := fields_eq htext (by simp only [pieces, List.map_cons, List.map_nil])
    simp only [pieces, List.map_cons, List.map_nil, List.cons.injEq] at hfields
    obtain ⟨hrd, hrs1, hrs2, -, hleft, -, hright, -⟩ := hfields
    rw [name_injective hrd, name_injective hrs1, name_injective hrs2, operandHex_injective hleft,
      operandHex_injective hright]
  case addi.addi rd rs1 immediate base rd' rs1' immediate' base' =>
    have hfields := fields_eq htext (by simp only [pieces, List.map_cons, List.map_nil])
    simp only [pieces, List.map_cons, List.map_nil, List.cons.injEq] at hfields
    obtain ⟨hrd, hrs1, himmediate, -, hbase, -⟩ := hfields
    rw [name_injective hrd, name_injective hrs1, BitVec.eq_of_toInt_eq (int_injective himmediate),
      operandHex_injective hbase]
  case beq.beq rs1 rs2 offset left right rs1' rs2' offset' left' right' =>
    have hfields := fields_eq htext (by simp only [pieces, List.map_cons, List.map_nil])
    simp only [pieces, List.map_cons, List.map_nil, List.cons.injEq] at hfields
    obtain ⟨hrs1, hrs2, hoffset, -, hleft, -, hright, -⟩ := hfields
    rw [name_injective hrs1, name_injective hrs2, BitVec.eq_of_toNat_eq (repr_injective hoffset),
      operandHex_injective hleft, operandHex_injective hright]
  -- the remaining pairs are of two different kinds
  all_goals exact absurd htext (weave_ne (by decide) (by decide) (by decide))

end Sentence

end CkbSail.DiffTest
