import Mathlib.Data.List.Infix
import Mathlib.Data.List.TakeWhile

/-!
# Texts in Python

The methods of `str` the scripts use, on the characters of a text.
-/

namespace CkbSail.PythonStd

/-- The whitespace of `str.strip` and of `\s`. -/
def isSpace (c : Char) : Bool :=
  let n := c.toNat
  (9 ≤ n && n ≤ 13) || (28 ≤ n && n ≤ 32) || n = 0x85 || n = 0xa0 || n = 0x1680 ||
    (0x2000 ≤ n && n ≤ 0x200a) || n = 0x2028 || n = 0x2029 || n = 0x202f || n = 0x205f ||
    n = 0x3000

def lstrip (text : List Char) : List Char := text.dropWhile isSpace

/-- `str.strip`. -/
def strip (text : List Char) : List Char := (lstrip (lstrip text).reverse).reverse

/-- The line boundaries of `str.splitlines`, other than the pair of two. -/
def isLineBreak (c : Char) : Bool :=
  let n := c.toNat
  (10 ≤ n && n ≤ 13) || (28 ≤ n && n ≤ 30) || n = 0x85 || n = 0x2028 || n = 0x2029

/-- `str.splitlines`, where `line` is the line so far, backwards. -/
def splitLinesFrom (line : List Char) : List Char → List (List Char)
  | [] => if line.isEmpty then [] else [line.reverse]
  | '\r' :: '\n' :: rest => line.reverse :: splitLinesFrom [] rest
  | c :: rest =>
      if isLineBreak c then line.reverse :: splitLinesFrom [] rest
      else splitLinesFrom (c :: line) rest

def splitLines (text : List Char) : List (List Char) := splitLinesFrom [] text

/-- `text.rsplit(separator, 1)[-1]`. -/
def afterLast (separator text : List Char) : List Char :=
  ((text.tails.filter separator.isPrefixOf).getLast?.map (List.drop separator.length)).getD text

/-- A UTF-16 unit in JSON text that is ASCII. -/
def unicodeEscape (unit : Nat) : List Char :=
  '\\' :: 'u' :: [unit / 4096, unit / 256 % 16, unit / 16 % 16, unit % 16].map Nat.digitChar

def escapeChar (c : Char) : List Char :=
  if c = '\"' || c = '\\' then ['\\', c]
  else if c = '\n' then ['\\', 'n']
  else if c = '\r' then ['\\', 'r']
  else if c = '\t' then ['\\', 't']
  else if c.toNat = 8 then ['\\', 'b']
  else if c.toNat = 12 then ['\\', 'f']
  else if 32 ≤ c.toNat && c.toNat ≤ 126 then [c]
  else if c.toNat < 0x10000 then unicodeEscape c.toNat
  -- two surrogates
  else unicodeEscape (0xd800 + (c.toNat - 0x10000) / 0x400) ++
    unicodeEscape (0xdc00 + (c.toNat - 0x10000) % 0x400)

/-- `json.dumps(text)`. -/
def dumpsText (text : String) : String :=
  "\"" ++ String.ofList (text.toList.flatMap escapeChar) ++ "\""

/-- What Unicode says of a character. -/
structure Unicode where
  /-- `\w`. -/
  isWord : Char → Bool
  /-- The value of a decimal digit, the characters of `\d`. -/
  digit : Char → Option Nat

def Unicode.isDecimal (unicode : Unicode) (c : Char) : Bool := (unicode.digit c).isSome

/-- The number some decimal digits write. -/
def Unicode.number (unicode : Unicode) (digits : List Char) : Nat :=
  digits.foldl (fun value c => 10 * value + (unicode.digit c).getD 0) 0

/-- The classes of the ASCII characters. -/
def ascii : Unicode where
  isWord := fun c => c.isAlphanum || c = '_'
  digit := fun c => if c.isDigit then some (c.toNat - 48) else none

section Strip

variable {left text right : List Char}

theorem lstrip_append (h : ∀ c ∈ left, isSpace c = true) : lstrip (left ++ text) = lstrip text := by
  rw [lstrip, List.dropWhile_append_of_pos h, lstrip]

theorem lstrip_append_right (h : ∀ c ∈ right, isSpace c = true) :
    ∃ rest, lstrip (text ++ right) = lstrip text ++ rest ∧ ∀ c ∈ rest, isSpace c = true := by
  induction text with
  | nil =>
      refine ⟨[], ?_, by simp⟩
      rw [List.nil_append, lstrip, List.dropWhile_eq_nil_iff.2 fun c hc => by simpa using h c hc]
      rfl
  | cons c text ih =>
      cases hc : isSpace c with
      | true => simpa [lstrip, hc] using ih
      | false => exact ⟨right, by simp [lstrip, hc], h⟩

/-- Whitespace around a text does not matter. -/
theorem strip_pad (hleft : ∀ c ∈ left, isSpace c = true) (hright : ∀ c ∈ right, isSpace c = true) :
    strip (left ++ text ++ right) = strip text := by
  obtain ⟨rest, hrest, hspace⟩ := @lstrip_append_right text right hright
  rw [strip, strip, List.append_assoc, lstrip_append hleft, hrest, List.reverse_append,
    lstrip_append]
  intro c hc
  exact hspace c (List.mem_reverse.1 hc)

theorem strip_of_notSpace (h : ∀ c ∈ text, isSpace c = false) : strip text = text := by
  have hkeep : ∀ cs : List Char, (∀ c ∈ cs, isSpace c = false) → lstrip cs = cs := by
    intro cs hcs
    cases cs with
    | nil => rfl
    | cons c cs => simp [lstrip, hcs c List.mem_cons_self]
  rw [strip, hkeep text h, hkeep _ fun c hc => h c (List.mem_reverse.1 hc), List.reverse_reverse]

theorem takeWhile_append_lstrip (text : List Char) :
    text.takeWhile isSpace ++ lstrip text = text := List.takeWhile_append_dropWhile

/-- A text is its stripped text between whitespace. -/
theorem exists_pad (text : List Char) : ∃ left right, text = left ++ strip text ++ right ∧
    (∀ c ∈ left, isSpace c = true) ∧ ∀ c ∈ right, isSpace c = true := by
  refine ⟨text.takeWhile isSpace, ((lstrip text).reverse.takeWhile isSpace).reverse, ?_,
    fun c hc => List.mem_takeWhile_imp hc,
    fun c hc => List.mem_takeWhile_imp (List.mem_reverse.1 hc)⟩
  have hback : strip text ++ ((lstrip text).reverse.takeWhile isSpace).reverse = lstrip text := by
    rw [strip, ← List.reverse_append, takeWhile_append_lstrip, List.reverse_reverse]
  calc text = text.takeWhile isSpace ++ lstrip text := (takeWhile_append_lstrip text).symm
    _ = text.takeWhile isSpace ++ strip text ++
          ((lstrip text).reverse.takeWhile isSpace).reverse := by rw [List.append_assoc, hback]

end Strip

end CkbSail.PythonStd
