import Mathlib.Data.Nat.Digits.Defs

/-!
# Rust values as text

The parts of `core::fmt` and `anyhow` whose output the program stores or
prints.
-/

namespace CkbSail.RustStd

/-- `<str as fmt::Debug>`.  Which characters it escapes depends on the Unicode
tables of the standard library, so it is a parameter; nothing is assumed of it. -/
class StrDebug where
  strDebug : String → String

export StrDebug (strDebug)

/-- `str::fmt` with quotes and without escapes, as on texts of printable
characters other than quotes and backslashes. -/
@[reducible] def plainStrDebug : StrDebug := ⟨fun s => "\"" ++ s ++ "\""⟩

/-- `{:?}` of a sequence. -/
def listDebug {α : Type} (debug : α → String) (items : List α) : String :=
  "[" ++ ", ".intercalate (items.map debug) ++ "]"

/-- `{:?}` of an option. -/
def optionDebug {α : Type} (debug : α → String) : Option α → String
  | none => "None"
  | some a => "Some(" ++ debug a ++ ")"

/-- Left-pad with zeros to at least `width` characters. -/
def zeroPad (width : Nat) (digits : List Char) : List Char :=
  List.replicate (width - digits.length) '0' ++ digits

/-- `{:0width x}`. -/
def paddedHex (width n : Nat) : String := String.ofList (zeroPad width (Nat.toDigits 16 n))

/-- `{:#x}`. -/
def alternateHex (n : Nat) : String := "0x" ++ String.ofList (Nat.toDigits 16 n)

/-- `anyhow::Error`: the outermost context first. -/
structure Error where
  chain : List String
deriving DecidableEq, Repr

namespace Error

def msg (text : String) : Error := ⟨[text]⟩

def context (error : Error) (text : String) : Error := ⟨text :: error.chain⟩

/-- `{error:#}`. -/
def alternate (error : Error) : String := ": ".intercalate error.chain

end Error

/-- `result.context(text)`. -/
def context {α : Type} (text : String) : Except Error α → Except Error α
  | .ok a => .ok a
  | .error e => .error (e.context text)

@[simp] theorem context_eq_ok {α : Type} {text : String} {result : Except Error α} {a : α} :
    context text result = .ok a ↔ result = .ok a := by
  cases result <;> simp [context]

theorem exists_ok_of_toOption_map {ε α β : Type} {result : Except ε α} {f : α → β} {b : β}
    (h : result.toOption.map f = some b) : ∃ a, result = .ok a ∧ f a = b := by
  cases result with
  | error e => simp [Except.toOption] at h
  | ok a => exact ⟨a, rfl, by simpa [Except.toOption] using h⟩

/-- `anyhow::ensure!(condition, text)`. -/
def ensure (condition : Bool) (text : String) : Except Error Unit :=
  if condition then .ok () else .error (.msg text)

@[simp] theorem ensure_eq_ok {condition : Bool} {text : String} :
    ensure condition text = .ok () ↔ condition = true := by
  cases condition <;> simp [ensure]

/-- How a function that may panic fails. -/
inductive Fault where
  | error (error : Error)
  | panic
deriving DecidableEq, Repr

end CkbSail.RustStd
