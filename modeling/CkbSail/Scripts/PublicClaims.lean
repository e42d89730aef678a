import CkbSail.PythonStd.Ops
import CkbSail.PythonStd.Regex
import CkbSail.PythonStd.Text

/-!
# The coverage table of the public documents

`checkCoverage` finds the rows of the table with one pattern and compares the status
of each with the allowed ones.
-/

namespace CkbSail.Scripts.PublicClaims

open PythonStd

/-! ## The pattern of a row -/

/-- `[A-Za-z/ ]`. -/
def isFamily (c : Char) : Bool := c.isAlpha || c = '/' || c = ' '

/-- `[a-z-]`. -/
def isStatus (c : Char) : Bool := c.isLower || c = '-'

/-- `[^|\n]`. -/
def isCell (c : Char) : Bool := c ≠ '|' && c ≠ '\n'

/-- `[ \t]`. -/
def isBlank (c : Char) : Bool := c = ' ' || c = '\t'

def bar : Regex Char := .text ['|']

/-- `\s*`. -/
def spaces : Regex Char := .chars true 0 isSpace

/-- `[^|\n]*\|`. -/
def cell : Regex Char := .seq (.chars true 0 isCell) bar

/-- `^\|\s*([A-Za-z/ ]+?)\s*\|(?:[^|\n]*\|){5}\s*([a-z-]+)\s*\|[ \t]*$`. -/
def STATUS_ROW : Regex Char :=
  .concat [.lineStart, bar, spaces, .group (.chars false 1 isFamily), spaces, bar,
    cell, cell, cell, cell, cell,
    spaces, .group (.chars true 1 isStatus), spaces, bar, .chars true 0 isBlank, .lineEnd]

/-! ## The check -/

/-- `family.strip().lower().startswith("instruction family") or
set(family.strip()) <= set("-: ")`. -/
def skipped (family : List Char) : Bool :=
  "instruction family".toList.isPrefixOf ((strip family).map Char.toLower) ||
    (strip family).all "-: ".toList.contains

def checkRow (allowed : List String) (row : List (List Char)) : Py Unit :=
  match row with
  | [family, status] =>
      if skipped family then .ok ()
      else
        require (allowed.contains (String.ofList status))
          ("coverage status outside the allowed vocabulary: " ++
            String.ofList (strip family) ++ " = " ++ String.ofList status)
  | _ => .error .valueError

/-- The number of rows found. -/
def checkCoverage (body : String) (allowed : List String) : Py Nat := do
  let rows := STATUS_ROW.findAll body.toList
  require (!rows.isEmpty) "coverage matrix has no status rows"
  Py.forEach (checkRow allowed) rows
  pure rows.length

end CkbSail.Scripts.PublicClaims
