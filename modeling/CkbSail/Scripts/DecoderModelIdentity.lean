import CkbSail.PythonStd.Regex

/-!
# The identity of the decoder models

Generated models name their sources with absolute paths.  `canonicalize` and
`canonicalizeIterator` replace the checkout in lines of one exact shape before the text
is hashed.
-/

namespace CkbSail.Scripts.DecoderModelIdentity

open PythonStd

/-! ## Paths -/

/-- `text.encode()`, of ASCII text. -/
def encode (text : String) : List UInt8 := text.toList.map Char.toUInt8

/-- A resolved path, by the bytes of its components. -/
abbrev Resolved := List (List UInt8)

def slash : UInt8 := 47

def joinParts (parts : List (List UInt8)) : List UInt8 := [slash].intercalate parts

/-- `str(path).encode()`. -/
def Resolved.bytes (path : Resolved) : List UInt8 := slash :: joinParts path

/-- The components after the common ones, and how many of `start` are left. -/
def dropCommon : Resolved → Resolved → List (List UInt8) × Nat
  | part :: path, other :: start =>
      if part = other then dropCommon path start else (part :: path, start.length + 1)
  | path, start => (path, start.length)

/-- `os.path.relpath(path, start)`. -/
def relpath (path start : Resolved) : List UInt8 :=
  match dropCommon path start with
  | ([], 0) => encode "."
  | (rest, up) => joinParts (List.replicate up (encode "..") ++ rest)

def LEGACY_CHECKOUT : List UInt8 := encode "/home/clair/tinyueng_workplace/ckb-vm-sail-verify"

/-- `proof/lean/decoder/toolchain/fnptr-experimental/fnptr_cases.rs`. -/
def ITERATOR_RELATIVE : Resolved :=
  ["proof", "lean", "decoder", "toolchain", "fnptr-experimental", "fnptr_cases.rs"].map encode

/-! ## Source lines -/

def sourceStart : List UInt8 := encode "    Source: '"

/-- `[0-9]`. -/
def isDigit (b : UInt8) : Bool := 48 ≤ b && b ≤ 57

/-- `[^'\r\n]`. -/
def isFile (b : UInt8) : Bool := b ≠ 39 && b ≠ 13 && b ≠ 10

/-- `[0-9]+`. -/
def digits : Regex UInt8 := .chars true 1 isDigit

/-- `', lines [0-9]+:[0-9]+-[0-9]+:[0-9]+`. -/
def positions : Regex UInt8 :=
  .concat [.text (encode "', lines "), digits, .text (encode ":"), digits, .text (encode "-"),
    digits, .text (encode ":"), digits]

/-- `^(    Source: ')names(remainder)$`, without the anchors. -/
def sourceLine (names : List (List UInt8)) (remainder : Regex UInt8) : Regex UInt8 :=
  .concat [.group (.text sourceStart), .oneOf names, .group remainder]

/-- `match[1] + legacy + match[2]`. -/
def relocate (legacy : List UInt8) : List (List UInt8) → List UInt8
  | [before, after] => before ++ legacy ++ after
  | _ => []

/-! ## The two rewrites -/

def checkoutPrefix (checkout : List UInt8) : List UInt8 := checkout ++ encode "/deps/ckb-vm/"

/-- `[^'\r\n]+', lines ...`. -/
def fileRemainder : Regex UInt8 := .seq (.chars true 1 isFile) positions

def canonicalize (data : List UInt8) (checkout : Resolved) : List UInt8 × Nat :=
  (Regex.line (sourceLine [checkoutPrefix checkout.bytes] fileRemainder)).subn
    (relocate (checkoutPrefix LEGACY_CHECKOUT)) data

/-- `sorted({absolute, relative})`. -/
def sortedSpellings (absolute relative : List UInt8) : List (List UInt8) :=
  if absolute = relative then [absolute]
  else if absolute < relative then [absolute, relative]
  else [relative, absolute]

def spellings (checkout extractionCwd : Resolved) : List (List UInt8) :=
  let source : Resolved := checkout ++ ITERATOR_RELATIVE
  sortedSpellings source.bytes (relpath source extractionCwd)

/-- `', lines ...`, and the end of the comment where there is one. -/
def iteratorRemainder : Regex UInt8 :=
  .seq positions (.alt (.text (encode " -/")) (.text []))

def iteratorLegacy : List UInt8 :=
  LEGACY_CHECKOUT ++ encode "/" ++ joinParts ITERATOR_RELATIVE

def canonicalizeIterator (data : List UInt8) (checkout extractionCwd : Resolved) :
    List UInt8 × Nat :=
  (Regex.line (sourceLine (spellings checkout extractionCwd) iteratorRemainder)).subn
    (relocate iteratorLegacy) data

end CkbSail.Scripts.DecoderModelIdentity
