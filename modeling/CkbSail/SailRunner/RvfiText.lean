import CkbSail.Core.Event
import CkbSail.RustStd.Text

/-!
# The textual RVFI parser

Lines that name an `rvfi_` field fill in a record; the `rvfi_order` line turns it
into an event.  All other lines are skipped.
-/

namespace CkbSail.SailRunner

open CkbSail.Core RustStd

/-- The fields of a record, by their names in the text. -/
inductive RvfiField where
  | halt
  | trap
  | rdAddr
  | memWmask
  | memRmask
  | memWdata
  | memRdata
  | memAddr
  | rdWdata
  | insn
  | pcWdata
  | pcRdata
  | order
deriving DecidableEq, Repr

namespace RvfiField

def all : List RvfiField :=
  [halt, trap, rdAddr, memWmask, memRmask, memWdata, memRdata, memAddr, rdWdata, insn, pcWdata,
    pcRdata, order]

def name : RvfiField → String
  | halt => "rvfi_halt"
  | trap => "rvfi_trap"
  | rdAddr => "rvfi_rd_addr"
  | memWmask => "rvfi_mem_wmask"
  | memRmask => "rvfi_mem_rmask"
  | memWdata => "rvfi_mem_wdata"
  | memRdata => "rvfi_mem_rdata"
  | memAddr => "rvfi_mem_addr"
  | rdWdata => "rvfi_rd_wdata"
  | insn => "rvfi_insn"
  | pcWdata => "rvfi_pc_wdata"
  | pcRdata => "rvfi_pc_rdata"
  | order => "rvfi_order"

/-- The field a name is matched to. -/
def ofName? (text : List Char) : Option RvfiField := all.find? fun field => field.name.toList = text

end RvfiField

/-! ## Numbers -/

/-- `result.with_context(text)`, of a computation that may panic. -/
def withContext {α : Type} (text : String) : Except Fault α → Except Fault α
  | .error (.error error) => .error (.error (error.context text))
  | result => result

def parseRadix (radix : Nat) (digits : List Char) : Except Fault UInt64 :=
  match fromStrRadix (2 ^ 64) radix digits with
  | .ok value => .ok (UInt64.ofNat value)
  | .error error => .error (.error (.msg error.display))

def parseNumber (raw : List Char) : Except Fault UInt64 :=
  match firstToken raw with
  | none => .error (.error (.msg "empty number"))
  | some token =>
      let token := token.filter fun c => c ≠ '_'
      match (stripPrefix ['0', 'x'] token).or (stripPrefix ['0', 'X'] token) with
      | some hex =>
          -- memory data can be 256 bits: keep the least significant 64
          (sliceFrom (byteLen hex - 16) hex).bind (parseRadix 16)
      | none =>
          match (stripPrefix ['0', 'b'] token).or (stripPrefix ['0', 'B'] token) with
          | some binary => (sliceFrom (byteLen binary - 64) binary).bind (parseRadix 2)
          | none => parseRadix 10 token

/-- `T::try_from(value)`, for the unsigned type of `bits` bits. -/
def narrow {α : Type} (bits : Nat) (convert : UInt64 → α) (value : UInt64) (field : String) :
    Except Error α :=
  if value.toNat < 2 ^ bits then .ok (convert value)
  else .error (.msg s!"{field} value {alternateHex value.toNat} is out of range")

/-! ## Records -/

structure EventBuilder where
  order : Option UInt64
  instruction : Option UInt32
  pcBefore : Option UInt64
  pcAfter : Option UInt64
  rdAddress : Option UInt8
  rdValue : Option UInt64
  memoryAddress : Option UInt64
  memoryReadMask : Option UInt32
  memoryWriteMask : Option UInt32
  memoryReadData : Option UInt64
  memoryWriteData : Option UInt64
  trap : Bool
  halt : Bool
deriving DecidableEq

namespace EventBuilder

/-- `EventBuilder::default()`. -/
def empty : EventBuilder :=
  ⟨none, none, none, none, none, none, none, none, none, none, none, false, false⟩

/-- Fill in one field. -/
def set (builder : EventBuilder) (field : RvfiField) (value : UInt64) :
    Except Error EventBuilder :=
  match field with
  | .halt => .ok { builder with halt := value ≠ 0 }
  | .trap => .ok { builder with trap := value ≠ 0 }
  | .rdAddr =>
      (narrow 8 UInt64.toUInt8 value field.name).map fun v => { builder with rdAddress := some v }
  | .memWmask => (narrow 32 UInt64.toUInt32 value field.name).map fun v =>
      { builder with memoryWriteMask := some v }
  | .memRmask => (narrow 32 UInt64.toUInt32 value field.name).map fun v =>
      { builder with memoryReadMask := some v }
  | .memWdata => .ok { builder with memoryWriteData := some value }
  | .memRdata => .ok { builder with memoryReadData := some value }
  | .memAddr => .ok { builder with memoryAddress := some value }
  | .rdWdata => .ok { builder with rdValue := some value }
  | .insn => (narrow 32 UInt64.toUInt32 value field.name).map fun v =>
      { builder with instruction := some v }
  | .pcWdata => .ok { builder with pcAfter := some value }
  | .pcRdata => .ok { builder with pcBefore := some value }
  | .order => .ok { builder with order := some value }

/-- `option.context(text)`. -/
def required {α : Type} (text : String) : Option α → Except Error α
  | some a => .ok a
  | none => .error (.msg text)

/-- The event of a record. -/
def finish (builder : EventBuilder) : Except Error CommitEvent := do
  let order ← required "RVFI record is missing rvfi_order" builder.order
  let instruction ← required "RVFI record is missing rvfi_insn" builder.instruction
  let pcBefore ← required "RVFI record is missing rvfi_pc_rdata" builder.pcBefore
  let pcAfter ← required "RVFI record is missing rvfi_pc_wdata" builder.pcAfter
  let index := builder.rdAddress.getD 0
  let registerWrites :=
    if index = 0 then []
    else
      match builder.rdValue with
      | none => []
      | some value => [⟨index, value⟩]
  let readMask := builder.memoryReadMask.getD 0
  let writeMask := builder.memoryWriteMask.getD 0
  let memory ←
    if readMask = 0 ∧ writeMask = 0 then .ok []
    else do
      let address ← required "RVFI memory event is missing rvfi_mem_addr" builder.memoryAddress
      pure [⟨address, readMask, writeMask, builder.memoryReadData.getD 0,
        builder.memoryWriteData.getD 0⟩]
  let event : CommitEvent :=
    { order, instruction, pcBefore, pcAfter, registerWrites, memory
      trap := builder.trap
      halt := builder.halt }
  pure event.normalize

end EventBuilder

/-! ## The parser -/

/-- The name and the value of a line that names an `rvfi_` field. -/
def rvfiLine (line : List Char) : Option (List Char × List Char) :=
  match splitOnce ':' (trim line) with
  | none => none
  | some (rawName, rawValue) =>
      let name := trim rawName
      if ['r', 'v', 'f', 'i', '_'].isPrefixOf name then some (name, rawValue) else none

/-- The number of a line, or what is said of a value that is none. -/
def readValue (name rawValue : List Char) : Except Fault UInt64 :=
  withContext s!"invalid {String.ofList name} value: {String.ofList (trim rawValue)}"
    (parseNumber rawValue)

/-- One pass of the loop over the lines. -/
def parseLine (state : List CommitEvent × EventBuilder) (line : List Char) :
    Except Fault (List CommitEvent × EventBuilder) :=
  match rvfiLine line with
  | none => .ok state
  | some (name, rawValue) =>
      match readValue name rawValue with
      | .error fault => .error fault
      | .ok value =>
          match RvfiField.ofName? name with
          | none => .ok state
          | some field =>
              match state.2.set field value with
              | .error error => .error (.error error)
              | .ok builder =>
                  if field = .order then
                    match builder.finish with
                    | .error error => .error (.error error)
                    -- `finish` leaves the default builder behind
                    | .ok event => .ok (state.1 ++ [event], .empty)
                  else .ok (state.1, builder)

def parseRvfiText (output : List Char) : Except Fault (List CommitEvent) :=
  ((lines output).foldlM parseLine ([], .empty)).map Prod.fst

end CkbSail.SailRunner
