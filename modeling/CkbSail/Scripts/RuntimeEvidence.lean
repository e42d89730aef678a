import CkbSail.PythonStd.Ops
import CkbSail.RustStd.Format
import Mathlib.Data.List.Sort
import Mathlib.Data.List.Dedup

/-!
# The independent evidence validator

`check_case` reopens one artifact beside its report row and recomputes the
comparison; `check_mutations` recomputes all six mutations of every case.
Returning normally is acceptance.
-/

namespace CkbSail.Scripts.RuntimeEvidence

open PythonStd

def FIELDS : List String :=
  ["order", "instruction", "pc_before", "pc_after", "register_writes", "memory", "trap", "halt"]

def MUTATIONS : List (String × String) :=
  [("pc_after", "pc_after"), ("register_index", "register_writes"),
    ("register_value", "register_writes"), ("trap", "trap"), ("trace_length", "trace_length"),
    ("termination", "termination")]

def FAMILIES : List (String × (Nat × Nat)) :=
  [("ADD", (0xfe00707f, 0x33)), ("ADDI", (0x707f, 0x13)), ("BEQ", (0x707f, 0x63))]

/-! ## The comparison -/

/-- The inner loop of `first_difference`, over the fields of one pair of events. -/
def differingField (a b : Json) : List String → Py (Option String)
  | [] => .ok none
  | field :: fields => do
      let x ← a.getItem field
      let y ← b.getItem field
      if !x.eq y then pure (some field) else differingField a b fields

/-- The outer loop, over the common prefix. -/
def differingEvent : Nat → List Json → List Json → Py (Option (String × Nat))
  | i, a :: as, b :: bs => do
      match ← differingField a b FIELDS with
      | some field => pure (some (field, i))
      | none => differingEvent (i + 1) as bs
  | _, _, _ => .ok none

def firstDifference (left right : Json) : Py (Option String × Option Nat) := do
  let leftEvents ← left.getItem "events"
  let rightEvents ← right.getItem "events"
  let lefts ← leftEvents.iter
  let rights ← rightEvents.iter
  match ← differingEvent 0 lefts rights with
  | some (field, i) => pure (some field, some i)
  | none =>
      let n ← leftEvents.len
      let m ← rightEvents.len
      if n ≠ m then pure (some "trace_length", some (min n m))
      else do
        let leftEnd ← left.getItem "end"
        let rightEnd ← right.getItem "end"
        if !leftEnd.eq rightEnd then pure (some "termination", none)
        else if !leftEvents.truthy then pure (some "empty_trace", none)
        else pure (none, none)

/-! ## Mutations -/

/-- `next((i for i, row in enumerate(events) if row["register_writes"]), None)`. -/
def nextWrite : Nat → List Json → Py (Option Nat)
  | _, [] => .ok none
  | i, row :: rows => do
      let writes ← row.getItem "register_writes"
      if writes.truthy then pure (some i) else nextWrite (i + 1) rows

/-- `1 if write["index"] >= 31 else write["index"] + 1`; `check_case` has
required an integer, so no other operand occurs. -/
def nextIndex : Json → Py Json
  | .int i => .ok (.int (if i ≥ 31 then 1 else i + 1))
  | _ => .error .typeError

/-- `value ^ 1`. -/
def flipLowBit : Json → Py Json
  | .int i => .ok (.int (Int.xor i 1))
  | _ => .error .typeError

/-- `(value + 2) % 2 ** 64`. -/
def advanceByTwo : Json → Py Json
  | .int i => .ok (.int ((i + 2) % 2 ^ 64))
  | _ => .error .typeError

/-- Assign `change` of the value to one key of the event at `index`. -/
def assignEvent (events index : Json) (key : String) (change : Json → Py Json) : Py Json := do
  let event ← events.subscript index
  let value ← event.getItem key
  let changed ← change value
  let event ← event.setItem key changed
  events.setAt index event

/-- Assign `change` of the value to one key of the first write of the event at `index`. -/
def assignWrite (events index : Json) (key : String) (change : Json → Py Json) : Py Json :=
  assignEvent events index "register_writes" fun writes => do
    let write ← writes.subscript (.int 0)
    let value ← write.getItem key
    let changed ← change value
    let write ← write.setItem key changed
    writes.setAt (.int 0) write

/-- The focus if its event has a register write, else the first event that has one. -/
def writeTarget (events focus : Json) : Py (Option Json) := do
  let focused ← events.subscript focus
  let writes ← focused.getItem "register_writes"
  if writes.truthy then pure (some focus)
  else do
    let rows ← events.iter
    let found ← nextWrite 0 rows
    pure (found.map fun i => Json.int i)

/-- `None` when the mutation needs a register write and there is none. -/
def mutated (trace : Json) (kind : String) (focus : Json) : Py (Option Json) := do
  let events ← trace.getItem "events"
  if kind = "register_index" ∨ kind = "register_value" then
    match ← writeTarget events focus with
    | none => pure none
    | some index => do
        let events ← if kind = "register_index" then assignWrite events index "index" nextIndex
          else assignWrite events index "value" flipLowBit
        let result ← trace.setItem "events" events
        pure (some result)
  else if kind = "pc_after" then
    let events ← assignEvent events focus "pc_after" advanceByTwo
    let result ← trace.setItem "events" events
    pure (some result)
  else if kind = "trap" then
    let events ← assignEvent events focus "trap" fun value => pure (.bool !value.truthy)
    let result ← trace.setItem "events" events
    pure (some result)
  else if kind = "trace_length" then
    let events ← events.pop
    let result ← trace.setItem "events" events
    pure (some result)
  else if kind = "termination" then
    let result ← trace.setItem "end" (.obj [("kind", .str "step_limit")])
    pure (some result)
  else .error (.runtimeError "unknown mutation")

/-! ## One case -/

/-- `f"0x{word:08x}"`. -/
def formatWord : Json → Py Json
  | .int i =>
      if i < 0 then
        .ok (.str ("0x-" ++ String.ofList (RustStd.zeroPad 7 (Nat.toDigits 16 (-i).toNat))))
      else .ok (.str ("0x" ++ RustStd.paddedHex 8 i.toNat))
  | _ => .error .valueError

/-- The approved mask and value of a family. -/
def family (name : Json) : Py (Nat × Nat) :=
  match FAMILIES.find? fun entry => name.eq (.str entry.1) with
  | some entry => .ok entry.2
  | none => .error .keyError

/-- `word & mask == value`. -/
def matchesFamily (word : Json) (mask value : Nat) : Py Bool :=
  match word with
  | .int i => .ok (Int.land i mask = value)
  | _ => .error .typeError

/-- The program of an artifact: schema, words, focus, family and initial state. -/
def checkProgram (artifact : Json) : Py (Json × List Json) := do
  let version ← artifact.getItem "schema_version"
  requirePy (version.same (.int 3)) "old/unknown case schema"
  let case ← artifact.getItem "case"
  let words ← case.getItem "instructions"
  let focus ← case.getItem "focus_step"
  require (words.isList && words.truthy) "invalid program words"
  let words ← words.iter
  require (words.all fun w => w.integer 0 (2 ^ 32 - 1)) "invalid program words"
  require (focus.integer 0 (words.length - 1)) "invalid focus instruction"
  let hex ← artifact.getItem "instructions_hex"
  let expected ← Py.collect formatWord words
  require (hex.eq (.arr expected)) "program/hex mismatch"
  let name ← case.getItem "family"
  requirePy (name.inNames (FAMILIES.map Prod.fst)) "unapproved corpus family"
  let (mask, value) ← family name
  let word ← (Json.arr words).subscript focus
  requirePy (matchesFamily word mask value) "focus opcode does not match declared family"
  let initial ← artifact.getItem "initial_state"
  require (initial.eq (.obj [("pc", .int 0x80000000), ("integer_registers", .str "x0..x31 = 0")]))
    "unsupported initial state"
  pure (case, words)

/-- One of the two places that claim a clean pass. -/
def checkEvidence (words : List Json) (evidence : Json) : Py Unit := do
  let passed ← evidence.getItem "passed"
  requirePy (Py.and (pure (passed.isBool true)) (do
    let classification ← evidence.getItem "classification"
    if !classification.eq (.str "match") then pure false
    else do
      let error ← evidence.getItem "error"
      pure error.isNone)) "case is not a clean passing baseline"
  let comparison ← evidence.getItem "comparison"
  requirePy (comparison.same
    (.obj [("compared_steps", .int words.length), ("mismatch", .null)]))
    "comparison omitted events or reports mismatch"

/-- The report row against the case, and both against a clean pass. -/
def checkReport (row artifact environment case : Json) (words : List Json) : Py Unit := do
  let recorded ← artifact.getItem "environment"
  requirePy (recorded.same environment) "mixed runtime environments"
  Py.forEach (fun key => do
    let reported ← row.getItem key
    let declared ← case.getItem key
    requirePy (reported.same declared) ("case/report mismatch: " ++ key))
    ["id", "description", "family", "focus_step"]
  let instructions ← row.getItem "instructions"
  require (instructions.isInt && instructions.eq (.int words.length)) "instruction count mismatch"
  Py.forEach (checkEvidence words) [row, artifact]

/-- `set(w) == {"index", "value"}` and both values in range. -/
def validWrite (write : Json) : Py Bool :=
  (write.setEq ["index", "value"]).and (do
    let index ← write.getItem "index"
    if !index.integer 1 31 then pure false
    else do
      let value ← write.getItem "value"
      pure (value.integer 0 (2 ^ 64 - 1)))

/-- The indices of the writes, as integers. -/
def writeIndex (write : Json) : Py Int := do
  match ← write.getItem "index" with
  | .int i => pure i
  | _ => .error .typeError

/-- `sorted(set(indices))`. -/
def sortedSet (indices : List Int) : List Int := indices.dedup.insertionSort (· ≤ ·)

/-- One event of a trace; returns the program counter after it. -/
def checkEvent (words : List Json) (i : Nat) (event pc : Json) : Py Json := do
  requirePy (event.setEq FIELDS) "unknown/missing observation field"
  let order ← event.getItem "order"
  let instruction ← event.getItem "instruction"
  let word ← (Json.arr words).getAt i
  require (order.isInt && order.eq (.int i) && instruction.isInt && instruction.eq word)
    "trace order/instruction not the input stream"
  let pcBefore ← event.getItem "pc_before"
  let pcAfter ← event.getItem "pc_after"
  require (pcBefore.integer 0 (2 ^ 64 - 1) && pcBefore.eq pc && pcAfter.integer 0 (2 ^ 64 - 1))
    "invalid PC sequence"
  let trap ← event.getItem "trap"
  let halt ← event.getItem "halt"
  let memory ← event.getItem "memory"
  require (trap.isBool false && halt.isBool false && memory.eq (.arr []))
    "unexpected trap/halt/memory observation in corpus"
  let writes ← event.getItem "register_writes"
  require writes.isList "invalid register write"
  let writes ← writes.iter
  requirePy (Py.all validWrite writes) "invalid register write"
  let indices ← Py.collect writeIndex writes
  require (indices = sortedSet indices) "unnormalized register writes"
  pure pcAfter

/-- The loop over the events of a trace. -/
def checkEvents (words : List Json) : Nat → List Json → Json → Py Unit
  | _, [], _ => .ok ()
  | i, event :: events, pc => do
      let pc ← checkEvent words i event pc
      checkEvents words (i + 1) events pc

def checkTrace (words : List Json) (trace : Json) : Py Unit := do
  requirePy (Py.and (pure trace.isDict) (trace.setEq ["events", "end"])) "invalid trace schema"
  let events ← trace.getItem "events"
  let length ← events.len
  let traceEnd ← trace.getItem "end"
  require (length = words.length && traceEnd.eq (.obj [("kind", .str "injection_complete")]))
    "trace length/termination mismatch"
  let events ← events.iter
  checkEvents words 0 events (.int 0x80000000)

/-- `re.fullmatch("[0-9a-f]{176}", text)`. -/
def isPacketText (text : String) : Bool :=
  text.length = 176 && text.toList.all fun c =>
    ('0' ≤ c && c ≤ '9') || ('a' ≤ c && c ≤ 'f')

def isPacket : Json → Bool
  | .str text => isPacketText text
  | _ => false

def checkPackets (words : List Json) (packets : Json) : Py Unit := do
  let length ← packets.len
  require (length = words.length + 1) "missing/invalid raw RVFI-DII packets"
  let packets ← packets.iter
  require (packets.all isPacket) "missing/invalid raw RVFI-DII packets"

/-- Everything `check_case` looks at before the raw packets. -/
def checkRecorded (row artifact environment : Json) : Py (List Json) := do
  let (case, words) ← checkProgram artifact
  checkReport row artifact environment case words
  let ckb ← artifact.getItem "ckb_trace"
  checkTrace words ckb
  let sail ← artifact.getItem "sail_trace"
  checkTrace words sail
  let difference ← firstDifference ckb sail
  require (difference = (none, none)) "actual normalized engine traces differ"
  pure words

def checkCase (row artifact environment : Json) : Py Unit := do
  let words ← checkRecorded row artifact environment
  let packets ← artifact.getItem "sail_raw_packets"
  checkPackets words packets
  let replay ← artifact.getItem "replay"
  let command ← replay.getItem "from_artifact"
  require (command.isStr && command.truthy) "missing replay command"

/-! ## The mutation matrix -/

/-- A dictionary of artifacts, one for each case. -/
structure Cases where
  entries : List (String × Json)
  nodup : (entries.map Prod.fst).Nodup

def Cases.names (cases : Cases) : List String := cases.entries.map Prod.fst

/-- `cases[name]`. -/
def Cases.artifact (cases : Cases) (name : Json) : Py Json :=
  if name.hashable then
    match cases.entries.find? fun entry => name.eq (.str entry.1) with
    | some entry => .ok entry.2
    | none => .error .keyError
  else .error .typeError

/-- `{(name, kind) for name in cases for kind in MUTATIONS}`. -/
def expectedKeys (cases : Cases) : List (String × String) :=
  cases.names.flatMap fun name => MUTATIONS.map fun entry => (name, entry.1)

/-- `(r["case_id"], r["mutation"])`. -/
def reportKey (row : Json) : Py (Json × Json) := do
  let case ← row.getItem "case_id"
  let kind ← row.getItem "mutation"
  pure (case, kind)

def keyEq (key : Json × Json) (expected : String × String) : Bool :=
  key.1.eq (.str expected.1) && key.2.eq (.str expected.2)

/-- `set(keys) == expected`. -/
def keysEq (keys : List (Json × Json)) (expected : List (String × String)) : Py Bool :=
  if keys.all fun key => key.1.hashable && key.2.hashable then
    .ok ((keys.all fun key => expected.any (keyEq key)) &&
      expected.all fun e => keys.any fun key => keyEq key e)
  else .error .typeError

/-- The key of `MUTATIONS` a value is, and its field. -/
def mutationEntry (kind : Json) : Py (String × String) :=
  if kind.hashable then
    match MUTATIONS.find? fun entry => kind.eq (.str entry.1) with
    | some entry => .ok entry
    | none => .error .keyError
  else .error .typeError

/-- `row[key] is value`, for a flag. -/
def flagIs (row : Json) (key : String) (value : Bool) : Py Bool := do
  let flag ← row.getItem key
  pure (flag.isBool value)

/-- `row[key] is None`. -/
def noneAt (row : Json) (key : String) : Py Bool := do
  let value ← row.getItem key
  pure value.isNone

def checkSkipped (row : Json) : Py Unit :=
  requirePy (Py.conj [flagIs row "applied" false, flagIs row "detected" false,
    flagIs row "passed" false, noneAt row "located_field", noneAt row "located_step", do
      let reason ← row.getItem "skipped_because"
      pure (reason.isStr && reason.truthy)]) "invalid skipped mutation evidence"

/-- A step as `first_difference` returns it. -/
def stepJson : Option Nat → Json
  | some step => .int step
  | none => .null

def checkApplied (row : Json) (field : String) (step : Option Nat) : Py Unit :=
  requirePy (Py.conj [flagIs row "applied" true, flagIs row "detected" true,
    flagIs row "passed" true, noneAt row "skipped_because", do
      let located ← row.getItem "located_field"
      pure (located.eq (.str field)), do
      let located ← row.getItem "located_step"
      located.same (stepJson step)])
    "mutation result disagrees with actual trace mutation"

/-- What a row of the matrix adds to the counters. -/
inductive Outcome where
  | skipped
  | applied (kind : String) (case : Json)

/-- The checks of one row: the recorded result against the recomputed one. -/
def checkRow (cases : Cases) (row : Json) : Py Outcome := do
  let kind ← row.getItem "mutation"
  let expected ← row.getItem "expected_field"
  let (name, field) ← mutationEntry kind
  require (expected.eq (.str field)) "mutation expected field changed"
  let id ← row.getItem "case_id"
  let artifact ← cases.artifact id
  let ckb ← artifact.getItem "ckb_trace"
  let case ← artifact.getItem "case"
  let focus ← case.getItem "focus_step"
  match ← mutated ckb name focus with
  | none => do
      checkSkipped row
      pure .skipped
  | some result => do
      let sail ← artifact.getItem "sail_trace"
      let (located, step) ← firstDifference result sail
      require (located = some field) "recomputed mutation not localized"
      checkApplied row field step
      let case ← row.getItem "case_id"
      pure (.applied name case)

/-- `counts` and `located`. -/
structure Tally where
  counts : String → Nat
  located : String → List Json

namespace Tally

def empty : Tally := ⟨fun _ => 0, fun _ => []⟩

/-- `counts[key] += 1`. -/
def count (tally : Tally) (key : String) : Tally :=
  { tally with counts := Function.update tally.counts key (tally.counts key + 1) }

def add (tally : Tally) : Outcome → Tally
  | .skipped => tally.count "skipped"
  | .applied kind case =>
      let tally := (tally.count "applied").count kind
      { tally with located := Function.update tally.located kind (tally.located kind ++ [case]) }

end Tally

/-- The loop over the reports. -/
def checkRows (cases : Cases) (rows : List Json) (tally : Tally) : Py Tally :=
  Py.loop (fun row tally => do
    let outcome ← checkRow cases row
    pure (tally.add outcome)) rows tally

/-- `type(summary[key]) is int and summary[key] == n`. -/
def totalIs (summary : Json) (key : String) (n : Nat) : Py Bool := do
  let total ← summary.getItem key
  pure (total.isInt && total.eq (.int n))

def checkCoverageRow (tally : Tally) (row : Json) : Py Unit := do
  let kind ← row.getItem "mutation"
  let (name, field) ← mutationEntry kind
  requirePy (Py.conj [pure (tally.counts name > 0), do
      let expected ← row.getItem "expected_field"
      pure (expected.eq (.str field)), do
      let applied ← row.getItem "applied"
      let located ← row.getItem "located"
      pure (applied.eq located && located.eq (.int (tally.counts name))), do
      let exampleCase ← row.getItem "example_case"
      pure ((tally.located name).any fun case => case.eq exampleCase)])
    "invalid coverage tally/example"

def checkMutations (summary : Json) (cases : Cases) : Py (String → Nat) := do
  requirePy (totalIs summary "cases" cases.entries.length) "mutation case count"
  requirePy (Py.and (flagIs summary "passed" true) (Py.all (fun key => do
      let failures ← summary.getItem key
      pure (failures.eq (.arr []))) ["baseline_failures", "undetected", "mislocated"]))
    "mutation failures reported"
  let rows ← summary.getItem "reports"
  let rows ← rows.iter
  let expected := expectedKeys cases
  let keys ← Py.collect reportKey rows
  requirePy (Py.and (pure (keys.length = expected.length)) (keysEq keys expected))
    "mutation matrix incomplete or duplicated"
  let tally ← checkRows cases rows Tally.empty
  requirePy (Py.all (fun key => totalIs summary key (tally.counts key)) ["applied", "skipped"])
    "mutation totals changed"
  let coverage ← summary.getItem "coverage"
  let length ← coverage.len
  let entries ← coverage.iter
  requirePy (Py.and (pure (length = MUTATIONS.length)) (do
      let kinds ← Py.collect (Json.getItem "mutation") entries
      Json.itemsEq kinds (MUTATIONS.map Prod.fst))) "mutation coverage incomplete"
  Py.forEach (checkCoverageRow tally) entries
  pure tally.counts

end CkbSail.Scripts.RuntimeEvidence
