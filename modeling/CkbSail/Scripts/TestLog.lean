import CkbSail.PythonStd.Ops
import CkbSail.PythonStd.Regex
import CkbSail.PythonStd.Text

/-!
# The log of the Rust tests

`checkTestLog` reads the log of `cargo test` line by line.
-/

namespace CkbSail.Scripts.RuntimeEvidence

open PythonStd

def ENGINE_TESTS : List String :=
  ["every_corpus_case_agrees_step_by_step", "a_diverging_instruction_stream_is_located",
    "a_missing_final_event_is_detected", "the_packet_fixture_still_matches_the_live_emulator",
    "a_compressed_instruction_is_normalized_on_both_sides",
    "a_trapping_instruction_diverges_and_is_reported_not_hidden",
    "a_failing_engine_is_an_error_rather_than_a_pass",
    "every_mandatory_mutation_is_detected_and_located_on_real_traces",
    "a_mutation_matrix_over_no_cases_does_not_pass", "concurrent_sessions_survive_the_port_race"]

/-! ## Lines -/

/-- `test (\S+) \.\.\. ok`. -/
def OK : Regex Char :=
  .concat [.text "test ".toList, .group (.chars true 1 fun c => !isSpace c),
    .text " ... ok".toList]

/-- The last part of the name of the test a line reports as passed. -/
def okName (line : List Char) : Option (List Char) :=
  match OK.fullMatch line with
  | some ⟨_, [name], _⟩ => some (afterLast "::".toList name)
  | _ => none

variable (unicode : Unicode)

/-- `\d+`. -/
def decimals : Regex Char := .chars true 1 unicode.isDecimal

/-- `test result: (\w+)\. (\d+) passed; (\d+) failed; (\d+) ignored;`. -/
def FINISH : Regex Char :=
  .concat [.text "test result: ".toList, .group (.chars true 1 unicode.isWord),
    .text ". ".toList, .group (decimals unicode), .text " passed; ".toList,
    .group (decimals unicode), .text " failed; ".toList, .group (decimals unicode),
    .text " ignored;".toList]

/-- A result line. -/
structure Finish where
  outcome : List Char
  passed : List Char
  failed : List Char
  ignored : List Char
deriving DecidableEq, Repr

def finish (line : List Char) : Option Finish :=
  match (FINISH unicode).matchAtStart line with
  | some ⟨_, [outcome, passed, failed, ignored], _⟩ => some ⟨outcome, passed, failed, ignored⟩
  | _ => none

/-- `sys.int_info.default_max_str_digits`. -/
def MAX_STR_DIGITS : Nat := 4300

/-- `int(digits)`. -/
def int (digits : List Char) : Py Nat :=
  if MAX_STR_DIGITS < digits.length then .error .valueError else .ok (unicode.number digits)

/-! ## The check -/

/-- The passed tests so far and the names of those that passed. -/
abbrev Progress := Nat × List (List Char)

/-- The body of the loop, for a stripped line. -/
def checkLine (line : List Char) (progress : Progress) : Py Progress := do
  let names :=
    match okName line with
    | some name => name :: progress.2
    | none => progress.2
  match finish unicode line with
  | none => pure (progress.1, names)
  | some result => do
      require (result.outcome = "ok".toList && result.failed = "0".toList)
        "Rust test harness reported failures"
      let passed ← int unicode result.passed
      pure (progress.1 + passed, names)

/-- `str(names)` of a list of names without quotes. -/
def strNames (names : List String) : String :=
  "[" ++ ", ".intercalate (names.map fun name => "'" ++ name ++ "'") ++ "]"

/-- `ENGINE_TESTS - names`, sorted. -/
def notExecuted (names : List (List Char)) : List String :=
  (ENGINE_TESTS.filter fun name => !names.contains name.toList).mergeSort

/-- The stripped lines of a log. -/
def logLines (text : String) : List (List Char) := (splitLines text.toList).map strip

/-- The number of passed tests. -/
def checkTestLog (text : String) : Py Nat := do
  let (passed, names) ← Py.loop (checkLine unicode) (logLines text) (0, [])
  require (0 < passed && decide ("test result:".toList <:+: text.toList))
    "no Rust test results recorded"
  require (ENGINE_TESTS.all fun name => names.contains name.toList)
    ("mandatory real-engine tests not executed: " ++ strNames (notExecuted names))
  pure passed

end CkbSail.Scripts.RuntimeEvidence
