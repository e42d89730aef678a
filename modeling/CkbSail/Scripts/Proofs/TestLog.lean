import CkbSail.ProofSupport.Enclosure
import CkbSail.Scripts.TestLog

/-!
# Harnesses in a test log

The check adds up every result line and collects every test name, wherever they stand.
A harness runs from its start line to the first result line; the log is as the check
takes it to be exactly if a scan that knows whether a harness is open says so.
-/

namespace CkbSail.Scripts.RuntimeEvidence

open PythonStd ProofSupport

variable (unicode : Unicode)

/-! ## The lines of a harness -/

/-- `running \d+ tests?`, the line a harness begins with. -/
def START : Regex Char :=
  .concat [.text "running ".toList, decimals unicode, .text " test".toList,
    .alt (.text "s".toList) (.text [])]

def isStart (line : List Char) : Bool := ((START unicode).fullMatch line).isSome

/-- What a line does to the harness. -/
def lineMark (line : List Char) : Mark :=
  if isStart unicode line then .opening
  else
    match finish unicode line with
    | some result => .closing (unicode.number result.passed)
    | none => .plain

/-- The lines from the start of a harness up to the next; the first result line closes it. -/
abbrev Harness := Enclosure (List Char)

/-- The first result line of a harness reports success. -/
structure Finished (harness : Harness) : Prop where
  start : isStart unicode harness.opening = true
  body : ∀ line ∈ harness.body, isStart unicode line = false ∧ finish unicode line = none
  result : ∃ result, finish unicode harness.closing = some result ∧
    result.outcome = "ok".toList ∧ result.failed = "0".toList
  rest : ∀ line ∈ harness.rest, isStart unicode line = false

/-- The passed tests a line reports. -/
def passedBy (line : List Char) : Nat :=
  match finish unicode line with
  | some result => unicode.number result.passed
  | none => 0

/-- Every harness of the log has finished, `count` is the sum of what they report, and
the mandatory tests ran inside them. -/
structure Complete (lines : List (List Char)) (count : Nat) (before : List (List Char))
    (harnesses : List Harness) : Prop where
  lines : lines = before ++ harnesses.flatMap Enclosure.items
  before : ∀ line ∈ before, isStart unicode line = false
  finished : ∀ harness ∈ harnesses, Finished unicode harness
  count : count = (harnesses.map fun harness => passedBy unicode harness.closing).sum
  mandatory : ∀ name ∈ ENGINE_TESTS, ∃ harness ∈ harnesses, ∃ line ∈ harness.body,
    okName line = some name.toList

/-- A start line is followed by a result line before the next; any other result line
reports no passed test; and each mandatory test is reported between a start line and its
result line. -/
structure Orderly (lines : List (List Char)) : Prop where
  harnesses : orderly (lineMark unicode) false lines = true
  mandatory : ∀ name ∈ ENGINE_TESTS, standsInside (lineMark unicode)
    (fun line => okName line = some name.toList) false lines = true

variable {unicode} {line : List Char} {lines : List (List Char)}

/-! ## Marks -/

/-- A line does not begin in two ways. -/
theorem finish_of_isStart (h : isStart unicode line = true) : finish unicode line = none := by
  have hrunning : "running ".toList <+: line := by
    obtain ⟨f, hf⟩ := Option.isSome_iff_exists.1 h
    exact Regex.prefix_of_mem_run (List.mem_of_find?_eq_some hf)
  rw [finish, Regex.matchAtStart]
  cases hrun : ((FINISH unicode).run none line).head? with
  | none => rfl
  | some f =>
      have hresult : "test result: ".toList <+: line :=
        Regex.prefix_of_mem_run (List.mem_of_mem_head? hrun)
      obtain ⟨rest, rfl⟩ := hrunning
      obtain ⟨rest', hrest'⟩ := hresult
      cases hrest'

theorem lineMark_eq_opening : lineMark unicode line = .opening ↔ isStart unicode line = true := by
  rw [lineMark]
  split_ifs with hstart
  · exact iff_of_true rfl hstart
  · cases finish unicode line <;> simp [hstart]

theorem lineMark_eq_plain : lineMark unicode line = .plain ↔
    isStart unicode line = false ∧ finish unicode line = none := by
  rw [lineMark]
  split_ifs with hstart
  · simp [hstart]
  · cases finish unicode line <;> simp [hstart]

theorem lineMark_of_finish {result : Finish} (h : finish unicode line = some result) :
    lineMark unicode line = .closing (unicode.number result.passed) := by
  rw [lineMark, h]
  split_ifs with hstart
  · rw [finish_of_isStart hstart] at h
    cases h
  · rfl

theorem finish_of_lineMark {weight : Nat} (h : lineMark unicode line = .closing weight) :
    ∃ result, finish unicode line = some result := by
  rw [lineMark] at h
  split_ifs at h with hstart
  cases hfinish : finish unicode line with
  | none =>
      rw [hfinish] at h
      cases h
  | some result => exact ⟨result, rfl⟩

theorem weight_lineMark (line : List Char) :
    (lineMark unicode line).weight = passedBy unicode line := by
  rw [passedBy]
  cases hfinish : finish unicode line with
  | some result => rw [lineMark_of_finish hfinish]; rfl
  | none =>
      rw [lineMark, hfinish]
      split_ifs <;> rfl

/-! ## The loop -/

/-- The result lines of the log report success. -/
def Successful (unicode : Unicode) (line : List Char) : Prop :=
  ∀ result, finish unicode line = some result →
    result.outcome = "ok".toList ∧ result.failed = "0".toList

theorem checkLine_eq_ok {progress next : Progress}
    (h : checkLine unicode line progress = .ok next) :
    Successful unicode line ∧ next.1 = progress.1 + passedBy unicode line := by
  rw [checkLine] at h
  cases hfinish : finish unicode line with
  | none =>
      simp only [hfinish, Py.pure_eq_ok] at h
      refine ⟨?_, by rw [← h, passedBy, hfinish]; rfl⟩
      intro result hresult
      rw [hfinish] at hresult
      cases hresult
  | some result =>
      simp only [hfinish] at h
      obtain ⟨_, hrequire, h⟩ := Py.bind_eq_ok.1 h
      obtain ⟨passed, hpassed, h⟩ := Py.bind_eq_ok.1 h
      rw [require_eq_ok, Bool.and_eq_true, decide_eq_true_eq, decide_eq_true_eq] at hrequire
      rw [Py.pure_eq_ok] at h
      have hnumber : unicode.number result.passed = passed := by
        rw [int] at hpassed
        split_ifs at hpassed
        exact Except.ok.inj hpassed
      refine ⟨?_, by simp only [← h, passedBy, hfinish, hnumber]⟩
      intro other hother
      rw [hfinish] at hother
      obtain rfl := Option.some.inj hother
      exact hrequire

/-- The loop requires success of every result line and adds all of them up. -/
theorem loop_checkLine {progress final : Progress}
    (h : Py.loop (checkLine unicode) lines progress = .ok final) :
    (∀ line ∈ lines, Successful unicode line) ∧
      final.1 = progress.1 + totalWeight (lineMark unicode) lines := by
  induction lines generalizing progress with
  | nil =>
      obtain rfl := Except.ok.inj h
      exact ⟨List.forall_mem_nil _, rfl⟩
  | cons line lines ih =>
      obtain ⟨next, hline, hlines⟩ := Py.loop_cons_eq_ok.1 h
      obtain ⟨hsuccess, hnext⟩ := checkLine_eq_ok hline
      obtain ⟨hrest, hfinal⟩ := ih hlines
      refine ⟨List.forall_mem_cons.2 ⟨hsuccess, hrest⟩, ?_⟩
      rw [hfinal, hnext, totalWeight_cons, weight_lineMark, Nat.add_assoc]

theorem checkTestLog_eq_ok {text : String} {count : Nat}
    (h : checkTestLog unicode text = .ok count) :
    (∀ line ∈ logLines text, Successful unicode line) ∧
      count = totalWeight (lineMark unicode) (logLines text) := by
  obtain ⟨final, hloop, h⟩ := Py.bind_eq_ok.1 h
  obtain ⟨_, -, h⟩ := Py.bind_eq_ok.1 h
  obtain ⟨_, -, h⟩ := Py.bind_eq_ok.1 h
  obtain ⟨hsuccess, hfinal⟩ := loop_checkLine hloop
  rw [Nat.zero_add] at hfinal
  exact ⟨hsuccess, by rw [← Py.pure_eq_ok.1 h, hfinal]⟩

/-! ## Harnesses -/

theorem Finished.closed {harness : Harness} (h : Finished unicode harness) :
    harness.Closed (lineMark unicode) where
  opening := lineMark_eq_opening.2 h.start
  body line hline := lineMark_eq_plain.2 (h.body line hline)
  closing := by
    obtain ⟨result, hresult, -⟩ := h.result
    exact ⟨_, lineMark_of_finish hresult⟩
  rest line hline := by
    rw [ne_eq, lineMark_eq_opening, h.rest line hline]
    exact Bool.false_ne_true

theorem finished_of_closed {harness : Harness} (h : harness.Closed (lineMark unicode))
    (hsuccess : Successful unicode harness.closing) : Finished unicode harness where
  start := lineMark_eq_opening.1 h.opening
  body line hline := lineMark_eq_plain.1 (h.body line hline)
  result := by
    obtain ⟨weight, hweight⟩ := h.closing
    obtain ⟨result, hresult⟩ := finish_of_lineMark hweight
    exact ⟨result, hresult, hsuccess result hresult⟩
  rest line hline := by
    have hopening := h.rest line hline
    rwa [ne_eq, lineMark_eq_opening, Bool.not_eq_true] at hopening

theorem weights_eq (harnesses : List Harness) :
    Enclosed.weights (lineMark unicode) harnesses =
      (harnesses.map fun harness => passedBy unicode harness.closing).sum := by
  simp only [Enclosed.weights, weight_lineMark]

theorem Complete.enclosed {count : Nat} {before : List (List Char)} {harnesses : List Harness}
    (h : Complete unicode lines count before harnesses) :
    Enclosed (lineMark unicode) lines before harnesses where
  items := h.lines
  before line hline := by
    rw [ne_eq, lineMark_eq_opening, h.before line hline]
    exact Bool.false_ne_true
  closed harness hharness := (h.finished harness hharness).closed

theorem mandatory_iff {before : List (List Char)} {harnesses : List Harness}
    (h : Enclosed (lineMark unicode) lines before harnesses) :
    (∀ name ∈ ENGINE_TESTS, standsInside (lineMark unicode)
      (fun line => okName line = some name.toList) false lines = true) ↔
      ∀ name ∈ ENGINE_TESTS, ∃ harness ∈ harnesses, ∃ line ∈ harness.body,
        okName line = some name.toList := by
  simp only [h.standsInside_iff, decide_eq_true_eq]

/-- Where every result line reports success, the harnesses are complete in an orderly log. -/
theorem exists_complete_iff {count : Nat} (hsuccess : ∀ line ∈ lines, Successful unicode line)
    (hcount : count = totalWeight (lineMark unicode) lines) :
    (∃ before harnesses, Complete unicode lines count before harnesses) ↔
      Orderly unicode lines := by
  constructor
  · rintro ⟨before, harnesses, h⟩
    have henclosed := h.enclosed
    refine ⟨henclosed.orderly_iff.2 ?_, (mandatory_iff henclosed).2 h.mandatory⟩
    rw [weights_eq, ← h.count, hcount]
  · intro h
    obtain ⟨before, harnesses, henclosed⟩ := exists_of_orderly h.harnesses
    have hclosing : ∀ harness ∈ harnesses, harness.closing ∈ lines := by
      intro harness hharness
      rw [henclosed.items]
      refine List.mem_append_right _ (List.mem_flatMap.2 ⟨harness, hharness, ?_⟩)
      exact List.mem_cons_of_mem _ (List.mem_append_right _ List.mem_cons_self)
    refine ⟨before, harnesses, henclosed.items, ?_, ?_, ?_, ?_⟩
    · intro line hline
      have hopening := henclosed.before line hline
      rwa [ne_eq, lineMark_eq_opening, Bool.not_eq_true] at hopening
    · intro harness hharness
      exact finished_of_closed (henclosed.closed harness hharness)
        (hsuccess _ (hclosing harness hharness))
    · rw [hcount, ← weights_eq]
      exact henclosed.orderly_iff.1 h.harnesses
    · exact (mandatory_iff henclosed).1 h.mandatory

/-- In an accepted log the harnesses are complete exactly if the log is orderly. -/
theorem checkTestLog_complete_iff (unicode : Unicode) {text : String} {count : Nat}
    (h : checkTestLog unicode text = .ok count) :
    (∃ before harnesses, Complete unicode (logLines text) count before harnesses) ↔
      Orderly unicode (logLines text) := by
  obtain ⟨hsuccess, hcount⟩ := checkTestLog_eq_ok h
  exact exists_complete_iff hsuccess hcount

/-- Acceptance, from what the loop leaves. -/
theorem checkTestLog_of_loop {text : String} {passed : Nat} {names : List (List Char)}
    (hloop : Py.loop (checkLine unicode) (logLines text) (0, []) = .ok (passed, names))
    (hpassed : 0 < passed) (hresult : "test result:".toList <:+: text.toList)
    (hnames : ∀ name ∈ ENGINE_TESTS, name.toList ∈ names) :
    checkTestLog unicode text = .ok passed := by
  refine Py.bind_eq_ok.2 ⟨(passed, names), hloop, Py.bind_eq_ok.2 ⟨(), ?_, ?_⟩⟩
  · rw [require_eq_ok, Bool.and_eq_true]
    exact ⟨decide_eq_true hpassed, decide_eq_true hresult⟩
  · refine Py.bind_eq_ok.2 ⟨(), ?_, rfl⟩
    rw [require_eq_ok, List.all_eq_true]
    exact fun name hname => List.contains_iff_mem.2 (hnames name hname)

/-! ## Logs line by line -/

theorem splitLinesFrom_line {text : List Char} (h : ∀ c ∈ text, isLineBreak c = false)
    (line rest : List Char) :
    splitLinesFrom line (text ++ '\n' :: rest) =
      (line.reverse ++ text) :: splitLinesFrom [] rest := by
  induction text generalizing line with
  | nil => rw [List.nil_append, List.append_nil, splitLinesFrom, if_pos (by decide)]; simp
  | cons c text ih =>
      rw [List.forall_mem_cons] at h
      rw [List.cons_append, splitLinesFrom, if_neg (by simp [h.1]), ih h.2]
      · simp
      · rintro rest' rfl
        have hbreak : isLineBreak '\r' = true := by decide
        rw [h.1] at hbreak
        cases hbreak

/-- The text of some lines. -/
def textOf (lines : List (List Char)) : String := String.ofList (lines.flatMap (· ++ ['\n']))

theorem toList_textOf (lines : List (List Char)) :
    (textOf lines).toList = lines.flatMap (· ++ ['\n']) := String.toList_ofList

/-- A line as the check reads it. -/
def isLine (line : List Char) : Bool := line.all (fun c => !isLineBreak c) && strip line = line

theorem logLines_textOf {lines : List (List Char)} (h : ∀ line ∈ lines, isLine line = true) :
    logLines (textOf lines) = lines := by
  rw [logLines, toList_textOf, splitLines]
  induction lines with
  | nil => rfl
  | cons line lines ih =>
      rw [List.forall_mem_cons, isLine, Bool.and_eq_true, List.all_eq_true] at h
      obtain ⟨⟨hbreaks, hstrip⟩, hlines⟩ := h
      have hnone : ∀ c ∈ line, isLineBreak c = false := fun c hc => by simpa using hbreaks c hc
      rw [List.flatMap_cons, List.append_assoc, List.singleton_append,
        splitLinesFrom_line hnone, List.map_cons, ih hlines]
      exact congrArg (· :: lines) (of_decide_eq_true hstrip)

theorem infix_lines {line : List Char} {lines : List (List Char)} (h : line ∈ lines) :
    line <:+: lines.flatMap (· ++ ['\n']) := by
  obtain ⟨before, after, rfl⟩ := List.append_of_mem h
  exact ⟨before.flatMap (· ++ ['\n']), '\n' :: after.flatMap (· ++ ['\n']), by simp⟩

/-! ## Harnesses in which every test passes -/

def okLine (name : String) : List Char := "test tests::".toList ++ name.toList ++ " ... ok".toList

def passingHarness (opening : String) (names : List String) (closing : String) : Harness where
  opening := opening.toList
  body := names.map okLine
  closing := closing.toList
  rest := []

/-- What the check reads in the lines of such a harness. -/
structure Passing (opening : String) (names : List String) (closing : String) (count : Nat) :
    Prop where
  start : lineMark ascii opening.toList = .opening
  silent : okName opening.toList = none
  body : ∀ name ∈ names, lineMark ascii (okLine name) = .plain
  named : ∀ name ∈ names, okName (okLine name) = some name.toList
  unnamed : okName closing.toList = none
  result : ∃ passed ignored,
    finish ascii closing.toList = some ⟨"ok".toList, passed, "0".toList, ignored⟩ ∧
      int ascii passed = .ok count

section Passing

variable {opening closing : String} {names : List String} {count : Nat}

theorem Passing.closed (h : Passing opening names closing count) :
    (passingHarness opening names closing).Closed (lineMark ascii) where
  opening := h.start
  body := List.forall_mem_map.2 h.body
  closing := by
    obtain ⟨passed, ignored, hfinish, -⟩ := h.result
    exact ⟨_, lineMark_of_finish hfinish⟩
  rest := List.forall_mem_nil _

theorem checkLine_of_unfinished (h : finish unicode line = none) (progress : Progress) :
    checkLine unicode line progress =
      .ok (progress.1, (okName line).toList ++ progress.2) := by
  rw [checkLine, h]
  cases okName line <;> rfl

theorem loop_okLines (hbody : ∀ name ∈ names, lineMark ascii (okLine name) = .plain)
    (hnamed : ∀ name ∈ names, okName (okLine name) = some name.toList) (progress : Progress) :
    Py.loop (checkLine ascii) (names.map okLine) progress =
      .ok (progress.1, (names.map String.toList).reverse ++ progress.2) := by
  induction names generalizing progress with
  | nil => rfl
  | cons name names ih =>
      rw [List.forall_mem_cons] at hbody hnamed
      rw [List.map_cons, Py.loop,
        checkLine_of_unfinished (lineMark_eq_plain.1 hbody.1).2, hnamed.1]
      refine (ih hbody.2 hnamed.2 _).trans ?_
      simp

theorem Passing.loop (h : Passing opening names closing count) (progress : Progress) :
    Py.loop (checkLine ascii) (passingHarness opening names closing).items progress =
      .ok (progress.1 + count, (names.map String.toList).reverse ++ progress.2) := by
  obtain ⟨passed, ignored, hfinish, hint⟩ := h.result
  have hopening := finish_of_isStart (lineMark_eq_opening.1 h.start)
  have hclosing (progress : Progress) : checkLine ascii closing.toList progress =
      .ok (progress.1 + count, progress.2) := by
    rw [checkLine, hfinish, h.unnamed]
    simp only [decide_true, Bool.and_self, hint]
    rfl
  refine Py.loop_cons_eq_ok.2 ⟨_, checkLine_of_unfinished hopening progress, ?_⟩
  rw [h.silent]
  refine Py.loop_append_eq_ok.2 ⟨_, loop_okLines h.body h.named _, ?_⟩
  exact Py.loop_cons_eq_ok.2 ⟨_, hclosing _, rfl⟩

end Passing

/-! ### The mandatory tests -/

def engineHarness : Harness := passingHarness "running 10 tests" ENGINE_TESTS
  "test result: ok. 10 passed; 0 failed; 0 ignored; 0 measured; 0 filtered out"

theorem engineHarness_passing : Passing "running 10 tests" ENGINE_TESTS
    "test result: ok. 10 passed; 0 failed; 0 ignored; 0 measured; 0 filtered out" 10 where
  start := by decide +kernel
  silent := by decide +kernel
  body := by decide +kernel
  named := by decide +kernel
  unnamed := by decide +kernel
  result := ⟨"10".toList, "0".toList, by decide +kernel, by decide +kernel⟩

set_option maxRecDepth 20000 in
theorem isLine_engineHarness : ∀ line ∈ engineHarness.items, isLine line = true := by
  decide +kernel

/-- A log that begins with this harness is accepted if the loop gets through the rest. -/
theorem checkTestLog_engineHarness {tail : List (List Char)} {passed : Nat}
    {names : List (List Char)} (hlines : ∀ line ∈ tail, isLine line = true)
    (htail : ∀ progress, Py.loop (checkLine ascii) tail progress =
      .ok (progress.1 + passed, names ++ progress.2)) :
    logLines (textOf (engineHarness.items ++ tail)) = engineHarness.items ++ tail ∧
      checkTestLog ascii (textOf (engineHarness.items ++ tail)) = .ok (10 + passed) := by
  have hlog := logLines_textOf (List.forall_mem_append.2 ⟨isLine_engineHarness, hlines⟩)
  have hloop := Py.loop_append_eq_ok.2 ⟨_, engineHarness_passing.loop (0, []), htail _⟩
  rw [← engineHarness, ← hlog, Nat.zero_add] at hloop
  refine ⟨hlog, checkTestLog_of_loop hloop (Nat.add_pos_left (Nat.succ_pos 9) _) ?_ ?_⟩
  · rw [toList_textOf]
    have hline : "test result:".toList <+: engineHarness.closing := by decide +kernel
    have hmem : engineHarness.closing ∈ engineHarness.items ++ tail := by
      simp [Enclosure.items]
    exact hline.isInfix.trans (infix_lines hmem)
  · intro name hname
    refine List.mem_append_right _ (List.mem_append_left _ (List.mem_reverse.2 ?_))
    exact List.mem_map_of_mem hname

/-! ### A second harness that finishes -/

def firstHarness : Harness := passingHarness "running 1 test" ["first"]
  "test result: ok. 1 passed; 0 failed; 0 ignored; 0 measured; 0 filtered out"

theorem firstHarness_passing : Passing "running 1 test" ["first"]
    "test result: ok. 1 passed; 0 failed; 0 ignored; 0 measured; 0 filtered out" 1 where
  start := by decide +kernel
  silent := by decide +kernel
  body := by decide +kernel
  named := by decide +kernel
  unnamed := by decide +kernel
  result := ⟨"1".toList, "0".toList, by decide +kernel, by decide +kernel⟩

def finishedLog : String := textOf (engineHarness.items ++ firstHarness.items)

theorem checkTestLog_complete_iff_finishedLog :
    checkTestLog ascii finishedLog = .ok 11 ∧
      ∃ before harnesses, Complete ascii (logLines finishedLog) 11 before harnesses := by
  obtain ⟨hlines, haccepted⟩ := @checkTestLog_engineHarness firstHarness.items 1 _
    (by decide +kernel) firstHarness_passing.loop
  have hengine : engineHarness.Closed (lineMark ascii) := engineHarness_passing.closed
  have hfirst : firstHarness.Closed (lineMark ascii) := firstHarness_passing.closed
  have henclosed : Enclosed (lineMark ascii) (engineHarness.items ++ firstHarness.items) []
      [engineHarness, firstHarness] := by
    refine ⟨by simp, List.forall_mem_nil _, ?_⟩
    rw [List.forall_mem_cons, List.forall_mem_singleton]
    exact ⟨hengine, hfirst⟩
  refine ⟨haccepted, (checkTestLog_complete_iff ascii haccepted).2 ?_⟩
  rw [hlines]
  refine ⟨?_, (mandatory_iff henclosed).2 fun name hname => ?_⟩
  · rw [← List.append_nil firstHarness.items, orderly_enclosure hengine, orderly_enclosure hfirst]
    exact ⟨rfl, rfl, rfl⟩
  · exact ⟨engineHarness, List.mem_cons_self, okLine name, List.mem_map_of_mem hname,
      engineHarness_passing.named name hname⟩

/-! ### A second harness that aborts -/

/-- It ends without a result line. -/
def abortedLines : List (List Char) := ["running 3 tests".toList, okLine "first"]

def abortedLog : String := textOf (engineHarness.items ++ abortedLines)

/-- An accepted log whose second harness never finishes. -/
theorem abortedLog_not_complete :
    checkTestLog ascii abortedLog = .ok 10 ∧
      ¬∃ before harnesses, Complete ascii (logLines abortedLog) 10 before harnesses := by
  have hstart : lineMark ascii "running 3 tests".toList = .opening := by decide +kernel
  have htail (progress : Progress) : Py.loop (checkLine ascii) abortedLines progress =
      .ok (progress.1 + 0, ["first".toList] ++ progress.2) := by
    have hsilent : okName "running 3 tests".toList = none := by decide +kernel
    have hopening := finish_of_isStart (lineMark_eq_opening.1 hstart)
    refine Py.loop_cons_eq_ok.2 ⟨_, checkLine_of_unfinished hopening progress, ?_⟩
    rw [hsilent]
    exact loop_okLines firstHarness_passing.body firstHarness_passing.named _
  obtain ⟨hlines, haccepted⟩ := checkTestLog_engineHarness (by decide +kernel) htail
  refine ⟨haccepted, fun hcomplete => ?_⟩
  obtain ⟨hsuccess, hcount⟩ := checkTestLog_eq_ok haccepted
  have horderly := ((exists_complete_iff hsuccess hcount).1 hcomplete).harnesses
  have hengine : engineHarness.Closed (lineMark ascii) := engineHarness_passing.closed
  have hopen : orderly (lineMark ascii) false abortedLines = false := by decide +kernel
  rw [hlines, orderly_enclosure hengine, hopen] at horderly
  exact Bool.false_ne_true horderly.2

end CkbSail.Scripts.RuntimeEvidence
