import CkbSail.Scripts.PublicClaims
import Mathlib

/-!
# The rows the coverage check sees

A match of the pattern holds eight bars and ends at the end of a line, so no match that
begins above a row of seven cells reaches into it.  Such a row is therefore found unless
its own cells keep the pattern from matching.
-/

namespace CkbSail.Scripts.PublicClaims

open PythonStd ProofSupport

/-! ## Rows of seven cells -/

structure Row where
  family : List Char
  middle : List (List Char)
  status : List Char
deriving DecidableEq, Repr

namespace Row

def cells (row : Row) : List (List Char) := row.family :: (row.middle ++ [row.status])

/-- The line of a row, with a bar before and after every cell. -/
def line (row : Row) : List Char := '|' :: row.cells.flatMap (· ++ ['|'])

/-- Seven cells without bars.  A bar ends a cell even behind a backslash, as it does for
the pattern. -/
structure Proper (row : Row) : Prop where
  seven : row.middle.length = 5
  barless : ∀ cell ∈ row.cells, '|' ∉ cell

/-- The header row. -/
def Header (row : Row) : Prop := strip row.family = "Instruction family".toList

/-- The row of dashes below the header. -/
def Delimiter (row : Row) : Prop :=
  ∀ cell ∈ row.cells, strip cell ≠ [] ∧ ∀ c ∈ strip cell, c = '-' ∨ c = ':'

/-- The cells the pattern matches and the loop does not skip. -/
structure Seen (row : Row) : Prop where
  family : strip row.family ≠ [] ∧ ∀ c ∈ strip row.family, isFamily c = true
  kept : skipped row.family = false
  status : strip row.status ≠ [] ∧ ∀ c ∈ strip row.status, isStatus c = true

end Row

/-! ## What a match holds -/

/-- A text between whitespace. -/
def Padded (cell text : List Char) : Prop :=
  ∃ left right, cell = left ++ text ++ right ∧ (∀ c ∈ left, isSpace c = true) ∧
    ∀ c ∈ right, isSpace c = true

theorem strip_padded {cell text : List Char} (h : Padded cell text) : strip cell = strip text := by
  obtain ⟨left, right, rfl, hleft, hright⟩ := h
  exact strip_pad hleft hright

variable {before : Option Char} {taken rest : List Char} {groups : List (List Char)}

theorem matches_cell_iff :
    cell.Matches before taken groups rest ↔
      ∃ text, taken = text ++ ['|'] ∧ (∀ c ∈ text, isCell c = true) ∧ groups = [] := by
  constructor
  · rintro ⟨text, _, _, _, rfl, rfl, ⟨-, hclass, rfl⟩, rfl, rfl⟩
    exact ⟨text, rfl, hclass, rfl⟩
  · rintro ⟨text, rfl, hclass, rfl⟩
    exact ⟨text, ['|'], [], [], rfl, rfl, ⟨Nat.zero_le _, hclass, rfl⟩, rfl, rfl⟩

theorem isSpace_of_isStatus {c : Char} (h : isStatus c = true) : isSpace c = false := by
  have hrange : c.toNat = 45 ∨ (97 ≤ c.toNat ∧ c.toNat ≤ 122) := by
    rw [isStatus, Bool.or_eq_true, decide_eq_true_eq] at h
    rcases h with hlower | rfl
    · right
      rw [Char.isLower, Bool.and_eq_true, decide_eq_true_eq, decide_eq_true_eq] at hlower
      exact ⟨UInt32.le_iff_toNat_le.1 hlower.1, UInt32.le_iff_toNat_le.1 hlower.2⟩
    · exact Or.inl rfl
  simp only [isSpace, Bool.or_eq_false_iff, Bool.and_eq_false_iff, decide_eq_false_iff_not]
  omega

theorem bar_notMem_of_class {isIn : Char → Bool} (hbar : isIn '|' = false) {text : List Char}
    (h : ∀ c ∈ text, isIn c = true) : '|' ∉ text := by
  intro hmem
  rw [h _ hmem] at hbar
  cases hbar

/-- A match is a row between its anchors, whose first and last cells hold the groups. -/
theorem row_of_matches (h : STATUS_ROW.Matches before taken groups rest) :
    Regex.atEnd rest = true ∧ ∃ row : Row, ∃ blank family status,
      taken = row.line ++ blank ∧ row.Proper ∧ groups = [family, status] ∧
        Padded row.family family ∧ Padded row.status status ∧
        (∀ c ∈ status, isStatus c = true) ∧ '|' ∉ blank := by
  obtain ⟨_, t, _, g, rfl, rfl, ⟨rfl, rfl, -⟩, h⟩ := h
  obtain ⟨_, t, _, g, rfl, rfl, ⟨rfl, rfl⟩, h⟩ := h
  obtain ⟨s₁, t, _, g, rfl, rfl, ⟨-, hs₁, rfl⟩, h⟩ := h
  obtain ⟨family, t, _, g, rfl, rfl, ⟨_, rfl, -, hfamily, rfl⟩, h⟩ := h
  obtain ⟨s₂, t, _, g, rfl, rfl, ⟨-, hs₂, rfl⟩, h⟩ := h
  obtain ⟨_, t, _, g, rfl, rfl, ⟨rfl, rfl⟩, h⟩ := h
  -- the five cells between
  obtain ⟨_, t, _, g, rfl, rfl, hcell, h⟩ := h
  obtain ⟨c₁, rfl, hc₁, rfl⟩ := matches_cell_iff.1 hcell
  obtain ⟨_, t, _, g, rfl, rfl, hcell, h⟩ := h
  obtain ⟨c₂, rfl, hc₂, rfl⟩ := matches_cell_iff.1 hcell
  obtain ⟨_, t, _, g, rfl, rfl, hcell, h⟩ := h
  obtain ⟨c₃, rfl, hc₃, rfl⟩ := matches_cell_iff.1 hcell
  obtain ⟨_, t, _, g, rfl, rfl, hcell, h⟩ := h
  obtain ⟨c₄, rfl, hc₄, rfl⟩ := matches_cell_iff.1 hcell
  obtain ⟨_, t, _, g, rfl, rfl, hcell, h⟩ := h
  obtain ⟨c₅, rfl, hc₅, rfl⟩ := matches_cell_iff.1 hcell
  -- the status and the end of the line
  obtain ⟨s₃, t, _, g, rfl, rfl, ⟨-, hs₃, rfl⟩, h⟩ := h
  obtain ⟨status, t, _, g, rfl, rfl, ⟨_, rfl, -, hstatus, rfl⟩, h⟩ := h
  obtain ⟨s₄, t, _, g, rfl, rfl, ⟨-, hs₄, rfl⟩, h⟩ := h
  obtain ⟨_, t, _, g, rfl, rfl, ⟨rfl, rfl⟩, h⟩ := h
  obtain ⟨blank, _, _, _, rfl, rfl, ⟨-, hblank, rfl⟩, rfl, rfl, hend⟩ := h
  have hspaces : ∀ text : List Char, (∀ c ∈ text, isSpace c = true) → '|' ∉ text :=
    fun text => bar_notMem_of_class (by decide)
  refine ⟨hend, ⟨s₁ ++ family ++ s₂, [c₁, c₂, c₃, c₄, c₅], s₃ ++ status ++ s₄⟩, blank, family,
    status, by simp [Row.line, Row.cells], ⟨rfl, ?_⟩, rfl, ⟨s₁, s₂, rfl, hs₁, hs₂⟩,
    ⟨s₃, s₄, rfl, hs₃, hs₄⟩, hstatus, bar_notMem_of_class (by decide) hblank⟩
  have hfirst : '|' ∉ s₁ ++ family ++ s₂ := by
    rw [List.mem_append, List.mem_append, not_or, not_or]
    exact ⟨⟨hspaces _ hs₁, bar_notMem_of_class (by decide) hfamily⟩, hspaces _ hs₂⟩
  have hlast : '|' ∉ s₃ ++ status ++ s₄ := by
    rw [List.mem_append, List.mem_append, not_or, not_or]
    exact ⟨⟨hspaces _ hs₃, bar_notMem_of_class (by decide) hstatus⟩, hspaces _ hs₄⟩
  intro cell hcell
  simp only [Row.cells, List.cons_append, List.nil_append, List.mem_cons, List.not_mem_nil,
    or_false] at hcell
  rcases hcell with rfl | rfl | rfl | rfl | rfl | rfl | rfl
  · exact hfirst
  · exact bar_notMem_of_class (by decide) hc₁
  · exact bar_notMem_of_class (by decide) hc₂
  · exact bar_notMem_of_class (by decide) hc₃
  · exact bar_notMem_of_class (by decide) hc₄
  · exact bar_notMem_of_class (by decide) hc₅
  · exact hlast

/-! ## The rows a match can reach -/

namespace Row

variable {row other : Row}

theorem Proper.length_cells (h : row.Proper) : row.cells.length = 7 := by
  rw [cells, List.length_cons, List.length_append, h.seven]
  rfl

theorem eq_of_cells (hrow : row.Proper) (hother : other.Proper) (h : row.cells = other.cells) :
    row = other := by
  obtain ⟨hfamily, hcells⟩ := List.cons.inj h
  obtain ⟨hmiddle, hstatus⟩ := List.append_inj hcells (hrow.seven.trans hother.seven.symm)
  cases row
  cases other
  simp_all

/-- A row at the beginning of a text is determined. -/
theorem line_inj (hrow : row.Proper) (hother : other.Proper) {rest rest' : List Char}
    (h : row.line ++ rest = other.line ++ rest') : row = other := by
  have hcells := flatMap_separated_inj (hrow.length_cells.trans hother.length_cells.symm)
    hrow.barless hother.barless (List.cons.inj h).2
  exact eq_of_cells hrow hother hcells.1

/-- Eight bars. -/
theorem Proper.count_line (h : row.Proper) : row.line.count '|' = 8 := by
  have hcells : ∀ cells : List (List Char), (∀ cell ∈ cells, '|' ∉ cell) →
      (cells.flatMap (· ++ ['|'])).count '|' = cells.length := by
    intro cells hcells
    induction cells with
    | nil => rfl
    | cons cell cells ih =>
        rw [List.forall_mem_cons] at hcells
        rw [List.flatMap_cons, List.count_append, ih hcells.2, List.count_append,
          List.count_eq_zero.2 hcells.1, List.length_cons, List.count_singleton_self]
        omega
  rw [line, List.count_cons_self, hcells row.cells h.barless, h.length_cells]

end Row

/-- No match reaches from above into a row. -/
theorem not_covers {row : Row} {above tail : List Char} {f : Found Char} (hrow : row.Proper)
    (hline : '\n' ∉ row.line) (habove : above ≠ [])
    (hfirst : STATUS_ROW.first before (above ++ (row.line ++ tail)) = some f) :
    ¬above.length < f.taken.length := by
  intro hcovers
  obtain ⟨hrest, hmatch, -⟩ := Regex.first_eq_some hfirst
  obtain ⟨hend, found, blank, _, _, htaken, hproper, -, -, -, -, hblank⟩ := row_of_matches hmatch
  obtain ⟨inside, hinside⟩ : above <+: f.taken :=
    List.prefix_of_prefix_length_le (List.prefix_append _ _) ⟨f.rest, hrest.symm⟩ hcovers.le
  have hinsideRest : inside ++ f.rest = row.line ++ tail := by
    rw [← hinside, List.append_assoc] at hrest
    exact (List.append_cancel_left hrest).symm
  -- the match ends at the end of a line, so it holds the whole row
  obtain ⟨after, rfl⟩ : ∃ after, inside = row.line ++ after := by
    rcases List.append_eq_append_iff.1 hinsideRest with ⟨part, hpart, hafter⟩ | ⟨part, hpart, -⟩
    · cases part with
      | nil => exact ⟨[], by rw [hpart, List.append_nil, List.append_nil]⟩
      | cons c part =>
          have hnewline : c = newline := by simpa [hafter, Regex.atEnd] using hend
          refine absurd ?_ hline
          rw [hpart, hnewline]
          exact List.mem_append_right _ List.mem_cons_self
    · exact ⟨part, hpart⟩
  have hbar : '|' ∈ above := by
    obtain ⟨c, cs, rfl⟩ := List.exists_cons_of_ne_nil habove
    rw [← hinside] at htaken
    rw [(List.cons.inj htaken).1]
    exact List.mem_cons_self
  have hcount := congrArg (List.count '|') (hinside.trans htaken)
  simp only [List.count_append, hrow.count_line, hproper.count_line, List.count_eq_zero.2 hblank]
    at hcount
  have habove := List.count_pos_iff.2 hbar
  omega

/-! ## The rows that are found -/

/-- The pattern matches a row whose cells it accepts. -/
theorem matches_of_seen {row : Row} {tail : List Char} (hrow : row.Proper) (hseen : row.Seen)
    (hline : '\n' ∉ row.line) (hstart : Regex.atStart before = true)
    (htail : Regex.atEnd tail = true) :
    STATUS_ROW.Matches before row.line [strip row.family, strip row.status] tail := by
  obtain ⟨c₁, c₂, c₃, c₄, c₅, hmiddle⟩ : ∃ c₁ c₂ c₃ c₄ c₅, row.middle = [c₁, c₂, c₃, c₄, c₅] := by
    obtain ⟨c₁, cells, hcells, hlength⟩ := List.length_eq_succ_iff.1 hrow.seven
    obtain ⟨c₂, c₃, c₄, c₅, rfl⟩ := List.length_eq_four.1 hlength
    exact ⟨c₁, c₂, c₃, c₄, c₅, hcells.symm⟩
  obtain ⟨s₁, s₂, hfamily, hs₁, hs₂⟩ := exists_pad row.family
  obtain ⟨s₃, s₄, hstatus, hs₃, hs₄⟩ := exists_pad row.status
  have hcell : ∀ text ∈ row.middle, ∀ c ∈ text, isCell c = true := by
    intro text htext c hc
    have hbar := hrow.barless text (List.mem_cons_of_mem _ (List.mem_append_left _ htext))
    have hnewline : c ≠ '\n' := by
      rintro rfl
      refine hline (List.mem_cons_of_mem _ (List.mem_flatMap.2 ⟨text, ?_, ?_⟩))
      · exact List.mem_cons_of_mem _ (List.mem_append_left _ htext)
      · exact List.mem_append_left _ hc
    simpa [isCell, hnewline] using ne_of_mem_of_not_mem hc hbar
  simp only [hmiddle, List.forall_mem_cons] at hcell
  obtain ⟨hc₁, hc₂, hc₃, hc₄, hc₅, -⟩ := hcell
  have hparts : row.line = ['|'] ++ (s₁ ++ (strip row.family ++ (s₂ ++ (['|'] ++
      ((c₁ ++ ['|']) ++ ((c₂ ++ ['|']) ++ ((c₃ ++ ['|']) ++ ((c₄ ++ ['|']) ++ ((c₅ ++ ['|']) ++
        (s₃ ++ (strip row.status ++ (s₄ ++ ['|'])))))))))))) := by
    rw [Row.line, Row.cells, hmiddle]
    nth_rewrite 1 [hfamily]
    nth_rewrite 1 [hstatus]
    simp
  rw [hparts]
  refine ⟨[], _, [], _, rfl, rfl, ⟨rfl, rfl, hstart⟩, ?_⟩
  refine ⟨['|'], _, [], _, rfl, rfl, ⟨rfl, rfl⟩, ?_⟩
  refine ⟨s₁, _, [], _, rfl, rfl, ⟨Nat.zero_le _, hs₁, rfl⟩, ?_⟩
  refine ⟨strip row.family, _, [strip row.family], _, rfl, rfl,
    ⟨[], rfl, List.length_pos_iff.2 hseen.family.1, hseen.family.2, rfl⟩, ?_⟩
  refine ⟨s₂, _, [], _, rfl, rfl, ⟨Nat.zero_le _, hs₂, rfl⟩, ?_⟩
  refine ⟨['|'], _, [], _, rfl, rfl, ⟨rfl, rfl⟩, ?_⟩
  refine ⟨c₁ ++ ['|'], _, [], _, rfl, rfl, matches_cell_iff.2 ⟨c₁, rfl, hc₁, rfl⟩, ?_⟩
  refine ⟨c₂ ++ ['|'], _, [], _, rfl, rfl, matches_cell_iff.2 ⟨c₂, rfl, hc₂, rfl⟩, ?_⟩
  refine ⟨c₃ ++ ['|'], _, [], _, rfl, rfl, matches_cell_iff.2 ⟨c₃, rfl, hc₃, rfl⟩, ?_⟩
  refine ⟨c₄ ++ ['|'], _, [], _, rfl, rfl, matches_cell_iff.2 ⟨c₄, rfl, hc₄, rfl⟩, ?_⟩
  refine ⟨c₅ ++ ['|'], _, [], _, rfl, rfl, matches_cell_iff.2 ⟨c₅, rfl, hc₅, rfl⟩, ?_⟩
  refine ⟨s₃, _, [], _, rfl, rfl, ⟨Nat.zero_le _, hs₃, rfl⟩, ?_⟩
  refine ⟨strip row.status, _, [strip row.status], _, rfl, rfl,
    ⟨[], rfl, List.length_pos_iff.2 hseen.status.1, hseen.status.2, rfl⟩, ?_⟩
  refine ⟨s₄, _, [], _, rfl, rfl, ⟨Nat.zero_le _, hs₄, rfl⟩, ?_⟩
  refine ⟨['|'], [], [], [], (List.append_nil _).symm, rfl, ⟨rfl, rfl⟩, ?_⟩
  exact ⟨[], [], [], [], rfl, rfl, ⟨Nat.zero_le _, List.forall_mem_nil _, rfl⟩, rfl, rfl, htail⟩

/-- A row of the body whose cells the pattern accepts is among those found. -/
theorem exists_found_of_seen {row : Row} {body : List Char} (hrow : row.Proper)
    (hseen : row.Seen) (hbody : row.line ∈ body.splitOn '\n') :
    ∃ family, [family, strip row.status] ∈ STATUS_ROW.findAll body ∧
      strip family = strip row.family := by
  have hline : '\n' ∉ row.line := notMem_of_mem_splitOn hbody
  obtain ⟨above, tail, rfl, habove, htail⟩ := exists_of_mem_splitOn hbody
  rcases STATUS_ROW.scan_reaches above (row.line ++ tail) none with
    ⟨pieces, hpieces⟩ | ⟨a, b, f, rfl, hb, hfirst, hcovers⟩
  · have hstart : Regex.atStart (above.getLast?.or none) = true := by
      rw [Option.or_none, Regex.atStart, Option.all_eq_true]
      exact fun item hitem => decide_eq_true (habove item hitem)
    have htail : Regex.atEnd tail = true := by
      rw [Regex.atEnd, Option.all_eq_true]
      exact fun item hitem => decide_eq_true (htail item hitem)
    cases hfirst : STATUS_ROW.first (above.getLast?.or none) (row.line ++ tail) with
    | none =>
        exact absurd (Regex.first_eq_none hfirst rfl (matches_of_seen hrow hseen hline hstart htail))
          (List.cons_ne_nil _ _)
    | some f =>
        obtain ⟨hrest, hmatch, -⟩ := Regex.first_eq_some hfirst
        obtain ⟨-, found, blank, family, status, htaken, hproper, hgroups, hfamily, hstatus,
          hclass, -⟩ := row_of_matches hmatch
        -- the match begins with the row, so it holds its cells
        rw [htaken, List.append_assoc] at hrest
        obtain rfl := Row.line_inj hrow hproper hrest
        have hspace : ∀ c ∈ status, isSpace c = false := fun c hc => isSpace_of_isStatus (hclass c hc)
        refine ⟨family, ?_, (strip_padded hfamily).symm⟩
        rw [strip_padded hstatus, strip_of_notSpace hspace, ← hgroups]
        refine List.mem_filterMap.2 ⟨.found f, ?_, rfl⟩
        rw [hpieces, Regex.scan_found hfirst]
        exact List.mem_append_right _ List.mem_cons_self
  · rw [List.append_assoc] at *
    exact absurd hcovers (not_covers hrow hline hb hfirst)

/-! ## What an accepted document holds -/

/-- A row of the table, other than its two heads. -/
structure Listed (body : String) (row : Row) : Prop where
  proper : row.Proper
  line : row.line ∈ body.toList.splitOn '\n'
  header : ¬row.Header
  delimiter : ¬row.Delimiter

def Allowed (allowed : List String) (row : Row) : Prop := String.ofList (strip row.status) ∈ allowed

theorem allowed_of_seen {body : String} {allowed : List String} {count : Nat} {row : Row}
    (h : checkCoverage body allowed = .ok count) (hrow : Listed body row) (hseen : row.Seen) :
    Allowed allowed row := by
  obtain ⟨family, hfound, hfamily⟩ := exists_found_of_seen hrow.proper hseen hrow.line
  obtain ⟨_, -, h⟩ := Py.bind_eq_ok.1 h
  obtain ⟨_, hrows, -⟩ := Py.bind_eq_ok.1 h
  have hcheck := Py.forEach_eq_ok.1 hrows _ hfound
  have hkept : skipped family = false := by
    rw [← hseen.kept, skipped, skipped, hfamily]
  rw [checkRow, hkept, if_neg Bool.false_ne_true, require_eq_ok] at hcheck
  exact List.contains_iff_mem.1 hcheck

/-- In an accepted document every row of the table has an allowed status exactly if the
rows have that which the pattern does not match or the loop skips. -/
theorem coverage_rows_allowed_iff {body : String} {allowed : List String} {count : Nat}
    (h : checkCoverage body allowed = .ok count) :
    (∀ row, Listed body row → Allowed allowed row) ↔
      ∀ row, Listed body row → ¬row.Seen → Allowed allowed row := by
  constructor
  · exact fun hall row hrow _ => hall row hrow
  · intro hunseen row hrow
    by_cases hseen : row.Seen
    · exact allowed_of_seen h hrow hseen
    · exact hunseen row hrow hseen

/-- A row in the first and the last cell of which the given texts stand between blanks. -/
def plainRow (family status : String) : Row :=
  ⟨(" " ++ family ++ " ").toList,
    [" 2 ".toList, " a ".toList, " b ".toList, " c ".toList, " d ".toList],
    (" " ++ status ++ " ").toList⟩

/-- A document with a row the pattern does not match, whose status is an allowed one. -/
def mixedTable : String :=
  "| ADD | 2 | a | b | c | d | runtime-only |\n| C.ADD | 2 | a | b | c | d | unsupported |\n"

def statuses : List String := ["runtime-only", "unsupported"]

set_option maxRecDepth 10000 in
theorem mixedTable_lines : mixedTable.toList.splitOn '\n' =
    [(plainRow "ADD" "runtime-only").line, (plainRow "C.ADD" "unsupported").line, []] := by
  decide +kernel

theorem eq_of_line_eq {row other : Row} (hrow : row.Proper) (hother : other.Proper)
    (h : row.line = other.line) : row = other :=
  Row.line_inj hrow hother (congrArg (· ++ []) h)

set_option maxRecDepth 10000 in
theorem coverage_rows_allowed_iff_mixedTable :
    checkCoverage mixedTable statuses = .ok 1 ∧
      ∀ row, Listed mixedTable row → Allowed statuses row := by
  have haccepted : checkCoverage mixedTable statuses = .ok 1 := by decide +kernel
  have hadd : (plainRow "ADD" "runtime-only").Proper := ⟨rfl, by decide +kernel⟩
  have hdotted : (plainRow "C.ADD" "unsupported").Proper := ⟨rfl, by decide +kernel⟩
  refine ⟨haccepted, (coverage_rows_allowed_iff haccepted).2 fun row hrow _ => ?_⟩
  have hline := hrow.line
  rw [mixedTable_lines, List.mem_cons, List.mem_cons, List.mem_singleton] at hline
  rcases hline with hline | hline | hline
  · rw [eq_of_line_eq hrow.proper hadd hline, Allowed]
    decide +kernel
  · rw [eq_of_line_eq hrow.proper hdotted hline, Allowed]
    decide +kernel
  · simp [Row.line] at hline

/-- The row of an instruction whose name holds a full stop. -/
def dottedRow : Row :=
  ⟨" C.ADD ".toList, [" 2 ".toList, " a ".toList, " b ".toList, " c ".toList, " d ".toList],
    " proved ".toList⟩

def dottedTable : String :=
  "| ADD | 2 | a | b | c | d | unsupported |\n| C.ADD | 2 | a | b | c | d | proved |\n"

set_option maxRecDepth 10000 in
theorem dottedTable_accepted : checkCoverage dottedTable statuses = .ok 1 := by decide +kernel

set_option maxRecDepth 10000 in
theorem dottedRow_listed : Listed dottedTable dottedRow where
  proper :=
    { seven := rfl
      barless := by decide +kernel }
  line := by decide +kernel
  header := by
    rw [Row.Header]
    decide +kernel
  delimiter := by
    intro h
    have hletter := (h _ List.mem_cons_self).2 'C' (by decide +kernel)
    revert hletter
    decide

/-- An accepted document with a status outside the allowed ones. -/
theorem dottedTable_overclaims :
    checkCoverage dottedTable statuses = .ok 1 ∧ Listed dottedTable dottedRow ∧
      ¬Allowed statuses dottedRow := by
  refine ⟨dottedTable_accepted, dottedRow_listed, ?_⟩
  rw [Allowed]
  decide +kernel

end CkbSail.Scripts.PublicClaims
