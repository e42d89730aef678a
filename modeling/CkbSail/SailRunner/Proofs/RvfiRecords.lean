import CkbSail.SailRunner.Proofs.RvfiText

/-!
# Incomplete records

A text is parsed record by record, but what follows the last `rvfi_order` line is
dropped in silence, and a field named twice before one is overwritten.  Such a text
is refused only when one of its lines is.
-/

namespace CkbSail.SailRunner

open CkbSail.Core RustStd ProofSupport

/-- The event of a block of recognized lines. -/
def blockEvent (block : List (RvfiField × List Char)) : Except Fault CommitEvent :=
  rvfiReader.record block

/-- The recognized lines of a text are blocks that end with their order line and name
no field twice; each event is the one of its block. -/
def FromRecords (text : List Char) (events : List CommitEvent) : Prop :=
  ∃ blocks : List (List (RvfiField × List Char)), fieldLines text = blocks.flatten ∧
    (∀ block ∈ blocks, Terminated isOrder block ∧ (block.map Prod.fst).Nodup) ∧
    List.Forall₂ (fun block event => blockEvent block = .ok event) blocks events

/-- A record without its order line: recognized lines follow the last order line, or
lead to the order line of another record and name a field twice. -/
def Incomplete (text : List Char) : Prop :=
  (cutAfter isOrder (fieldLines text)).rest ≠ [] ∨
    ∃ block ∈ (cutAfter isOrder (fieldLines text)).blocks, ¬(block.map Prod.fst).Nodup

/-- No record is lost or merged: the events are those of the records, and a text with
a record that is not complete is refused. -/
def KeepsRecords (text : List Char) : Prop :=
  (∀ events, parseRvfiText text = .ok events → FromRecords text events) ∧
    (Incomplete text → ∃ error, parseRvfiText text = .error (.error error))

/-- A line ends a record that lacks a field its event needs. -/
def EndsShort (before : List (List Char)) (line : List Char) : Prop :=
  ∃ raw value builder, fieldLine line = some (.order, raw) ∧ parseNumber raw = .ok value ∧
    rvfiReader.taken (cutAfter isOrder (before.filterMap fieldLine)).rest = .ok builder ∧
    builder.Lacks

/-- A line of the text is refused or ends a record that lacks a field, and no line
before it panics. -/
def Rejected (text : List Char) : Prop :=
  ∃ before line after, lines text = before ++ line :: after ∧
    (∀ earlier ∈ before, ¬Panics earlier) ∧ (Refused line ∨ EndsShort before line)

theorem not_panics_of_parsed {before : List (List Char)}
    {state reached : List CommitEvent × EventBuilder}
    (h : before.foldlM parseLine state = .ok reached) : ∀ line ∈ before, ¬Panics line := by
  intro line hmem hpanic
  obtain ⟨front, back, rfl⟩ := List.append_of_mem hmem
  rw [List.foldlM_append] at h
  cases hfront : front.foldlM parseLine state with
  | error fault =>
      rw [hfront] at h
      cases h
  | ok middle =>
      have hline : parseLine middle line = .error .panic := parseLine_panic_iff.2 hpanic
      rw [hfront] at h
      change (line :: back).foldlM parseLine middle = .ok reached at h
      rw [List.foldlM_cons, hline] at h
      cases h

theorem lacks_iff_endsShort {before : List (List Char)} {line : List Char}
    {state : List CommitEvent × EventBuilder}
    (h : before.foldlM parseLine ([], .empty) = .ok state) :
    (∃ raw value, fieldLine line = some (.order, raw) ∧ parseNumber raw = .ok value ∧
      state.2.Lacks) ↔ EndsShort before line := by
  have hrest := (has_of_parsed h).rest
  constructor
  · rintro ⟨raw, value, hline, hnumber, hlacks⟩
    exact ⟨raw, value, state.2, hline, hnumber, hrest, hlacks⟩
  · rintro ⟨raw, value, builder, hline, hnumber, hbuilder, hlacks⟩
    obtain rfl : state.2 = builder := Except.ok.inj (hrest.symm.trans hbuilder)
    exact ⟨raw, value, hline, hnumber, hlacks⟩

/-- The parser refuses a text at its first line that is refused or ends a short record. -/
theorem parse_error_iff {text : List Char} :
    (∃ error, parseRvfiText text = .error (.error error)) ↔ Rejected text := by
  have hresult : (∃ error, parseRvfiText text = .error (.error error)) ↔
      ∃ error, (lines text).foldlM parseLine ([], .empty) = .error (.error error) := by
    unfold parseRvfiText
    cases (lines text).foldlM parseLine ([], .empty) <;> simp [Except.map]
  rw [hresult]
  constructor
  · rintro ⟨error, herror⟩
    obtain ⟨before, line, after, state, hlines, hbefore, hline⟩ := foldlM_eq_error.1 herror
    refine ⟨before, line, after, hlines, not_panics_of_parsed hbefore, ?_⟩
    exact (parseLine_error_iff.1 ⟨error, hline⟩).imp_right (lacks_iff_endsShort hbefore).1
  · rintro ⟨before, line, after, hlines, hpanics, hline⟩
    rw [hlines, List.foldlM_append]
    cases hbefore : before.foldlM parseLine ([], .empty) with
    | error fault =>
        cases fault with
        | error error => exact ⟨error, rfl⟩
        | panic =>
            obtain ⟨front, earlier, back, state, rfl, -, hearlier⟩ := foldlM_eq_error.1 hbefore
            exact absurd (parseLine_panic_iff.1 hearlier) (hpanics earlier (by simp))
    | ok state =>
        have hstate := hline.imp_right (lacks_iff_endsShort hbefore).2
        obtain ⟨error, herror⟩ := parseLine_error_iff.2 hstate
        refine ⟨error, ?_⟩
        change (line :: after).foldlM parseLine state = _
        rw [List.foldlM_cons, herror]
        rfl

/-- Whatever is parsed comes from the blocks of the text; the rest is dropped. -/
theorem blocks_of_parsed {text : List Char} {events : List CommitEvent}
    (h : parseRvfiText text = .ok events) :
    List.Forall₂ (fun block event => blockEvent block = .ok event)
      (cutAfter isOrder (fieldLines text)).blocks events := by
  unfold parseRvfiText at h
  cases hlines : (lines text).foldlM parseLine ([], .empty) with
  | error fault => simp [hlines, Except.map] at h
  | ok state =>
      obtain rfl : state.1 = events := by simpa [hlines, Except.map] using h
      exact (has_of_parsed hlines).records

theorem fromRecords_of_complete {text : List Char} {events : List CommitEvent}
    (hcomplete : ¬Incomplete text) (h : parseRvfiText text = .ok events) :
    FromRecords text events := by
  obtain ⟨hflatten, hblocks, -⟩ := cutAfter_spec isOrder (fieldLines text)
  obtain ⟨hrest, hnodup⟩ := not_or.1 hcomplete
  refine ⟨_, ?_, fun block hmem => ⟨hblocks block hmem, ?_⟩, blocks_of_parsed h⟩
  · rw [not_not.1 hrest, List.append_nil] at hflatten
    exact hflatten.symm
  · exact not_not.1 fun hdup => hnodup ⟨block, hmem, hdup⟩

/-- The parser keeps the records of a text exactly when they are all complete or one of
its lines is rejected. -/
theorem keepsRecords_iff (text : List Char) :
    KeepsRecords text ↔ ¬Incomplete text ∨ Rejected text := by
  constructor
  · rintro ⟨-, hrefused⟩
    by_cases hcomplete : Incomplete text
    · exact Or.inr (parse_error_iff.1 (hrefused hcomplete))
    · exact Or.inl hcomplete
  · rintro (hcomplete | hrejected)
    · exact ⟨fun events h => fromRecords_of_complete hcomplete h,
        fun hincomplete => absurd hincomplete hcomplete⟩
    · obtain ⟨error, herror⟩ := parse_error_iff.2 hrejected
      refine ⟨fun events h => ?_, fun _ => ⟨error, herror⟩⟩
      rw [herror] at h
      cases h

/-- A record followed by another one that ends before its order line. -/
def truncatedText : List Char :=
  ("rvfi_insn:0x13\nrvfi_pc_rdata:0\nrvfi_pc_wdata:4\nrvfi_order:0\n" ++
    "rvfi_insn:0x13").toList

theorem not_keepsRecords_truncated : ¬KeepsRecords truncatedText := by
  rintro ⟨-, hrefused⟩
  have hrest : (cutAfter isOrder (fieldLines truncatedText)).rest ≠ [] := by decide +kernel
  have hparsed : (parseRvfiText truncatedText).toOption.isSome = true := by decide +kernel
  obtain ⟨error, herror⟩ := hrefused (Or.inl hrest)
  rw [herror] at hparsed
  cases hparsed

end CkbSail.SailRunner
