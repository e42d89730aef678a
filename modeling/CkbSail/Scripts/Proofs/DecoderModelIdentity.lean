import CkbSail.Scripts.DecoderModelIdentity
import Mathlib.Data.List.Forall2

/-!
# What the canonical text forgets

Both rewrites look for whole lines, so they work line by line: a Source line gets the
legacy name and any other line stays.  What follows the name is determined by the line.
-/

namespace CkbSail.Scripts.DecoderModelIdentity

open PythonStd ProofSupport

/-! ## The parts of a Source line -/

def Digits (text : List UInt8) : Prop := text ≠ [] ∧ ∀ b ∈ text, isDigit b = true

/-- `', lines a:b-c:d`. -/
def Positions (text : List UInt8) : Prop :=
  ∃ a b c d, Digits a ∧ Digits b ∧ Digits c ∧ Digits d ∧
    text = encode "', lines " ++ a ++ encode ":" ++ b ++ encode "-" ++ c ++ encode ":" ++ d

/-- A file name and the positions. -/
def FileRemainder (text : List UInt8) : Prop :=
  ∃ file positions, file ≠ [] ∧ (∀ b ∈ file, isFile b = true) ∧ Positions positions ∧
    text = file ++ positions

/-- The positions, with or without the end of the comment. -/
def IteratorRemainder (text : List UInt8) : Prop :=
  ∃ positions ending, Positions positions ∧ (ending = [] ∨ ending = encode " -/") ∧
    text = positions ++ ending

section Parts

variable {before : Option UInt8} {taken rest : List UInt8} {groups : List (List UInt8)}

theorem matches_digits_iff :
    digits.Matches before taken groups rest ↔ Digits taken ∧ groups = [] := by
  rw [digits, Regex.Matches, Digits, and_assoc, Nat.one_le_iff_ne_zero, ne_eq,
    List.length_eq_zero_iff]

theorem matches_positions_iff :
    positions.Matches before taken groups rest ↔ Positions taken ∧ groups = [] := by
  constructor
  · rintro ⟨_, _, _, _, rfl, rfl, ⟨rfl, rfl⟩, h⟩
    obtain ⟨a, _, _, _, rfl, rfl, ha, h⟩ := h
    obtain ⟨_, _, _, _, rfl, rfl, ⟨rfl, rfl⟩, h⟩ := h
    obtain ⟨b, _, _, _, rfl, rfl, hb, h⟩ := h
    obtain ⟨_, _, _, _, rfl, rfl, ⟨rfl, rfl⟩, h⟩ := h
    obtain ⟨c, _, _, _, rfl, rfl, hc, h⟩ := h
    obtain ⟨_, d, _, _, rfl, rfl, ⟨rfl, rfl⟩, hd⟩ := h
    obtain ⟨ha', rfl⟩ := matches_digits_iff.1 ha
    obtain ⟨hb', rfl⟩ := matches_digits_iff.1 hb
    obtain ⟨hc', rfl⟩ := matches_digits_iff.1 hc
    obtain ⟨hd', rfl⟩ := matches_digits_iff.1 hd
    exact ⟨⟨a, b, c, d, ha', hb', hc', hd', by simp⟩, rfl⟩
  · rintro ⟨⟨a, b, c, d, ha, hb, hc, hd, rfl⟩, rfl⟩
    simp only [List.append_assoc]
    refine ⟨encode "', lines ", _, [], [], rfl, rfl, ⟨rfl, rfl⟩, ?_⟩
    refine ⟨a, _, [], [], rfl, rfl, matches_digits_iff.2 ⟨ha, rfl⟩, ?_⟩
    refine ⟨encode ":", _, [], [], rfl, rfl, ⟨rfl, rfl⟩, ?_⟩
    refine ⟨b, _, [], [], rfl, rfl, matches_digits_iff.2 ⟨hb, rfl⟩, ?_⟩
    refine ⟨encode "-", _, [], [], rfl, rfl, ⟨rfl, rfl⟩, ?_⟩
    refine ⟨c, _, [], [], rfl, rfl, matches_digits_iff.2 ⟨hc, rfl⟩, ?_⟩
    exact ⟨encode ":", d, [], [], rfl, rfl, ⟨rfl, rfl⟩, matches_digits_iff.2 ⟨hd, rfl⟩⟩

theorem matches_fileRemainder_iff :
    fileRemainder.Matches before taken groups rest ↔ FileRemainder taken ∧ groups = [] := by
  constructor
  · rintro ⟨file, positions, _, _, rfl, rfl, ⟨hne, hfile, rfl⟩, hpositions⟩
    obtain ⟨hshape, rfl⟩ := matches_positions_iff.1 hpositions
    exact ⟨⟨file, positions, List.length_pos_iff.1 hne, hfile, hshape, rfl⟩, rfl⟩
  · rintro ⟨⟨file, positions, hne, hfile, hpositions, rfl⟩, rfl⟩
    exact ⟨file, positions, [], [], rfl, rfl, ⟨List.length_pos_iff.2 hne, hfile, rfl⟩,
      matches_positions_iff.2 ⟨hpositions, rfl⟩⟩

theorem matches_iteratorRemainder_iff :
    iteratorRemainder.Matches before taken groups rest ↔
      IteratorRemainder taken ∧ groups = [] := by
  constructor
  · rintro ⟨positions, ending, _, _, rfl, rfl, hpositions, hending⟩
    obtain ⟨hshape, rfl⟩ := matches_positions_iff.1 hpositions
    rcases hending with ⟨rfl, rfl⟩ | ⟨rfl, rfl⟩
    · exact ⟨⟨positions, _, hshape, Or.inr rfl, rfl⟩, rfl⟩
    · exact ⟨⟨positions, _, hshape, Or.inl rfl, rfl⟩, rfl⟩
  · rintro ⟨⟨positions, ending, hpositions, hending, rfl⟩, rfl⟩
    refine ⟨positions, ending, [], [], rfl, rfl, matches_positions_iff.2 ⟨hpositions, rfl⟩, ?_⟩
    exact hending.symm.imp (fun h => ⟨h, rfl⟩) fun h => ⟨h, rfl⟩

end Parts

/-! ## One line -/

def sourceText (name after : List UInt8) : List UInt8 := sourceStart ++ (name ++ after)

theorem newline_notMem_sourceStart : newline ∉ sourceStart := by decide

/-- What the rewrite of a Source line rests on. -/
structure Rewrite (names : List (List UInt8)) (remainder : Regex UInt8)
    (Remainder : List UInt8 → Prop) (legacy : List UInt8) : Prop where
  named : names ≠ []
  names_inline : ∀ name ∈ names, newline ∉ name
  legacy_inline : newline ∉ legacy
  inline : remainder.Inline
  matches_iff : ∀ {before : Option UInt8} {taken rest : List UInt8} {groups : List (List UInt8)},
    remainder.Matches before taken groups rest ↔ Remainder taken ∧ groups = []
  determined : ∀ name ∈ names, ∀ name' ∈ names, ∀ after after', Remainder after →
    Remainder after' → name ++ after = name' ++ after' → after = after'

namespace Rewrite

variable {names : List (List UInt8)} {remainder : Regex UInt8} {Remainder : List UInt8 → Prop}
  {legacy : List UInt8} (h : Rewrite names remainder Remainder legacy)
include h

theorem matches_sourceLine_iff {before : Option UInt8} {taken rest : List UInt8}
    {groups : List (List UInt8)} :
    (sourceLine names remainder).Matches before taken groups rest ↔
      ∃ name ∈ names, ∃ after, Remainder after ∧ taken = sourceText name after ∧
        groups = [sourceStart, after] := by
  constructor
  · rintro ⟨_, _, _, _, rfl, rfl, ⟨_, rfl, rfl, rfl⟩, name, after, _, _, rfl, rfl, hname, _, rfl,
      hafter⟩
    obtain ⟨hmem, rfl⟩ := (Regex.matches_oneOf_iff h.named).1 hname
    obtain ⟨hremainder, rfl⟩ := h.matches_iff.1 hafter
    exact ⟨name, hmem, after, hremainder, rfl, rfl⟩
  · rintro ⟨name, hmem, after, hremainder, rfl, rfl⟩
    refine ⟨sourceStart, _, [sourceStart], _, rfl, rfl, ⟨[], rfl, rfl, rfl⟩, ?_⟩
    refine ⟨name, after, [], [after], rfl, rfl, (Regex.matches_oneOf_iff h.named).2 ⟨hmem, rfl⟩, ?_⟩
    exact ⟨[], rfl, h.matches_iff.2 ⟨hremainder, rfl⟩⟩

theorem sourceLine_inline : (sourceLine names remainder).Inline :=
  ⟨newline_notMem_sourceStart, Regex.inline_oneOf h.names_inline, h.inline⟩

theorem groups_unique (taken : List UInt8) (groups groups' : List (List UInt8))
    (hgroups : (sourceLine names remainder).Matches none taken groups [])
    (hgroups' : (sourceLine names remainder).Matches none taken groups' []) : groups = groups' := by
  obtain ⟨name, hname, after, hafter, htaken, rfl⟩ := h.matches_sourceLine_iff.1 hgroups
  obtain ⟨name', hname', after', hafter', htaken', rfl⟩ := h.matches_sourceLine_iff.1 hgroups'
  have hsame := List.append_cancel_left (htaken.symm.trans htaken')
  rw [h.determined name hname name' hname' after after' hafter hafter' hsame]

theorem not_matches_nil (groups : List (List UInt8)) :
    ¬(sourceLine names remainder).Matches none [] groups [] := by
  intro hmatch
  obtain ⟨_, _, _, _, hnil, -⟩ := h.matches_sourceLine_iff.1 hmatch
  cases hnil

/-- Both rewrites work on each line. -/
theorem subn_eq (data : List UInt8) :
    ((Regex.line (sourceLine names remainder)).subn (relocate legacy) data).1 =
      [newline].intercalate ((data.splitOn newline).map
        (Regex.rewriteLine (sourceLine names remainder) (relocate legacy))) :=
  Regex.sub_line h.sourceLine_inline h.not_matches_nil h.groups_unique _ data

theorem rewriteLine_source {name after : List UInt8} (hname : name ∈ names)
    (hafter : Remainder after) :
    Regex.rewriteLine (sourceLine names remainder) (relocate legacy) (sourceText name after) =
      sourceText legacy after := by
  have hmatch : (sourceLine names remainder).Matches none (sourceText name after)
      [sourceStart, after] [] := h.matches_sourceLine_iff.2 ⟨name, hname, after, hafter, rfl, rfl⟩
  rw [Regex.rewriteLine_of_matches h.groups_unique hmatch, relocate, sourceText, List.append_assoc]

theorem rewriteLine_other {text : List UInt8}
    (hother : ∀ name ∈ names, ∀ after, Remainder after → text ≠ sourceText name after) :
    Regex.rewriteLine (sourceLine names remainder) (relocate legacy) text = text := by
  apply Regex.rewriteLine_of_not_matches
  intro groups hmatch
  obtain ⟨name, hname, after, hafter, htext, -⟩ := h.matches_sourceLine_iff.1 hmatch
  exact hother name hname after hafter htext

end Rewrite

/-! ## The two laws -/

/-- Two lines that differ at most in how a Source line names the file. -/
def SameLine (spelled : List (List UInt8)) (Remainder : List UInt8 → Prop)
    (text text' : List UInt8) : Prop :=
  text = text' ∨ ∃ after, Remainder after ∧ ∃ name ∈ spelled, ∃ name' ∈ spelled, name ≠ name' ∧
    text = sourceText name after ∧ text' = sourceText name' after

/-- A line before its Source is given a name. -/
inductive Line where
  | source (after : List UInt8)
  | other (text : List UInt8)

/-- The line in a rendering that names sources in one of some ways. -/
def Line.Renders (written : List (List UInt8)) (Remainder : List UInt8 → Prop) :
    Line → List UInt8 → Prop
  | .source after, text => Remainder after ∧ ∃ name ∈ written, text = sourceText name after
  | .other kept, text => text = kept ∧ newline ∉ kept ∧
      ∀ name ∈ written, ∀ after, Remainder after → kept ≠ sourceText name after

/-- The line in the canonical text. -/
def Line.canonical (legacy : List UInt8) : Line → List UInt8
  | .source after => sourceText legacy after
  | .other kept => kept

/-- A rewrite forgets how Source lines name the file, and nothing else. -/
structure ForgetsLocation (rewrite : List UInt8 → List UInt8)
    (spelled written : List (List UInt8)) (legacy : List UInt8)
    (Remainder : List UInt8 → Prop) : Prop where
  nothing_else : ∀ data data', rewrite data = rewrite data' →
    List.Forall₂ (SameLine spelled Remainder) (data.splitOn newline) (data'.splitOn newline)
  location : ∀ lines texts, List.Forall₂ (Line.Renders written Remainder) lines texts →
    rewrite ([newline].intercalate texts) =
      [newline].intercalate (lines.map (Line.canonical legacy))

namespace Rewrite

variable {names : List (List UInt8)} {remainder : Regex UInt8} {Remainder : List UInt8 → Prop}
  {legacy : List UInt8} (h : Rewrite names remainder Remainder legacy)
include h

theorem rewriteLine_cases (text : List UInt8) :
    Regex.rewriteLine (sourceLine names remainder) (relocate legacy) text = text ∨
      ∃ name ∈ names, ∃ after, Remainder after ∧ text = sourceText name after ∧
        Regex.rewriteLine (sourceLine names remainder) (relocate legacy) text =
          sourceText legacy after := by
  by_cases hsource : ∃ name ∈ names, ∃ after, Remainder after ∧ text = sourceText name after
  · obtain ⟨name, hname, after, hafter, rfl⟩ := hsource
    exact Or.inr ⟨name, hname, after, hafter, rfl, h.rewriteLine_source hname hafter⟩
  · refine Or.inl (h.rewriteLine_other ?_)
    intro name hname after hafter htext
    exact hsource ⟨name, hname, after, hafter, htext⟩

/-- Lines that are rewritten alike. -/
theorem sameLine_of_rewriteLine {text text' : List UInt8}
    (hsame : Regex.rewriteLine (sourceLine names remainder) (relocate legacy) text =
      Regex.rewriteLine (sourceLine names remainder) (relocate legacy) text') :
    SameLine (legacy :: names) Remainder text text' := by
  have hsplit : ∀ {name name' after : List UInt8}, name ∈ legacy :: names →
      name' ∈ legacy :: names → Remainder after →
      SameLine (legacy :: names) Remainder (sourceText name after) (sourceText name' after) := by
    intro name name' after hname hname' hafter
    by_cases heq : name = name'
    · exact Or.inl (by rw [heq])
    · exact Or.inr ⟨after, hafter, name, hname, name', hname', heq, rfl, rfl⟩
  rcases h.rewriteLine_cases text with hkept | ⟨name, hname, after, hafter, rfl, hmoved⟩
  · rcases h.rewriteLine_cases text' with hkept' | ⟨name', hname', after, hafter, rfl, hmoved'⟩
    · exact Or.inl (hkept.symm.trans (hsame.trans hkept'))
    · rw [hkept, hmoved'] at hsame
      rw [hsame]
      exact hsplit List.mem_cons_self (List.mem_cons_of_mem _ hname') hafter
  · rcases h.rewriteLine_cases text' with hkept' | ⟨name', hname', after', hafter', rfl, hmoved'⟩
    · rw [hkept', hmoved] at hsame
      rw [← hsame]
      exact hsplit (List.mem_cons_of_mem _ hname) List.mem_cons_self hafter
    · rw [hmoved, hmoved'] at hsame
      obtain rfl := List.append_cancel_left (List.append_cancel_left hsame)
      exact hsplit (List.mem_cons_of_mem _ hname) (List.mem_cons_of_mem _ hname') hafter

theorem newline_notMem_rewriteLine {text : List UInt8} (htext : newline ∉ text) :
    newline ∉ Regex.rewriteLine (sourceLine names remainder) (relocate legacy) text := by
  rcases h.rewriteLine_cases text with hkept | ⟨name, hname, after, hafter, rfl, hmoved⟩
  · rwa [hkept]
  · rw [hmoved, sourceText, List.mem_append, List.mem_append, not_or, not_or]
    refine ⟨newline_notMem_sourceStart, h.legacy_inline, fun hmem => htext ?_⟩
    exact List.mem_append_right _ (List.mem_append_right _ hmem)

theorem nothing_else (data data' : List UInt8)
    (hsame : ((Regex.line (sourceLine names remainder)).subn (relocate legacy) data).1 =
      ((Regex.line (sourceLine names remainder)).subn (relocate legacy) data').1) :
    List.Forall₂ (SameLine (legacy :: names) Remainder) (data.splitOn newline)
      (data'.splitOn newline) := by
  have hpieces : ∀ data : List UInt8, (((Regex.line (sourceLine names remainder)).subn
      (relocate legacy) data).1).splitOn newline = (data.splitOn newline).map
        (Regex.rewriteLine (sourceLine names remainder) (relocate legacy)) := by
    intro data
    rw [h.subn_eq, List.splitOn_intercalate]
    · intro line hline
      obtain ⟨text, htext, rfl⟩ := List.mem_map.1 hline
      exact h.newline_notMem_rewriteLine (notMem_of_mem_splitOn htext)
    · simp
  have hlines := congrArg (List.splitOn newline) hsame
  rw [hpieces, hpieces, ← List.forall₂_eq_eq_eq, List.forall₂_map_left_iff,
    List.forall₂_map_right_iff] at hlines
  exact hlines.imp fun text text' => h.sameLine_of_rewriteLine

theorem newline_notMem_remainder {after : List UInt8} (hafter : Remainder after) :
    newline ∉ after := by
  have hmatch : remainder.Matches none after [] [] := h.matches_iff.2 ⟨hafter, rfl⟩
  exact h.inline.notMem hmatch

/-- A rendering whose Source lines the rewrite moves. -/
theorem location {written : List (List UInt8)} (hnames : ∀ name ∈ names, name ∈ written)
    (hinline : ∀ name ∈ written, newline ∉ name)
    (hmoved : ∀ name ∈ written, ∀ after, Remainder after →
      Regex.rewriteLine (sourceLine names remainder) (relocate legacy) (sourceText name after) =
        sourceText legacy after)
    (lines : List Line) (texts : List (List UInt8))
    (hrenders : List.Forall₂ (Line.Renders written Remainder) lines texts) :
    ((Regex.line (sourceLine names remainder)).subn (relocate legacy)
      ([newline].intercalate texts)).1 =
        [newline].intercalate (lines.map (Line.canonical legacy)) := by
  have hline : ∀ line text, Line.Renders written Remainder line text → newline ∉ text ∧
      Regex.rewriteLine (sourceLine names remainder) (relocate legacy) text =
        line.canonical legacy := by
    intro line text hrender
    cases line with
    | source after =>
        obtain ⟨hafter, name, hname, rfl⟩ := hrender
        refine ⟨?_, hmoved name hname after hafter⟩
        rw [sourceText, List.mem_append, List.mem_append, not_or, not_or]
        exact ⟨newline_notMem_sourceStart, hinline name hname, h.newline_notMem_remainder hafter⟩
    | other kept =>
        obtain ⟨rfl, hkept, hother⟩ := hrender
        exact ⟨hkept, h.rewriteLine_other fun name hname => hother name (hnames name hname)⟩
  have htexts : (∀ text ∈ texts, newline ∉ text) ∧
      texts.map (Regex.rewriteLine (sourceLine names remainder) (relocate legacy)) =
        lines.map (Line.canonical legacy) := by
    induction hrenders with
    | nil => exact ⟨List.forall_mem_nil _, rfl⟩
    | @cons line text lines texts hrender _ ih =>
        obtain ⟨hnewline, hcanonical⟩ := hline line text hrender
        rw [List.forall_mem_cons, List.map_cons, List.map_cons, hcanonical, ih.2]
        exact ⟨⟨hnewline, ih.1⟩, rfl⟩
  rw [h.subn_eq, ← htexts.2]
  cases texts with
  | nil =>
      rw [List.map_nil, List.intercalate_nil, List.splitOn_nil, List.map_singleton,
        List.intercalate_singleton, h.rewriteLine_other]
      intro name _ after _ hnil
      cases hnil
  | cons text texts => rw [List.splitOn_intercalate _ htexts.1 (List.cons_ne_nil _ _)]

end Rewrite

/-! ## The decoder model -/

theorem encode_inline : newline ∉ encode "/deps/ckb-vm/" ∧ newline ∉ LEGACY_CHECKOUT ∧
    newline ∉ iteratorLegacy := by decide

theorem positions_inline : positions.Inline := by
  have hlines : newline ∉ encode "', lines " := by decide
  have hcolon : newline ∉ encode ":" := by decide
  have hdash : newline ∉ encode "-" := by decide
  exact ⟨hlines, rfl, hcolon, rfl, hdash, rfl, hcolon, rfl⟩

theorem newline_notMem_joinParts {parts : List (List UInt8)}
    (h : ∀ part ∈ parts, newline ∉ part) : newline ∉ joinParts parts := by
  cases parts with
  | nil => exact List.not_mem_nil
  | cons part parts =>
      rw [List.forall_mem_cons] at h
      rw [joinParts, intercalate_cons, List.mem_append, List.mem_flatMap, not_or]
      refine ⟨h.1, ?_⟩
      rintro ⟨next, hnext, hmem⟩
      rcases List.mem_cons.1 hmem with hslash | hmem
      · exact absurd hslash (by decide)
      · exact h.2 next hnext hmem

theorem newline_notMem_bytes {path : Resolved} (h : ∀ part ∈ path, newline ∉ part) :
    newline ∉ path.bytes := by
  rw [Resolved.bytes, List.mem_cons, not_or]
  exact ⟨by decide, newline_notMem_joinParts h⟩

theorem newline_notMem_checkoutPrefix {checkout : List UInt8} (h : newline ∉ checkout) :
    newline ∉ checkoutPrefix checkout := by
  rw [checkoutPrefix, List.mem_append, not_or]
  exact ⟨h, encode_inline.1⟩

theorem canonicalize_rewrite {checkout : Resolved} (h : ∀ part ∈ checkout, newline ∉ part) :
    Rewrite [checkoutPrefix checkout.bytes] fileRemainder FileRemainder
      (checkoutPrefix LEGACY_CHECKOUT) where
  named := List.cons_ne_nil _ _
  names_inline := by
    intro name hname
    rw [List.mem_singleton.1 hname]
    exact newline_notMem_checkoutPrefix (newline_notMem_bytes h)
  legacy_inline := newline_notMem_checkoutPrefix encode_inline.2.1
  inline := ⟨rfl, positions_inline⟩
  matches_iff := matches_fileRemainder_iff
  determined := by
    intro name hname name' hname' after after' _ _ hsame
    rw [List.mem_singleton.1 hname, List.mem_singleton.1 hname'] at hsame
    exact List.append_cancel_left hsame

/-! ## The iterator -/

theorem mem_sortedSpellings {absolute relative name : List UInt8} :
    name ∈ sortedSpellings absolute relative ↔ name = absolute ∨ name = relative := by
  rw [sortedSpellings]
  split_ifs with hsame hless
  · rw [List.mem_singleton, hsame, or_self]
  · rw [List.mem_cons, List.mem_singleton]
  · rw [List.mem_cons, List.mem_singleton, or_comm]

theorem dropCommon_subset (path start : Resolved) :
    ∀ part ∈ (dropCommon path start).1, part ∈ path := by
  induction path generalizing start with
  | nil =>
      intro part hpart
      rwa [dropCommon] at hpart
      intro _ _ _ _ hnil
      cases hnil
  | cons head path ih =>
      intro part hpart
      cases start with
      | nil => exact hpart
      | cons other start =>
          rw [dropCommon] at hpart
          split_ifs at hpart with hsame
          · exact List.mem_cons_of_mem _ (ih start part hpart)
          · exact hpart

theorem newline_notMem_relpath {path : Resolved} (h : ∀ part ∈ path, newline ∉ part)
    (start : Resolved) : newline ∉ relpath path start := by
  rw [relpath]
  split
  · decide
  · rename_i rest up _ hdrop
    apply newline_notMem_joinParts
    intro part hpart
    rcases List.mem_append.1 hpart with hup | hrest
    · rw [List.eq_of_mem_replicate hup]
      decide
    · exact h part (dropCommon_subset path start part (by rwa [hdrop]))

/-- The path of the fixture in a checkout. -/
def iteratorSource (checkout : Resolved) : Resolved := checkout ++ ITERATOR_RELATIVE

/-- How a Source line may name the fixture: as before, absolutely, or from the directory of
the extraction. -/
def iteratorNames (checkout extractionCwd : Resolved) : List (List UInt8) :=
  [iteratorLegacy, (iteratorSource checkout).bytes, relpath (iteratorSource checkout) extractionCwd]

theorem iteratorNames_inline {checkout : Resolved} (h : ∀ part ∈ checkout, newline ∉ part)
    (extractionCwd : Resolved) : ∀ name ∈ iteratorNames checkout extractionCwd, newline ∉ name := by
  have hrelative : ∀ part ∈ ITERATOR_RELATIVE, newline ∉ part := by decide
  have hsource : ∀ part ∈ iteratorSource checkout, newline ∉ part := by
    intro part hpart
    rcases List.mem_append.1 hpart with hcheckout | hpart
    · exact h part hcheckout
    · exact hrelative part hpart
  simp only [iteratorNames, List.forall_mem_cons]
  exact ⟨encode_inline.2.2, newline_notMem_bytes hsource,
    newline_notMem_relpath hsource extractionCwd, List.forall_mem_nil _⟩

theorem mem_iteratorNames_iff {checkout extractionCwd : Resolved} {name : List UInt8} :
    name ∈ iteratorNames checkout extractionCwd ↔
      name ∈ iteratorLegacy :: spellings checkout extractionCwd := by
  rw [List.mem_cons, spellings, mem_sortedSpellings, iteratorNames, List.mem_cons, List.mem_cons,
    List.mem_singleton]
  rfl

/-- The positions hold one quote, their first byte. -/
theorem quote_of_iteratorRemainder {after : List UInt8} (h : IteratorRemainder after) :
    ∃ tail, after = 39 :: tail ∧ 39 ∉ tail := by
  have hdigits : ∀ text, Digits text → 39 ∉ text := by
    intro text htext hmem
    exact absurd (htext.2 39 hmem) (by decide)
  obtain ⟨_, ending, ⟨a, b, c, d, ha, hb, hc, hd, rfl⟩, hending, rfl⟩ := h
  refine ⟨encode ", lines " ++ a ++ encode ":" ++ b ++ encode "-" ++ c ++ encode ":" ++ d ++ ending,
    rfl, ?_⟩
  simp only [List.mem_append, not_or]
  refine ⟨⟨⟨⟨⟨⟨⟨⟨by decide, hdigits a ha⟩, by decide⟩, hdigits b hb⟩, by decide⟩, hdigits c hc⟩,
    by decide⟩, hdigits d hd⟩, ?_⟩
  rcases hending with rfl | rfl
  · exact List.not_mem_nil
  · decide

/-- What follows the name begins at the last quote of a line. -/
theorem iteratorRemainder_determined {name name' after after' : List UInt8}
    (hafter : IteratorRemainder after) (hafter' : IteratorRemainder after')
    (hsame : name ++ after = name' ++ after') : after = after' := by
  obtain ⟨tail, rfl, htail⟩ := quote_of_iteratorRemainder hafter
  obtain ⟨tail', rfl, htail'⟩ := quote_of_iteratorRemainder hafter'
  have hreverse := congrArg List.reverse hsame
  simp only [List.reverse_append, List.reverse_cons, List.append_assoc, List.singleton_append]
    at hreverse
  have htails := (append_separator_inj (by rwa [List.mem_reverse]) (by rwa [List.mem_reverse])
    hreverse).1
  rw [List.reverse_inj.1 htails]

theorem canonicalizeIterator_rewrite {checkout : Resolved}
    (h : ∀ part ∈ checkout, newline ∉ part) (extractionCwd : Resolved) :
    Rewrite (spellings checkout extractionCwd) iteratorRemainder IteratorRemainder
      iteratorLegacy where
  named := List.ne_nil_of_mem (mem_sortedSpellings.2 (Or.inl rfl))
  names_inline := by
    intro name hname
    have hmem := mem_iteratorNames_iff.2 (List.mem_cons_of_mem _ hname)
    exact iteratorNames_inline h extractionCwd name hmem
  legacy_inline := encode_inline.2.2
  inline := by
    have hending : newline ∉ encode " -/" := by decide
    exact ⟨positions_inline, hending, List.not_mem_nil⟩
  matches_iff := matches_iteratorRemainder_iff
  determined _ _ _ _ _ _ hafter hafter' := iteratorRemainder_determined hafter hafter'

/-- A line with the old name stays, and any other name becomes the old one. -/
theorem rewriteLine_iteratorNames {checkout : Resolved} (h : ∀ part ∈ checkout, newline ∉ part)
    {extractionCwd : Resolved} {name after : List UInt8}
    (hname : name ∈ iteratorNames checkout extractionCwd) (hafter : IteratorRemainder after) :
    Regex.rewriteLine (sourceLine (spellings checkout extractionCwd) iteratorRemainder)
      (relocate iteratorLegacy) (sourceText name after) = sourceText iteratorLegacy after := by
  have hrewrite := canonicalizeIterator_rewrite h extractionCwd
  rcases List.mem_cons.1 (mem_iteratorNames_iff.1 hname) with rfl | hspelled
  · rcases hrewrite.rewriteLine_cases (sourceText iteratorLegacy after) with
      hkept | ⟨_, _, after', hafter', htext, hmoved⟩
    · exact hkept
    · rw [hmoved, iteratorRemainder_determined hafter hafter' (List.append_cancel_left htext)]
  · exact hrewrite.rewriteLine_source hspelled hafter

/-! ## The identities -/

/-- In a checkout whose path has no line break, both rewrites forget where the checkout
is and nothing else. -/
theorem canonicalize_forgets_location {checkout : Resolved}
    (h : ∀ part ∈ checkout, newline ∉ part) :
    ForgetsLocation (fun data => (canonicalize data checkout).1)
        [checkoutPrefix LEGACY_CHECKOUT, checkoutPrefix checkout.bytes]
        [checkoutPrefix checkout.bytes] (checkoutPrefix LEGACY_CHECKOUT) FileRemainder ∧
      ∀ extractionCwd,
        ForgetsLocation (fun data => (canonicalizeIterator data checkout extractionCwd).1)
          (iteratorNames checkout extractionCwd) (iteratorNames checkout extractionCwd)
          iteratorLegacy IteratorRemainder := by
  have hmodel := canonicalize_rewrite h
  refine ⟨⟨hmodel.nothing_else, hmodel.location (fun _ hname => hname) hmodel.names_inline
    fun name hname after => hmodel.rewriteLine_source hname⟩, fun extractionCwd => ?_⟩
  have hiterator := canonicalizeIterator_rewrite h extractionCwd
  refine ⟨fun data data' hsame => ?_, hiterator.location
    (fun name hname => mem_iteratorNames_iff.2 (List.mem_cons_of_mem _ hname))
    (iteratorNames_inline h extractionCwd) fun name hname after hafter =>
      rewriteLine_iteratorNames h hname hafter⟩
  refine (hiterator.nothing_else data data' hsame).imp fun text text' => Or.imp_right ?_
  rintro ⟨after, hafter, name, hname, name', hname', hdiffers⟩
  exact ⟨after, hafter, name, mem_iteratorNames_iff.2 hname, name', mem_iteratorNames_iff.2 hname',
    hdiffers⟩

def workCheckout : Resolved := [encode "work", encode "check+out"]

theorem positions_work : Positions (encode "', lines 12:0-40:1") := by
  have hdigits : ∀ text ∈ ["12", "0", "40", "1"].map encode, Digits text := by
    simp only [Digits]
    decide +kernel
  simp only [List.map_cons, List.map_nil, List.forall_mem_cons] at hdigits
  obtain ⟨h12, h0, h40, h1, -⟩ := hdigits
  exact ⟨_, _, _, _, h12, h0, h40, h1, by decide +kernel⟩

theorem other_renders {written : List (List UInt8)} {Remainder : List UInt8 → Prop}
    {kept : List UInt8} (hnewline : newline ∉ kept) (hsource : ¬sourceStart <+: kept) :
    Line.Renders written Remainder (.other kept) kept := by
  refine ⟨rfl, hnewline, fun name _ after _ htext => hsource ?_⟩
  rw [htext, sourceText]
  exact List.prefix_append _ _

/-- A comment whose second line names a source file. -/
def commentLines (after : List UInt8) : List Line :=
  [.other (encode "/-- [ckb_vm::decoder]"), .source after, .other (encode "-/")]

def commentTexts (name after : List UInt8) : List (List UInt8) :=
  [encode "/-- [ckb_vm::decoder]", sourceText name after, encode "-/"]

theorem commentTexts_renders {written : List (List UInt8)} {Remainder : List UInt8 → Prop}
    {name after : List UInt8} (hname : name ∈ written) (hafter : Remainder after) :
    List.Forall₂ (Line.Renders written Remainder) (commentLines after)
      (commentTexts name after) := by
  have hfirst := @other_renders written Remainder (encode "/-- [ckb_vm::decoder]")
    (by decide +kernel) (by decide +kernel)
  have hlast := @other_renders written Remainder (encode "-/") (by decide +kernel)
    (by decide +kernel)
  exact .cons hfirst (.cons ⟨hafter, name, hname, rfl⟩ (.cons hlast .nil))

/-- A comment written in this checkout, and one by a run of the iterator above it. -/
theorem canonicalize_forgets_work :
    (canonicalize ([newline].intercalate (commentTexts (checkoutPrefix workCheckout.bytes)
        (encode "src/decoder.rs', lines 12:0-40:1"))) workCheckout).1 =
      [newline].intercalate (commentTexts (checkoutPrefix LEGACY_CHECKOUT)
        (encode "src/decoder.rs', lines 12:0-40:1")) ∧
    (canonicalizeIterator ([newline].intercalate (commentTexts
        (relpath (iteratorSource workCheckout) [encode "work"])
        (encode "', lines 12:0-40:1"))) workCheckout [encode "work"]).1 =
      [newline].intercalate (commentTexts iteratorLegacy (encode "', lines 12:0-40:1")) := by
  obtain ⟨hmodel, hiterator⟩ := @canonicalize_forgets_location workCheckout
    (by decide +kernel)
  constructor
  · refine hmodel.location _ _ (commentTexts_renders List.mem_cons_self ?_)
    exact ⟨encode "src/decoder.rs", _, by decide +kernel, by decide +kernel, positions_work,
      by decide +kernel⟩
  · refine (hiterator [encode "work"]).location _ _ (commentTexts_renders ?_ ?_)
    · exact List.mem_cons_of_mem _ (List.mem_cons_of_mem _ List.mem_cons_self)
    · exact ⟨_, [], positions_work, Or.inl rfl, (List.append_nil _).symm⟩

end CkbSail.Scripts.DecoderModelIdentity
