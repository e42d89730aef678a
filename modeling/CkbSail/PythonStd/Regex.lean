import CkbSail.ProofSupport.SplitOn
import Mathlib.Data.List.TakeWhile

/-!
# Regular expressions

The patterns of the scripts: text, runs of a class, groups, and the anchors of
`re.MULTILINE`.  `run` lists the matches at a place in the order in which the
backtracking of `re` finds them, so that the first one counts.  `scan` goes through a
text as `findall` and `sub` do; the patterns it is used for never match the empty text.
-/

namespace CkbSail.PythonStd

open ProofSupport

/-- What separates lines. -/
class Lined (α : Type) where
  newline : α

export Lined (newline)

instance : Lined Char := ⟨'\n'⟩

instance : Lined UInt8 := ⟨10⟩

inductive Regex (α : Type) where
  | text (items : List α)
  /-- A run of a class, the longest or the shortest first. -/
  | chars (longest : Bool) (least : Nat) (isIn : α → Bool)
  | seq (left right : Regex α)
  | alt (left right : Regex α)
  | group (inner : Regex α)
  | lineStart
  | lineEnd

/-- Patterns one after another. -/
def Regex.concat {α : Type} : List (Regex α) → Regex α
  | [] => .text []
  | [r] => r
  | r :: rs => .seq r (concat rs)

/-- One of some texts. -/
def Regex.oneOf {α : Type} : List (List α) → Regex α
  | [] => .text []
  | [items] => .text items
  | items :: more => .alt (.text items) (oneOf more)

/-- A match: the text taken, the texts of its groups, and what follows. -/
structure Found (α : Type) where
  taken : List α
  groups : List (List α)
  rest : List α
deriving DecidableEq, Repr

variable {α : Type} [DecidableEq α] [Lined α]

namespace Regex

/-- The places in front of a line. -/
def atStart (before : Option α) : Bool := before.all fun item => item = newline

/-- The places behind a line. -/
def atEnd (rest : List α) : Bool := rest.head?.all fun item => item = newline

/-- The matches in front of `rest`, where `before` is the item behind. -/
def run : Regex α → Option α → List α → List (Found α)
  | .text items, _, rest =>
      if items.isPrefixOf rest then [⟨items, [], rest.drop items.length⟩] else []
  | .chars longest least isIn, _, rest =>
      let counts := List.range' least ((rest.takeWhile isIn).length + 1 - least)
      (if longest then counts.reverse else counts).map fun count =>
        ⟨rest.take count, [], rest.drop count⟩
  | .seq left right, before, rest =>
      (run left before rest).flatMap fun a =>
        (run right (a.taken.getLast?.or before) a.rest).map fun b =>
          ⟨a.taken ++ b.taken, a.groups ++ b.groups, b.rest⟩
  | .alt left right, before, rest => run left before rest ++ run right before rest
  | .group inner, before, rest =>
      (run inner before rest).map fun a => { a with groups := a.taken :: a.groups }
  | .lineStart, before, rest => if atStart before then [⟨[], [], rest⟩] else []
  | .lineEnd, _, rest => if atEnd rest then [⟨[], [], rest⟩] else []

/-- A pattern matches `taken`, which stands between `before` and `rest`. -/
def Matches : Regex α → Option α → List α → List (List α) → List α → Prop
  | .text items, _, taken, groups, _ => taken = items ∧ groups = []
  | .chars _ least isIn, _, taken, groups, _ =>
      least ≤ taken.length ∧ (∀ item ∈ taken, isIn item = true) ∧ groups = []
  | .seq left right, before, taken, groups, rest => ∃ a b inA inB,
      taken = a ++ b ∧ groups = inA ++ inB ∧ Matches left before a inA (b ++ rest) ∧
        Matches right (a.getLast?.or before) b inB rest
  | .alt left right, before, taken, groups, rest =>
      Matches left before taken groups rest ∨ Matches right before taken groups rest
  | .group inner, before, taken, groups, rest =>
      ∃ inside, groups = taken :: inside ∧ Matches inner before taken inside rest
  | .lineStart, before, taken, groups, _ => taken = [] ∧ groups = [] ∧ atStart before = true
  | .lineEnd, _, taken, groups, rest => taken = [] ∧ groups = [] ∧ atEnd rest = true

theorem mem_run_chars {longest : Bool} {least : Nat} {isIn : α → Bool} {before : Option α}
    {rest : List α} {f : Found α} :
    f ∈ (chars longest least isIn).run before rest ↔
      rest = f.taken ++ f.rest ∧ least ≤ f.taken.length ∧
        (∀ item ∈ f.taken, isIn item = true) ∧ f.groups = [] := by
  have hcounts : ∀ count, (count ∈ if longest then
      (List.range' least ((rest.takeWhile isIn).length + 1 - least)).reverse
      else List.range' least ((rest.takeWhile isIn).length + 1 - least)) ↔
      least ≤ count ∧ count ≤ (rest.takeWhile isIn).length := by
    intro count
    rw [apply_ite (count ∈ ·), List.mem_reverse, ite_self, List.mem_range'_1]
    omega
  rw [run, List.mem_map]
  constructor
  · rintro ⟨count, hcount, rfl⟩
    obtain ⟨hleast, hmost⟩ := (hcounts count).1 hcount
    have hinitial : rest.take count <+: rest.takeWhile isIn :=
      List.prefix_of_prefix_length_le (List.take_prefix _ _) (List.takeWhile_prefix _)
        ((List.length_take_le _ _).trans hmost)
    have hlength : count ≤ rest.length := hmost.trans (List.takeWhile_prefix _).length_le
    exact ⟨(List.take_append_drop _ _).symm, by simpa [hlength] using hleast,
      fun item hitem => List.mem_takeWhile_imp (hinitial.subset hitem), rfl⟩
  · rintro ⟨rfl, hleast, hclass, hgroups⟩
    refine ⟨f.taken.length, (hcounts _).2 ⟨hleast, ?_⟩, ?_⟩
    · rw [List.takeWhile_append_of_pos hclass, List.length_append]
      exact Nat.le_add_right _ _
    · rw [List.take_left, List.drop_left, ← hgroups]

/-- The search finds exactly the matches. -/
theorem mem_run {r : Regex α} {before : Option α} {rest : List α} {f : Found α} :
    f ∈ r.run before rest ↔
      rest = f.taken ++ f.rest ∧ r.Matches before f.taken f.groups f.rest := by
  induction r generalizing before rest f with
  | text items =>
      rw [run, Matches]
      constructor
      · intro h
        split_ifs at h with hinitial
        · obtain ⟨after, rfl⟩ := List.isPrefixOf_iff_prefix.1 hinitial
          rw [List.drop_left, List.mem_singleton] at h
          subst h
          exact ⟨rfl, rfl, rfl⟩
        · cases h
      · rintro ⟨rfl, rfl, hgroups⟩
        rw [if_pos (List.isPrefixOf_iff_prefix.2 (List.prefix_append _ _)), List.drop_left,
          ← hgroups]
        exact List.mem_singleton_self f
  | chars longest least isIn => exact mem_run_chars
  | seq left right ihLeft ihRight =>
      rw [run, Matches, List.mem_flatMap]
      constructor
      · rintro ⟨a, ha, hf⟩
        obtain ⟨b, hb, rfl⟩ := List.mem_map.1 hf
        obtain ⟨rfl, hleft⟩ := ihLeft.1 ha
        obtain ⟨hrest, hright⟩ := ihRight.1 hb
        rw [hrest] at hleft ⊢
        exact ⟨(List.append_assoc _ _ _).symm, _, _, _, _, rfl, rfl, hleft, hright⟩
      · rintro ⟨rfl, a, b, inA, inB, htaken, hgroups, hleft, hright⟩
        refine ⟨⟨a, inA, b ++ f.rest⟩, ihLeft.2 ⟨?_, hleft⟩,
          List.mem_map.2 ⟨⟨b, inB, f.rest⟩, ihRight.2 ⟨rfl, hright⟩, ?_⟩⟩
        · rw [htaken, List.append_assoc]
        · rw [← htaken, ← hgroups]
  | alt left right ihLeft ihRight =>
      rw [run, List.mem_append, ihLeft, ihRight, Matches, and_or_left]
  | group inner ih =>
      rw [run, Matches, List.mem_map]
      constructor
      · rintro ⟨a, ha, rfl⟩
        exact ⟨(ih.1 ha).1, a.groups, rfl, (ih.1 ha).2⟩
      · rintro ⟨hrest, inside, hgroups, h⟩
        exact ⟨⟨f.taken, inside, f.rest⟩, ih.2 ⟨hrest, h⟩, by rw [← hgroups]⟩
  | lineStart =>
      rw [run, Matches]
      constructor
      · intro h
        split_ifs at h with hstart
        · rw [List.mem_singleton] at h
          subst h
          exact ⟨rfl, rfl, rfl, hstart⟩
        · cases h
      · rintro ⟨rfl, htaken, hgroups, hstart⟩
        rw [if_pos hstart, htaken, List.nil_append, List.mem_singleton, ← htaken, ← hgroups]
  | lineEnd =>
      rw [run, Matches]
      constructor
      · intro h
        split_ifs at h with hend
        · rw [List.mem_singleton] at h
          subst h
          exact ⟨rfl, rfl, rfl, hend⟩
        · cases h
      · rintro ⟨rfl, htaken, hgroups, hend⟩
        rw [htaken, List.nil_append, if_pos hend, List.mem_singleton, ← htaken, ← hgroups]

/-- A pattern that begins with a text matches only what begins with it. -/
theorem prefix_of_mem_run {items : List α} {r : Regex α} {before : Option α} {rest : List α}
    {f : Found α} (h : f ∈ (seq (text items) r).run before rest) : items <+: rest := by
  obtain ⟨hrest, _, after, _, _, htaken, -, ⟨rfl, -⟩, -⟩ := mem_run.1 h
  rw [hrest, htaken, List.append_assoc]
  exact List.prefix_append _ _

theorem matches_oneOf_iff {texts : List (List α)} (hne : texts ≠ []) {before : Option α}
    {taken rest : List α} {groups : List (List α)} :
    (oneOf texts).Matches before taken groups rest ↔ taken ∈ texts ∧ groups = [] := by
  induction texts with
  | nil => exact absurd rfl hne
  | cons text texts ih =>
      cases texts with
      | nil => rw [oneOf, Matches, List.mem_singleton]
      | cons next texts =>
          have hcons : oneOf (text :: next :: texts) = .alt (.text text) (oneOf (next :: texts)) :=
            rfl
          rw [hcons, Matches, Matches, ih (List.cons_ne_nil _ _), ← or_and_right, ← List.mem_cons]

/-! ## Going through a text -/

/-- A text cut at its matches. -/
inductive Piece (α : Type) where
  | item (item : α)
  | found (found : Found α)

/-- `re.match`. -/
def matchAtStart (r : Regex α) (text : List α) : Option (Found α) := (r.run none text).head?

/-- `re.fullmatch`. -/
def fullMatch (r : Regex α) (text : List α) : Option (Found α) :=
  (r.run none text).find? fun f => f.rest.isEmpty

/-- The match at a place, other than the empty one. -/
def first (r : Regex α) (before : Option α) (rest : List α) : Option (Found α) :=
  (r.run before rest).find? fun f => !f.taken.isEmpty

/-- Go through a text; `skip` items of it belong to a match already found. -/
def scan (r : Regex α) : Nat → Option α → List α → List (Piece α)
  | _, _, [] => []
  | skip + 1, _, item :: rest => scan r skip (some item) rest
  | 0, before, item :: rest =>
      match r.first before (item :: rest) with
      | some f => .found f :: scan r (f.taken.length - 1) (some item) rest
      | none => .item item :: scan r 0 (some item) rest

/-- `re.findall`, with the groups of every match. -/
def findAll (r : Regex α) (text : List α) : List (List (List α)) :=
  (r.scan 0 none text).filterMap fun
    | .item _ => none
    | .found f => some f.groups

/-- What a piece becomes in `re.sub`. -/
def Piece.replaced (replace : List (List α) → List α) : Piece α → List α
  | .item kept => [kept]
  | .found f => replace f.groups

/-- `re.sub`. -/
def sub (r : Regex α) (replace : List (List α) → List α) (text : List α) : List α :=
  (r.scan 0 none text).flatMap (Piece.replaced replace)

/-- `re.subn`: the text and how often the pattern was replaced. -/
def subn (r : Regex α) (replace : List (List α) → List α) (text : List α) : List α × Nat :=
  (r.sub replace text, (r.findAll text).length)

section Scan

variable {r : Regex α} {before : Option α} {rest : List α} {f : Found α}

theorem first_eq_some (h : r.first before rest = some f) :
    rest = f.taken ++ f.rest ∧ r.Matches before f.taken f.groups f.rest ∧ f.taken ≠ [] := by
  obtain ⟨hrest, hmatch⟩ := mem_run.1 (List.mem_of_find?_eq_some h)
  exact ⟨hrest, hmatch, by simpa using List.find?_some h⟩

theorem first_eq_none (h : r.first before rest = none) {taken : List α}
    {groups : List (List α)} {after : List α} (hrest : rest = taken ++ after)
    (hmatch : r.Matches before taken groups after) : taken = [] := by
  have hnone := List.find?_eq_none.1 h ⟨taken, groups, after⟩ (mem_run.2 ⟨hrest, hmatch⟩)
  simpa using hnone

theorem scan_skip (taken rest : List α) (before : Option α) :
    r.scan taken.length before (taken ++ rest) = r.scan 0 (taken.getLast?.or before) rest := by
  induction taken generalizing before with
  | nil => rfl
  | cons item taken ih =>
      rw [List.length_cons, List.cons_append, scan, ih, List.getLast?_cons]
      cases taken.getLast? <;> rfl

theorem scan_found (h : r.first before rest = some f) :
    r.scan 0 before rest = .found f :: r.scan 0 (f.taken.getLast?.or before) f.rest := by
  obtain ⟨hrest, -, hne⟩ := first_eq_some h
  obtain ⟨item, taken, htaken⟩ := List.exists_cons_of_ne_nil hne
  have hcons : rest = item :: (taken ++ f.rest) := by rw [hrest, htaken, List.cons_append]
  rw [hcons] at h
  rw [hcons, scan, h]
  simp only [htaken, List.length_cons, Nat.add_sub_cancel, scan_skip, List.getLast?_cons]
  cases taken.getLast? <;> rfl

theorem scan_item {item : α} (h : r.first before (item :: rest) = none) :
    r.scan 0 before (item :: rest) = .item item :: r.scan 0 (some item) rest := by
  rw [scan, h]

/-- The search comes by every place that no match covers. -/
theorem scan_reaches (left right : List α) (before : Option α) :
    (∃ pieces, r.scan 0 before (left ++ right) =
      pieces ++ r.scan 0 (left.getLast?.or before) right) ∨
    ∃ a b f, left = a ++ b ∧ b ≠ [] ∧ r.first (a.getLast?.or before) (b ++ right) = some f ∧
      b.length < f.taken.length := by
  induction hlength : left.length using Nat.strongRecOn generalizing left before with
  | ind length ih =>
      cases left with
      | nil => exact Or.inl ⟨[], by simp⟩
      | cons item left =>
          cases hfirst : r.first before (item :: (left ++ right)) with
          | none =>
              have hlast : (item :: left).getLast?.or before =
                  left.getLast?.or (some item) := by
                rw [List.getLast?_cons]
                cases left.getLast? <;> rfl
              rw [List.cons_append, scan_item hfirst, hlast]
              rcases ih left.length (by simp [← hlength]) left (some item) rfl with
                ⟨pieces, hpieces⟩ | ⟨a, b, f, rfl, hb, hf, hcovers⟩
              · exact Or.inl ⟨.item item :: pieces, by rw [hpieces, List.cons_append]⟩
              · refine Or.inr ⟨item :: a, b, f, rfl, hb, ?_, hcovers⟩
                rw [List.getLast?_cons]
                cases hlast : a.getLast? with
                | none => simpa [hlast] using hf
                | some last => simpa [hlast] using hf
          | some f =>
              obtain ⟨hrest, -, hne⟩ := first_eq_some hfirst
              by_cases hcovers : (item :: left).length < f.taken.length
              · exact Or.inr ⟨[], item :: left, f, rfl, by simp, hfirst, hcovers⟩
              · rw [List.cons_append, scan_found hfirst]
                have hinitial : f.taken <+: item :: left :=
                  List.prefix_of_prefix_length_le ⟨f.rest, hrest.symm⟩
                    (List.prefix_append (item :: left) right) (Nat.le_of_not_lt hcovers)
                obtain ⟨after, hafter⟩ := hinitial
                have hright : f.rest = after ++ right := by
                  rw [← List.cons_append, ← hafter, List.append_assoc] at hrest
                  exact (List.append_cancel_left hrest).symm
                have hshort : after.length < length := by
                  have hpos := List.length_pos_iff.2 hne
                  rw [← hlength, ← hafter, List.length_append]
                  omega
                rw [hright, ← hafter, List.getLast?_append, Option.or_assoc]
                rcases ih after.length hshort after (f.taken.getLast?.or before) rfl with
                  ⟨pieces, hpieces⟩ | ⟨a, b, g, rfl, hb, hg, hcovers⟩
                · exact Or.inl ⟨.found f :: pieces, by rw [hpieces, List.cons_append]⟩
                · refine Or.inr ⟨f.taken ++ a, b, g, (List.append_assoc _ _ _).symm, hb, ?_, hcovers⟩
                  rwa [List.getLast?_append, Option.or_assoc]

end Scan

/-! ## Patterns of whole lines -/

/-- A pattern of one line: no anchor inside, and no line feed. -/
def Inline : Regex α → Prop
  | .text items => newline ∉ items
  | .chars _ _ isIn => isIn newline = false
  | .seq left right | .alt left right => Inline left ∧ Inline right
  | .group inner => Inline inner
  | .lineStart | .lineEnd => False

omit [DecidableEq α] in
theorem inline_oneOf {texts : List (List α)} (h : ∀ text ∈ texts, newline ∉ text) :
    (oneOf texts).Inline := by
  induction texts with
  | nil => exact List.not_mem_nil
  | cons text texts ih =>
      rw [List.forall_mem_cons] at h
      cases texts with
      | nil => exact h.1
      | cons next texts => exact ⟨h.1, ih h.2⟩

theorem Inline.notMem {r : Regex α} (hr : r.Inline) {before : Option α} {taken rest : List α}
    {groups : List (List α)} (h : r.Matches before taken groups rest) : newline ∉ taken := by
  induction r generalizing before taken rest groups with
  | text items =>
      rw [h.1]
      exact hr
  | chars longest least isIn =>
      intro hmem
      have htrue := h.2.1 _ hmem
      rw [Inline] at hr
      rw [hr] at htrue
      cases htrue
  | seq left right ihLeft ihRight =>
      obtain ⟨a, b, inA, inB, rfl, -, hleft, hright⟩ := h
      rw [List.mem_append]
      exact not_or.2 ⟨ihLeft hr.1 hleft, ihRight hr.2 hright⟩
  | alt left right ihLeft ihRight =>
      rcases h with hleft | hright
      · exact ihLeft hr.1 hleft
      · exact ihRight hr.2 hright
  | group inner ih =>
      obtain ⟨inside, -, h⟩ := h
      exact ih hr h
  | lineStart => exact hr.elim
  | lineEnd => exact hr.elim

/-- Such a pattern does not see what stands around. -/
theorem Inline.around {r : Regex α} (hr : r.Inline) {before before' : Option α}
    {taken rest rest' : List α} {groups : List (List α)}
    (h : r.Matches before taken groups rest) : r.Matches before' taken groups rest' := by
  induction r generalizing before before' taken rest rest' groups with
  | text items => exact h
  | chars longest least isIn => exact h
  | seq left right ihLeft ihRight =>
      obtain ⟨a, b, inA, inB, htaken, hgroups, hleft, hright⟩ := h
      exact ⟨a, b, inA, inB, htaken, hgroups, ihLeft hr.1 hleft, ihRight hr.2 hright⟩
  | alt left right ihLeft ihRight => exact h.imp (ihLeft hr.1) (ihRight hr.2)
  | group inner ih =>
      obtain ⟨inside, hgroups, h⟩ := h
      exact ⟨inside, hgroups, ih hr h⟩
  | lineStart => exact hr.elim
  | lineEnd => exact hr.elim

/-- `^...$`. -/
def line (body : Regex α) : Regex α := .seq .lineStart (.seq body .lineEnd)

theorem matches_line_iff {body : Regex α} {before : Option α} {taken rest : List α}
    {groups : List (List α)} :
    (line body).Matches before taken groups rest ↔
      atStart before = true ∧ body.Matches before taken groups rest ∧ atEnd rest = true := by
  constructor
  · rintro ⟨_, _, _, _, rfl, rfl, ⟨rfl, rfl, hstart⟩, a, b, inA, inB, rfl, rfl, hbody, rfl, rfl, hend⟩
    simp only [List.nil_append, List.append_nil, List.getLast?_nil, Option.none_or] at hbody ⊢
    exact ⟨hstart, hbody, hend⟩
  · rintro ⟨hstart, hbody, hend⟩
    refine ⟨[], taken, [], groups, rfl, rfl, ⟨rfl, rfl, hstart⟩, taken, [], groups, [], ?_⟩
    simpa [Matches, hend] using hbody

/-- What becomes of one line. -/
def rewriteLine (body : Regex α) (replace : List (List α) → List α) (text : List α) : List α :=
  match body.fullMatch text with
  | some f => replace f.groups
  | none => text

section RewriteLine

variable {body : Regex α} {replace : List (List α) → List α} {text : List α}

theorem matches_of_fullMatch {f : Found α} (h : body.fullMatch text = some f) :
    body.Matches none text f.groups [] := by
  obtain ⟨hrest, hmatch⟩ := mem_run.1 (List.mem_of_find?_eq_some h)
  have hend : f.rest = [] := by simpa using List.find?_some h
  rw [hend, List.append_nil] at hrest
  rwa [← hrest, hend] at hmatch

theorem exists_fullMatch {groups : List (List α)} (h : body.Matches none text groups []) :
    ∃ f, body.fullMatch text = some f ∧ body.Matches none text f.groups [] := by
  cases hfull : body.fullMatch text with
  | none =>
      have hnone := List.find?_eq_none.1 hfull ⟨text, groups, []⟩ (mem_run.2 ⟨by simp, h⟩)
      simp at hnone
  | some f => exact ⟨f, rfl, matches_of_fullMatch hfull⟩

theorem rewriteLine_of_matches {groups : List (List α)}
    (hunique : ∀ taken groups groups', body.Matches none taken groups [] →
      body.Matches none taken groups' [] → groups = groups')
    (h : body.Matches none text groups []) : rewriteLine body replace text = replace groups := by
  obtain ⟨f, hfull, hmatch⟩ := exists_fullMatch h
  rw [rewriteLine, hfull]
  exact congrArg replace (hunique _ _ _ hmatch h)

theorem rewriteLine_of_not_matches (h : ∀ groups, ¬body.Matches none text groups []) :
    rewriteLine body replace text = text := by
  cases hfull : body.fullMatch text with
  | none => rw [rewriteLine, hfull]
  | some f => exact absurd (matches_of_fullMatch hfull) (h _)

end RewriteLine

section Lines

variable {body : Regex α} {before : Option α} {text tail : List α}

/-- Two texts that end where their line ends are the same. -/
theorem eq_of_atEnd {taken rest : List α} (h : taken ++ rest = text ++ tail)
    (htaken : newline ∉ taken) (htext : newline ∉ text) (hrest : atEnd rest = true)
    (htail : atEnd tail = true) : taken = text := by
  have hcut : ∀ front back : List α, newline ∉ front → atEnd back = true →
      (front ++ back).takeWhile (fun item => item ≠ newline) = front := by
    intro front back hfront hback
    rw [List.takeWhile_append_of_pos fun item hitem => by
      simpa using ne_of_mem_of_not_mem hitem hfront]
    cases back with
    | nil => rw [List.takeWhile_nil, List.append_nil]
    | cons item back =>
        rw [List.takeWhile_cons_of_neg (by simpa [atEnd] using hback), List.append_nil]
  rw [← hcut taken rest htaken hrest, h, hcut text tail htext htail]

theorem first_line_inside {item : α} (hitem : item ≠ newline) :
    (line body).first (some item) text = none := by
  cases hfirst : (line body).first (some item) text with
  | none => rfl
  | some f =>
      obtain ⟨-, hmatch, -⟩ := first_eq_some hfirst
      have hstart := (matches_line_iff.1 hmatch).1
      exact absurd (by simpa [atStart] using hstart) hitem

theorem scan_inside {item : α} (hitem : item ≠ newline) (htext : newline ∉ text) :
    (line body).scan 0 (some item) (text ++ tail) =
      text.map .item ++ (line body).scan 0 (text.getLast?.or (some item)) tail := by
  induction text generalizing item with
  | nil => rfl
  | cons next text ih =>
      rw [List.mem_cons, not_or] at htext
      rw [List.cons_append, scan_item (first_line_inside hitem),
        ih (Ne.symm htext.1) htext.2, List.map_cons, List.cons_append, List.getLast?_cons]
      cases text.getLast? <;> rfl

variable (hbody : body.Inline)
include hbody

theorem first_line_whole {f : Found α} (htext : newline ∉ text) (htail : atEnd tail = true)
    (h : (line body).first before (text ++ tail) = some f) :
    f.taken = text ∧ f.rest = tail ∧ body.Matches none text f.groups [] := by
  obtain ⟨hrest, hmatch, -⟩ := first_eq_some h
  obtain ⟨-, hmatch, hend⟩ := matches_line_iff.1 hmatch
  have htaken := eq_of_atEnd hrest.symm (hbody.notMem hmatch) htext hend htail
  rw [htaken] at hrest hmatch
  exact ⟨htaken, (List.append_cancel_left hrest).symm, hbody.around hmatch⟩

theorem scan_newline (more : List α) :
    (line body).scan 0 before (newline :: more) =
      .item newline :: (line body).scan 0 (some newline) more := by
  refine scan_item ?_
  cases hfirst : (line body).first before (newline :: more) with
  | none => rfl
  | some f =>
      obtain ⟨hrest, hmatch, hne⟩ := first_eq_some hfirst
      have hnewline := hbody.notMem (matches_line_iff.1 hmatch).2.1
      obtain ⟨item, taken, htaken⟩ := List.exists_cons_of_ne_nil hne
      rw [htaken, List.cons_append] at hrest
      rw [htaken, (List.cons.inj hrest).1] at hnewline
      exact absurd List.mem_cons_self hnewline

theorem scan_matched {groups : List (List α)} (hstart : atStart before = true)
    (htext : newline ∉ text) (htail : atEnd tail = true) (hne : text ≠ [])
    (hmatch : body.Matches none text groups []) :
    ∃ f, body.Matches none text f.groups [] ∧ (line body).scan 0 before (text ++ tail) =
      .found f :: (line body).scan 0 text.getLast? tail := by
  cases hfirst : (line body).first before (text ++ tail) with
  | none =>
      have hline := matches_line_iff.2 ⟨hstart, hbody.around hmatch, htail⟩
      exact absurd (first_eq_none hfirst rfl hline) hne
  | some f =>
      obtain ⟨htaken, hrest, hgroups⟩ := first_line_whole hbody htext htail hfirst
      refine ⟨f, hgroups, ?_⟩
      obtain ⟨last, hlast⟩ := Option.isSome_iff_exists.1 (List.getLast?_isSome.2 hne)
      rw [scan_found hfirst, htaken, hrest, hlast, Option.some_or]

theorem scan_unmatched (htext : newline ∉ text) (htail : atEnd tail = true)
    (hmatch : ∀ groups, ¬body.Matches none text groups []) :
    (line body).scan 0 before (text ++ tail) =
      text.map .item ++ (line body).scan 0 (text.getLast?.or before) tail := by
  cases text with
  | nil => rfl
  | cons item text =>
      have hnone : (line body).first before (item :: (text ++ tail)) = none := by
        cases hfirst : (line body).first before (item :: (text ++ tail)) with
        | none => rfl
        | some f => exact absurd (first_line_whole hbody htext htail hfirst).2.2 (hmatch _)
      rw [List.mem_cons, not_or] at htext
      rw [List.cons_append, scan_item hnone, scan_inside (Ne.symm htext.1) htext.2, List.map_cons,
        List.cons_append, List.getLast?_cons]
      cases text.getLast? <;> rfl

variable (hempty : ∀ groups, ¬body.Matches none [] groups [])
  (hunique : ∀ taken groups groups', body.Matches none taken groups [] →
    body.Matches none taken groups' [] → groups = groups')
include hempty hunique

/-- One line of a text, and what follows it. -/
theorem sub_one (replace : List (List α) → List α) (hstart : atStart before = true)
    (htext : newline ∉ text) (htail : atEnd tail = true) :
    ((line body).scan 0 before (text ++ tail)).flatMap (Piece.replaced replace) =
      rewriteLine body replace text ++
        ((line body).scan 0 (text.getLast?.or before) tail).flatMap (Piece.replaced replace) := by
  by_cases hmatch : ∃ groups, body.Matches none text groups []
  · obtain ⟨groups, hmatch⟩ := hmatch
    have hne : text ≠ [] := by
      rintro rfl
      exact hempty _ hmatch
    obtain ⟨f, hf, hscan⟩ := scan_matched hbody hstart htext htail hne hmatch
    obtain ⟨last, hlast⟩ := Option.isSome_iff_exists.1 (List.getLast?_isSome.2 hne)
    rw [hscan, List.flatMap_cons, Piece.replaced, hunique _ _ _ hf hmatch,
      rewriteLine_of_matches hunique hmatch, hlast, Option.some_or]
  · have hkept : (text.map Piece.item).flatMap (Piece.replaced replace) = text := by
      rw [List.flatMap_map]
      exact List.flatMap_singleton' text
    rw [not_exists] at hmatch
    rw [scan_unmatched hbody htext htail hmatch, List.flatMap_append, hkept,
      rewriteLine_of_not_matches hmatch]

/-- `sub` of a pattern of whole lines works on each line. -/
theorem sub_line (replace : List (List α) → List α) (text : List α) :
    (line body).sub replace text =
      [newline].intercalate ((text.splitOn newline).map (rewriteLine body replace)) := by
  have hlines : ∀ lines : List (List α), lines ≠ [] → (∀ text ∈ lines, newline ∉ text) →
      ∀ before, atStart before = true →
      ((line body).scan 0 before ([newline].intercalate lines)).flatMap (Piece.replaced replace) =
        [newline].intercalate (lines.map (rewriteLine body replace)) := by
    intro lines hne hnewline
    induction lines with
    | nil => exact absurd rfl hne
    | cons text lines ih =>
        intro before hstart
        rw [List.forall_mem_cons] at hnewline
        cases lines with
        | nil =>
            have hend : atEnd ([] : List α) = true := rfl
            have hone := sub_one hbody hempty hunique replace hstart hnewline.1 hend
            rw [List.append_nil] at hone
            rw [List.intercalate_singleton, List.map_singleton, List.intercalate_singleton, hone]
            simp [scan]
        | cons next lines =>
            rw [List.intercalate_cons_cons, List.map_cons, List.map_cons,
              List.intercalate_cons_cons, List.append_assoc, List.append_assoc,
              List.singleton_append, List.singleton_append,
              sub_one hbody hempty hunique replace hstart hnewline.1 (by simp [atEnd]),
              scan_newline hbody, List.flatMap_cons, ih (by simp) hnewline.2 _ (by simp [atStart])]
            rfl
  have htext := hlines (text.splitOn newline) (List.splitOn_ne_nil _ _)
    (fun piece hpiece => notMem_of_mem_splitOn hpiece) none rfl
  rwa [List.intercalate_splitOn] at htext

end Lines

end Regex

end CkbSail.PythonStd
