import Mathlib.Data.List.Forall2
import Mathlib.Data.List.Induction

/-!
# Records ended by a terminator

A list is cut after each of its terminators; what follows the last one is left
over.  A reader that starts afresh after each terminator returns one record for
each block, and each record depends on its own block alone.
-/

namespace CkbSail.ProofSupport

/-- The blocks of a list and what follows the last of them. -/
structure Cut (α : Type) where
  blocks : List (List α)
  rest : List α

section Cut

variable {α : Type} (isEnd : α → Bool)

def Cut.push (cut : Cut α) (item : α) : Cut α :=
  if isEnd item then ⟨cut.blocks ++ [cut.rest ++ [item]], []⟩
  else ⟨cut.blocks, cut.rest ++ [item]⟩

/-- Cut a list after each of its terminators. -/
def cutAfter (items : List α) : Cut α := items.foldl (Cut.push isEnd) ⟨[], []⟩

@[simp] theorem cutAfter_nil : cutAfter isEnd [] = ⟨[], []⟩ := rfl

theorem cutAfter_snoc (items : List α) (item : α) :
    cutAfter isEnd (items ++ [item]) = (cutAfter isEnd items).push isEnd item := by
  rw [cutAfter, List.foldl_append]
  rfl

/-- A block whose last item is its only terminator. -/
def Terminated (block : List α) : Prop :=
  ∃ items last, block = items ++ [last] ∧ isEnd last = true ∧ ∀ item ∈ items, isEnd item = false

/-- The blocks and the rest are the list itself, cut after its terminators and
nowhere else. -/
theorem cutAfter_spec (items : List α) :
    (cutAfter isEnd items).blocks.flatten ++ (cutAfter isEnd items).rest = items ∧
      (∀ block ∈ (cutAfter isEnd items).blocks, Terminated isEnd block) ∧
      ∀ item ∈ (cutAfter isEnd items).rest, isEnd item = false := by
  induction items using List.reverseRecOn with
  | nil => simp
  | append_singleton items item ih =>
      obtain ⟨hflatten, hblocks, hrest⟩ := ih
      rw [cutAfter_snoc, Cut.push]
      split_ifs with hend
      · refine ⟨?_, ?_, by simp⟩
        · rw [List.flatten_append, List.flatten_singleton, List.append_nil, ← List.append_assoc,
            hflatten]
        · intro block hblock
          rcases List.mem_append.1 hblock with hmem | hlast
          · exact hblocks block hmem
          · rw [List.mem_singleton.1 hlast]
            exact ⟨_, _, rfl, hend, hrest⟩
      · refine ⟨?_, hblocks, ?_⟩
        · rw [← List.append_assoc, hflatten]
        · intro other hmem
          rcases List.mem_append.1 hmem with hmem | hlast
          · exact hrest other hmem
          · rw [List.mem_singleton.1 hlast]
            exact Bool.eq_false_iff.2 hend

end Cut

/-! ## Runs -/

theorem foldlM_snoc {α σ ε : Type} (step : σ → α → Except ε σ) (items : List α) (item : α)
    (state : σ) :
    (items ++ [item]).foldlM step state =
      (items.foldlM step state).bind fun reached => step reached item := by
  rw [List.foldlM_append]
  simp only [List.foldlM_cons, List.foldlM_nil, bind_pure]
  rfl

/-- A run fails at the first item whose step fails. -/
theorem foldlM_eq_error {α σ ε : Type} {step : σ → α → Except ε σ} {items : List α} {state : σ}
    {error : ε} :
    items.foldlM step state = .error error ↔
      ∃ before item after reached, items = before ++ item :: after ∧
        before.foldlM step state = .ok reached ∧ step reached item = .error error := by
  induction items generalizing state with
  | nil =>
      constructor
      · intro h
        cases h
      · rintro ⟨before, item, after, reached, hitems, -⟩
        exact absurd hitems (by simp)
  | cons first items ih =>
      rw [List.foldlM_cons]
      cases hfirst : step state first with
      | error e =>
          constructor
          · rintro h
            exact ⟨[], first, items, state, rfl, rfl, hfirst.trans h⟩
          · rintro ⟨before, item, after, reached, hitems, hreached, hitem⟩
            cases before with
            | nil =>
                obtain ⟨rfl, rfl⟩ := List.cons.inj hitems
                obtain rfl : state = reached := Except.ok.inj hreached
                exact hfirst.symm.trans hitem
            | cons b before =>
                obtain ⟨rfl, rfl⟩ := List.cons.inj hitems
                rw [List.foldlM_cons, hfirst] at hreached
                cases hreached
      | ok next =>
          refine ih.trans ⟨?_, ?_⟩
          · rintro ⟨before, item, after, reached, rfl, hreached, hitem⟩
            refine ⟨first :: before, item, after, reached, rfl, ?_, hitem⟩
            rw [List.foldlM_cons, hfirst]
            exact hreached
          · rintro ⟨before, item, after, reached, hitems, hreached, hitem⟩
            cases before with
            | nil =>
                obtain ⟨rfl, rfl⟩ := List.cons.inj hitems
                obtain rfl : state = reached := Except.ok.inj hreached
                rw [hfirst] at hitem
                cases hitem
            | cons b before =>
                obtain ⟨rfl, rfl⟩ := List.cons.inj hitems
                rw [List.foldlM_cons, hfirst] at hreached
                exact ⟨before, item, after, reached, rfl, hreached, hitem⟩

/-! ## Readers -/

/-- A reader of records: it takes in one item after the other and makes a record
at each terminator. -/
structure Reader (α σ β ε : Type) where
  isEnd : α → Bool
  initial : σ
  accept : σ → α → Except ε σ
  finish : σ → Except ε β

namespace Reader

variable {α σ β ε : Type} (reader : Reader α σ β ε)

/-- Take in one item; after a terminator the reader starts afresh. -/
def step (state : List β × σ) (item : α) : Except ε (List β × σ) :=
  (reader.accept state.2 item).bind fun current =>
    if reader.isEnd item then
      (reader.finish current).map fun record => (state.1 ++ [record], reader.initial)
    else .ok (state.1, current)

/-- The state after some items of one record. -/
def taken (items : List α) : Except ε σ := items.foldlM reader.accept reader.initial

/-- The record of a block. -/
def record (block : List α) : Except ε β := (reader.taken block).bind reader.finish

/-- The records and the state after some items: one record for each block, made of
that block alone, and the items of the rest. -/
structure Has (items : List α) (state : List β × σ) : Prop where
  records : List.Forall₂ (fun block record => reader.record block = .ok record)
    (cutAfter reader.isEnd items).blocks state.1
  rest : reader.taken (cutAfter reader.isEnd items).rest = .ok state.2

theorem has_nil : reader.Has [] ([], reader.initial) := ⟨.nil, rfl⟩

theorem taken_snoc (items : List α) (item : α) :
    reader.taken (items ++ [item]) =
      (reader.taken items).bind fun state => reader.accept state item :=
  foldlM_snoc reader.accept items item reader.initial

/-- One item keeps the correspondence. -/
theorem Has.step {items : List α} {item : α} {state next : List β × σ}
    (h : reader.Has items state) (hstep : reader.step state item = .ok next) :
    reader.Has (items ++ [item]) next := by
  obtain ⟨records, current⟩ := state
  unfold Reader.step at hstep
  cases haccept : reader.accept current item with
  | error e => simp [haccept, Except.bind] at hstep
  | ok taken =>
      have htaken : reader.taken ((cutAfter reader.isEnd items).rest ++ [item]) = .ok taken := by
        rw [taken_snoc, h.rest]
        exact haccept
      simp only [haccept, Except.bind] at hstep
      cases hend : reader.isEnd item with
      | false =>
          obtain rfl : (records, taken) = next := by simpa [hend] using hstep
          constructor
          · simpa [cutAfter_snoc, Cut.push, hend] using h.records
          · simpa [cutAfter_snoc, Cut.push, hend] using htaken
      | true =>
          cases hfinish : reader.finish taken with
          | error e => simp [hend, hfinish, Except.map] at hstep
          | ok record =>
              obtain rfl : (records ++ [record], reader.initial) = next := by
                simpa [hend, hfinish, Except.map] using hstep
              have hrecord : reader.record ((cutAfter reader.isEnd items).rest ++ [item]) =
                  .ok record := by
                rw [Reader.record, htaken]
                exact hfinish
              constructor
              · rw [cutAfter_snoc, Cut.push, if_pos hend]
                exact List.rel_append h.records (.cons hrecord .nil)
              · rw [cutAfter_snoc, Cut.push, if_pos hend]
                rfl

/-- A block is read to its record from whatever records came before. -/
theorem foldlM_step_block {block : List α} (hblock : Terminated reader.isEnd block)
    {record : β} (hrecord : reader.record block = .ok record) (records : List β) :
    block.foldlM reader.step (records, reader.initial) =
      .ok (records ++ [record], reader.initial) := by
  obtain ⟨items, last, rfl, hlast, hitems⟩ := hblock
  have hopen : ∀ current, items.foldlM reader.step (records, current) =
      (items.foldlM reader.accept current).map fun taken => (records, taken) := by
    clear hrecord
    induction items with
    | nil => exact fun current => rfl
    | cons item items ih =>
        intro current
        rw [List.foldlM_cons, List.foldlM_cons, Reader.step]
        simp only [hitems item List.mem_cons_self]
        cases reader.accept current item with
        | error e => rfl
        | ok taken => exact ih (fun other hmem => hitems other (List.mem_cons_of_mem _ hmem)) taken
  rw [Reader.record, taken_snoc] at hrecord
  rw [List.foldlM_append, hopen]
  change ((reader.taken items).map _).bind _ = _
  cases htaken : reader.taken items with
  | error e => simp [htaken, Except.bind] at hrecord
  | ok current =>
      simp only [htaken, Except.bind] at hrecord
      simp only [Except.map, Except.bind, List.foldlM_cons, List.foldlM_nil, Reader.step]
      cases haccept : reader.accept current last with
      | error e => simp [haccept] at hrecord
      | ok taken =>
          simp only [haccept] at hrecord
          simp [hlast, hrecord, bind, Except.bind, pure, Except.pure]

/-- Blocks are read to their records, one after the other. -/
theorem foldlM_step_blocks {blocks : List (List α)} {found : List β}
    (hblocks : ∀ block ∈ blocks, Terminated reader.isEnd block)
    (hfound : List.Forall₂ (fun block record => reader.record block = .ok record) blocks found)
    (records : List β) :
    blocks.flatten.foldlM reader.step (records, reader.initial) =
      .ok (records ++ found, reader.initial) := by
  induction hfound generalizing records with
  | nil => simp [pure, Except.pure]
  | @cons block record blocks found hrecord _ ih =>
      have hblock := reader.foldlM_step_block (hblocks block List.mem_cons_self) hrecord records
      rw [List.flatten_cons, List.foldlM_append, hblock]
      refine (ih (fun other hmem => hblocks other (List.mem_cons_of_mem _ hmem)) _).trans ?_
      rw [List.append_assoc]
      rfl

end Reader

end CkbSail.ProofSupport
