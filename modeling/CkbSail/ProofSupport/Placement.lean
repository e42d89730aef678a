import Mathlib.Data.List.Basic
import Mathlib.Logic.Function.Basic

/-!
# Placing files one after the other

A tree gives the node of each place.  Placing a file makes the directories it
needs and then the file.  Files that are placed in turn are all placed exactly
when each could be placed at the start and no two are in each other's way.
-/

namespace CkbSail.ProofSupport

variable {α ν : Type} (directory : ν) {tree tree' tree'' : α → Option ν} {places : List α}

/-! ## Making directories -/

/-- Nothing but directories stands at the places. -/
def Open (tree : α → Option ν) (places : List α) : Prop :=
  ∀ place ∈ places, tree place = none ∨ tree place = some directory

/-- A tree to which at most directories have been added. -/
def Grown (tree tree' : α → Option ν) : Prop :=
  ∀ place, tree' place = tree place ∨ (tree place = none ∧ tree' place = some directory)

/-- What stands stays. -/
def Stays (tree tree' : α → Option ν) : Prop :=
  ∀ place, tree place ≠ none → tree' place = tree place

variable {directory}

theorem Grown.refl (tree : α → Option ν) : Grown directory tree tree := fun _ => Or.inl rfl

theorem Grown.trans (h : Grown directory tree tree') (h' : Grown directory tree' tree'') :
    Grown directory tree tree'' := by
  intro place
  rcases h' place with hsame' | ⟨hfree', hnew'⟩
  · rw [hsame']
    exact h place
  · rcases h place with hsame | ⟨-, hnew⟩
    · exact Or.inr ⟨hsame ▸ hfree', hnew'⟩
    · rw [hfree'] at hnew
      cases hnew

theorem Grown.stays (h : Grown directory tree tree') : Stays tree tree' := by
  intro place hplace
  rcases h place with hsame | ⟨hnone, -⟩
  · exact hsame
  · exact absurd hnone hplace

theorem Stays.trans (h : Stays tree tree') (h' : Stays tree' tree'') : Stays tree tree'' :=
  fun place hplace => (h' place (by rwa [h place hplace])).trans (h place hplace)

section Made

variable [DecidableEq α]

/-- The tree with a directory at each of the places. -/
def made (directory : ν) (tree : α → Option ν) (places : List α) : α → Option ν := fun place =>
  if place ∈ places then some directory else tree place

theorem made_of_mem {place : α} (h : place ∈ places) :
    made directory tree places place = some directory :=
  if_pos h

theorem made_of_not_mem {place : α} (h : place ∉ places) :
    made directory tree places place = tree place :=
  if_neg h

theorem made_eq_self (h : ∀ place ∈ places, tree place = some directory) :
    made directory tree places = tree := by
  funext place
  by_cases hplace : place ∈ places
  · rw [made_of_mem hplace, h place hplace]
  · exact made_of_not_mem hplace

theorem Grown.of_made (h : Open directory tree places) :
    Grown directory tree (made directory tree places) := by
  intro place
  by_cases hplace : place ∈ places
  · rw [made_of_mem hplace]
    rcases h place hplace with hnone | hdirectory
    · exact Or.inr ⟨hnone, rfl⟩
    · exact Or.inl hdirectory.symm
  · exact Or.inl (made_of_not_mem hplace)

end Made

/-! ## Placing a file -/

/-- A file to place: the directories it needs, its own place and node, and whether it
can be written at all.  Of a file that is not `whole` the placing only begins. -/
structure Placement (α ν : Type) where
  above : List α
  spot : α
  node : ν
  writable : Bool
  whole : Bool

namespace Placement

/-- The file can be placed. -/
structure Free (directory : ν) (tree : α → Option ν) (file : Placement α ν) : Prop where
  writable : file.writable = true
  outside : file.spot ∉ file.above
  opened : Open directory tree file.above
  absent : tree file.spot = none

/-- What is free for a file is free for a part of it. -/
theorem Free.part {file : Placement α ν} {part : ν} (h : Free directory tree file) :
    Free directory tree { file with node := part } :=
  ⟨h.writable, h.outside, h.opened, h.absent⟩

def written [DecidableEq α] (directory : ν) (tree : α → Option ν) (file : Placement α ν) :
    α → Option ν :=
  Function.update (made directory tree file.above) file.spot (some file.node)

/-- Neither file is in the way of the other. -/
structure Apart (file other : Placement α ν) : Prop where
  below : file.spot ∉ other.above
  above : other.spot ∉ file.above
  distinct : file.spot ≠ other.spot

variable [DecidableEq α] {file other : Placement α ν} {place : α}

@[simp] theorem written_spot : written directory tree file file.spot = some file.node :=
  Function.update_self ..

theorem written_of_ne (h : place ≠ file.spot) :
    written directory tree file place = made directory tree file.above place :=
  Function.update_of_ne h ..

theorem Free.stays (h : Free directory tree file) : Stays tree (written directory tree file) := by
  intro place hplace
  have hne : place ≠ file.spot := by
    rintro rfl
    exact hplace h.absent
  rw [written_of_ne hne]
  exact (Grown.of_made h.opened).stays place hplace

theorem open_written (h : Free directory tree file) (hnode : file.node ≠ directory) :
    Open directory (written directory tree file) places ↔
      Open directory tree places ∧ file.spot ∉ places := by
  constructor
  · intro hopen
    have hspot : file.spot ∉ places := by
      intro hmem
      rcases hopen _ hmem with hnone | hdirectory
      · rw [written_spot] at hnone
        cases hnone
      · rw [written_spot] at hdirectory
        exact hnode (Option.some.inj hdirectory)
    refine ⟨fun place hplace => ?_, hspot⟩
    by_cases habove : place ∈ file.above
    · exact h.opened place habove
    · have hsame := hopen place hplace
      rwa [written_of_ne (fun heq => hspot (heq ▸ hplace)), made_of_not_mem habove] at hsame
  · rintro ⟨hopen, hspot⟩ place hplace
    rw [written_of_ne (fun heq => hspot (heq ▸ hplace))]
    by_cases habove : place ∈ file.above
    · exact Or.inr (made_of_mem habove)
    · rw [made_of_not_mem habove]
      exact hopen place hplace

theorem written_eq_none :
    written directory tree file place = none ↔
      tree place = none ∧ place ∉ file.above ∧ file.spot ≠ place := by
  by_cases hspot : place = file.spot
  · rw [hspot, written_spot]
    simp
  · rw [written_of_ne hspot]
    by_cases habove : place ∈ file.above
    · simp [made_of_mem habove, habove]
    · simp [made_of_not_mem habove, habove, Ne.symm hspot]

/-- A placed file leaves free what is apart from it. -/
theorem free_written (h : Free directory tree file) (hnode : file.node ≠ directory) :
    Free directory (written directory tree file) other ↔
      Free directory tree other ∧ Apart file other := by
  constructor
  · intro hother
    obtain ⟨hopen, hbelow⟩ := (open_written h hnode).1 hother.opened
    obtain ⟨habsent, habove, hdistinct⟩ := written_eq_none.1 hother.absent
    exact ⟨⟨hother.writable, hother.outside, hopen, habsent⟩, ⟨hbelow, habove, hdistinct⟩⟩
  · rintro ⟨hother, hapart⟩
    exact ⟨hother.writable, hother.outside, (open_written h hnode).2 ⟨hother.opened, hapart.below⟩,
      written_eq_none.2 ⟨hother.absent, hapart.above, hapart.distinct⟩⟩

end Placement

/-! ## Placing files in turn -/

section Turns

open Placement

variable {file : Placement α ν} {files : List (Placement α ν)}

/-- Each file can be placed, and none is in the way of another. -/
def AllFree (directory : ν) (tree : α → Option ν) (files : List (Placement α ν)) : Prop :=
  (∀ file ∈ files, Free directory tree file) ∧ files.Pairwise Apart

theorem allFree_nil : AllFree directory tree ([] : List (Placement α ν)) :=
  ⟨fun _ hfile => absurd hfile List.not_mem_nil, .nil⟩

variable [DecidableEq α]

def writtenAll (directory : ν) (tree : α → Option ν) (files : List (Placement α ν)) :
    α → Option ν :=
  files.foldl (written directory) tree

theorem allFree_cons (hnode : file.node ≠ directory) :
    AllFree directory tree (file :: files) ↔
      Free directory tree file ∧ AllFree directory (written directory tree file) files := by
  constructor
  · rintro ⟨hfree, hapart⟩
    have hfile := hfree file List.mem_cons_self
    obtain ⟨hhead, htail⟩ := List.pairwise_cons.1 hapart
    exact ⟨hfile, fun other hother => (free_written hfile hnode).2
      ⟨hfree other (List.mem_cons_of_mem _ hother), hhead other hother⟩, htail⟩
  · rintro ⟨hfile, hfree, hapart⟩
    have hboth := fun other hother => (free_written hfile hnode).1 (hfree other hother)
    refine ⟨fun other hother => ?_, List.pairwise_cons.2 ⟨fun other hother =>
      (hboth other hother).2, hapart⟩⟩
    rcases List.mem_cons.1 hother with rfl | hother
    · exact hfile
    · exact (hboth other hother).1

/-- How placing files in turn ends: with all of them, or at the first that cannot be
placed, with some of its directories made, or that is not whole, with a part of it at
its place. -/
inductive Outcome (directory : ν) : (α → Option ν) → List (Placement α ν) → Bool →
    (α → Option ν) → Prop
  | done {tree : α → Option ν} : Outcome directory tree [] true tree
  | next {tree tree' : α → Option ν} {file : Placement α ν} {files : List (Placement α ν)}
      {finished : Bool} (hfree : Free directory tree file) (hwhole : file.whole = true)
      (hrest : Outcome directory (written directory tree file) files finished tree') :
      Outcome directory tree (file :: files) finished tree'
  | stop {tree tree' : α → Option ν} {file : Placement α ν} {files : List (Placement α ν)}
      (hfree : ¬Free directory tree file) (hgrown : Grown directory tree tree') :
      Outcome directory tree (file :: files) false tree'
  | broken {tree : α → Option ν} {file : Placement α ν} {files : List (Placement α ν)} {part : ν}
      (hfree : Free directory tree file) (hwhole : file.whole = false)
      (hpart : part ≠ directory) :
      Outcome directory tree (file :: files) false
        ({ file with node := part }.written directory tree)

namespace Outcome

variable {finished : Bool}

theorem stays (h : Outcome directory tree files finished tree') : Stays tree tree' := by
  induction h with
  | done => exact fun _ _ => rfl
  | next hfree _ _ ih => exact hfree.stays.trans ih
  | stop _ hgrown => exact hgrown.stays
  | broken hfree _ _ => exact hfree.part.stays

/-- All files are placed exactly when they are free, apart and whole. -/
theorem finished_iff (h : Outcome directory tree files finished tree')
    (hnodes : ∀ file ∈ files, file.node ≠ directory) :
    finished = true ↔ AllFree directory tree files ∧ ∀ file ∈ files, file.whole = true := by
  induction h with
  | done => simp [allFree_nil]
  | next hfree hwhole _ ih =>
      obtain ⟨hnode, hnodes⟩ := List.forall_mem_cons.1 hnodes
      rw [ih hnodes, allFree_cons hnode, List.forall_mem_cons]
      exact ⟨fun hrest => ⟨⟨hfree, hrest.1⟩, hwhole, hrest.2⟩, fun hall =>
        ⟨hall.1.2, hall.2.2⟩⟩
  | stop hfree _ =>
      refine ⟨fun hfinished => absurd hfinished Bool.false_ne_true, fun hall => ?_⟩
      exact absurd (hall.1.1 _ List.mem_cons_self) hfree
  | broken _ hwhole _ =>
      refine ⟨fun hfinished => absurd hfinished Bool.false_ne_true, fun hall => ?_⟩
      have htrue := hall.2 _ List.mem_cons_self
      rw [hwhole] at htrue
      exact htrue

theorem eq_writtenAll (h : Outcome directory tree files true tree') :
    tree' = writtenAll directory tree files := by
  generalize hfinished : true = finished at h
  induction h with
  | done => rfl
  | next _ _ _ ih => exact ih hfinished
  | stop => cases hfinished
  | broken => cases hfinished

/-- If not all files are placed, then only directories are new or something is at the
place of the first file, which is no directory. -/
theorem grown_or_placed (h : Outcome directory tree (file :: files) false tree')
    (hnode : file.node ≠ directory) :
    (¬Free directory tree file ∧ Grown directory tree tree') ∨
      (Free directory tree file ∧ ∃ node, node ≠ directory ∧ tree' file.spot = some node) := by
  cases h with
  | next hfree _ hrest =>
      refine Or.inr ⟨hfree, _, hnode, ?_⟩
      rw [hrest.stays file.spot (by rw [written_spot]; exact Option.some_ne_none _), written_spot]
  | stop hfree hgrown => exact Or.inl ⟨hfree, hgrown⟩
  | @broken _ _ _ part hfree _ hpart =>
      exact Or.inr ⟨hfree, part, hpart, @written_spot _ _ directory tree _ { file with node := part }⟩

end Outcome

/-! ## The tree with all files -/

theorem writtenAll_stays (h : AllFree directory tree files)
    (hnodes : ∀ file ∈ files, file.node ≠ directory) :
    Stays tree (writtenAll directory tree files) := by
  induction files generalizing tree with
  | nil => exact fun _ _ => rfl
  | cons file files ih =>
      obtain ⟨hnode, hnodes⟩ := List.forall_mem_cons.1 hnodes
      obtain ⟨hfile, hrest⟩ := (allFree_cons hnode).1 h
      exact hfile.stays.trans (ih hrest hnodes)

/-- Every file is at its place. -/
theorem writtenAll_spot (h : AllFree directory tree files)
    (hnodes : ∀ file ∈ files, file.node ≠ directory) (hfile : file ∈ files) :
    writtenAll directory tree files file.spot = some file.node := by
  induction files generalizing tree with
  | nil => cases hfile
  | cons first files ih =>
      obtain ⟨hfirst, hothers⟩ := List.forall_mem_cons.1 hnodes
      obtain ⟨-, hrest⟩ := (allFree_cons hfirst).1 h
      rcases List.mem_cons.1 hfile with rfl | hfile
      · have hstays := writtenAll_stays hrest hothers file.spot
        rw [written_spot] at hstays
        exact hstays (Option.some_ne_none _)
      · exact ih hrest hothers hfile

/-- Elsewhere there are at most new directories on the way to the files. -/
theorem writtenAll_elsewhere {place : α} (hplace : ∀ file ∈ files, place ≠ file.spot) :
    writtenAll directory tree files place = tree place ∨
      (writtenAll directory tree files place = some directory ∧
        ∃ file ∈ files, place ∈ file.above) := by
  induction files generalizing tree with
  | nil => exact Or.inl rfl
  | cons file files ih =>
      obtain ⟨hne, hplace⟩ := List.forall_mem_cons.1 hplace
      rcases @ih (written directory tree file) hplace with hsame | ⟨hnew, other, hother⟩
      · by_cases habove : place ∈ file.above
        · refine Or.inr ⟨?_, file, List.mem_cons_self, habove⟩
          rw [writtenAll, List.foldl_cons]
          exact hsame.trans ((written_of_ne hne).trans (made_of_mem habove))
        · refine Or.inl ?_
          rw [writtenAll, List.foldl_cons]
          exact hsame.trans ((written_of_ne hne).trans (made_of_not_mem habove))
      · exact Or.inr ⟨hnew, other, List.mem_cons_of_mem _ hother.1, hother.2⟩

end Turns

end CkbSail.ProofSupport
