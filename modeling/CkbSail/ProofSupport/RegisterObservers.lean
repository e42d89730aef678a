import Mathlib.Data.List.Nodup
import Mathlib.Logic.Function.Basic

/-!
# Two observers of one register file

A register file is a function from register names to values, of which only the
`visible` registers are architectural.  A *state* observer sees the file before
and after a step and reports the changed registers (`delta`).  A *write*
observer sees the write the step performed and keeps a shadow file, from which
it reports the write only when it changes something (`observe`).

The two report the same list from files that agree, and files whose reported
lists coincide keep agreeing: equality of the observations is exactly agreement
of the visible state, step by step.
-/

namespace CkbSail.ProofSupport.RegisterObservers

variable {ι α : Type}

/-- Agreement of two files on the visible registers. -/
def Agree (visible : List ι) (f g : ι → α) : Prop := ∀ i ∈ visible, f i = g i

/-- What a state observer reports: the visible registers that changed. -/
def delta [DecidableEq α] (visible : List ι) (before after : ι → α) : List (ι × α) :=
  visible.filterMap fun i => if before i = after i then none else some (i, after i)

/-- The effect of a reported write on the visible file. -/
def write [DecidableEq ι] (visible : List ι) (file : ι → α) (i : ι) (value : α) : ι → α :=
  if i ∈ visible then Function.update file i value else file

/-- What a write observer reports from its shadow file. -/
def observe [DecidableEq ι] [DecidableEq α] (visible : List ι) (file : ι → α) (i : ι)
    (value : α) : List (ι × α) :=
  if i ∈ visible ∧ file i ≠ value then [(i, value)] else []

variable {visible : List ι} {before after before' after' file : ι → α}

@[refl] theorem Agree.refl (f : ι → α) : Agree visible f f := fun _ _ => rfl

theorem Agree.symm {f g : ι → α} (h : Agree visible f g) : Agree visible g f :=
  fun i hi => (h i hi).symm

theorem Agree.trans {f g k : ι → α} (hfg : Agree visible f g) (hgk : Agree visible g k) :
    Agree visible f k := fun i hi => (hfg i hi).trans (hgk i hi)

section StateObserver

variable [DecidableEq α]

theorem mem_delta {i : ι} {value : α} :
    (i, value) ∈ delta visible before after ↔
      i ∈ visible ∧ before i ≠ after i ∧ after i = value := by
  simp only [delta, List.mem_filterMap]
  constructor
  · rintro ⟨j, hj, h⟩
    split at h
    · simp at h
    · obtain ⟨rfl, rfl⟩ : j = i ∧ after j = value := by simpa using h
      exact ⟨hj, by assumption, rfl⟩
  · rintro ⟨hi, hne, rfl⟩
    exact ⟨i, hi, by simp [hne]⟩

theorem delta_congr (hb : Agree visible before before') (ha : Agree visible after after') :
    delta visible before after = delta visible before' after' := by
  apply List.filterMap_congr
  intro i hi
  rw [hb i hi, ha i hi]

/-- Files that agreed and produced the same report agree again. -/
theorem agree_of_delta_eq (hb : Agree visible before before')
    (h : delta visible before after = delta visible before' after') :
    Agree visible after after' := by
  intro i hi
  by_cases hc : before i = after i
  · by_cases hc' : before' i = after' i
    · rw [← hc, ← hc', hb i hi]
    · have hmem : (i, after' i) ∈ delta visible before after :=
        h ▸ mem_delta.2 ⟨hi, hc', rfl⟩
      exact (mem_delta.1 hmem).2.2
  · have hmem : (i, after i) ∈ delta visible before' after' :=
      h ▸ mem_delta.2 ⟨hi, hc, rfl⟩
    exact (mem_delta.1 hmem).2.2.symm

theorem delta_self (visible : List ι) (f : ι → α) : delta visible f f = [] := by
  simp [delta]

/-- The registers a state observer reports come in the order of `visible`. -/
theorem delta_names_sublist (before after : ι → α) :
    ((delta visible before after).map Prod.fst).Sublist visible := by
  induction visible with
  | nil => exact .slnil
  | cons i visible ih =>
      simp only [delta, List.filterMap_cons] at ih ⊢
      by_cases h : before i = after i
      · rw [if_pos h]
        exact ih.cons i
      · rw [if_neg h]
        exact ih.cons_cons i

end StateObserver

section WriteObserver

variable [DecidableEq ι]

theorem write_apply (i j : ι) (value : α) :
    write visible file i value j = if i ∈ visible ∧ j = i then value else file j := by
  unfold write
  by_cases hi : i ∈ visible
  · simp [hi, Function.update_apply]
  · simp [hi]

/-- A reported write is exactly the change it makes to the shadow file. -/
theorem delta_write [DecidableEq α] (hnodup : visible.Nodup) (i : ι) (value : α) :
    delta visible file (write visible file i value) = observe visible file i value := by
  unfold observe
  split_ifs with h
  · obtain ⟨hi, hne⟩ := h
    obtain ⟨pre, post, rfl⟩ := List.append_of_mem hi
    rw [List.nodup_middle, List.nodup_cons] at hnodup
    have hoff : ∀ l : List ι, i ∉ l →
        l.filterMap (fun j => if file j = write (pre ++ i :: post) file i value j then none
          else some (j, write (pre ++ i :: post) file i value j)) = [] := by
      intro l hl
      rw [List.filterMap_eq_nil_iff]
      intro j hj
      have hji : j ≠ i := fun heq => hl (heq ▸ hj)
      simp [write_apply, hji]
    have hnot := hnodup.1
    rw [List.mem_append, not_or] at hnot
    rw [delta, List.filterMap_append, List.filterMap_cons, hoff pre hnot.1, hoff post hnot.2]
    simp [write_apply, hne]
  · rw [← delta_self visible file]
    refine delta_congr (Agree.refl file) fun j hj => ?_
    rw [write_apply]
    split_ifs with hij
    · obtain ⟨hi, rfl⟩ := hij
      exact (by simpa [hi] using h : file j = value).symm
    · rfl

end WriteObserver

end CkbSail.ProofSupport.RegisterObservers
