import CkbSail.Scripts.ReleaseCommon

/-!
# What a safe name is

An accepted name is `.`, or the path of its components, none of which is empty,
`.` or `..`.
-/

namespace CkbSail.Scripts.ReleaseCommon

open PythonStd ProofSupport

/-- A name of ordinary components. -/
structure SafeName (name : String) : Prop where
  characters : ∀ c ∈ name.toList, c ∉ FORBIDDEN
  components : ∀ part ∈ split name, part ∉ ["", ".", ".."]

variable {name : String}

theorem SafeName.parts_eq (h : SafeName name) : parts name = split name := by
  refine List.filter_eq_self.2 fun part hpart => ?_
  have hcomponent := h.components part hpart
  simp only [List.mem_cons, List.not_mem_nil, or_false, not_or] at hcomponent
  simp [hcomponent]

theorem SafeName.parts_ne_nil (h : SafeName name) : parts name ≠ [] := by
  rw [h.parts_eq]
  exact split_ne_nil name

theorem SafeName.join_parts (h : SafeName name) : join (parts name) = name := by
  rw [h.parts_eq, join_split]

theorem SafeName.ne_empty (h : SafeName name) : name ≠ "" := by
  rintro rfl
  exact h.components "" (by decide) (by decide)

theorem SafeName.relative (h : SafeName name) : isAbsolute name = false := by
  rw [isAbsolute, decide_eq_false_iff_not]
  intro hhead
  obtain ⟨rest, hrest⟩ : ∃ rest, name.toList = '/' :: rest := by
    cases hlist : name.toList with
    | nil => rw [hlist] at hhead; cases hhead
    | cons c cs =>
        rw [hlist] at hhead
        exact ⟨cs, by rw [Option.some.inj hhead]⟩
  refine h.components "" ?_ (by decide)
  rw [split, hrest, List.splitOn_cons_eq_if_modifyHead]
  simp

/-- The conditions as the code checks them. -/
theorem safeName_conditions {name' : String} :
    safeName name = .ok name' ↔ name' = name ∧
      (name ≠ "" ∧ ∀ c ∈ name.toList, c ∉ FORBIDDEN) ∧
        isAbsolute name = false ∧ asPosix name = name ∧
          ∀ part ∈ parts name, part ∉ ["", ".", ".."] := by
  have hfirst : (decide (name ≠ "") && !name.toList.any FORBIDDEN.contains) = true ↔
      name ≠ "" ∧ ∀ c ∈ name.toList, c ∉ FORBIDDEN := by
    simp
  have hsecond : (!isAbsolute name && decide (asPosix name = name) &&
      (parts name).all fun part => !(["", ".", ".."].contains part)) = true ↔
      isAbsolute name = false ∧ asPosix name = name ∧
        ∀ part ∈ parts name, part ∉ ["", ".", ".."] := by
    simp [and_assoc]
  rw [← hfirst, ← hsecond, safeName]
  cases (decide (name ≠ "") && !name.toList.any FORBIDDEN.contains) with
  | false => simp [SailModelTransaction.require, bind, Except.bind]
  | true =>
      cases (!isAbsolute name && decide (asPosix name = name) &&
          (parts name).all fun part => !(["", ".", ".."].contains part)) with
      | false => simp [SailModelTransaction.require, bind, Except.bind]
      | true => simp [SailModelTransaction.require, bind, Except.bind, pure, Except.pure, eq_comm]

/-- A name that is its own normal form keeps all its components, unless it is `.`. -/
theorem split_of_asPosix (h : asPosix name = name) (hdot : name ≠ ".") :
    split name = parts name := by
  rw [asPosix_eq] at h
  have hparts : parts name ≠ [] := by
    intro hnil
    rw [hnil] at h
    exact hdot h.symm
  have hjoin : join (parts name) = name := by
    split_ifs at h with hempty
    · exact absurd h.symm hdot
    · exact h
  have hslash : ∀ part ∈ parts name, '/' ∉ part.toList :=
    fun part hpart => slash_notMem_of_mem_split (List.mem_of_mem_filter hpart)
  calc split name = split (join (parts name)) := by rw [hjoin]
    _ = parts name := split_join hparts hslash

/-- The code accepts the names of ordinary components, and `.`. -/
theorem safeName_eq_ok {name' : String} :
    safeName name = .ok name' ↔ name' = name ∧ (name = "." ∨ SafeName name) := by
  rw [safeName_conditions]
  refine and_congr_right fun _ => ⟨fun h => ?_, fun h => ?_⟩
  · obtain ⟨⟨-, hcharacters⟩, -, hposix, hparts⟩ := h
    by_cases hdot : name = "."
    · exact Or.inl hdot
    · refine Or.inr ⟨hcharacters, fun part hpart => hparts part ?_⟩
      rwa [← split_of_asPosix hposix hdot]
  · rcases h with rfl | hsafe
    · exact ⟨⟨by decide, by simp [FORBIDDEN]⟩, by decide, by decide, by decide⟩
    · refine ⟨⟨hsafe.ne_empty, hsafe.characters⟩, hsafe.relative, ?_, ?_⟩
      · rw [asPosix_eq, hsafe.join_parts]
        exact if_neg hsafe.ne_empty
      · rw [hsafe.parts_eq]
        exact hsafe.components

end CkbSail.Scripts.ReleaseCommon
