import CkbSail.Scripts.MinimizeMismatch

/-!
# The minimum the minimizer claims

`Searched` says what a search over a list of candidates has done, whatever state
the evaluator keeps.  The candidates come by size and then in lexicographic
order, so the first that shows the signature is the least.
-/

namespace CkbSail.Scripts.MinimizeMismatch

open PythonStd ProofSupport

/-! ## Selections and candidates -/

section Select

variable {α : Type} {words : List α}

theorem select_eq_map {indices : List Nat} (h : ∀ i ∈ indices, i < words.length) :
    (select words indices).map some = indices.map fun i => words[i]? := by
  induction indices with
  | nil => rfl
  | cons i indices ih =>
      have hi := List.getElem?_eq_getElem (h i List.mem_cons_self)
      have htail := ih fun j hj => h j (List.mem_cons_of_mem _ hj)
      rw [select, List.filterMap_cons_some hi, List.map_cons, List.map_cons, hi, ← htail]
      rfl

theorem length_select {indices : List Nat} (h : ∀ i ∈ indices, i < words.length) :
    (select words indices).length = indices.length := by
  have hmap := congrArg List.length (select_eq_map h)
  simpa using hmap

theorem select_range (words : List α) : select words (List.range words.length) = words := by
  have hmap := @select_eq_map α words _ fun i hi => List.mem_range.1 hi
  refine (List.map_injective_iff.2 (Option.some_injective α)) (hmap.trans ?_)
  apply List.ext_getElem?
  intro k
  by_cases hk : k < words.length <;> simp [hk]

/-- A subsequence is selected by increasing indices. -/
theorem exists_select_of_sublist {candidate : List α} (h : candidate.Sublist words) :
    ∃ indices, indices.Pairwise (· < ·) ∧ (∀ i ∈ indices, i < words.length) ∧
      select words indices = candidate := by
  obtain ⟨positions, hcandidate, hsorted⟩ := List.sublist_eq_map_getElem h
  refine ⟨positions.map Fin.val, ?_, ?_, ?_⟩
  · rw [List.pairwise_map]
    exact hsorted
  · intro i hi
    obtain ⟨position, -, rfl⟩ := List.mem_map.1 hi
    exact position.isLt
  · have hget : (fun i => words[i]?) ∘ Fin.val = some ∘ fun position : Fin words.length =>
        words[position] := by
      funext position
      exact List.getElem?_eq_getElem position.isLt
    rw [hcandidate, select, List.filterMap_map, hget, List.filterMap_eq_map]

/-- The index tuples of the smaller nonempty subsequences, in the order they are tried. -/
def candidates (n : Nat) : List (List Nat) :=
  (List.range' 1 (n - 1)).flatMap fun size => combinations size (List.range n)

theorem mem_candidates {n : Nat} {indices : List Nat} :
    indices ∈ candidates n ↔ indices.Pairwise (· < ·) ∧ (∀ i ∈ indices, i < n) ∧
      1 ≤ indices.length ∧ indices.length < n := by
  simp only [candidates, List.mem_flatMap, List.mem_range'_1, mem_combinations,
    sublist_range_iff]
  constructor
  · rintro ⟨size, hsize, ⟨hsorted, hbound⟩, rfl⟩
    exact ⟨hsorted, hbound, hsize.1, by omega⟩
  · rintro ⟨hsorted, hbound, hpos, hlt⟩
    exact ⟨indices.length, ⟨hpos, by omega⟩, ⟨hsorted, hbound⟩, rfl⟩

/-- The candidates come by size, and those of one size in lexicographic order. -/
theorem pairwise_candidates (n : Nat) : (candidates n).Pairwise fun left right =>
    left.length < right.length ∨ left.length = right.length ∧ left < right := by
  rw [candidates, List.pairwise_flatMap]
  constructor
  · intro size _
    refine (pairwise_combinations List.pairwise_lt_range size).imp_of_mem ?_
    intro left right hleft hright hlt
    exact Or.inr ⟨(mem_combinations.1 hleft).2.trans (mem_combinations.1 hright).2.symm, hlt⟩
  · refine (List.pairwise_lt_range' (s := 1) (n := n - 1)).imp ?_
    intro size size' hlt left hleft right hright
    rw [(mem_combinations.1 hleft).2, (mem_combinations.1 hright).2]
    exact Or.inl hlt

end Select

/-! ## What a search does -/

section Search

variable {α β σ ε : Type} (words : List α) (expected : β) (same : β → β → Bool)
  (evaluate : List α → Program σ ε β)

/-- Candidates that were evaluated one after another and showed something else. -/
inductive Misses : σ → List (List Nat) → σ → Prop
  | nil (s : σ) : Misses s [] s
  | cons {s s' : σ} {indices : List Nat} {rest : List (List Nat)} {observed : β}
      (returned : (evaluate (select words indices) s).result = .ok observed)
      (differs : same observed expected = false)
      (others : Misses (evaluate (select words indices) s).state rest s') :
      Misses s (indices :: rest) s'

/-- The results of a search among some candidates: none shows the signature, a
first one does, or one raises before. -/
inductive Searched (s : σ) (tried : List (List Nat)) :
    Except ε (Option (List α × List Nat)) → Prop
  | missed {s' : σ} (misses : Misses words expected same evaluate s tried s') :
      Searched s tried (.ok none)
  | found {before after : List (List Nat)} {indices : List Nat} {s' : σ} {observed : β}
      (split : tried = before ++ indices :: after)
      (misses : Misses words expected same evaluate s before s')
      (returned : (evaluate (select words indices) s').result = .ok observed)
      (shows : same observed expected = true) :
      Searched s tried (.ok (some (select words indices, indices)))
  | raised {before after : List (List Nat)} {indices : List Nat} {s' : σ} {e : ε}
      (split : tried = before ++ indices :: after)
      (misses : Misses words expected same evaluate s before s')
      (raises : (evaluate (select words indices) s').result = .error e) :
      Searched s tried (.error e)

variable {words : List α} {expected : β} {same : β → β → Bool}
  {evaluate : List α → Program σ ε β}

/-- A search that a first candidate did not end goes on with the others. -/
theorem Searched.cons {s : σ} {indices : List Nat} {rest : List (List Nat)} {observed : β}
    {result : Except ε (Option (List α × List Nat))}
    (returned : (evaluate (select words indices) s).result = .ok observed)
    (differs : same observed expected = false)
    (h : Searched words expected same evaluate (evaluate (select words indices) s).state rest
      result) : Searched words expected same evaluate s (indices :: rest) result := by
  cases h with
  | missed misses => exact .missed (.cons returned differs misses)
  | found split misses returned' shows =>
      exact .found (by rw [split, List.cons_append]) (.cons returned differs misses) returned'
        shows
  | raised split misses raises =>
      exact .raised (by rw [split, List.cons_append]) (.cons returned differs misses) raises

theorem searchSize_spec (s : σ) (tried : List (List Nat)) :
    Searched words expected same evaluate s tried
      (searchSize words expected same evaluate tried s).result := by
  induction tried generalizing s with
  | nil => exact .missed (.nil s)
  | cons indices rest ih =>
      rw [searchSize]
      cases hresult : (evaluate (select words indices) s).result with
      | error e =>
          simp only [bind, Program.bind, hresult]
          exact .raised rfl (.nil s) hresult
      | ok observed =>
          simp only [bind, Program.bind, hresult]
          cases hshows : same observed expected with
          | true => exact .found rfl (.nil s) hresult hshows
          | false => exact .cons hresult hshows (ih _)

/-- Candidates that show something else can be passed over. -/
theorem searchSize_of_misses {s s' : σ} {before : List (List Nat)} (rest : List (List Nat))
    (h : Misses words expected same evaluate s before s') :
    (searchSize words expected same evaluate (before ++ rest) s).result =
      (searchSize words expected same evaluate rest s').result := by
  induction h with
  | nil => rfl
  | cons returned differs _ ih =>
      rw [List.cons_append, searchSize]
      simp only [bind, Program.bind, returned, differs, Bool.false_eq_true, if_false]
      exact ih

theorem searchSize_append (left right : List (List Nat)) (s : σ) :
    (searchSize words expected same evaluate (left ++ right) s).result =
      match (searchSize words expected same evaluate left s).result with
      | .ok none => (searchSize words expected same evaluate right
          (searchSize words expected same evaluate left s).state).result
      | result => result := by
  induction left generalizing s with
  | nil => rfl
  | cons indices left ih =>
      rw [List.cons_append, searchSize, searchSize]
      simp only [bind, Program.bind]
      cases (evaluate (select words indices) s).result with
      | error e => rfl
      | ok observed =>
          cases hshows : same observed expected with
          | true =>
              simp only [hshows, if_true]
              rfl
          | false =>
              simp only [hshows, Bool.false_eq_true, if_false]
              exact ih _

/-- The sizes are one list of candidates. -/
theorem searchSizes_eq (sizes : List Nat) (s : σ) :
    (searchSizes words expected same evaluate sizes s).result =
      (searchSize words expected same evaluate (sizes.flatMap fun size =>
        combinations size (List.range words.length)) s).result := by
  induction sizes generalizing s with
  | nil => rfl
  | cons size sizes ih =>
      rw [List.flatMap_cons, searchSize_append, searchSizes]
      simp only [bind, Program.bind]
      cases (searchSize words expected same evaluate
          (combinations size (List.range words.length)) s).result with
      | error e => rfl
      | ok found =>
          cases found with
          | some pair => rfl
          | none => exact ih _

/-- The search in terms of the candidates. -/
theorem shortestSubsequence_eq (s : σ) :
    (shortestSubsequence words expected same evaluate s).result =
      match (searchSize words expected same evaluate (candidates words.length) s).result with
      | .ok (some found) => .ok found
      | .ok none => .ok (words, List.range words.length)
      | .error e => .error e := by
  rw [candidates, ← searchSizes_eq, shortestSubsequence]
  simp only [bind, Program.bind]
  cases (searchSizes words expected same evaluate
      (List.range' 1 (words.length - 1)) s).result with
  | error e => rfl
  | ok found => cases found <;> rfl

/-- A smaller candidate raises before one shows the signature. -/
def RaisesBefore (words : List α) (expected : β) (same : β → β → Bool)
    (evaluate : List α → Program σ ε β) (s : σ) (e : ε) : Prop :=
  ∃ before indices after s', candidates words.length = before ++ indices :: after ∧
    Misses words expected same evaluate s before s' ∧
    (evaluate (select words indices) s').result = .error e

/-- The search raises exactly what a candidate raises before one shows the signature. -/
theorem shortestSubsequence_raises_iff {s : σ} {e : ε} :
    (shortestSubsequence words expected same evaluate s).result = .error e ↔
      RaisesBefore words expected same evaluate s e := by
  rw [shortestSubsequence_eq]
  constructor
  · intro h
    have hsearch := @searchSize_spec α β σ ε words expected same evaluate s
      (candidates words.length)
    cases hresult : (searchSize words expected same evaluate (candidates words.length) s).result with
    | ok found => cases found <;> simp [hresult] at h
    | error e' =>
        obtain rfl : e' = e := by simpa [hresult] using h
        rw [hresult] at hsearch
        cases hsearch with
        | raised split misses raises => exact ⟨_, _, _, _, split, misses, raises⟩
  · rintro ⟨before, indices, after, s', hsplit, hmisses, hraises⟩
    have hresult : (searchSize words expected same evaluate (candidates words.length) s).result =
        .error e := by
      rw [hsplit, searchSize_of_misses _ hmisses, searchSize]
      simp only [bind, Program.bind, hraises]
    rw [hresult]

/-! ## The minimum -/

/-- The evaluator returns what `f` says, whenever it returns. -/
def Deterministic (evaluate : List α → Program σ ε β) (f : List α → β) : Prop :=
  ∀ candidate s observed, (evaluate candidate s).result = .ok observed → observed = f candidate

/-- A selection that shows the signature, of the least size and then the least indices. -/
structure IsMinimum (f : List α → β) (words : List α) (expected : β) (same : β → β → Bool)
    (minimum : List α) (indices : List Nat) : Prop where
  increasing : indices.Pairwise (· < ·)
  inside : ∀ i ∈ indices, i < words.length
  selects : indices.map (fun i => words[i]?) = minimum.map some
  shows : same (f minimum) expected = true
  shortest : ∀ other, other.Sublist words → other ≠ [] → other.length < minimum.length →
    same (f other) expected = false
  first : ∀ others, others.Pairwise (· < ·) → (∀ i ∈ others, i < words.length) →
    others.length = indices.length → same (f (select words others)) expected = true →
    indices ≤ others

variable {f : List α → β}

theorem Misses.differs (hdet : Deterministic evaluate f) {s s' : σ} {tried : List (List Nat)}
    (h : Misses words expected same evaluate s tried s') :
    ∀ indices ∈ tried, same (f (select words indices)) expected = false := by
  induction h with
  | nil => simp
  | cons returned differs _ ih =>
      intro indices hmem
      rcases List.mem_cons.1 hmem with rfl | hmem
      · rwa [← hdet _ _ _ returned]
      · exact ih indices hmem

/-- The first candidate that shows the signature is the minimum. -/
theorem isMinimum_of_first {before after : List (List Nat)} {indices : List Nat}
    (hsplit : candidates words.length = before ++ indices :: after)
    (hbefore : ∀ others ∈ before, same (f (select words others)) expected = false)
    (hshows : same (f (select words indices)) expected = true) :
    IsMinimum f words expected same (select words indices) indices := by
  have hmem : indices ∈ candidates words.length := by
    rw [hsplit]
    simp
  obtain ⟨hsorted, hinside, hpos, hlt⟩ := mem_candidates.1 hmem
  have hlater : ∀ others ∈ candidates words.length,
      same (f (select words others)) expected = true →
      others = indices ∨ indices.length < others.length ∨
        indices.length = others.length ∧ indices < others := by
    intro others hothers hmatch
    have horder := pairwise_candidates words.length
    rw [hsplit] at hothers horder
    rcases List.mem_append.1 hothers with hothers | hothers
    · rw [hbefore others hothers] at hmatch
      cases hmatch
    · rcases List.mem_cons.1 hothers with rfl | hothers
      · exact Or.inl rfl
      · exact Or.inr (List.rel_of_pairwise_cons (List.pairwise_append.1 horder).2.1 hothers)
  refine ⟨hsorted, hinside, (select_eq_map hinside).symm, hshows, ?_, ?_⟩
  · intro other hother hne hshort
    rw [length_select hinside] at hshort
    obtain ⟨others, hothers, hbound, rfl⟩ := exists_select_of_sublist hother
    rw [length_select hbound] at hshort
    have hcandidate : others ∈ candidates words.length := by
      refine mem_candidates.2 ⟨hothers, hbound, ?_, hshort.trans hlt⟩
      rw [← length_select hbound]
      exact List.length_pos_iff.2 hne
    cases hmatch : same (f (select words others)) expected with
    | false => rfl
    | true =>
        rcases hlater others hcandidate hmatch with rfl | hlong | ⟨heq, -⟩
        · exact absurd hshort (lt_irrefl _)
        · exact absurd hshort hlong.asymm
        · exact absurd hshort heq.le.not_gt
  · intro others hothers hbound hlength hmatch
    have hcandidate : others ∈ candidates words.length :=
      mem_candidates.2 ⟨hothers, hbound, by omega, by omega⟩
    rcases hlater others hcandidate hmatch with rfl | hlong | ⟨-, hle⟩
    · exact le_rfl
    · exact absurd hlong hlength.le.not_gt
    · exact hle.le

/-- The whole list is the minimum when no smaller candidate shows the signature. -/
theorem isMinimum_of_misses
    (hall : ∀ others ∈ candidates words.length, same (f (select words others)) expected = false)
    (hwhole : same (f words) expected = true) :
    IsMinimum f words expected same words (List.range words.length) := by
  have hinside : ∀ i ∈ List.range words.length, i < words.length := fun i => List.mem_range.1
  have hselects := select_eq_map hinside
  rw [select_range] at hselects
  refine ⟨List.pairwise_lt_range, hinside, hselects.symm, hwhole, ?_, ?_⟩
  · intro other hother hne hshort
    obtain ⟨others, hothers, hbound, rfl⟩ := exists_select_of_sublist hother
    refine hall others (mem_candidates.2 ⟨hothers, hbound, ?_, ?_⟩)
    · rw [← length_select hbound]
      exact List.length_pos_iff.2 hne
    · rwa [← length_select hbound]
  · intro others hothers hbound hlength _
    have hrange := (sublist_range_iff.2 ⟨hothers, hbound⟩).eq_of_length hlength
    exact hrange.ge

theorem shortestSubsequence_isMinimum (hdet : Deterministic evaluate f)
    (hwhole : same (f words) expected = true) {s : σ} {minimum : List α} {indices : List Nat}
    (h : (shortestSubsequence words expected same evaluate s).result = .ok (minimum, indices)) :
    IsMinimum f words expected same minimum indices := by
  rw [shortestSubsequence_eq] at h
  have hsearch := @searchSize_spec α β σ ε words expected same evaluate s
    (candidates words.length)
  cases hresult : (searchSize words expected same evaluate (candidates words.length) s).result with
  | error e => simp [hresult] at h
  | ok found =>
      rw [hresult] at h hsearch
      cases hsearch with
      | missed misses =>
          obtain ⟨rfl, rfl⟩ : words = minimum ∧ List.range words.length = indices := by
            simpa using h
          exact isMinimum_of_misses (misses.differs hdet) hwhole
      | found split misses returned shows =>
          obtain ⟨rfl, rfl⟩ : select words _ = minimum ∧ _ = indices := by simpa using h
          refine isMinimum_of_first split (misses.differs hdet) ?_
          rwa [← hdet _ _ _ returned]

end Search

/-! ## The run -/

/-- A report that claims no minimum. -/
def Report.Unclaimed (report : Report) : Prop :=
  report.minimumProved = false ∧ report.minimalWords = none

/-- Neither the report in memory nor the saved one claims a minimum. -/
structure Unclaimed (s : State) : Prop where
  memory : s.report.Unclaimed
  disk : ∀ report, s.saved = some report → report.Unclaimed

/-- The program claims no minimum, whether it returns or raises. -/
abbrev Keeps {α : Type} (program : Action α) : Prop :=
  Triple (fun _ => Unclaimed) (fun _ => True) Unclaimed program fun _ => Unclaimed

section Keeps

variable {host : Host} {args : Args} {α : Type}

theorem Keeps.bind {β : Type} {program : Action α} {next : α → Action β} (h : Keeps program)
    (hnext : ∀ a, Keeps (next a)) : Keeps (program >>= next) := Triple.bind h hnext

theorem Keeps.pure (a : α) : Keeps (Pure.pure a) := Triple.pure fun _ h => h

theorem Keeps.raise (e : Exn) : Keeps (Program.raise e : Action α) := Triple.raise fun _ h => h

theorem Keeps.get : Keeps (Program.get : Action State) := Triple.get fun _ h => h

/-- The host changes nothing but the time. -/
theorem triple_ask {P : State → Prop} (answer : Nat → Except Exn α)
    (htime : ∀ s time, P s → P { s with time := time }) :
    Triple (fun _ => P) (fun _ => True) P (ask answer) fun _ => P := by
  refine .bind (Q := fun _ => P) (.get fun _ hs => hs) fun t => ?_
  refine .bind (Q := fun _ => P) (.assign fun s hs => htime s _ hs) fun _ => ?_
  cases answer t.time with
  | ok a => exact .pure fun _ hs => hs
  | error e => exact .raise fun _ hs => hs

theorem keeps_ask (answer : Nat → Except Exn α) : Keeps (ask answer) :=
  triple_ask answer fun _ _ h => ⟨h.memory, h.disk⟩

theorem keeps_requireThat (condition : Bool) (message : String) :
    Keeps (requireThat condition message) := by
  cases condition with
  | true => exact .pure ()
  | false => exact .raise _

theorem keeps_judge (value : Py α) : Keeps (judge host value) := by
  cases value with
  | ok a => exact .pure a
  | error e => cases e <;> exact .raise _

/-- An update of the report that leaves the claim alone. -/
theorem keeps_setReport {update : Report → Report}
    (h : ∀ report : Report, report.Unclaimed → (update report).Unclaimed) :
    Keeps (setReport update) :=
  .assign fun s hs => ⟨h s.report hs.memory, hs.disk⟩

/-- A saved report is the one in memory. -/
theorem saveReport_spec {P : State → Prop} (hmemory : ∀ s, P s → s.report.Unclaimed)
    (htime : ∀ s time, P s → P { s with time := time }) :
    Triple (fun _ => P) (fun _ => True) P (saveReport host) fun _ => Unclaimed := by
  refine .get_bind fun t => ?_
  refine .bind (Q := fun _ s => P s ∧ t.report.Unclaimed) ?_ fun _ => ?_
  · refine ((triple_ask host.saveReport fun s time hs => ⟨htime s time hs.1, hs.2⟩).weaken
      (fun s hs => ⟨hs.1, hs.2 ▸ hmemory s hs.1⟩) fun _ _ h => h).raises fun _ _ h => h.1
  · refine .assign fun s hs => ⟨hmemory s hs.1, fun report hreport => ?_⟩
    obtain rfl := Option.some.inj hreport
    exact hs.2

theorem keeps_saveReport : Keeps (saveReport host) :=
  saveReport_spec (fun _ h => h.memory) fun _ _ h => ⟨h.memory, h.disk⟩

theorem keeps_updateRow (update : Trial → Trial) : Keeps (updateRow update) :=
  keeps_setReport fun _ h => h

theorem keeps_identityNow : Keeps (identityNow host args) :=
  .bind (keeps_ask _) fun _ => .bind (keeps_ask _) fun _ => .bind (keeps_ask _) fun _ => .pure _

theorem keeps_checkIdentity (identity : List (String × String × String)) :
    Keeps (checkIdentity host args identity) :=
  .bind keeps_identityNow fun _ => keeps_requireThat _ _

theorem keeps_observeTrial (artifact : Json) (identity : List (String × String × String))
    (directory digest : String) (words : List Json) :
    Keeps (observeTrial host args artifact identity directory digest words) := by
  refine .bind (keeps_ask _) fun exitCode => .bind (keeps_updateRow _) fun _ => ?_
  refine .bind (keeps_ask _) fun observed => .bind (keeps_ask _) fun envelope => ?_
  refine .bind (keeps_judge _) fun result => .bind (keeps_judge _) fun _ => ?_
  refine .bind (keeps_checkIdentity _) fun _ => .bind (keeps_ask _) fun now => ?_
  refine .bind (keeps_requireThat _ _) fun _ => .bind (keeps_ask _) fun artifactSha256 => ?_
  refine .bind (keeps_ask _) fun stdoutSha256 => .bind (keeps_ask _) fun stderrSha256 => ?_
  exact .bind (keeps_updateRow _) fun _ => .pure _

theorem keeps_replayOracle (artifact : Json) (identity : List (String × String × String))
    (words : List Json) : Keeps (replayOracle host args artifact identity words) := by
  refine .bind .get fun s => .ite (fun _ => Keeps.raise _) fun _ => ?_
  refine .bind (keeps_checkIdentity _) fun _ => .bind (keeps_ask _) fun _ => ?_
  refine .bind (keeps_judge _) fun candidate => .bind (keeps_ask _) fun _ => ?_
  refine .bind (keeps_ask _) fun digest => .bind (keeps_setReport fun _ h => h) fun _ => ?_
  refine .bind keeps_saveReport fun _ => .andFinally ?_ (fun _ => keeps_saveReport)
    fun _ => keeps_saveReport
  exact .handle (keeps_observeTrial _ _ _ _ _) fun e =>
    .bind (keeps_updateRow _) fun _ => Keeps.raise e

theorem keeps_searchSize {words : List Json} {expected : Json} {evaluate : List Json → Action Json}
    (h : ∀ candidate, Keeps (evaluate candidate)) (tried : List (List Nat)) :
    Keeps (searchSize words expected Json.eq evaluate tried) := by
  induction tried with
  | nil => exact .pure _
  | cons indices rest ih =>
      exact .bind (h _) fun observed => .ite (fun _ => Keeps.pure _) fun _ => ih

theorem keeps_searchSizes {words : List Json} {expected : Json}
    {evaluate : List Json → Action Json} (h : ∀ candidate, Keeps (evaluate candidate))
    (sizes : List Nat) : Keeps (searchSizes words expected Json.eq evaluate sizes) := by
  induction sizes with
  | nil => exact .pure _
  | cons size sizes ih =>
      refine .bind (keeps_searchSize h _) fun found => ?_
      cases found with
      | some pair => exact .pure _
      | none => exact ih

theorem keeps_search (job : Job) (identity : List (String × String × String)) :
    Keeps (search host args job identity) := by
  refine .bind (keeps_searchSizes (keeps_replayOracle _ _) _) fun found => ?_
  cases found with
  | some pair => exact .pure _
  | none => exact .pure _

theorem keeps_reproduce (job : Job) : Keeps (reproduce host args job) := by
  refine .bind keeps_identityNow fun identity => .bind (keeps_setReport fun _ h => h) fun _ => ?_
  exact .bind (keeps_replayOracle _ _ _) fun _ => .bind (keeps_requireThat _ _) fun _ => .pure _

theorem keeps_giveUp (error : Exn) : Keeps (giveUp error) :=
  .bind (keeps_setReport fun _ h => h) fun _ => .pure _

end Keeps

section Run

variable {host : Host} {args : Args}

theorem triple_true {α : Type} (program : Action α) :
    Triple (fun _ _ => True) (fun _ => True) (fun _ => True) program fun _ _ => True :=
  fun _ _ => ⟨fun _ _ => trivial, fun _ _ => trivial, fun _ _ => trivial⟩

/-- A run starts with a report that claims nothing. -/
theorem prepare_spec : Triple (fun _ _ => True) (fun _ => True) (fun _ => True)
    (prepare host args) fun _ => Unclaimed := by
  refine .bind (triple_true _) fun _ => .bind (triple_true _) fun _ => ?_
  refine .bind (triple_true _) fun originalHash => .bind (triple_true _) fun artifact => ?_
  refine .bind (triple_true _) fun words => .bind (triple_true _) fun expected => ?_
  refine .bind (triple_true _) fun _ => .bind (triple_true _) fun _ => ?_
  refine .bind (triple_true _) fun scriptHash => ?_
  refine .bind (Q := fun _ s => s.report.Unclaimed) (.assign fun _ _ => ⟨rfl, rfl⟩) fun _ => ?_
  refine .bind ((saveReport_spec (fun _ h => h) fun _ _ h => h).raises fun _ _ _ => trivial)
    fun _ => ?_
  exact .pure fun _ h => h

/-- A run comes to the search, and a candidate raises there before one shows the signature. -/
def CandidateRaises (host : Host) (args : Args) (start : State) (e : Exn) : Prop :=
  ∃ job identity, (prepare host args start).result = .ok job ∧
    (reproduce host args job (prepare host args start).state).result = .ok identity ∧
    RaisesBefore job.words job.expected Json.eq (replayOracle host args job.artifact identity)
      (reproduce host args job (prepare host args start).state).state e

/-- The body of the run raises what the candidate raised. -/
theorem attempt_raises {job : Job} {identity : List (String × String × String)} {s : State}
    {e : Exn} (hreproduce : (reproduce host args job s).result = .ok identity)
    (hraises : RaisesBefore job.words job.expected Json.eq
      (replayOracle host args job.artifact identity) (reproduce host args job s).state e)
    (hs : Unclaimed s) :
    (attempt host args job s).result = .error e ∧ Unclaimed (attempt host args job s).state := by
  have hsearch : (search host args job identity (reproduce host args job s).state).result =
      .error e := shortestSubsequence_raises_iff.2 hraises
  have hbefore := (keeps_reproduce job s hs).returned identity hreproduce
  have hafter := (keeps_search job identity _ hbefore).raised e hsearch
  unfold attempt
  simp only [bind, Program.bind, hreproduce, hsearch]
  exact ⟨trivial, hafter⟩

/-- An error or an exhausted budget in the search never ends in a claim. -/
theorem run_unclaimed {start : State} {e : Exn} (h : CandidateRaises host args start e) :
    Unclaimed (run host args start).state ∧ exitStatus (run host args start).result ≠ 0 ∧
      ∀ code, (run host args start).result = .ok code →
        code = if e.typeName = "BudgetExhausted" then 2 else 1 := by
  obtain ⟨job, identity, hprepare, hreproduce, hraises⟩ := h
  have hstart := (prepare_spec start trivial).returned job hprepare
  obtain ⟨hresult, hstate⟩ := attempt_raises hreproduce hraises hstart
  have hgiveUp := (keeps_giveUp e _ hstate).returned _ rfl
  have hsave := (keeps_saveReport : Keeps (saveReport host)) _ hgiveUp
  unfold run
  simp only [bind, Program.bind, hprepare, Program.andFinally, Program.handle, hresult]
  have hcode : (giveUp e (attempt host args job (prepare host args start).state).state).result =
      .ok (if e.typeName = "BudgetExhausted" then 2 else 1) := rfl
  rw [hcode]
  cases hfinal : (saveReport host (giveUp e (attempt host args job
      (prepare host args start).state).state).state).result with
  | ok u =>
      refine ⟨hsave.returned u hfinal, ?_, fun code hcode' => (Except.ok.inj hcode').symm⟩
      show (if e.typeName = "BudgetExhausted" then 2 else 1) ≠ 0
      split_ifs <;> decide
  | error e' =>
      exact ⟨hsave.raised e' hfinal, Nat.one_ne_zero, fun code hcode' => by cases hcode'⟩

end Run

/-- The minimizer's result is a true minimum, and a candidate that raises before
leaves no claim. -/
theorem minimizer_exact {α β σ ε : Type} {words : List α} {expected : β} {same : β → β → Bool}
    {evaluate : List α → Program σ ε β} {f : List α → β} (hdet : Deterministic evaluate f)
    (hwhole : same (f words) expected = true) (s : σ) :
    (∀ minimum indices,
      (shortestSubsequence words expected same evaluate s).result = .ok (minimum, indices) →
        IsMinimum f words expected same minimum indices) ∧
    (∀ e, (shortestSubsequence words expected same evaluate s).result = .error e ↔
      RaisesBefore words expected same evaluate s e) ∧
    ∀ host args start e, CandidateRaises host args start e →
      Unclaimed (run host args start).state ∧ exitStatus (run host args start).result ≠ 0 :=
  ⟨fun _ _ h => shortestSubsequence_isMinimum hdet hwhole h,
    fun _ => shortestSubsequence_raises_iff,
    fun _ _ _ _ h => ⟨(run_unclaimed h).1, (run_unclaimed h).2.1⟩⟩

/-- Among the words 7, 7, 8 an evaluator that looks for an 8. -/
theorem minimizer_exact_duplicate :
    IsMinimum (fun candidate => candidate.contains 8) [7, 7, 8] true (· == ·) [8] [2] := by
  let evaluate : List Nat → Program Unit Unit Bool := fun candidate => pure (candidate.contains 8)
  have hdet : Deterministic evaluate fun candidate => candidate.contains 8 := by
    intro candidate s observed h
    exact (Except.ok.inj h).symm
  have hfound : (shortestSubsequence [7, 7, 8] true (· == ·) evaluate ()).result = .ok ([8], [2]) :=
    rfl
  exact (minimizer_exact hdet rfl ()).1 [8] [2] hfound

end CkbSail.Scripts.MinimizeMismatch
