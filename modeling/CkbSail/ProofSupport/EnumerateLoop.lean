import Mathlib.Data.List.Induction
import Mathlib.Tactic.Common

/-!
# Enumerated loops with an early return

`for (index, item) in items.iter().enumerate()` with `return` and `?` inside
is a fold that can stop in three ways: the body fails, the body returns from
the enclosing function, or the items run out.  `enumerateLoop` is that fold.
`After` names the state reached by the first `k` passes, so that an invariant
of a run is a statement about `After` proved one pass at a time.
-/

namespace CkbSail.ProofSupport

/-- How one pass through a loop body ends: the enclosing function returns, or
the loop goes on with a new state. -/
inductive Flow (ρ σ : Type) where
  | ret (result : ρ)
  | next (state : σ)

variable {ε ρ σ α : Type}

def enumerateLoop (body : Nat → α → σ → Except ε (Flow ρ σ)) :
    Nat → List α → σ → Except ε (Flow ρ σ)
  | _, [], state => .ok (.next state)
  | index, item :: items, state =>
      match body index item state with
      | .error e => .error e
      | .ok (.ret result) => .ok (.ret result)
      | .ok (.next state) => enumerateLoop body (index + 1) items state

variable {body : Nat → α → σ → Except ε (Flow ρ σ)}

@[simp] theorem enumerateLoop_nil (index : Nat) (state : σ) :
    enumerateLoop body index [] state = .ok (.next state) := rfl

theorem enumerateLoop_append (index : Nat) (xs ys : List α) (state : σ) :
    enumerateLoop body index (xs ++ ys) state =
      match enumerateLoop body index xs state with
      | .error e => .error e
      | .ok (.ret result) => .ok (.ret result)
      | .ok (.next state) => enumerateLoop body (index + xs.length) ys state := by
  induction xs generalizing index state with
  | nil => rfl
  | cons x xs ih =>
      simp only [List.cons_append, enumerateLoop, List.length_cons]
      rcases body index x state with e | flow
      · rfl
      · cases flow with
        | ret result => rfl
        | next state =>
            simp only [ih]
            rw [show index + 1 + xs.length = index + (xs.length + 1) by omega]

/-- The first `k` passes over `items` all go on, and reach `state`. -/
def After (body : Nat → α → σ → Except ε (Flow ρ σ)) (items : List α)
    (init : σ) (k : Nat) (state : σ) : Prop :=
  k ≤ items.length ∧ enumerateLoop body 0 (items.take k) init = .ok (.next state)

theorem after_zero (items : List α) (init : σ) : After body items init 0 init :=
  ⟨Nat.zero_le _, by simp⟩

theorem After.eq_init {items : List α} {init state : σ}
    (h : After body items init 0 state) : state = init := by
  have hrun := h.2
  simp only [List.take_zero, enumerateLoop_nil, Except.ok.injEq, Flow.next.injEq] at hrun
  exact hrun.symm

theorem After.unique {items : List α} {init : σ} {k : Nat} {s t : σ}
    (hs : After body items init k s) (ht : After body items init k t) : s = t := by
  have h := hs.2.symm.trans ht.2
  simpa using h

/-- One more pass: the state after `k + 1` passes comes from the state after
`k` passes by the body at index `k`. -/
theorem after_succ_iff {items : List α} {init state : σ} {k : Nat} :
    After body items init (k + 1) state ↔
      ∃ (hk : k < items.length) (s : σ), After body items init k s ∧
        body k items[k] s = .ok (.next state) := by
  constructor
  · rintro ⟨hk, hrun⟩
    refine ⟨hk, ?_⟩
    rw [List.take_succ_eq_append_getElem hk, enumerateLoop_append] at hrun
    rcases hstart : enumerateLoop body 0 (items.take k) init with e | flow
    · rw [hstart] at hrun
      simp at hrun
    · rw [hstart] at hrun
      cases flow with
      | ret result => simp at hrun
      | next s =>
          refine ⟨s, ⟨Nat.le_of_succ_le hk, hstart⟩, ?_⟩
          have hlen : (items.take k).length = k := by simp; omega
          simp only [hlen, Nat.zero_add, enumerateLoop] at hrun
          rcases hbody : body k items[k] s with e | flow
          · simp [hbody] at hrun
          · cases flow with
            | ret result => simp [hbody] at hrun
            | next t => simpa [hbody] using hrun
  · rintro ⟨hk, s, hs, hbody⟩
    refine ⟨hk, ?_⟩
    have hlen : (items.take k).length = k := by simp; omega
    rw [List.take_succ_eq_append_getElem hk, enumerateLoop_append, hs.2]
    simp only [hlen, Nat.zero_add, enumerateLoop, hbody]

/-- The loop runs out of items exactly when all passes go on. -/
theorem enumerateLoop_next_iff {items : List α} {init state : σ} :
    enumerateLoop body 0 items init = .ok (.next state) ↔
      After body items init items.length state := by
  simp [After]

/-- A returned value comes from one pass, after a run of passes that went on. -/
theorem enumerateLoop_ret_iff {items : List α} {init : σ} {result : ρ} :
    enumerateLoop body 0 items init = .ok (.ret result) ↔
      ∃ (k : Nat) (hk : k < items.length) (s : σ), After body items init k s ∧
        body k items[k] s = .ok (.ret result) := by
  constructor
  · intro hrun
    induction items using List.reverseRecOn with
    | nil => simp at hrun
    | append_singleton items item ih =>
        rw [enumerateLoop_append] at hrun
        rcases hstart : enumerateLoop body 0 items init with e | flow
        · simp [hstart] at hrun
        · cases flow with
          | ret r =>
              have hr : r = result := by simpa [hstart] using hrun
              subst r
              obtain ⟨k, hk, s, hs, hbody⟩ := ih hstart
              refine ⟨k, by simp; omega, s, ⟨by simp; omega, ?_⟩, ?_⟩
              · rw [List.take_append_of_le_length (Nat.le_of_lt hk)]
                exact hs.2
              · rwa [List.getElem_append_left hk]
          | next s =>
              refine ⟨items.length, by simp, s, ⟨by simp, by simpa using hstart⟩, ?_⟩
              simp only [hstart, Nat.zero_add, enumerateLoop] at hrun
              rcases hbody : body items.length item s with e | flow
              · simp [hbody] at hrun
              · cases flow with
                | ret r => simpa [hbody] using hrun
                | next t => simp [hbody] at hrun
  · rintro ⟨k, hk, s, hs, hbody⟩
    have hlen : (items.take k).length = k := by simp; omega
    rw [← List.take_append_drop k items, enumerateLoop_append, hs.2,
      List.drop_eq_getElem_cons hk]
    simp only [hlen, Nat.zero_add, enumerateLoop, hbody]

/-- An invariant that every pass preserves holds after any number of passes. -/
theorem After.induct {items : List α} {init : σ} (I : Nat → σ → Prop)
    (hinit : I 0 init)
    (hstep : ∀ (k : Nat) (hk : k < items.length) (s t : σ), I k s →
      body k items[k] s = .ok (.next t) → I (k + 1) t)
    {k : Nat} {state : σ} (h : After body items init k state) : I k state := by
  induction k generalizing state with
  | zero => rwa [h.eq_init]
  | succ k ih =>
      obtain ⟨hk, s, hs, hbody⟩ := after_succ_iff.1 h
      exact hstep k hk s state (ih hs) hbody

/-- If every pass from a state satisfying the invariant goes on, the loop runs
out of items. -/
theorem after_of_progress {items : List α} {init : σ} (I : Nat → σ → Prop)
    (hinit : I 0 init)
    (hstep : ∀ (k : Nat) (hk : k < items.length) (s : σ), I k s →
      ∃ t, body k items[k] s = .ok (.next t) ∧ I (k + 1) t)
    {k : Nat} (hk : k ≤ items.length) :
    ∃ state, After body items init k state ∧ I k state := by
  induction k with
  | zero => exact ⟨init, after_zero items init, hinit⟩
  | succ k ih =>
      obtain ⟨s, hs, hI⟩ := ih (by omega)
      obtain ⟨t, hbody, ht⟩ := hstep k hk s hI
      exact ⟨t, after_succ_iff.2 ⟨hk, s, hs, hbody⟩, ht⟩

/-! ## Loops that push one item per pass -/

/-- Each pass that goes on appends exactly one item to a list kept in the state. -/
def Pushes {β : Type} (body : Nat → α → σ → Except ε (Flow ρ σ)) (pushed : σ → List β) : Prop :=
  ∀ k x s t, body k x s = .ok (.next t) → ∃ b, pushed t = pushed s ++ [b]

/-- After `k` passes there are `k` items, and item `j` is the one pass `j` pushed. -/
theorem After.pushed {β : Type} {items : List α} {init state : σ} {pushed : σ → List β}
    (hpush : Pushes body pushed) (hinit : pushed init = []) {k : Nat}
    (h : After body items init k state) :
    (pushed state).length = k ∧
      ∀ (j : Nat) (hj : j < k), ∃ (hitem : j < items.length) (s t : σ) (b : β),
        After body items init j s ∧ After body items init (j + 1) t ∧
          body j items[j] s = .ok (.next t) ∧ pushed t = pushed s ++ [b] ∧
          (pushed state)[j]? = some b := by
  induction k generalizing state with
  | zero =>
      rw [h.eq_init, hinit]
      exact ⟨rfl, fun j hj => absurd hj (Nat.not_lt_zero j)⟩
  | succ k ih =>
      obtain ⟨hk, s, hs, hbody⟩ := after_succ_iff.1 h
      obtain ⟨hlen, hitems⟩ := ih hs
      obtain ⟨b, hb⟩ := hpush k _ s state hbody
      refine ⟨by simp [hb, hlen], fun j hj => ?_⟩
      rcases Nat.lt_succ_iff_lt_or_eq.1 hj with hlt | rfl
      · obtain ⟨hitem, u, v, c, hu, hv, hstep, hc, hget⟩ := hitems j hlt
        refine ⟨hitem, u, v, c, hu, hv, hstep, hc, ?_⟩
        rw [hb, List.getElem?_append_left (by omega), hget]
      · refine ⟨hk, s, state, b, hs, h, hbody, hb, ?_⟩
        rw [hb, List.getElem?_append_right (by omega), hlen]
        simp

end CkbSail.ProofSupport
