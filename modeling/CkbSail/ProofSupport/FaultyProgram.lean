/-!
# Programs whose operations may fail

A program runs on a state that outlives its exceptions, and leaves behind every
state its operations went through.  `Triple` speaks about all three: the state
it returns with, the state it raises with, and the states in between.
-/

namespace CkbSail.ProofSupport

variable {σ ε α β : Type}

/-- What a run leaves: its result, the last state, and the states of its
operations in order. -/
structure Run (σ ε α : Type) where
  result : Except ε α
  state : σ
  visited : List σ

def Program (σ ε α : Type) := σ → Run σ ε α

namespace Program

def bind (program : Program σ ε α) (next : α → Program σ ε β) : Program σ ε β := fun s =>
  let run := program s
  match run.result with
  | .error e => ⟨.error e, run.state, run.visited⟩
  | .ok a =>
      let rest := next a run.state
      ⟨rest.result, rest.state, run.visited ++ rest.visited⟩

instance : Monad (Program σ ε) where
  pure a := fun s => ⟨.ok a, s, []⟩
  bind := bind

def raise (e : ε) : Program σ ε α := fun s => ⟨.error e, s, []⟩

/-- A look at the state that may raise. -/
def check (test : σ → Except ε α) : Program σ ε α := fun s => ⟨test s, s, []⟩

def get : Program σ ε σ := fun s => ⟨.ok s, s, []⟩

/-- An assignment to variables of the program. -/
def assign (update : σ → σ) : Program σ ε Unit := fun s => ⟨.ok (), update s, []⟩

/-- An operation, which may change the state even when it raises. -/
def perform (operation : σ → Except ε Unit × σ) : Program σ ε Unit := fun s =>
  ⟨(operation s).1, (operation s).2, [(operation s).2]⟩

/-- A look at the state that leaves a mark on it. -/
def query (look : σ → α × σ) : Program σ ε α := fun s => ⟨.ok (look s).1, (look s).2, [(look s).2]⟩

/-- `try: program except: handler`. -/
def handle (program : Program σ ε α) (handler : ε → Program σ ε α) : Program σ ε α := fun s =>
  let run := program s
  match run.result with
  | .ok a => ⟨.ok a, run.state, run.visited⟩
  | .error e =>
      let rest := handler e run.state
      ⟨rest.result, rest.state, run.visited ++ rest.visited⟩

/-- `try: program finally: last`, which replaces what the program raises by what
`last` raises. -/
def andFinally (program : Program σ ε α) (last : Program σ ε Unit) : Program σ ε α := fun s =>
  let run := program s
  let rest := last run.state
  ⟨match rest.result with
    | .ok () => run.result
    | .error e => .error e, rest.state, run.visited ++ rest.visited⟩

end Program

/-! ## Triples -/

/-- The run returns with `Q`, raises with `E`, and goes through states with `A`. -/
structure Run.Meets (run : Run σ ε α) (Q : α → σ → Prop) (E : ε → σ → Prop) (A : σ → Prop) :
    Prop where
  returned : ∀ a, run.result = .ok a → Q a run.state
  raised : ∀ e, run.result = .error e → E e run.state
  visited : ∀ s ∈ run.visited, A s

/-- From every state with `P` the program meets the three conditions. -/
def Triple (E : ε → σ → Prop) (A : σ → Prop) (P : σ → Prop) (program : Program σ ε α)
    (Q : α → σ → Prop) : Prop :=
  ∀ s, P s → (program s).Meets Q E A

namespace Triple

variable {E E' : ε → σ → Prop} {A : σ → Prop} {P P' : σ → Prop} {Q Q' : α → σ → Prop}
  {R : β → σ → Prop} {program : Program σ ε α}

theorem pure {a : α} (h : ∀ s, P s → Q a s) : Triple E A P (Pure.pure a) Q := by
  intro s hs
  refine ⟨fun b hb => ?_, fun e he => ?_, fun t ht => ?_⟩
  · obtain rfl : a = b := Except.ok.inj hb
    exact h s hs
  · cases he
  · cases ht

theorem raise {e : ε} (h : ∀ s, P s → E e s) : Triple E A P (Program.raise e) Q := by
  intro s hs
  refine ⟨fun b hb => ?_, fun e' he => ?_, fun t ht => ?_⟩
  · cases hb
  · obtain rfl : e = e' := Except.error.inj he
    exact h s hs
  · cases ht

theorem check {test : σ → Except ε α} (hok : ∀ s a, P s → test s = .ok a → Q a s)
    (herror : ∀ s e, P s → test s = .error e → E e s) : Triple E A P (Program.check test) Q := by
  intro s hs
  refine ⟨fun a ha => hok s a hs ha, fun e he => herror s e hs he, fun t ht => ?_⟩
  cases ht

theorem get {Q : σ → σ → Prop} (h : ∀ s, P s → Q s s) : Triple E A P Program.get Q := by
  intro s hs
  refine ⟨fun t ht => ?_, fun e he => ?_, fun t ht => ?_⟩
  · obtain rfl : s = t := Except.ok.inj ht
    exact h s hs
  · cases he
  · cases ht

theorem assign {update : σ → σ} {Q : Unit → σ → Prop} (h : ∀ s, P s → Q () (update s)) :
    Triple E A P (Program.assign update) Q := by
  intro s hs
  refine ⟨fun a _ => h s hs, fun e he => ?_, fun t ht => ?_⟩
  · cases he
  · cases ht

theorem perform {operation : σ → Except ε Unit × σ} {Q : Unit → σ → Prop}
    (hok : ∀ s, P s → (operation s).1 = .ok () → Q () (operation s).2)
    (herror : ∀ s e, P s → (operation s).1 = .error e → E e (operation s).2)
    (hvisit : ∀ s, P s → A (operation s).2) : Triple E A P (Program.perform operation) Q := by
  intro s hs
  refine ⟨fun a ha => hok s hs ha, fun e he => herror s e hs he, fun t ht => ?_⟩
  obtain rfl := List.mem_singleton.1 ht
  exact hvisit s hs

theorem bind {next : α → Program σ ε β} (hprogram : Triple E A P program Q)
    (hnext : ∀ a, Triple E A (Q a) (next a) R) : Triple E A P (program >>= next) R := by
  intro s hs
  have hrun := hprogram s hs
  show (Program.bind program next s).Meets R E A
  cases hresult : (program s).result with
  | error e =>
      simp only [Program.bind, hresult]
      refine ⟨fun b hb => ?_, fun e' he => ?_, hrun.visited⟩
      · cases hb
      · obtain rfl : e = e' := Except.error.inj he
        exact hrun.raised e hresult
  | ok a =>
      simp only [Program.bind, hresult]
      have hrest := hnext a _ (hrun.returned a hresult)
      exact ⟨hrest.returned, hrest.raised, fun t ht => (List.mem_append.1 ht).elim
        (hrun.visited t) (hrest.visited t)⟩

theorem query {look : σ → α × σ} (h : ∀ s, P s → Q (look s).1 (look s).2 ∧ A (look s).2) :
    Triple E A P (Program.query look) Q := by
  intro s hs
  refine ⟨fun a ha => ?_, fun e he => ?_, fun t ht => ?_⟩
  · obtain rfl : (look s).1 = a := Except.ok.inj ha
    exact (h s hs).1
  · cases he
  · obtain rfl := List.mem_singleton.1 ht
    exact (h s hs).2

/-- A look at the state fixes it for what follows. -/
theorem get_bind {next : σ → Program σ ε β}
    (hnext : ∀ t, Triple E A (fun s => P s ∧ t = s) (next t) R) :
    Triple E A P (Program.get >>= next) R :=
  .bind (.get fun _ hs => ⟨hs, rfl⟩) hnext

/-- The handler starts in the state the program raised with. -/
theorem handle {handler : ε → Program σ ε α} (hprogram : Triple E A P program Q)
    (hhandler : ∀ e, Triple E' A (E e) (handler e) Q) :
    Triple E' A P (program.handle handler) Q := by
  intro s hs
  have hrun := hprogram s hs
  cases hresult : (program s).result with
  | ok a =>
      simp only [Program.handle, hresult]
      refine ⟨fun b hb => ?_, fun e he => ?_, hrun.visited⟩
      · obtain rfl : a = b := Except.ok.inj hb
        exact hrun.returned a hresult
      · cases he
  | error e =>
      simp only [Program.handle, hresult]
      have hrest := hhandler e _ (hrun.raised e hresult)
      exact ⟨hrest.returned, hrest.raised, fun t ht => (List.mem_append.1 ht).elim
        (hrun.visited t) (hrest.visited t)⟩

/-- What comes last keeps both conditions. -/
theorem andFinally {last : Program σ ε Unit} (hprogram : Triple E A P program Q)
    (hreturn : ∀ a, Triple E A (Q a) last fun _ => Q a)
    (hraise : ∀ e, Triple E A (E e) last fun _ => E e) :
    Triple E A P (program.andFinally last) Q := by
  intro s hs
  have hrun := hprogram s hs
  have hlast : ∀ {R : σ → Prop}, Triple E A R last (fun _ => R) → R (program s).state →
      ∀ t ∈ ((program s).visited ++ (last (program s).state).visited), A t :=
    fun h hR t ht => (List.mem_append.1 ht).elim (hrun.visited t) ((h _ hR).visited t)
  cases hresult : (program s).result with
  | ok a =>
      have hR := hrun.returned a hresult
      have hrest := hreturn a _ hR
      simp only [Program.andFinally, hresult]
      refine ⟨fun b hb => ?_, fun e he => ?_, hlast (hreturn a) hR⟩
      · cases hfinal : (last (program s).state).result with
        | ok u =>
            obtain rfl : a = b := by simpa [hfinal] using hb
            exact hrest.returned u hfinal
        | error e => simp [hfinal] at hb
      · cases hfinal : (last (program s).state).result with
        | ok u => simp [hfinal] at he
        | error e' =>
            obtain rfl : e' = e := by simpa [hfinal] using he
            exact hrest.raised e' hfinal
  | error e =>
      have hR := hrun.raised e hresult
      have hrest := hraise e _ hR
      simp only [Program.andFinally, hresult]
      refine ⟨fun b hb => ?_, fun e' he => ?_, hlast (hraise e) hR⟩
      · cases hfinal : (last (program s).state).result <;> simp [hfinal] at hb
      · cases hfinal : (last (program s).state).result with
        | ok u =>
            obtain rfl : e = e' := by simpa [hfinal] using he
            exact hrest.returned u hfinal
        | error e'' =>
            obtain rfl : e'' = e' := by simpa [hfinal] using he
            exact hrest.raised e'' hfinal

theorem weaken (h : Triple E A P program Q) (hpre : ∀ s, P' s → P s)
    (hpost : ∀ a s, Q a s → Q' a s) : Triple E A P' program Q' := by
  intro s hs
  have hrun := h s (hpre s hs)
  exact ⟨fun a ha => hpost a _ (hrun.returned a ha), hrun.raised, hrun.visited⟩

/-- Nothing is said. -/
theorem trivially : Triple (fun _ _ => True) (fun _ => True) P program fun _ _ => True :=
  fun _ _ => ⟨fun _ _ => trivial, fun _ _ => trivial, fun _ _ => trivial⟩

theorem raises (h : Triple E A P program Q) (hraise : ∀ e s, E e s → E' e s) :
    Triple E' A P program Q := by
  intro s hs
  have hrun := h s hs
  exact ⟨hrun.returned, fun e he => hraise e _ (hrun.raised e he), hrun.visited⟩

theorem exists_pre {ι : Type} {P : ι → σ → Prop} (h : ∀ i, Triple E A (P i) program Q) :
    Triple E A (fun s => ∃ i, P i s) program Q :=
  fun s ⟨i, hs⟩ => h i s hs

/-- A part of the condition that does not speak about the state. -/
theorem assume {p : Prop} (h : p → Triple E A P program Q) :
    Triple E A (fun s => P s ∧ p) program Q :=
  fun s ⟨hs, hp⟩ => h hp s hs

theorem ite {c : Prop} [Decidable c] {other : Program σ ε α}
    (hthen : c → Triple E A P program Q) (helse : ¬c → Triple E A P other Q) :
    Triple E A P (if c then program else other) Q := by
  split
  · exact hthen ‹c›
  · exact helse ‹¬c›

end Triple

/-! ## Runs that return -/

/-- The run from `s` returns `a` and ends in `t`. -/
structure Returns (program : Program σ ε α) (s : σ) (a : α) (t : σ) : Prop where
  result : (program s).result = .ok a
  state : (program s).state = t

namespace Returns

variable {program : Program σ ε α} {s t u : σ} {a : α}

theorem pure (a : α) (s : σ) : Returns (Pure.pure a : Program σ ε α) s a s := ⟨rfl, rfl⟩

theorem check {test : σ → Except ε α} (h : test s = .ok a) : Returns (Program.check test) s a s :=
  ⟨h, rfl⟩

theorem get (s : σ) : Returns (Program.get : Program σ ε σ) s s s := ⟨rfl, rfl⟩

theorem assign (update : σ → σ) (s : σ) :
    Returns (Program.assign update : Program σ ε Unit) s () (update s) := ⟨rfl, rfl⟩

theorem perform {operation : σ → Except ε Unit × σ} (h : operation s = (.ok (), t)) :
    Returns (Program.perform operation) s () t :=
  ⟨congrArg Prod.fst h, congrArg Prod.snd h⟩

theorem bind {next : α → Program σ ε β} {b : β} (hprogram : Returns program s a t)
    (hnext : Returns (next a) t b u) : Returns (program >>= next) s b u := by
  obtain ⟨hresult, rfl⟩ := hprogram
  obtain ⟨hresult', rfl⟩ := hnext
  have hrun : (program >>= next) s = Program.bind program next s := rfl
  constructor
  · rw [hrun]
    simp only [Program.bind, hresult, hresult']
  · rw [hrun]
    simp only [Program.bind, hresult]

/-- A handler is not run. -/
theorem handle (handler : ε → Program σ ε α) (h : Returns program s a t) :
    Returns (program.handle handler) s a t := by
  obtain ⟨hresult, rfl⟩ := h
  constructor
  · simp only [Program.handle, hresult]
  · simp only [Program.handle, hresult]

end Returns

end CkbSail.ProofSupport
