import CkbSail.ProofSupport.FaultyProgram

/-!
# Runs with one outcome

A triple bounds what a program may do.  Where the part of the state that matters
decides the outcome, the outcome itself can be said.
-/

namespace CkbSail.ProofSupport

variable {σ ε α β τ : Type}

theorem except_bind_eq_ok {x : Except ε α} {f : α → Except ε β} {b : β} :
    x >>= f = .ok b ↔ ∃ a, x = .ok a ∧ f a = .ok b := by
  cases x with
  | error e => simp [bind, Except.bind]
  | ok a => simp [bind, Except.bind]

theorem except_pure_eq_ok {a b : α} : (pure a : Except ε α) = .ok b ↔ a = b :=
  ⟨fun h => Except.ok.inj h, fun h => congrArg _ h⟩

theorem Program.bind_result_eq_ok {program : Program σ ε α} {next : α → Program σ ε β} {s : σ}
    {b : β} : ((program >>= next) s).result = .ok b ↔
      ∃ a, (program s).result = .ok a ∧ (next a (program s).state).result = .ok b := by
  show (Program.bind program next s).result = .ok b ↔ _
  cases hresult : (program s).result with
  | error e => simp [Program.bind, hresult]
  | ok a => simp [Program.bind, hresult]

theorem Program.bind_state_of_ok {program : Program σ ε α} {next : α → Program σ ε β} {s : σ}
    {a : α} (h : (program s).result = .ok a) :
    ((program >>= next) s).state = (next a (program s).state).state := by
  show (Program.bind program next s).state = _
  simp only [Program.bind, h]

theorem Program.bind_state_of_not_ok {program : Program σ ε α} {next : α → Program σ ε β} {s : σ}
    (h : ∀ a, (program s).result ≠ .ok a) : ((program >>= next) s).state = (program s).state := by
  show (Program.bind program next s).state = _
  cases hresult : (program s).result with
  | error e => simp only [Program.bind, hresult]
  | ok a => exact absurd hresult (h a)

theorem Program.andFinally_result_eq_ok {program : Program σ ε α} {last : Program σ ε Unit} {s : σ}
    {a : α} : (program.andFinally last s).result = .ok a ↔
      (program s).result = .ok a ∧ (last (program s).state).result = .ok () := by
  rw [Program.andFinally]
  cases hlast : (last (program s).state).result with
  | ok u => simp
  | error e => simp

/-- From every state with the view `before` the program ends with `result`, in a
state with the view `after`. -/
def Ends (view : σ → τ) (program : Program σ ε α) (before : τ) (result : Except ε α)
    (after : τ) : Prop :=
  ∀ s, view s = before → (program s).result = result ∧ view (program s).state = after

namespace Ends

variable {view : σ → τ} {program : Program σ ε α} {next : α → Program σ ε β} {a : α} {e : ε}
  {before middle after : τ}

theorem pure : Ends view (Pure.pure a : Program σ ε α) before (.ok a) before :=
  fun _ hs => ⟨rfl, hs⟩

theorem raise : Ends view (Program.raise e : Program σ ε α) before (.error e) before :=
  fun _ hs => ⟨rfl, hs⟩

theorem check {test : σ → Except ε α} {result : Except ε α}
    (h : ∀ s, view s = before → test s = result) :
    Ends view (Program.check test) before result before :=
  fun s hs => ⟨h s hs, hs⟩

theorem query {look : σ → α × σ} (h : ∀ s, view s = before → (look s).1 = a ∧
    view (look s).2 = before) : Ends view (.query look : Program σ ε α) before (.ok a) before := by
  intro s hs
  obtain ⟨hanswer, hview⟩ := h s hs
  exact ⟨congrArg Except.ok hanswer, hview⟩

theorem bind_ok {result : Except ε β} (hprogram : Ends view program before (.ok a) middle)
    (hnext : Ends view (next a) middle result after) :
    Ends view (program >>= next) before result after := by
  intro s hs
  obtain ⟨hresult, hview⟩ := hprogram s hs
  show (Program.bind program next s).result = _ ∧ view (Program.bind program next s).state = _
  simp only [Program.bind, hresult]
  exact hnext _ hview

theorem bind_error (hprogram : Ends view program before (.error e) after) :
    Ends view (program >>= next) before (.error e) after := by
  intro s hs
  obtain ⟨hresult, hview⟩ := hprogram s hs
  show (Program.bind program next s).result = _ ∧ view (Program.bind program next s).state = _
  simp only [Program.bind, hresult]
  exact ⟨trivial, hview⟩

variable {handler : ε → Program σ ε α}

theorem handle_ok (hprogram : Ends view program before (.ok a) after) :
    Ends view (program.handle handler) before (.ok a) after := by
  intro s hs
  obtain ⟨hresult, hview⟩ := hprogram s hs
  simp only [Program.handle, hresult]
  exact ⟨trivial, hview⟩

theorem handle_error {result : Except ε α} (hprogram : Ends view program before (.error e) middle)
    (hhandler : Ends view (handler e) middle result after) :
    Ends view (program.handle handler) before result after := by
  intro s hs
  obtain ⟨hresult, hview⟩ := hprogram s hs
  simp only [Program.handle, hresult]
  exact hhandler _ hview

end Ends

/-- From every state with the view `before` the program raises, and the view stays. -/
def Fails (view : σ → τ) (program : Program σ ε α) (before : τ) : Prop :=
  ∃ e, Ends view program before (.error e) before

namespace Fails

variable {view : σ → τ} {program : Program σ ε α} {next : α → Program σ ε β} {a : α} {before : τ}

theorem raise {e : ε} : Fails view (Program.raise e : Program σ ε α) before := ⟨e, .raise⟩

theorem first (h : Fails view program before) : Fails view (program >>= next) before := by
  obtain ⟨e, he⟩ := h
  exact ⟨e, he.bind_error⟩

theorem later (hprogram : Ends view program before (.ok a) before)
    (h : Fails view (next a) before) : Fails view (program >>= next) before := by
  obtain ⟨e, he⟩ := h
  exact ⟨e, hprogram.bind_ok he⟩

end Fails

end CkbSail.ProofSupport
