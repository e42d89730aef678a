import CkbSail.Core.Event
import CkbSail.RustStd.Format
import CkbSail.ProofSupport.FirstDifference

/-!
# Strict trace comparison

A common prefix is never sufficient for a pass: after the events, the lengths,
the terminations and the emptiness of the traces are checked in that order.
-/

namespace CkbSail.Core

open RustStd ProofSupport

inductive TerminalPolicy where
  | exact
  | categoryOnly
deriving DecidableEq, Repr

structure TraceMismatch where
  step : Option Nat
  field : String
  left : String
  right : String
deriving DecidableEq, Repr

structure CompareResult where
  comparedSteps : Nat
  mismatch : Option TraceMismatch
deriving DecidableEq, Repr

def CompareResult.passed (result : CompareResult) : Bool := result.mismatch.isNone

/-! ## Debug text of the compared values -/

def RegisterWrite.debug (write : RegisterWrite) : String :=
  s!"RegisterWrite \x7b index: {write.index}, value: {write.value} \x7d"

def MemoryAccess.debug (access : MemoryAccess) : String :=
  s!"MemoryAccess \x7b address: {access.address}, read_mask: {access.readMask}, " ++
    s!"write_mask: {access.writeMask}, read_data: {access.readData}, " ++
    s!"write_data: {access.writeData} \x7d"

def TraceEnd.debug [StrDebug] : TraceEnd → String
  | .completed code => "Completed \x7b exit_code: " ++ optionDebug toString code ++ " \x7d"
  | .stepLimit => "StepLimit"
  | .injectionComplete => "InjectionComplete"
  | .trap reason => "Trap \x7b reason: " ++ strDebug reason ++ " \x7d"
  | .error message => "Error \x7b message: " ++ strDebug message ++ " \x7d"

/-! ## The comparator -/

/-- One expansion of the `compare_field!` macro. -/
def compareField {α : Type} [DecidableEq α] (debug : α → String) (name : String)
    (step : Nat) (left right : α) : Option TraceMismatch :=
  if left ≠ right then some ⟨some step, name, debug left, debug right⟩ else none

def compareEvent (step : Nat) (left right : CommitEvent) : Option TraceMismatch :=
  compareField toString "order" step left.order right.order <|>
  compareField toString "instruction" step left.instruction right.instruction <|>
  compareField toString "pc_before" step left.pcBefore right.pcBefore <|>
  compareField toString "pc_after" step left.pcAfter right.pcAfter <|>
  compareField (listDebug RegisterWrite.debug) "register_writes" step
    left.registerWrites right.registerWrites <|>
  compareField (listDebug MemoryAccess.debug) "memory" step left.memory right.memory <|>
  compareField toString "trap" step left.trap right.trap <|>
  compareField toString "halt" step left.halt right.halt

/-- The loop over the common prefix: the step of the first mismatch, and it. -/
def compareEvents : Nat → List CommitEvent → List CommitEvent → Option (Nat × TraceMismatch)
  | step, left :: lefts, right :: rights =>
      match compareEvent step left right with
      | some mismatch => some (step, mismatch)
      | none => compareEvents (step + 1) lefts rights
  | _, _, _ => none

def terminalMatches (left right : TraceEnd) : TerminalPolicy → Bool
  | .exact => left = right
  | .categoryOnly => left.category = right.category

def CompareResult.compareWithPolicy [StrDebug] (left right : ExecutionTrace) (policy : TerminalPolicy) :
    CompareResult :=
  match compareEvents 0 left.events right.events with
  | some (step, mismatch) => ⟨step, some mismatch⟩
  | none =>
      let common := min left.events.length right.events.length
      if left.events.length ≠ right.events.length then
        ⟨common, some ⟨some common, "trace_length", toString left.events.length,
          toString right.events.length⟩⟩
      else if ¬terminalMatches left.traceEnd right.traceEnd policy then
        ⟨common, some ⟨none, "termination", left.traceEnd.debug, right.traceEnd.debug⟩⟩
      else if common = 0 then
        ⟨0, some ⟨none, "empty_trace", "0 committed events", "0 committed events"⟩⟩
      else ⟨common, none⟩

def CompareResult.compare [StrDebug] (left right : ExecutionTrace) : CompareResult :=
  compareWithPolicy left right .exact

/-! ## The compared observations -/

/-- The eight fields of an event, in the order they are compared. -/
inductive Field where
  | order | instruction | pcBefore | pcAfter | registerWrites | memory | trap | halt
deriving DecidableEq, Repr

def Field.rank : Field → Fin 8
  | .order => 0
  | .instruction => 1
  | .pcBefore => 2
  | .pcAfter => 3
  | .registerWrites => 4
  | .memory => 5
  | .trap => 6
  | .halt => 7

theorem Field.rank_injective : Function.Injective Field.rank := by
  intro f g h
  cases f <;> cases g <;> first | rfl | cases h

instance : LinearOrder Field := LinearOrder.lift' Field.rank Field.rank_injective

def Field.name : Field → String
  | .order => "order"
  | .instruction => "instruction"
  | .pcBefore => "pc_before"
  | .pcAfter => "pc_after"
  | .registerWrites => "register_writes"
  | .memory => "memory"
  | .trap => "trap"
  | .halt => "halt"

def Field.all : List Field :=
  [.order, .instruction, .pcBefore, .pcAfter, .registerWrites, .memory, .trap, .halt]

theorem Field.mem_all (field : Field) : field ∈ Field.all := by
  cases field <;> decide

theorem Field.all_sorted : Field.all.Pairwise (· < ·) := by decide

/-- Whether two events differ in one field. -/
def CommitEvent.differs (field : Field) (left right : CommitEvent) : Bool :=
  match field with
  | .order => left.order ≠ right.order
  | .instruction => left.instruction ≠ right.instruction
  | .pcBefore => left.pcBefore ≠ right.pcBefore
  | .pcAfter => left.pcAfter ≠ right.pcAfter
  | .registerWrites => left.registerWrites ≠ right.registerWrites
  | .memory => left.memory ≠ right.memory
  | .trap => left.trap ≠ right.trap
  | .halt => left.halt ≠ right.halt

@[simp] theorem CommitEvent.differs_self (field : Field) (event : CommitEvent) :
    CommitEvent.differs field event event = false := by
  cases field <;> simp [CommitEvent.differs]

/-- Events that differ in no field are equal. -/
theorem CommitEvent.eq_of_not_differs {left right : CommitEvent}
    (h : ∀ field, CommitEvent.differs field left right = false) : left = right := by
  have horder := h .order
  have hinstruction := h .instruction
  have hbefore := h .pcBefore
  have hafter := h .pcAfter
  have hwrites := h .registerWrites
  have hmemory := h .memory
  have htrap := h .trap
  have hhalt := h .halt
  simp only [CommitEvent.differs, ne_eq, decide_not, Bool.not_eq_eq_eq_not, Bool.not_false,
    decide_eq_true_eq] at *
  cases left
  cases right
  simp_all

/-- Every pair of a step and a field at which two traces differ. -/
def traceDifferences (left right : ExecutionTrace) : Set (ℕ ×ₗ Field) :=
  differences CommitEvent.differs left.events right.events

end CkbSail.Core
