import CkbSail.Core.Compare
import CkbSail.PythonStd.Json

/-!
# Traces as JSON

`toJson` is the derived serialization.  `Reads` relates a JSON value to the data
it stands for, whatever the order of its keys; the serialization is read back,
and values that are read are equal exactly when the data are.
-/

namespace CkbSail.Core

open PythonStd

/-- An optional value, with `None` as null. -/
def optionJson {α : Type} (toJson : α → Json) : Option α → Json
  | none => .null
  | some a => toJson a

def RegisterWrite.fields (write : RegisterWrite) : List (String × Json) :=
  [("index", .int write.index.toNat), ("value", .int write.value.toNat)]

def MemoryAccess.fields (access : MemoryAccess) : List (String × Json) :=
  [("address", .int access.address.toNat), ("read_mask", .int access.readMask.toNat),
    ("write_mask", .int access.writeMask.toNat), ("read_data", .int access.readData.toNat),
    ("write_data", .int access.writeData.toNat)]

/-- The fields of an event, given the values of its two lists. -/
def CommitEvent.fields (event : CommitEvent) (writes memory : List Json) :
    List (String × Json) :=
  [("order", .int event.order.toNat), ("instruction", .int event.instruction.toNat),
    ("pc_before", .int event.pcBefore.toNat), ("pc_after", .int event.pcAfter.toNat),
    ("register_writes", .arr writes), ("memory", .arr memory), ("trap", .bool event.trap),
    ("halt", .bool event.halt)]

def TraceEnd.fields (traceEnd : TraceEnd) : List (String × Json) :=
  match traceEnd with
  | .completed exitCode =>
      [("kind", .str "completed"), ("exit_code", optionJson (fun c => .int c.toInt) exitCode)]
  | .stepLimit => [("kind", .str "step_limit")]
  | .injectionComplete => [("kind", .str "injection_complete")]
  | .trap reason => [("kind", .str "trap"), ("reason", .str reason)]
  | .error message => [("kind", .str "error"), ("message", .str message)]

def RegisterWrite.toJson (write : RegisterWrite) : Json := .obj write.fields

def MemoryAccess.toJson (access : MemoryAccess) : Json := .obj access.fields

def CommitEvent.toJson (event : CommitEvent) : Json :=
  .obj (event.fields (event.registerWrites.map RegisterWrite.toJson)
    (event.memory.map MemoryAccess.toJson))

def TraceEnd.toJson (traceEnd : TraceEnd) : Json := .obj traceEnd.fields

def ExecutionTrace.toJson (trace : ExecutionTrace) : Json :=
  .obj [("events", .arr (trace.events.map CommitEvent.toJson)), ("end", trace.traceEnd.toJson)]

def TraceMismatch.toJson (mismatch : TraceMismatch) : Json :=
  .obj [("step", optionJson (fun n => .int n) mismatch.step), ("field", .str mismatch.field),
    ("left", .str mismatch.left), ("right", .str mismatch.right)]

def CompareResult.toJson (result : CompareResult) : Json :=
  .obj [("compared_steps", .int result.comparedSteps),
    ("mismatch", optionJson TraceMismatch.toJson result.mismatch)]

/-! ## Reading -/

def ReadsWrite (value : Json) (write : RegisterWrite) : Prop := value.Represents write.fields

def ReadsAccess (value : Json) (access : MemoryAccess) : Prop := value.Represents access.fields

def ReadsEvent (value : Json) (event : CommitEvent) : Prop :=
  ∃ writes memory, value.Represents (event.fields writes memory) ∧
    List.Forall₂ ReadsWrite writes event.registerWrites ∧
    List.Forall₂ ReadsAccess memory event.memory

def ReadsEnd (value : Json) (traceEnd : TraceEnd) : Prop := value.Represents traceEnd.fields

def ReadsTrace (value : Json) (trace : ExecutionTrace) : Prop :=
  ∃ events traceEnd, value.Represents [("events", .arr events), ("end", traceEnd)] ∧
    List.Forall₂ ReadsEvent events trace.events ∧ ReadsEnd traceEnd trace.traceEnd

theorem forall₂_map_left {α : Type} {R : Json → α → Prop} {toJson : α → Json}
    (h : ∀ a, R (toJson a) a) (items : List α) : List.Forall₂ R (items.map toJson) items := by
  induction items with
  | nil => exact .nil
  | cons a items ih => exact .cons (h a) ih

theorem readsWrite_toJson (write : RegisterWrite) : ReadsWrite write.toJson write :=
  Json.represents_obj _

theorem readsAccess_toJson (access : MemoryAccess) : ReadsAccess access.toJson access :=
  Json.represents_obj _

theorem readsEvent_toJson (event : CommitEvent) : ReadsEvent event.toJson event :=
  ⟨_, _, Json.represents_obj _, forall₂_map_left readsWrite_toJson _,
    forall₂_map_left readsAccess_toJson _⟩

theorem readsEnd_toJson (traceEnd : TraceEnd) : ReadsEnd traceEnd.toJson traceEnd :=
  Json.represents_obj _

/-- A serialized trace is read back. -/
theorem readsTrace_toJson (trace : ExecutionTrace) : ReadsTrace trace.toJson trace :=
  ⟨_, _, Json.represents_obj _, forall₂_map_left readsEvent_toJson _, readsEnd_toJson _⟩

/-! ## Equality of what is read -/

theorem eq_iff_of_readsWrite (x : Json) (a : RegisterWrite) (y : Json) (b : RegisterWrite)
    (hx : ReadsWrite x a) (hy : ReadsWrite y b) :
    Json.eqBy Json.looseAtom x y = true ↔ a = b := by
  rw [hx.eqBy hy, RegisterWrite.fields, RegisterWrite.fields]
  cases a
  cases b
  simp [Json.eqBy, Json.eqFields, Json.eqBinding, Json.lookup_cons, Json.looseAtom,
    Json.number?, UInt8.toNat_inj, UInt64.toNat_inj]

theorem eq_iff_of_readsAccess (x : Json) (a : MemoryAccess) (y : Json) (b : MemoryAccess)
    (hx : ReadsAccess x a) (hy : ReadsAccess y b) :
    Json.eqBy Json.looseAtom x y = true ↔ a = b := by
  rw [hx.eqBy hy, MemoryAccess.fields, MemoryAccess.fields]
  cases a
  cases b
  simp [Json.eqBy, Json.eqFields, Json.eqBinding, Json.lookup_cons, Json.looseAtom,
    Json.number?, UInt32.toNat_inj, UInt64.toNat_inj]

theorem eq_iff_of_readsEnd {x y : Json} {a b : TraceEnd} (hx : ReadsEnd x a)
    (hy : ReadsEnd y b) : x.eq y = true ↔ a = b := by
  rw [Json.eq, hx.eqBy hy]
  cases a with
  | completed c =>
      cases b with
      | completed d =>
          cases c <;> cases d <;>
            simp [TraceEnd.fields, optionJson, Json.eqBy, Json.eqFields, Json.eqBinding,
              Json.lookup_cons, Json.looseAtom, Json.number?, Int32.toInt_inj]
      | _ => simp [TraceEnd.fields, Json.eqBy, Json.eqFields, Json.eqBinding, Json.lookup_cons,
          Json.looseAtom]
  | _ =>
      cases b <;> simp [TraceEnd.fields, Json.eqBy, Json.eqFields, Json.eqBinding,
        Json.lookup_cons, Json.looseAtom]

end CkbSail.Core
