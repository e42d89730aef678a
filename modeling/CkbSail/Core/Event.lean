import CkbSail.ProofSupport.RegisterObservers
import Mathlib.Data.List.Sort
import Mathlib.Data.Fintype.Basic

/-!
# Normalized architectural observations

The backend-neutral commit events both engines are reduced to, the width
normalization of fetched words, and the shadow register file that brings a
write observer down to the resolution of a state observer.
-/

namespace CkbSail.Core

structure RegisterWrite where
  index : UInt8
  value : UInt64
deriving DecidableEq, Repr

structure MemoryAccess where
  address : UInt64
  readMask : UInt32
  writeMask : UInt32
  readData : UInt64
  writeData : UInt64
deriving DecidableEq, Repr

structure CommitEvent where
  order : UInt64
  instruction : UInt32
  pcBefore : UInt64
  pcAfter : UInt64
  registerWrites : List RegisterWrite
  memory : List MemoryAccess
  trap : Bool
  halt : Bool
deriving DecidableEq, Repr

/-- Drop architectural no-ops: writes to x0 and accesses with empty masks. -/
def CommitEvent.normalize (event : CommitEvent) : CommitEvent :=
  { event with
    registerWrites := event.registerWrites.filter fun write => write.index ≠ 0
    memory := event.memory.filter fun access =>
      access.readMask ≠ 0 || access.writeMask ≠ 0 }

/-- An event without no-ops is normal. -/
theorem CommitEvent.normalize_eq_self {event : CommitEvent}
    (hwrites : ∀ w ∈ event.registerWrites, w.index ≠ 0)
    (hmemory : ∀ a ∈ event.memory, a.readMask ≠ 0 ∨ a.writeMask ≠ 0) :
    event.normalize = event := by
  have h₁ : event.registerWrites.filter (fun write => write.index ≠ 0) =
      event.registerWrites := List.filter_eq_self.2 (by simpa using hwrites)
  have h₂ : event.memory.filter (fun access => access.readMask ≠ 0 || access.writeMask ≠ 0) =
      event.memory := List.filter_eq_self.2 (by simpa using hmemory)
  rw [normalize, h₁, h₂]

inductive TraceEnd where
  | completed (exitCode : Option Int32)
  | stepLimit
  | injectionComplete
  | trap (reason : String)
  | error (message : String)
deriving DecidableEq, Repr

def TraceEnd.category : TraceEnd → String
  | .completed _ => "completed"
  | .stepLimit => "step_limit"
  | .injectionComplete => "injection_complete"
  | .trap _ => "trap"
  | .error _ => "error"

structure ExecutionTrace where
  events : List CommitEvent
  traceEnd : TraceEnd
deriving DecidableEq, Repr

/-- A fetched word without the bytes of the following instruction. -/
def normalizeInstructionWidth (bits : UInt32) : UInt32 :=
  if bits &&& 0b11 = 0b11 then bits else bits &&& 0xffff

theorem normalizeInstructionWidth_of_wide {bits : UInt32} (h : bits &&& 0b11 = 0b11) :
    normalizeInstructionWidth bits = bits := if_pos h

theorem normalizeInstructionWidth_of_compressed {bits : UInt32} (h : bits &&& 0b11 ≠ 0b11) :
    normalizeInstructionWidth bits = bits &&& 0xffff := if_neg h

/-- Masking to the low half keeps the two width bits. -/
theorem low_half_and_three (bits : UInt32) : bits &&& 0xffff &&& 0b11 = bits &&& 0b11 := by
  rw [UInt32.and_assoc]
  rfl

/-! ## Register files -/

/-- The integer register file, as `[u64; 32]`. -/
abbrev Registers := Vector UInt64 32

/-- The file as a function from register numbers. -/
def Registers.file (registers : Registers) : Fin 32 → UInt64 := fun i => registers[i]

/-- x1..x31, in order: the registers that carry architectural state. -/
def architectural : List (Fin 32) := (List.finRange 32).tail

theorem mem_architectural {i : Fin 32} : i ∈ architectural ↔ i ≠ 0 := by
  revert i
  decide

theorem architectural_nodup : architectural.Nodup := by decide

/-- Two register files that hold the same x1..x31. -/
abbrev Registers.Agree (left right : Registers) : Prop :=
  ProofSupport.RegisterObservers.Agree architectural left.file right.file

theorem Registers.agree_iff {left right : Registers} :
    left.Agree right ↔ ∀ (i : Nat) (hi : i < 32), 1 ≤ i → left[i] = right[i] := by
  constructor
  · intro h i hi hpos
    refine h ⟨i, hi⟩ (mem_architectural.2 fun hzero => ?_)
    have : i = 0 := congrArg Fin.val hzero
    omega
  · intro h i hi
    have hne := mem_architectural.1 hi
    exact h i i.isLt (Nat.pos_of_ne_zero fun hzero => hne (Fin.ext hzero))

def toWrite (change : Fin 32 × UInt64) : RegisterWrite :=
  ⟨UInt8.ofNat change.1.val, change.2⟩

@[simp] theorem toWrite_index (change : Fin 32 × UInt64) :
    (toWrite change).index.toNat = change.1.val := by
  have := change.1.isLt
  simp only [toWrite, UInt8.toNat_ofNat']
  omega

theorem toWrite_injective : Function.Injective toWrite := by
  rintro ⟨i, v⟩ ⟨j, w⟩ h
  have hindex : i.val = j.val := by
    rw [← toWrite_index (i, v), h, toWrite_index]
  obtain rfl : i = j := Fin.ext hindex
  obtain rfl : v = w := congrArg RegisterWrite.value h
  rfl

/-- A change of x1..x31 names none but these. -/
theorem delta_index_ne_zero (before after : Fin 32 → UInt64) :
    ∀ w ∈ (ProofSupport.RegisterObservers.delta architectural before after).map toWrite,
      w.index ≠ 0 := by
  intro w hw
  obtain ⟨⟨i, v⟩, hmem, rfl⟩ := List.mem_map.1 hw
  have hne := mem_architectural.1 (ProofSupport.RegisterObservers.mem_delta.1 hmem).1
  intro hzero
  have hval : i.val = 0 := by rw [← toWrite_index (i, v), hzero]; rfl
  exact hne (Fin.ext hval)

/-! ## The shadow file -/

structure RegisterShadow where
  registers : Registers
deriving DecidableEq

def RegisterShadow.zeroed : RegisterShadow := ⟨Vector.replicate 32 0⟩

/-- Record a reported write and return it only if it changes the state. -/
def RegisterShadow.observe (shadow : RegisterShadow) (index : UInt8) (value : UInt64) :
    RegisterShadow × Option RegisterWrite :=
  if h : index = 0 ∨ 32 ≤ index.toNat then (shadow, none)
  else
    have hlt : index.toNat < 32 := by omega
    if shadow.registers[index.toNat] = value then (shadow, none)
    else (⟨shadow.registers.set index.toNat value⟩, some ⟨index, value⟩)

open ProofSupport

theorem Registers.file_set (registers : Registers) (i : Nat) (hi : i < 32) (value : UInt64) :
    Registers.file (registers.set i value) =
      Function.update registers.file ⟨i, hi⟩ value := by
  funext j
  simp only [Registers.file, Fin.getElem_fin, Vector.getElem_set, Function.update_apply]
  by_cases hij : i = j.val
  · simp [hij]
  · have hne : j ≠ ⟨i, hi⟩ := fun heq => hij (congrArg Fin.val heq).symm
    simp [hij, hne]

/-- A reported write outside x1..x31 leaves no trace. -/
theorem RegisterShadow.observe_of_hidden (shadow : RegisterShadow) {index : UInt8}
    (value : UInt64) (h : index = 0 ∨ 32 ≤ index.toNat) :
    shadow.observe index value = (shadow, none) := by
  rw [observe, dif_pos h]

theorem RegisterShadow.observe_of_visible (shadow : RegisterShadow) {index : UInt8}
    (value : UInt64) (hzero : index ≠ 0) (hlt : index.toNat < 32) :
    shadow.observe index value =
      if shadow.registers[index.toNat] = value then (shadow, none)
      else (⟨shadow.registers.set index.toNat value⟩, some ⟨index, value⟩) := by
  rw [observe, dif_neg (by rintro (h | h); exacts [hzero h, by omega])]

/-- `observe` is the abstract write observer on the architectural registers. -/
theorem RegisterShadow.observe_of_lt (shadow : RegisterShadow) (index : UInt8)
    (value : UInt64) (hlt : index.toNat < 32) :
    (shadow.observe index value).1.registers.file =
        RegisterObservers.write architectural shadow.registers.file ⟨index.toNat, hlt⟩ value ∧
      (shadow.observe index value).2.toList =
        (RegisterObservers.observe architectural shadow.registers.file
          ⟨index.toNat, hlt⟩ value).map toWrite := by
  have hmem : (⟨index.toNat, hlt⟩ : Fin 32) ∈ architectural ↔ index ≠ 0 := by
    rw [mem_architectural, not_iff_not, Fin.ext_iff, ← UInt8.toNat_inj]
    rfl
  have hindex : UInt8.ofNat index.toNat = index := UInt8.ofNat_toNat
  have hold : shadow.registers.file ⟨index.toNat, hlt⟩ = shadow.registers[index.toNat] := rfl
  unfold RegisterObservers.write RegisterObservers.observe
  simp only [hmem, hold]
  by_cases hzero : index = 0
  · rw [shadow.observe_of_hidden value (Or.inl hzero)]
    simp [hzero]
  · rw [shadow.observe_of_visible value hzero hlt]
    by_cases hsame : shadow.registers[index.toNat] = value
    · have hkeep : Function.update shadow.registers.file ⟨index.toNat, hlt⟩ value =
          shadow.registers.file := by
        rw [← hsame, ← hold, Function.update_eq_self]
      simp [hzero, hsame, hkeep]
    · simp [hzero, hsame, toWrite, Registers.file_set]

/-- Whatever write is reported, the shadow file changes by exactly what
`observe` returns. -/
theorem RegisterShadow.observe_delta (shadow : RegisterShadow) (index : UInt8)
    (value : UInt64) :
    (shadow.observe index value).2.toList =
      (RegisterObservers.delta architectural shadow.registers.file
        (shadow.observe index value).1.registers.file).map toWrite := by
  by_cases hlt : index.toNat < 32
  · obtain ⟨hfile, hlist⟩ := shadow.observe_of_lt index value hlt
    rw [hfile, hlist, RegisterObservers.delta_write architectural_nodup]
  · rw [shadow.observe_of_hidden value (Or.inr (by omega)), RegisterObservers.delta_self]
    rfl

/-- A reported change names a register of x1..x31. -/
theorem RegisterShadow.observe_index_ne_zero (shadow : RegisterShadow) (index : UInt8)
    (value : UInt64) : ∀ w ∈ (shadow.observe index value).2.toList, w.index ≠ 0 := by
  rw [observe_delta]
  exact delta_index_ne_zero _ _

end CkbSail.Core
