import CkbSail.ProofSupport.Records
import CkbSail.SailRunner.RvfiText

/-!
# The records of a text

The parser is a reader of records over the lines that name a recognized field:
each event comes from one block of lines that ends with its `rvfi_order` line.
-/

namespace CkbSail.SailRunner

open CkbSail.Core RustStd ProofSupport

/-! ## Recognized lines -/

/-- The recognized field a line names, and its raw value. -/
def fieldLine (line : List Char) : Option (RvfiField × List Char) :=
  (rvfiLine line).bind fun parts => (RvfiField.ofName? parts.1).map fun field => (field, parts.2)

/-- The lines of a text that name a recognized field, in order. -/
def fieldLines (text : List Char) : List (RvfiField × List Char) := (lines text).filterMap fieldLine

def isOrder (line : RvfiField × List Char) : Bool := line.1 = .order

theorem ofName?_eq_some {name : List Char} {field : RvfiField}
    (h : RvfiField.ofName? name = some field) : name = field.name.toList := by
  simpa [eq_comm] using List.find?_some h

/-- The parser as a reader of the recognized lines. -/
def rvfiReader : Reader (RvfiField × List Char) EventBuilder CommitEvent Fault where
  isEnd := isOrder
  initial := .empty
  accept builder line := (readValue line.1.name.toList line.2).bind fun value =>
    (builder.set line.1 value).mapError .error
  finish builder := builder.finish.mapError .error

theorem parseLine_of_field {state : List CommitEvent × EventBuilder} {line : List Char}
    {token : RvfiField × List Char} (h : fieldLine line = some token) :
    parseLine state line = rvfiReader.step state token := by
  obtain ⟨⟨name, raw⟩, hline, hfield⟩ := Option.bind_eq_some_iff.1 h
  obtain ⟨field, hname, rfl⟩ := Option.map_eq_some_iff.1 hfield
  obtain rfl := ofName?_eq_some hname
  rw [parseLine, hline]
  simp only [Reader.step, rvfiReader, hname, isOrder, decide_eq_true_eq]
  cases readValue field.name.toList raw with
  | error fault => rfl
  | ok value =>
      simp only [Except.bind]
      cases state.2.set field value with
      | error error => rfl
      | ok builder =>
          simp only [Except.mapError]
          split_ifs
          · cases builder.finish <;> rfl
          · rfl

theorem parseLine_of_other {state : List CommitEvent × EventBuilder} {line : List Char}
    (h : fieldLine line = none) :
    (rvfiLine line = none ∧ parseLine state line = .ok state) ∨
      ∃ name raw, rvfiLine line = some (name, raw) ∧ RvfiField.ofName? name = none ∧
        parseLine state line = (readValue name raw).map fun _ => state := by
  rw [parseLine]
  cases hline : rvfiLine line with
  | none => exact Or.inl ⟨rfl, rfl⟩
  | some parts =>
      obtain ⟨name, raw⟩ := parts
      have hname : RvfiField.ofName? name = none := by simpa [fieldLine, hline] using h
      refine Or.inr ⟨name, raw, rfl, hname, ?_⟩
      simp only [hname]
      cases readValue name raw <;> rfl

/-- One line keeps the correspondence between the lines and the state. -/
theorem has_parseLine {before : List (List Char)} {line : List Char}
    {state next : List CommitEvent × EventBuilder}
    (h : rvfiReader.Has (before.filterMap fieldLine) state)
    (hline : parseLine state line = .ok next) :
    rvfiReader.Has ((before ++ [line]).filterMap fieldLine) next := by
  rw [List.filterMap_append]
  cases hfield : fieldLine line with
  | some token =>
      rw [parseLine_of_field hfield] at hline
      simpa [hfield] using h.step rvfiReader hline
  | none =>
      have hsame : state = next := by
        rcases @parseLine_of_other state line hfield with ⟨-, hok⟩ | ⟨name, raw, -, -, hok⟩
        · exact Except.ok.inj (hok.symm.trans hline)
        · rw [hok] at hline
          cases hvalue : readValue name raw with
          | error fault => simp [hvalue, Except.map] at hline
          | ok value => simpa [hvalue, Except.map] using hline
      simpa [hfield, ← hsame] using h

/-- Lines that are parsed leave the records of their blocks and the fields of the rest. -/
theorem has_of_parsed {before : List (List Char)} {state : List CommitEvent × EventBuilder}
    (h : before.foldlM parseLine ([], .empty) = .ok state) :
    rvfiReader.Has (before.filterMap fieldLine) state := by
  induction before using List.reverseRecOn generalizing state with
  | nil =>
      obtain rfl : (([], .empty) : List CommitEvent × EventBuilder) = state := Except.ok.inj h
      exact rvfiReader.has_nil
  | append_singleton before line ih =>
      rw [foldlM_snoc] at h
      cases hbefore : before.foldlM parseLine ([], .empty) with
      | error fault =>
          rw [hbefore] at h
          cases h
      | ok reached =>
          rw [hbefore] at h
          exact has_parseLine (ih hbefore) h

/-! ## Lines that are refused -/

/-- The bits a value of a field may have. -/
def RvfiField.bits : RvfiField → Nat
  | .rdAddr => 8
  | .memWmask | .memRmask | .insn => 32
  | _ => 64

section Narrow

variable {α : Type} {bits : Nat} {value : UInt64}

theorem narrow_ok (h : value.toNat < 2 ^ bits) (convert : UInt64 → α) (field : String) :
    narrow bits convert value field = .ok (convert value) := if_pos h

theorem narrow_error (h : 2 ^ bits ≤ value.toNat) (convert : UInt64 → α) (field : String) :
    ∃ error, narrow bits convert value field = .error error := ⟨_, if_neg (Nat.not_lt.2 h)⟩

end Narrow

theorem EventBuilder.set_ok {field : RvfiField} {value : UInt64}
    (h : value.toNat < 2 ^ field.bits) (builder : EventBuilder) :
    ∃ next, builder.set field value = .ok next := by
  cases field
  case rdAddr => exact ⟨_, congrArg (Except.map _) (narrow_ok h ..)⟩
  case memWmask => exact ⟨_, congrArg (Except.map _) (narrow_ok h ..)⟩
  case memRmask => exact ⟨_, congrArg (Except.map _) (narrow_ok h ..)⟩
  case insn => exact ⟨_, congrArg (Except.map _) (narrow_ok h ..)⟩
  all_goals exact ⟨_, rfl⟩

theorem EventBuilder.set_error {field : RvfiField} {value : UInt64}
    (h : 2 ^ field.bits ≤ value.toNat) (builder : EventBuilder) :
    ∃ error, builder.set field value = .error error := by
  have hnarrow : ∀ {α : Type} (convert : UInt64 → α) (fill : α → EventBuilder),
      ∃ error, (narrow field.bits convert value field.name).map fill = .error error := by
    intro α convert fill
    obtain ⟨error, herror⟩ := narrow_error h convert field.name
    exact ⟨error, congrArg (Except.map fill) herror⟩
  cases field
  case rdAddr => exact hnarrow ..
  case memWmask => exact hnarrow ..
  case memRmask => exact hnarrow ..
  case insn => exact hnarrow ..
  all_goals exact absurd value.toNat_lt (Nat.not_lt.2 h)

/-- A record without one of the fields its event needs. -/
def EventBuilder.Lacks (builder : EventBuilder) : Prop :=
  builder.instruction = none ∨ builder.pcBefore = none ∨ builder.pcAfter = none ∨
    ((builder.memoryReadMask.getD 0 ≠ 0 ∨ builder.memoryWriteMask.getD 0 ≠ 0) ∧
      builder.memoryAddress = none)

theorem EventBuilder.finish_error_iff {builder : EventBuilder} {order : UInt64}
    (horder : builder.order = some order) :
    (∃ error, builder.finish = .error error) ↔ builder.Lacks := by
  unfold finish Lacks
  simp only [horder, required, bind, Except.bind, pure, Except.pure]
  cases builder.instruction with
  | none => simp
  | some instruction =>
      cases builder.pcBefore with
      | none => simp
      | some pcBefore =>
          cases builder.pcAfter with
          | none => simp
          | some pcAfter =>
              by_cases hmask : builder.memoryReadMask.getD 0 = 0 ∧
                builder.memoryWriteMask.getD 0 = 0
              · simp [hmask]
              · have hmasks : builder.memoryReadMask.getD 0 ≠ 0 ∨
                    builder.memoryWriteMask.getD 0 ≠ 0 := not_and_or.1 hmask
                cases builder.memoryAddress <;> simp [hmask, hmasks]

/-- The value of a line panics: its low digits begin inside a character. -/
def Panics (line : List Char) : Prop :=
  ∃ name raw, rvfiLine line = some (name, raw) ∧ parseNumber raw = .error .panic

/-- The value of a line is no number, or does not fit its field. -/
def Refused (line : List Char) : Prop :=
  ∃ name raw, rvfiLine line = some (name, raw) ∧
    ((∃ error, parseNumber raw = .error (.error error)) ∨
      ∃ field value, RvfiField.ofName? name = some field ∧ parseNumber raw = .ok value ∧
        2 ^ field.bits ≤ value.toNat)

/-- What a line with a name does to the state. -/
theorem parseLine_named {state : List CommitEvent × EventBuilder} {line name raw : List Char}
    (h : rvfiLine line = some (name, raw)) :
    (parseNumber raw = .error .panic ∧ parseLine state line = .error .panic) ∨
      (∃ error error', parseNumber raw = .error (.error error) ∧
        parseLine state line = .error (.error error')) ∨
      ∃ value, parseNumber raw = .ok value ∧
        ((RvfiField.ofName? name = none ∧ parseLine state line = .ok state) ∨
          ∃ field, RvfiField.ofName? name = some field ∧
            parseLine state line = rvfiReader.step state (field, raw)) := by
  cases hnumber : parseNumber raw with
  | error fault =>
      cases fault with
      | panic => exact Or.inl ⟨rfl, by simp only [parseLine, h, readValue, hnumber, withContext]⟩
      | error error =>
          obtain ⟨error', hread⟩ : ∃ error', readValue name raw = .error (.error error') :=
            ⟨_, by rw [readValue, hnumber]; rfl⟩
          exact Or.inr (Or.inl ⟨error, error', rfl, by simp only [parseLine, h, hread]⟩)
  | ok value =>
      refine Or.inr (Or.inr ⟨value, rfl, ?_⟩)
      cases hname : RvfiField.ofName? name with
      | none =>
          refine Or.inl ⟨rfl, ?_⟩
          simp only [parseLine, h, readValue, hnumber, withContext, hname]
      | some field =>
          refine Or.inr ⟨field, rfl, parseLine_of_field ?_⟩
          simp [fieldLine, h, hname]

/-- A recognized line with a value fails when the value does not fit, or when it ends a
record that lacks a field; it never panics. -/
theorem step_named {state : List CommitEvent × EventBuilder} {field : RvfiField}
    {raw : List Char} {value : UInt64} (hnumber : parseNumber raw = .ok value) :
    rvfiReader.step state (field, raw) ≠ .error .panic ∧
      ((∃ error, rvfiReader.step state (field, raw) = .error (.error error)) ↔
        2 ^ field.bits ≤ value.toNat ∨ (field = .order ∧ state.2.Lacks)) := by
  have hread : readValue field.name.toList raw = .ok value := by
    rw [readValue, hnumber]
    rfl
  rcases Nat.lt_or_ge value.toNat (2 ^ field.bits) with hlt | hge
  · have hfits := Nat.not_le.2 hlt
    obtain ⟨builder, hset⟩ := EventBuilder.set_ok hlt state.2
    simp only [Reader.step, rvfiReader, hread, hset, Except.bind, Except.mapError, hfits, false_or,
      isOrder, decide_eq_true_eq]
    by_cases horder : field = .order
    · subst horder
      obtain rfl : { state.2 with order := some value } = builder := Except.ok.inj hset
      have hiff := @EventBuilder.finish_error_iff { state.2 with order := some value } value rfl
      have hlacks : EventBuilder.Lacks { state.2 with order := some value } ↔ state.2.Lacks :=
        Iff.rfl
      rw [hlacks] at hiff
      cases hfinish : EventBuilder.finish { state.2 with order := some value } with
      | error error => simp [← hiff, hfinish, Except.map]
      | ok event => simp [← hiff, hfinish, Except.map]
    · simp [horder]
  · obtain ⟨error, hset⟩ := EventBuilder.set_error hge state.2
    simp [Reader.step, rvfiReader, hread, hset, Except.bind, Except.mapError, hge]

theorem parseLine_panic_iff {state : List CommitEvent × EventBuilder} {line : List Char} :
    parseLine state line = .error .panic ↔ Panics line := by
  unfold Panics
  cases hline : rvfiLine line with
  | none => simp [parseLine, hline]
  | some parts =>
      obtain ⟨name, raw⟩ := parts
      rcases @parseLine_named state line name raw hline with ⟨hnumber, hpanic⟩ |
        ⟨error, error', hnumber, herror⟩ | ⟨value, hnumber, ⟨-, hsame⟩ | ⟨field, -, hstep⟩⟩
      · simp [hnumber, hpanic]
      · simp [hnumber, herror]
      · simp [hnumber, hsame]
      · have hnever := (@step_named state field raw value hnumber).1
        rw [hstep]
        simp [hnumber, hnever]

theorem parseLine_error_iff {state : List CommitEvent × EventBuilder} {line : List Char} :
    (∃ error, parseLine state line = .error (.error error)) ↔
      Refused line ∨ ∃ raw value, fieldLine line = some (.order, raw) ∧
        parseNumber raw = .ok value ∧ state.2.Lacks := by
  unfold Refused fieldLine
  cases hline : rvfiLine line with
  | none => simp [parseLine, hline]
  | some parts =>
      obtain ⟨name, raw⟩ := parts
      rcases @parseLine_named state line name raw hline with ⟨hnumber, hpanic⟩ |
        ⟨error, error', hnumber, herror⟩ | ⟨value, hnumber, ⟨hname, hsame⟩ | ⟨field, hname, hstep⟩⟩
      · simp [hnumber, hpanic]
      · simp [hnumber, herror]
      · simp [hnumber, hsame, hname]
      · have hiff := (@step_named state field raw value hnumber).2
        rw [hstep, hiff]
        simp [hnumber, hname]

end CkbSail.SailRunner
