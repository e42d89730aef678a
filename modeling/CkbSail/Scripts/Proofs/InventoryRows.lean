import CkbSail.Scripts.Proofs.FixedInputs
import Mathlib

/-!
# The rows of an inventory

A row that `entries_valid` accepts is one of three records.  What `validate_member`
checks of a member is told in their terms.
-/

namespace CkbSail.Scripts.FixedInputs

open PythonStd
open ReleaseCommon (SafeName)

/-- What a row records. -/
inductive Entry where
  | file (digest : String) (bytes : Int) (mode : Json)
  | directory (mode : Json)
  | symlink (target : String)

namespace Entry

def kind : Entry → String
  | file .. => "file"
  | directory _ => "directory"
  | symlink _ => "symlink"

def fields : Entry → List (String × Json)
  | file digest bytes mode =>
      [("kind", .str "file"), ("sha256", .str digest), ("bytes", .int bytes), ("mode", mode)]
  | directory mode => [("kind", .str "directory"), ("mode", mode)]
  | symlink target => [("kind", .str "symlink"), ("target", .str target)]

/-- The mode of a file or a directory. -/
def mode? : Entry → Option Json
  | file _ _ mode => some mode
  | directory mode => some mode
  | symlink _ => none

/-- The name, the type and the metadata of a member are those of the row. -/
def Matches (item : PackageMember) : Entry → Prop
  | file _ bytes mode => item.type = .regular ∧ item.size = bytes ∧
      mode.number? = some (.finite item.mode) ∧ item.linkname = "" ∧ item.sparse = false
  | directory mode => item.type = .directory ∧ item.size = 0 ∧
      mode.number? = some (.finite item.mode) ∧ item.linkname = ""
  | symlink target => item.type = .symlink ∧ item.linkname = target ∧ item.size = 0 ∧
      item.mode = 0o777

/-- The bytes of a member are those of the row. -/
def Digested (sha256 : List UInt8 → String) (item : PackageMember) : Entry → Prop
  | file digest bytes _ => item.content.bytes.length = bytes ∧ sha256 item.content.bytes = digest
  | _ => True

end Entry

/-- Modes of permission bits alone. -/
def Permission (mode : Json) : Prop :=
  ∃ value : ℚ, mode.number? = some (.finite value) ∧ 0 ≤ value ∧ value ≤ 0o777

theorem between_eq_true {low high : Int} {value : Json} :
    Json.between low high value = .ok true ↔
      ∃ x : ℚ, value.number? = some (.finite x) ∧ low ≤ x ∧ x ≤ high := by
  unfold Json.between
  cases value.number? with
  | none => simp
  | some number =>
      cases number with
      | finite x => simp
      | infinite negative => simp

/-- The keys of a dictionary that equal a set of names. -/
theorem lookup_isSome_iff_of_setEq {fields : List (String × Json)} {names : List String}
    (h : (Json.obj fields).setEq names = .ok true) (key : String) :
    (Json.lookup key fields).isSome = true ↔ key ∈ names := by
  have hkey : (Json.lookup key fields).isSome = true ↔ key ∈ Json.keys fields := by
    rw [Json.mem_keys, List.mem_map]
    constructor
    · intro hsome
      obtain ⟨value, hvalue⟩ := Option.isSome_iff_exists.1 hsome
      exact ⟨_, Json.exists_mem_of_lookup hvalue, rfl⟩
    · rintro ⟨binding, hbinding, rfl⟩
      exact Json.lookup_isSome_of_mem hbinding
  have hhash : ((Json.keys fields).map Json.str).all Json.hashable = true := by
    simp [Json.hashable]
  simp only [Json.setEq, Json.iter, bind, Except.bind, Json.itemsEq, hhash, if_true,
    Except.ok.injEq, Bool.and_eq_true] at h
  rw [hkey]
  constructor
  · intro hmem
    have hleft := List.all_eq_true.1 h.1 (.str key) (List.mem_map_of_mem hmem)
    simpa using hleft
  · intro hmem
    have hright := List.all_eq_true.1 h.2 key hmem
    simpa using hright

theorem lookup_fields_eq_none {entry : Entry} {key : String}
    (h : key ∉ entry.fields.map Prod.fst) : Json.lookup key entry.fields = none := by
  unfold Json.lookup
  rw [List.lookup_eq_none_iff]
  intro binding hbinding
  rw [bne_iff_ne]
  rintro rfl
  exact h (List.mem_map_of_mem hbinding)

/-- A dictionary with the keys and the values of an entry represents it. -/
theorem represents_entry {fields : List (String × Json)} {entry : Entry}
    (hkeys : (Json.obj fields).setEq (entry.fields.map Prod.fst) = .ok true)
    (hvalues : ∀ binding ∈ entry.fields, Json.lookup binding.1 fields = some binding.2) :
    (Json.obj fields).Represents entry.fields := by
  refine ⟨fields, rfl, fun key => ?_⟩
  by_cases hkey : key ∈ entry.fields.map Prod.fst
  · have hnodup : (entry.fields.map Prod.fst).Nodup := by
      cases entry <;> simp [Entry.fields]
    obtain ⟨binding, hbinding, rfl⟩ := List.mem_map.1 hkey
    rw [hvalues binding hbinding]
    cases entry <;> simp only [Entry.fields, List.mem_cons, List.not_mem_nil, or_false] at hbinding
    · rcases hbinding with rfl | rfl | rfl | rfl <;> simp [Entry.fields, Json.lookup_cons]
    · rcases hbinding with rfl | rfl <;> simp [Entry.fields, Json.lookup_cons]
    · rcases hbinding with rfl | rfl <;> simp [Entry.fields, Json.lookup_cons]
  · rw [lookup_fields_eq_none hkey]
    have hnot := mt (lookup_isSome_iff_of_setEq hkeys key).1 hkey
    simpa using hnot

/-- An accepted row is the dictionary of an entry, with permission bits as its mode. -/
theorem rowValid_eq_ok {row : Json} (h : rowValid row = .ok ()) :
    ∃ entry : Entry, row.Represents entry.fields ∧ ∀ mode, entry.mode? = some mode →
      Permission mode := by
  rw [rowValid, Py.bind_eq_ok] at h
  obtain ⟨kind, hkind, h⟩ := h
  obtain ⟨fields, rfl⟩ : ∃ fields, row = .obj fields := by
    cases row with
    | obj fields => exact ⟨fields, rfl⟩
    | _ => cases hkind
  have hitem : ∀ text, kind = .str text → Json.lookup "kind" fields = some (.str text) := by
    rintro text rfl
    exact Json.getItem_obj_eq_ok.1 (getItem_of_get hkind)
  split_ifs at h with hfile hdirectory
  · rw [requirePy_eq_ok, Py.conj_eq_true] at h
    simp only [List.mem_cons, List.not_mem_nil, or_false, forall_eq_or_imp, forall_eq] at h
    obtain ⟨hkeys, hdigest, hbytes, hmode⟩ := h
    obtain ⟨digest, hdigest, htext⟩ := Py.bind_eq_ok.1 hdigest
    obtain ⟨mode, hmode, hrange⟩ := Py.bind_eq_ok.1 hmode
    rw [Json.getItem_obj_eq_ok] at hdigest hmode
    obtain ⟨digest, rfl⟩ : ∃ text, digest = .str text := by
      cases digest with
      | str text => exact ⟨text, rfl⟩
      | _ => cases htext
    obtain ⟨bytes, hbytes⟩ : ∃ bytes, Json.lookup "bytes" fields = some (.int bytes) := by
      cases hvalue : (Json.obj fields).getItem "bytes" with
      | error e => rw [hvalue] at hbytes; cases hbytes
      | ok value =>
          rw [hvalue] at hbytes
          cases value with
          | int bytes => exact ⟨bytes, Json.getItem_obj_eq_ok.1 hvalue⟩
          | _ => cases hbytes
    refine ⟨.file digest bytes mode, represents_entry hkeys ?_, ?_⟩
    · simp [Entry.fields, hitem "file" (Json.eq_str_iff.1 hfile), hdigest, hbytes, hmode]
    · rintro _ ⟨rfl⟩
      simpa [Permission] using between_eq_true.1 hrange
  · rw [requirePy_eq_ok, Py.conj_eq_true] at h
    simp only [List.mem_cons, List.not_mem_nil, or_false, forall_eq_or_imp, forall_eq] at h
    obtain ⟨hkeys, hmode⟩ := h
    obtain ⟨mode, hmode, hrange⟩ := Py.bind_eq_ok.1 hmode
    rw [Json.getItem_obj_eq_ok] at hmode
    refine ⟨.directory mode, represents_entry hkeys ?_, ?_⟩
    · simp [Entry.fields, hitem "directory" (Json.eq_str_iff.1 hdirectory), hmode]
    · rintro _ ⟨rfl⟩
      simpa [Permission] using between_eq_true.1 hrange
  · rw [requirePy_eq_ok, Py.conj_eq_true] at h
    simp only [List.mem_cons, List.not_mem_nil, or_false, forall_eq_or_imp, forall_eq,
      Except.ok.injEq] at h
    obtain ⟨hsymlink, hkeys, htarget⟩ := h
    obtain ⟨target, htarget⟩ : ∃ target, Json.lookup "target" fields = some (.str target) := by
      cases hvalue : (Json.obj fields).getItem "target" with
      | error e => rw [hvalue] at htarget; cases htarget
      | ok value =>
          rw [hvalue] at htarget
          cases value with
          | str target => exact ⟨target, Json.getItem_obj_eq_ok.1 hvalue⟩
          | _ => cases htarget
    refine ⟨.symlink target, represents_entry hkeys ?_, ?_⟩
    · simp [Entry.fields, hitem "symlink" (Json.eq_str_iff.1 hsymlink), htarget]
    · rintro _ ⟨⟩

/-! ## Members -/

section Members

variable {entries : List (String × Json)} {item : PackageMember} {seen : List String}
  {name : String} {row : Json} {entry : Entry}

/-- Nobody owns the member, and it has no date. -/
structure Unowned (item : PackageMember) : Prop where
  uid : item.uid = 0
  gid : item.gid = 0
  uname : item.uname = ""
  gname : item.gname = ""
  mtime : item.mtime = 0

/-- The entry that is recorded under a name. -/
def Recorded (entries : List (String × Json)) (name : String) (entry : Entry) : Prop :=
  ∃ row, Json.lookup name entries = some row ∧ row.Represents entry.fields

theorem Recorded.mem_keys (h : Recorded entries name entry) : name ∈ Json.keys entries :=
  h.elim fun _ hrow => mem_keys_of_lookup hrow.1

theorem getItem_kind (h : row.Represents entry.fields) :
    row.getItem "kind" = .ok (.str entry.kind) := by
  apply h.getItem
  cases entry <;> simp [Entry.fields, Entry.kind, Json.lookup_cons]

theorem getItem_mode (h : row.Represents entry.fields) {mode : Json}
    (hmode : entry.mode? = some mode) : row.getItem "mode" = .ok mode := by
  apply h.getItem
  cases entry <;> cases hmode <;> simp [Entry.fields, Json.lookup_cons]

theorem int_eq_iff {value : Json} {i : Int} :
    (Json.int i).eq value = true ↔ value.number? = some (.finite i) := by
  rcases value with _ | _ | _ | (_ | _ | _) | _ | _ | _ <;>
    simp [Json.eq, Json.eqBy, Json.looseAtom, Json.number?, eq_comm]

theorem map_getItem_mode (item : PackageMember) (h : row.Represents entry.fields) {mode : Json}
    (hmode : entry.mode? = some mode) :
    (row.getItem "mode").map (fun value => (Json.int item.mode).eq value) = .ok true ↔
      mode.number? = some (.finite item.mode) := by
  rw [getItem_mode h hmode, Except.map, Except.ok.injEq]
  exact int_eq_iff

theorem ok_bind {α β : Type} (a : α) (f : α → Py β) : ((.ok a : Py α) >>= f) = f a := rfl

theorem require_bind_eq_ok {α : Type} {condition : Bool} {message : String} {next : Py α} {a : α} :
    (require condition message >>= fun _ => next) = .ok a ↔ condition = true ∧ next = .ok a := by
  cases condition <;> simp [require, bind, Except.bind]

theorem requirePy_bind_eq_ok {α : Type} {condition : Py Bool} {message : String} {next : Py α}
    {a : α} : (requirePy condition message >>= fun _ => next) = .ok a ↔
      condition = .ok true ∧ next = .ok a := by
  rcases condition with e | _ | _ <;> simp [requirePy, require, bind, Except.bind]

theorem unowned_iff : (decide (item.uid = 0) && decide (item.gid = 0) && decide (item.uname = "") &&
    decide (item.gname = "") && decide (item.mtime = 0)) = true ↔ Unowned item := by
  simp only [Bool.and_eq_true, decide_eq_true_eq]
  exact ⟨fun h => ⟨h.1.1.1.1, h.1.1.1.2, h.1.1.2, h.1.2, h.2⟩,
    fun h => ⟨⟨⟨⟨h.uid, h.gid⟩, h.uname⟩, h.gname⟩, h.mtime⟩⟩

/-- What `validate_member` accepts under a recorded name. -/
theorem validateMember_eq_ok (hrow : Json.lookup item.name entries = some row)
    (h : row.Represents entry.fields) {result : String × Json} :
    validateMember entries item seen = .ok result ↔ (item.name, row) = result ∧
      safe item.name = .ok item.name ∧ item.name ∉ seen ∧ Unowned item ∧ entry.Matches item := by
  have hitem : (Json.obj entries).getItem item.name = .ok row := Json.getItem_obj_eq_ok.2 hrow
  have hkind := getItem_kind h
  rw [validateMember]
  cases hsafe : safe item.name with
  | error e => simp [bind, Except.bind]
  | ok name =>
      obtain ⟨rfl, -⟩ := safe_eq_ok.1 hsafe
      simp only [ok_bind, hitem, hkind, require_bind_eq_ok, unowned_iff, hrow]
      cases entry with
      | file digest bytes mode =>
          have hbytes : row.getItem "bytes" = .ok (.int bytes) :=
            h.getItem (by simp [Entry.fields, Json.lookup_cons])
          have hmode : _ ↔ mode.number? = _ := map_getItem_mode item h rfl
          rw [if_pos (by simp [Entry.kind]),
            requirePy_bind_eq_ok, Py.conj_eq_true]
          simp only [List.mem_cons, List.not_mem_nil, or_false, forall_eq_or_imp, forall_eq, hmode,
            hbytes]
          simp [Entry.Matches, Except.map]
          tauto
      | directory mode =>
          have hmode : _ ↔ mode.number? = _ := map_getItem_mode item h rfl
          rw [if_neg (by simp [Entry.kind]), if_pos (by simp [Entry.kind]),
            requirePy_bind_eq_ok, Py.conj_eq_true]
          simp only [List.mem_cons, List.not_mem_nil, or_false, forall_eq_or_imp, forall_eq, hmode]
          simp [Entry.Matches]
          tauto
      | symlink target =>
          have htarget : row.getItem "target" = .ok (.str target) :=
            h.getItem (by simp [Entry.fields, Json.lookup_cons])
          rw [if_neg (by simp [Entry.kind]), if_neg (by simp [Entry.kind]),
            requirePy_bind_eq_ok, Py.conj_eq_true]
          simp only [List.mem_cons, List.not_mem_nil, or_false, forall_eq_or_imp, forall_eq, htarget]
          simp [Entry.Matches, Except.map]
          tauto

end Members

end CkbSail.Scripts.FixedInputs
