import CkbSail.DiffTest.Artifact
import CkbSail.RustStd.FsGrowth

/-!
# Storing evidence

One call of `storeJson` opens one file or none; which it is stays the same however much
is stored in the directory before.
-/

namespace CkbSail.DiffTest

open CkbSail.Core RustStd PythonStd

/-- The file that is opened for a name of a directory, unless the host refuses. -/
def openedFor (directory name : String) (disk : Disk) : Option Fs.Place :=
  match disk.createDirAll directory with
  | (.error _, _) => none
  | (.ok (), made) =>
      match made.creates (joinPath directory name) with
      | .error _ => none
      | .ok place => some place

/-- What a write leaves in the file it opened. -/
def leftIn (disk : Disk) (place : Fs.Place) (value : Json) : Contents :=
  match disk.faults.write place with
  | none => .json value
  | some (length, _) => .part value length

/-- A JSON value is in the file a path leads to, which is the only one that was opened;
elsewhere directories may have been made. -/
structure Stores (before after : Disk) (path : String) (value : Json) (place : Fs.Place) :
    Prop where
  leads : after.leads path = .ok place
  holds : after.tree place = some (.file (.json value))
  written : after.written = place :: before.written
  others : ∀ other, other ≠ place → after.tree other = before.tree other ∨
    before.tree other = none ∧ after.tree other = some .directory

section Storage

variable {directory name : String} {value : Json} {disk disk' : Disk} {place : Fs.Place}

theorem openedFor_eq_some : openedFor directory name disk = some place ↔
    (disk.createDirAll directory).1.isOk = true ∧
      (disk.createDirAll directory).2.creates (joinPath directory name) = .ok place := by
  rw [openedFor]
  rcases disk.createDirAll directory with ⟨e | u, made⟩
  · simp [Except.isOk, Except.toBool]
  · cases hopen : made.creates (joinPath directory name) <;>
      simp [Except.isOk, Except.toBool, hopen]

theorem storeJson_of_refused (h : openedFor directory name disk = none) :
    ∃ error, storeJson directory name value disk =
      (.error error, (disk.createDirAll directory).2) := by
  rw [openedFor] at h
  rw [storeJson]
  generalize disk.createDirAll directory = result at h ⊢
  rcases result with ⟨e | u, made⟩
  · exact ⟨_, rfl⟩
  · cases hopen : made.creates (joinPath directory name) with
    | error e =>
        simp only [Fs.Disk.write, hopen]
        exact ⟨_, rfl⟩
    | ok place =>
        simp only [hopen] at h
        cases h

theorem storeJson_of_opened (h : openedFor directory name disk = some place) :
    (storeJson directory name value disk).2 =
        (disk.createDirAll directory).2.put place (leftIn disk place value) ∧
      ((storeJson directory name value disk).1.isOk = true ↔ disk.faults.write place = none) ∧
      ∀ path, (storeJson directory name value disk).1 = .ok path →
        path = joinPath directory name := by
  obtain ⟨hmake, hopen⟩ := openedFor_eq_some.1 h
  have hfaults : (disk.createDirAll directory).2.faults = disk.faults :=
    Fs.Disk.faults_createDirAll
  rw [storeJson]
  generalize disk.createDirAll directory = result at hmake hopen hfaults ⊢
  rcases result with ⟨e | u, made⟩
  · cases hmake
  · dsimp only at hopen hfaults ⊢
    cases hwrite : disk.faults.write place with
    | none =>
        rw [Fs.Disk.write_of_none hopen (by rw [hfaults, hwrite])]
        simp [leftIn, hwrite, Except.isOk, Except.toBool]
    | some fault =>
        rw [Fs.Disk.write_of_some hopen (by rw [hfaults, hwrite])]
        simp [leftIn, hwrite, Except.isOk, Except.toBool]

/-- A path is reported exactly if a file was opened and the write did not break off. -/
theorem storeJson_eq_ok {path : String} : (storeJson directory name value disk).1 = .ok path ↔
    path = joinPath directory name ∧
      ∃ place, openedFor directory name disk = some place ∧ disk.faults.write place = none := by
  cases hopened : openedFor directory name disk with
  | none =>
      obtain ⟨error, hstore⟩ := @storeJson_of_refused directory name value disk hopened
      simp [hstore]
  | some place =>
      obtain ⟨-, hok, hpath⟩ := @storeJson_of_opened directory name value disk place hopened
      simp only [Option.some.injEq, exists_eq_left', ← hok]
      cases hstore : (storeJson directory name value disk).1 with
      | error e => simp [Except.isOk, Except.toBool]
      | ok path' => simp [hpath path' hstore, Except.isOk, Except.toBool, eq_comm]

theorem storeJson_toOption : (storeJson directory name value disk).1.toOption =
    (openedFor directory name disk).bind fun place =>
      if (disk.faults.write place).isSome then none else some (joinPath directory name) := by
  cases hopened : openedFor directory name disk with
  | none =>
      obtain ⟨error, hstore⟩ := @storeJson_of_refused directory name value disk hopened
      rw [hstore]
      rfl
  | some place =>
      obtain ⟨-, hok, hpath⟩ := @storeJson_of_opened directory name value disk place hopened
      rw [Option.bind_some]
      cases hstore : (storeJson directory name value disk).1 with
      | error e =>
          rw [hstore, Except.isOk, Except.toBool] at hok
          have hfault : disk.faults.write place ≠ none := by simpa using hok
          rw [if_pos (Option.isSome_iff_ne_none.2 hfault)]
          rfl
      | ok path =>
          rw [hstore] at hok
          rw [hok.1 rfl, hpath path hstore]
          rfl

theorem createDirAll_grows (place : Fs.Place) :
    (disk.createDirAll directory).2.tree place = disk.tree place ∨
      disk.tree place = none ∧
        (disk.createDirAll directory).2.tree place = some .directory := by
  unfold Fs.Disk.createDirAll
  split
  · exact Or.inl rfl
  · exact Fs.makeDirs_grows place

/-- What was stored is there. -/
theorem stores_of_ok {path : String} (h : (storeJson directory name value disk).1 = .ok path) :
    ∃ place, Stores disk (storeJson directory name value disk).2 path value place := by
  obtain ⟨rfl, place, hopened, hwrite⟩ := storeJson_eq_ok.1 h
  obtain ⟨-, hopen⟩ := openedFor_eq_some.1 hopened
  obtain ⟨-, hleads, hwritable⟩ := Fs.Disk.creates_eq_ok.1 hopen
  have hleft : leftIn disk place value = .json value := by rw [leftIn, hwrite]
  rw [(storeJson_of_opened hopened).1, hleft]
  refine ⟨place, ?_, Function.update_self .., ?_, fun other hother => ?_⟩
  · exact (Fs.Disk.leads_put hwritable).2 hleads
  · exact congrArg (place :: ·) Fs.Disk.written_createDirAll
  · simp only [Fs.Disk.put, Function.update_of_ne hother]
    exact createDirAll_grows other

/-! ## After other files -/

theorem openedFor_of_follows (h : disk.Follows directory disk') :
    openedFor directory name disk' = openedFor directory name disk := by
  refine Option.ext fun place => ?_
  rw [openedFor_eq_some, openedFor_eq_some, h.result, h.creates_iff]

theorem leftIn_of_follows (h : disk.Follows directory disk') :
    leftIn disk' place value = leftIn disk place value := by
  rw [leftIn, leftIn, h.faults]

theorem follows_storeJson (h : disk.Follows directory disk') :
    disk.Follows directory (storeJson directory name value disk').2 := by
  cases hopened : openedFor directory name disk' with
  | none =>
      obtain ⟨error, hstore⟩ := @storeJson_of_refused directory name value disk' hopened
      rw [hstore]
      exact h.made
  | some place =>
      obtain ⟨-, hopen⟩ := openedFor_eq_some.1 hopened
      rw [(storeJson_of_opened hopened).1]
      exact h.put _ (Fs.Disk.creates_eq_ok.1 hopen).2.2

/-- The directory is there once something was stored, and making it again changes nothing. -/
theorem createDirAll_storeJson :
    ((storeJson directory name value disk).2.createDirAll directory).2 =
      (storeJson directory name value disk).2 := by
  cases hopened : openedFor directory name disk with
  | none =>
      obtain ⟨error, hstore⟩ := @storeJson_of_refused directory name value disk hopened
      rw [hstore]
      exact (Fs.Disk.createDirAll_again Fs.Disk.faults_createDirAll
        Fs.Disk.workingDirectory_createDirAll (.refl _)).1
  | some place =>
      obtain ⟨-, hopen⟩ := openedFor_eq_some.1 hopened
      rw [(storeJson_of_opened hopened).1]
      exact Fs.Disk.createDirAll_put (Fs.Disk.creates_eq_ok.1 hopen).2.2

theorem storeJson_isOk_of_follows (h : disk.Follows directory disk') (path : String) :
    (storeJson directory name value disk').1 = .ok path ↔
      (storeJson directory name value disk).1 = .ok path := by
  rw [storeJson_eq_ok, storeJson_eq_ok, openedFor_of_follows h, h.faults]

end Storage

end CkbSail.DiffTest
