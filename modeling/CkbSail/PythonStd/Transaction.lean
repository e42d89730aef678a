import CkbSail.PythonStd.Files
import Mathlib.Tactic.SplitIfs

/-!
# Transactions of renames

A script that replaces trees renames them between a few names, keeps a record in
its variables and saves it.  An operation may raise when the host says so; a
rename is atomic.
-/

namespace CkbSail.PythonStd

open ProofSupport

/-- The named trees and the variables of a script. -/
structure Workspace (Slot Vars : Type) where
  disk : Disk Slot
  vars : Vars

section Operations

variable {Slot Vars : Type}

/-- An operation that raises when the host says so, and else does `operation`. -/
def orFail (fault : Option Exn)
    (operation : Workspace Slot Vars → Except Exn Unit × Workspace Slot Vars) :
    Program (Workspace Slot Vars) Exn Unit :=
  .perform fun s =>
    match fault with
    | some e => (.error e, s)
    | none => operation s

/-- An operation outside the trees: a directory, a temporary directory, the record. -/
def untouched (s : Workspace Slot Vars) : Except Exn Unit × Workspace Slot Vars := (.ok (), s)

def setVars (update : Vars → Vars) : Program (Workspace Slot Vars) Exn Unit :=
  .assign fun s => { s with vars := update s.vars }

variable [DecidableEq Slot]

def renameSlot (slot target : Slot) (s : Workspace Slot Vars) :
    Except Exn Unit × Workspace Slot Vars :=
  let (result, disk) := s.disk.rename slot target
  (result, { s with disk := disk })

/-- A callback that leaves `entry` under a name and may raise. -/
def leaving (slot : Slot) (outcome : Option Entry × Option Exn) (s : Workspace Slot Vars) :
    Except Exn Unit × Workspace Slot Vars :=
  (match outcome.2 with | some e => .error e | none => .ok (),
    { s with disk := Function.update s.disk slot outcome.1 })

/-- Rename a tree away if it is there, set its flag and save the record. -/
def moveAside (move written : Option Exn) (slot backup : Slot) (flag : Vars → Vars) :
    Program (Workspace Slot Vars) Exn Unit := do
  let s ← .get
  if Entry.pathExists (s.disk slot) then
    orFail move (renameSlot slot backup)
    setVars flag
    orFail written untouched
  else pure ()

end Operations

/-! ## What they do -/

section Triples

variable {Slot Vars : Type} {E : Exn → Workspace Slot Vars → Prop}
  {A P Q : Workspace Slot Vars → Prop}

theorem triple_setVars {update : Vars → Vars}
    (h : ∀ s, P s → Q { s with vars := update s.vars }) :
    Triple E A P (setVars update) fun _ => Q :=
  .assign h

/-- An operation outside the trees leaves the state as it is, whether it fails or not. -/
theorem triple_untouched {fault : Option Exn} (herror : ∀ s e, P s → E e s)
    (hvisit : ∀ s, P s → A s) : Triple E A P (orFail fault untouched) fun _ => P := by
  cases fault with
  | none => exact .perform (fun s hs _ => hs) (fun s e hs _ => herror s e hs) hvisit
  | some e => exact .perform (fun s hs _ => hs) (fun s e hs _ => herror s e hs) hvisit

variable [DecidableEq Slot]

theorem renameSlot_cases {slot target : Slot} {s : Workspace Slot Vars} (hfree : s.disk target =
    none) :
    (∃ entry, s.disk slot = some entry ∧
        renameSlot slot target s = (.ok (), { s with disk := s.disk.moved slot target })) ∨
      ∃ e, renameSlot slot target s = (.error e, s) := by
  rcases s.disk.rename_cases hfree with ⟨entry, hentry, hrename⟩ | ⟨e, hrename⟩
  · exact Or.inl ⟨entry, hentry, by rw [renameSlot, hrename]⟩
  · exact Or.inr ⟨e, by rw [renameSlot, hrename]⟩

/-- A rename to a free name moves the entry or changes nothing. -/
theorem triple_rename {fault : Option Exn} {slot target : Slot}
    (hfree : ∀ s, P s → s.disk target = none) (herror : ∀ s e, P s → E e s)
    (hstay : ∀ s, P s → A s)
    (hmove : ∀ s entry, P s → s.disk slot = some entry →
      Q { s with disk := s.disk.moved slot target } ∧ A { s with disk := s.disk.moved slot target
        }) :
    Triple E A P (orFail fault (renameSlot slot target)) fun _ => Q := by
  cases fault with
  | some e =>
      exact .perform (fun s _ h => by cases h) (fun s e hs _ => herror s e hs) hstay
  | none =>
      show Triple E A P (.perform (renameSlot slot target)) fun _ => Q
      refine .perform (fun s hs hok => ?_) (fun s e hs hbad => ?_) fun s hs => ?_
      · rcases renameSlot_cases (hfree s hs) with ⟨entry, hentry, hrename⟩ | ⟨e, hrename⟩
        · rw [hrename]
          exact (hmove s entry hs hentry).1
        · rw [hrename] at hok
          cases hok
      · rcases renameSlot_cases (hfree s hs) with ⟨entry, hentry, hrename⟩ | ⟨e', hrename⟩
        · rw [hrename] at hbad
          cases hbad
        · rw [hrename]
          exact herror s e hs
      · rcases renameSlot_cases (hfree s hs) with ⟨entry, hentry, hrename⟩ | ⟨e, hrename⟩
        · rw [hrename]
          exact (hmove s entry hs hentry).2
        · rw [hrename]
          exact hstay s hs

/-- A rename that the recovery does succeeds: its entry is there and its name free. -/
theorem triple_recover {slot target : Slot}
    (hentry : ∀ s, P s → (s.disk slot).isSome ∧ s.disk target = none)
    (hmove : ∀ s, P s → Q { s with disk := s.disk.moved slot target } ∧
      A { s with disk := s.disk.moved slot target }) :
    Triple E A P (.perform (renameSlot slot target)) fun _ => Q := by
  have hrename : ∀ s, P s → renameSlot slot target s =
      (.ok (), { s with disk := s.disk.moved slot target }) := by
    intro s hs
    obtain ⟨hsome, hfree⟩ := hentry s hs
    obtain ⟨entry, hpresent⟩ := Option.isSome_iff_exists.1 hsome
    rw [renameSlot, s.disk.rename_of_free hpresent hfree]
  refine .perform (fun s hs _ => ?_) (fun s e hs h => ?_) fun s hs => ?_
  · rw [hrename s hs]
    exact (hmove s hs).1
  · rw [hrename s hs] at h
    cases h
  · rw [hrename s hs]
    exact (hmove s hs).2

/-- `moveAside` leaves a free name behind it. -/
theorem triple_moveAside {move written : Option Exn} {slot backup : Slot} {flag : Vars → Vars}
    (hfree : ∀ s, P s → s.disk backup = none) (herror : ∀ s e, P s → E e s)
    (hstay : ∀ s, P s → A s)
    (hskip : ∀ s, P s → Entry.pathExists (s.disk slot) = false → Q s)
    (hmove : ∀ s, P s → (s.disk slot).isSome → A { s with disk := s.disk.moved slot backup } ∧
      Q { s with disk := s.disk.moved slot backup, vars := flag s.vars })
    (hsaved : ∀ s e, Q s → E e s) (hvisit : ∀ s, Q s → A s) :
    Triple E A P (moveAside move written slot backup flag) fun _ => Q := by
  refine .get_bind fun t => ?_
  refine .ite (fun hpresent => ?_) fun habsent => ?_
  · refine .bind (Q := fun _ s => Q { s with vars := flag s.vars }) (triple_rename
      (fun s hs => hfree s hs.1) (fun s e hs => herror s e hs.1) (fun s hs => hstay s hs.1)
      fun s entry hs hentry => ?_) fun _ => ?_
    · obtain ⟨hvisited, hnext⟩ := hmove s hs.1 (by rw [hentry]; rfl)
      exact ⟨hnext, hvisited⟩
    · exact .bind (.assign fun s hs => hs) fun _ => triple_untouched hsaved hvisit
  · refine .pure fun s hs => hskip s hs.1 ?_
    rw [hs.2] at habsent
    simpa using habsent

end Triples

/-! ## Operations that succeed -/

namespace Workspace

variable {Slot Vars : Type} (s : Workspace Slot Vars)

def set (update : Vars → Vars) : Workspace Slot Vars := { s with vars := update s.vars }

@[simp] theorem set_disk (update : Vars → Vars) : (s.set update).disk = s.disk := rfl

@[simp] theorem set_vars (update : Vars → Vars) : (s.set update).vars = update s.vars := rfl

variable [DecidableEq Slot]

/-- Something stands under a name. -/
def put (slot : Slot) (entry : Entry) : Workspace Slot Vars :=
  { s with disk := Function.update s.disk slot (some entry) }

def move (source target : Slot) : Workspace Slot Vars :=
  { s with disk := s.disk.moved source target }

@[simp] theorem put_disk (slot : Slot) (entry : Entry) (name : Slot) :
    (s.put slot entry).disk name = if name = slot then some entry else s.disk name :=
  Function.update_apply ..

@[simp] theorem put_vars (slot : Slot) (entry : Entry) : (s.put slot entry).vars = s.vars := rfl

@[simp] theorem move_disk (source target name : Slot) :
    (s.move source target).disk name =
      if name = target then s.disk source else if name = source then none else s.disk name :=
  s.disk.moved_apply name

@[simp] theorem move_vars (source target : Slot) : (s.move source target).vars = s.vars := rfl

end Workspace

section Returns

variable {Slot Vars : Type} {s t : Workspace Slot Vars}

theorem returns_orFail {operation : Workspace Slot Vars → Except Exn Unit × Workspace Slot Vars}
    {fault : Option Exn} (hfault : fault = none) (h : operation s = (.ok (), t)) :
    Returns (orFail fault operation) s () t := by
  subst hfault
  exact .perform h

theorem returns_untouched {fault : Option Exn} (hfault : fault = none)
    (s : Workspace Slot Vars) : Returns (orFail fault untouched) s () s :=
  returns_orFail hfault rfl

theorem returns_setVars (update : Vars → Vars) (s : Workspace Slot Vars) :
    Returns (setVars update) s () (s.set update) :=
  .assign _ _

variable [DecidableEq Slot]

theorem renameSlot_of_free {slot target : Slot} {entry : Entry} (hentry : s.disk slot = some entry)
    (hfree : s.disk target = none) : renameSlot slot target s = (.ok (), s.move slot target) := by
  rw [renameSlot, s.disk.rename_of_free hentry hfree, Workspace.move]

/-- A tree that is there is renamed to its free backup name. -/
theorem returns_moveAside {move written : Option Exn} {slot backup : Slot} {entry : Entry}
    (hmove : move = none) (hwritten : written = none) (flag : Vars → Vars)
    (hentry : s.disk slot = some entry) (hexists : Entry.pathExists (some entry) = true)
    (hfree : s.disk backup = none) :
    Returns (moveAside move written slot backup flag) s () ((s.move slot backup).set flag) := by
  refine .bind (.get s) ?_
  rw [if_pos (hentry ▸ hexists)]
  refine .bind (returns_orFail hmove (renameSlot_of_free hentry hfree)) ?_
  exact .bind (returns_setVars _ _) (returns_untouched hwritten _)

end Returns

/-! ## Trees and their backups -/

/-- A tree still stands under its name, or was renamed to its backup and recorded. -/
def Aside (old : Option Entry) (saved : Bool) (own backup : Option Entry) : Prop :=
  if saved then own = none ∧ backup = old ∧ old.isSome else own = old ∧ backup = none

theorem Aside.kept {old own backup : Option Entry} {saved : Bool}
    (h : Aside old saved own backup) {entry : Entry} (hentry : old = some entry) :
    own = some entry ∨ backup = some entry := by
  unfold Aside at h
  split_ifs at h
  · exact Or.inr (h.2.1.trans hentry)
  · exact Or.inl (h.1.trans hentry)

theorem Aside.unsaved {old own backup : Option Entry} (h : Aside old false own backup) :
    own = old ∧ backup = none := by
  rwa [Aside, if_neg Bool.false_ne_true] at h

theorem Aside.saved {old own backup : Option Entry} (h : Aside old true own backup) :
    own = none ∧ backup = old ∧ old.isSome := by
  rwa [Aside, if_pos rfl] at h

/-- A tree whose name is free is in its backup, if there ever was one. -/
theorem Aside.backup_eq {old backup : Option Entry} {saved : Bool} (h : Aside old saved none
    backup) :
    backup = old := by
  cases saved with
  | false => rw [h.unsaved.2, ← h.unsaved.1]
  | true => exact h.saved.2.1

end CkbSail.PythonStd
