import CkbSail.Scripts.GenerateRebuiltRust
import Mathlib.Tactic.Common

/-!
# The pair is installed all or nothing

The flags of the record say of each output how far its exchange has come.  The
handler undoes the exchange of both outputs from any combination.
-/

namespace CkbSail.Scripts.GenerateRebuiltRust

open PythonStd ProofSupport
open SailModelTransaction (Paths directoryPath regularTree regularEntry checkEntries fileName?
  suffix CACHED_NAMES CACHED_SUFFIXES)

/-! ## One output -/

/-- What the handler looks at for one output. -/
structure Side where
  oldSaved : Bool
  newInstalled : Bool
  own : Option Entry
  previous : Option Entry
  failed : Option Entry

def side (s : State) (artifact : Artifact) : Side where
  oldSaved := s.vars.oldSaved artifact
  newInstalled := s.vars.newInstalled artifact
  own := s.disk (artifact, .own)
  previous := s.disk (artifact, .previous)
  failed := s.disk (artifact, .failed)

/-- Nothing has happened to the output. -/
structure Fresh (old : Option Entry) (side : Side) : Prop where
  oldSaved : side.oldSaved = false
  newInstalled : side.newInstalled = false
  own : side.own = old
  previous : side.previous = none
  failed : side.failed = none

/-- The name is free, and the old output in the backup. -/
structure Cleared (old : Option Entry) (side : Side) : Prop where
  newInstalled : side.newInstalled = false
  own : side.own = none
  previous : Aside old side.oldSaved none side.previous
  failed : side.failed = none

/-- The new output stands under the name. -/
structure Exchanged (old : Option Entry) (side : Side) : Prop where
  newInstalled : side.newInstalled = true
  own : side.own.isSome
  previous : Aside old side.oldSaved none side.previous
  failed : side.failed = none

/-- How far the exchange, or the way back from it, has come. -/
inductive Condition where
  | fresh
  | cleared
  | exchanged
  | active
  | undone
  | restored

def Condition.Holds (old : Option Entry) (side : Side) : Condition → Prop
  | .fresh => Fresh old side
  | .cleared => Cleared old side
  | .exchanged => Exchanged old side
  | .active => Fresh old side ∨ Cleared old side ∨ Exchanged old side
  | .undone => Aside old side.oldSaved side.own side.previous
  | .restored => side.own = old

/-- The conditions the body goes through. -/
def Condition.InBody : Condition → Prop
  | .fresh | .cleared | .exchanged => True
  | _ => False

section Condition

variable {old : Option Entry} {side : Side} {condition : Condition}

theorem Condition.Holds.active (h : condition.Holds old side) (hbody : condition.InBody) :
    Condition.active.Holds old side := by
  cases condition with
  | fresh => exact Or.inl h
  | cleared => exact Or.inr (Or.inl h)
  | exchanged => exact Or.inr (Or.inr h)
  | active => cases hbody
  | undone => cases hbody
  | restored => cases hbody

theorem Condition.Holds.kept (h : condition.Holds old side) {entry : Entry}
    (hentry : old = some entry) : side.own = some entry ∨ side.previous = some entry := by
  have hfresh : Fresh old side → side.own = some entry ∨ side.previous = some entry :=
    fun h => Or.inl (h.own.trans hentry)
  have hcleared : Cleared old side → side.own = some entry ∨ side.previous = some entry :=
    fun h => Or.inr (h.previous.backup_eq.trans hentry)
  have hexchanged : Exchanged old side → side.own = some entry ∨ side.previous = some entry :=
    fun h => Or.inr (h.previous.backup_eq.trans hentry)
  cases condition with
  | fresh => exact hfresh h
  | cleared => exact hcleared h
  | exchanged => exact hexchanged h
  | active => exact h.elim hfresh fun h => h.elim hcleared hexchanged
  | undone => exact Aside.kept h hentry
  | restored => exact Or.inl (Eq.trans h hentry)

end Condition

/-! ## Both outputs -/

def Artifact.other : Artifact → Artifact
  | .model => .llbc
  | .llbc => .model

theorem Artifact.other_ne (artifact : Artifact) : artifact.other ≠ artifact := by
  cases artifact <;> decide

/-- The conditions of an output and of the other one. -/
def Both (old : Artifact → Option Entry) (artifact : Artifact) (condition other : Condition)
    (s : State) : Prop :=
  condition.Holds (old artifact) (side s artifact) ∧
    other.Holds (old artifact.other) (side s artifact.other)

/-- Each old output stands under its own name or in the backup. -/
def Kept (old : Artifact → Option Entry) (s : State) : Prop :=
  ∀ artifact entry, old artifact = some entry →
    s.disk (artifact, .own) = some entry ∨ s.disk (artifact, .previous) = some entry

/-- Where the body may raise. -/
def Left (old : Artifact → Option Entry) (s : State) : Prop := Both old .model .active .active s

section Both

variable {old : Artifact → Option Entry} {artifact : Artifact} {condition other : Condition}
  {s s' : State}

theorem Both.swap (h : Both old artifact condition other s) :
    Both old artifact.other other condition s := by
  cases artifact <;> exact And.symm h

theorem Both.kept (h : Both old artifact condition other s) : Kept old s := by
  intro a entry hentry
  by_cases ha : a = artifact
  · subst ha
    exact h.1.kept hentry
  · obtain rfl : a = artifact.other := by
      cases a <;> cases artifact <;> first | rfl | exact absurd rfl ha
    exact h.2.kept hentry

theorem Both.left (h : Both old artifact condition other s) (hcondition : condition.InBody)
    (hother : other.InBody) : Left old s := by
  cases artifact with
  | model => exact ⟨h.1.active hcondition, h.2.active hother⟩
  | llbc => exact ⟨h.2.active hother, h.1.active hcondition⟩

/-- An operation on one output leaves the condition of the other. -/
theorem Both.step {condition' : Condition} (h : Both old artifact condition other s)
    (hside : side s' artifact.other = side s artifact.other)
    (hholds : condition'.Holds (old artifact) (side s' artifact)) :
    Both old artifact condition' other s' :=
  ⟨hholds, by rw [hside]; exact h.2⟩

theorem side_moved_other (source target : Place) (vars : Record)
    (hold : vars.oldSaved artifact.other = s.vars.oldSaved artifact.other)
    (hnew : vars.newInstalled artifact.other = s.vars.newInstalled artifact.other) :
    side { disk := s.disk.moved (artifact, source) (artifact, target), vars := vars }
      artifact.other = side s artifact.other := by
  simp [side, artifact.other_ne, hold, hnew]

end Both

section Body

variable {host : Host} {provenance : Provenance} {old : Artifact → Option Entry}
  {artifact : Artifact} {other : Condition}

theorem saveOld_spec (hexists : Entry.pathExists (old artifact) = (old artifact).isSome)
    (hother : other.InBody) :
    Triple (fun _ => Left old) (Kept old) (Both old artifact .fresh other) (saveOld host artifact)
      (fun _ => Both old artifact .cleared other) := by
  refine triple_moveAside (fun s hs => hs.1.previous) (fun s e hs => hs.left trivial hother)
    (fun s hs => hs.kept) (fun s hs habsent => ?_) (fun s hs hpresent => ?_)
    (fun s e hs => hs.left trivial hother) (fun s hs => hs.kept)
  · have hfresh : Fresh (old artifact) (side s artifact) := hs.1
    have hown : s.disk (artifact, .own) = old artifact := hfresh.own
    rw [hown, hexists, Option.isSome_eq_false_iff, Option.isNone_iff_eq_none] at habsent
    refine hs.step rfl ⟨hfresh.newInstalled, hown.trans habsent, ?_, hfresh.failed⟩
    rw [hfresh.oldSaved, hfresh.previous, habsent]
    exact ⟨rfl, rfl⟩
  · have hfresh : Fresh (old artifact) (side s artifact) := hs.1
    have hown : s.disk (artifact, .own) = old artifact := hfresh.own
    have haside : Aside (old artifact) true none (old artifact) :=
      ⟨rfl, rfl, by rwa [← hown]⟩
    refine ⟨fun a entry hentry => ?_, hs.step (side_moved_other _ _ _ ?_ rfl) ⟨?_, ?_, ?_, ?_⟩⟩
    · by_cases ha : a = artifact
      · subst ha
        exact Or.inr (by simpa using hown.trans hentry)
      · simpa [ha] using hs.kept a entry hentry
    · simp [artifact.other_ne]
    · simpa [side] using hfresh.newInstalled
    · simp [side]
    · simpa [side, hown] using haside
    · simpa [side] using hfresh.failed

theorem installNew_spec (hother : other.InBody) :
    Triple (fun _ => Left old) (Kept old) (Both old artifact .cleared other)
      (installNew host artifact) (fun _ => Both old artifact .exchanged other) := by
  refine .bind (Q := fun _ s => Both old artifact .exchanged other { s with vars :=
      { s.vars with newInstalled := Function.update s.vars.newInstalled artifact true } })
    (triple_rename (fun s hs => hs.1.own) (fun s e hs => hs.left trivial hother)
      (fun s hs => hs.kept) fun s entry hs hentry => ?_) fun _ =>
    .bind (.assign fun s hs => hs) fun _ =>
      triple_untouched (fun s e hs => hs.left trivial hother) fun s hs => hs.kept
  have hcleared : Cleared (old artifact) (side s artifact) := hs.1
  refine ⟨hs.step (side_moved_other _ _ _ rfl ?_) ⟨?_, ?_, ?_, ?_⟩, fun a old' hold => ?_⟩
  · simp [artifact.other_ne]
  · simp [side]
  · simp [side, hentry]
  · simpa [side] using hcleared.previous
  · simpa [side] using hcleared.failed
  · by_cases ha : a = artifact
    · subst ha
      have hprevious : s.disk (a, .previous) = some old' := hcleared.previous.backup_eq.trans hold
      exact Or.inr (by simpa using hprevious)
    · simpa [ha] using hs.kept a old' hold

theorem hashMatches_eq_true {s : State} (h : hashMatches host provenance artifact s = .ok true) :
    ∃ bytes, installedBytes artifact (s.disk (artifact, .own)) = .ok bytes ∧
      host.sha256 bytes = provenance.digest artifact := by
  unfold hashMatches at h
  cases hfault : host.fault (.hash artifact) with
  | some e => simp [hfault, throw, throwThe, MonadExceptOf.throw, bind, Except.bind] at h
  | none =>
      cases hread : installedBytes artifact (s.disk (artifact, .own)) with
      | error e => simp [hfault, hread, bind, Except.bind] at h
      | ok bytes =>
          refine ⟨bytes, rfl, ?_⟩
          simpa [hfault, hread, bind, Except.bind, pure, Except.pure] using h

/-- What the installation has done when it returns. -/
structure Installed (host : Host) (provenance : Provenance) (old : Artifact → Option Entry)
    (s : State) : Prop where
  own : ∀ artifact, ∃ bytes, installedBytes artifact (s.disk (artifact, .own)) = .ok bytes ∧
    host.sha256 bytes = provenance.digest artifact
  previous : ∀ artifact, s.disk (artifact, .previous) = old artifact

/-- Both names hold what they held. -/
def Restored (old : Artifact → Option Entry) (s : State) : Prop :=
  ∀ artifact, s.disk (artifact, .own) = old artifact

theorem checkInstalled_spec :
    Triple (fun _ => Left old) (Kept old) (Both old .llbc .exchanged .exchanged)
      (checkInstalled host provenance)
      (fun _ s => Both old .llbc .exchanged .exchanged s ∧ Installed host provenance old s) := by
  refine .check (fun s _ hs hcheck => ⟨hs, ?_, fun a => ?_⟩)
    fun s e hs _ => hs.left trivial trivial
  · cases hmodel : hashMatches host provenance .model s with
    | error e => simp [hmodel, bind, Except.bind] at hcheck
    | ok same =>
        cases same with
        | false =>
            simp [hmodel, SailModelTransaction.require, bind, Except.bind, pure, Except.pure] at hcheck
        | true =>
            cases hllbc : hashMatches host provenance .llbc s with
            | error e => simp [hmodel, hllbc, bind, Except.bind] at hcheck
            | ok same' =>
                cases same' with
                | false =>
                    simp [hmodel, hllbc, SailModelTransaction.require, bind, Except.bind] at hcheck
                | true =>
                    intro a
                    cases a with
                    | model => exact hashMatches_eq_true hmodel
                    | llbc => exact hashMatches_eq_true hllbc
  · cases a with
    | model => exact Aside.backup_eq (Exchanged.previous hs.2)
    | llbc => exact Aside.backup_eq (Exchanged.previous hs.1)

/-- The body installs both outputs or raises from a state the handler can undo. -/
theorem body_spec (hexists : ∀ artifact, Entry.pathExists (old artifact) = (old artifact).isSome) :
    Triple (fun _ => Left old) (Kept old) (Both old .model .fresh .fresh) (body host provenance)
      (fun record s => Installed host provenance old s ∧ record = s.vars) := by
  refine .bind (saveOld_spec (hexists .model) trivial) fun _ => ?_
  refine .bind (Q := fun _ => Both old .model .cleared .cleared)
    (.weaken (saveOld_spec (hexists .llbc) (show Condition.InBody .cleared from trivial))
      (fun s hs => hs.swap) fun _ s hs => hs.swap) fun _ => ?_
  refine .bind (installNew_spec trivial) fun _ => ?_
  refine .bind (Q := fun _ => Both old .llbc .exchanged .exchanged)
    (.weaken (installNew_spec (show Condition.InBody .exchanged from trivial)) (fun s hs =>
      hs.swap) fun _ _ hs => hs)
    fun _ => ?_
  refine .bind checkInstalled_spec fun _ => ?_
  refine .bind (triple_setVars (Q := fun s => Both old .llbc .exchanged .exchanged s ∧
    Installed host provenance old s) fun s hs => ⟨hs.1, hs.2.own, hs.2.previous⟩) fun _ => ?_
  refine .bind (triple_untouched (fun s e hs => hs.1.left trivial trivial) fun s hs => hs.1.kept)
    fun _ => ?_
  exact .get_bind fun t => .pure fun s hs => ⟨hs.1.2, by rw [hs.2]⟩

end Body

/-! ## The handler -/

section Handler

variable {old : Artifact → Option Entry} {artifact : Artifact} {other : Condition}
  {E : Exn → State → Prop}

theorem undoNew_spec :
    Triple E (Kept old) (Both old artifact .active other) (undoNew artifact)
      (fun _ => Both old artifact .undone other) := by
  refine .get_bind fun t => .ite (fun hinstalled => ?_) fun hinstalled => ?_
  · have hexchanged : ∀ s, Both old artifact .active other s ∧ t = s →
        Exchanged (old artifact) (side s artifact) := by
      rintro s ⟨⟨hs, -⟩, rfl⟩
      rcases hs with hs | hs | hs
      · exact absurd (hinstalled.symm.trans hs.newInstalled) (by decide)
      · exact absurd (hinstalled.symm.trans hs.newInstalled) (by decide)
      · exact hs
    have hundone : ∀ s, Both old artifact .active other s ∧ t = s →
        Both old artifact .undone other
          { s with disk := s.disk.moved (artifact, .own) (artifact, .failed) } := by
      intro s hs
      refine hs.1.step (side_moved_other _ _ _ rfl rfl) ?_
      show Aside _ _ _ _
      simpa [side] using (hexchanged s hs).previous
    exact triple_recover (fun s hs => ⟨(hexchanged s hs).own, (hexchanged s hs).failed⟩)
      fun s hs => ⟨hundone s hs, (hundone s hs).kept⟩
  · refine .pure fun s hs => ?_
    obtain ⟨hs, rfl⟩ := hs
    refine hs.step rfl ?_
    show Aside _ _ _ _
    rcases hs.1 with hfresh | hcleared | hexchanged
    · rw [hfresh.oldSaved]
      exact ⟨hfresh.own, hfresh.previous⟩
    · rw [hcleared.own]
      exact hcleared.previous
    · exact absurd hexchanged.newInstalled hinstalled

theorem restoreOld_spec :
    Triple E (Kept old) (Both old artifact .undone other) (restoreOld artifact)
      (fun _ => Both old artifact .restored other) := by
  refine .get_bind fun t => .ite (fun hsaved => ?_) fun hsaved => ?_
  · have hmoved : ∀ s, Both old artifact .undone other s ∧ t = s →
        s.disk (artifact, .own) = none ∧ s.disk (artifact, .previous) = old artifact ∧
          (old artifact).isSome := by
      rintro s ⟨⟨hs, -⟩, rfl⟩
      exact Aside.saved (hsaved ▸ hs)
    have hrestored : ∀ s, Both old artifact .undone other s ∧ t = s →
        Both old artifact .restored other
          { s with disk := s.disk.moved (artifact, .previous) (artifact, .own) } := by
      intro s hs
      refine hs.1.step (side_moved_other _ _ _ rfl rfl) ?_
      show _ = _
      simpa [side] using (hmoved s hs).2.1
    refine triple_recover (fun s hs => ?_) fun s hs => ⟨hrestored s hs, (hrestored s hs).kept⟩
    obtain ⟨hfree, hprevious, hsome⟩ := hmoved s hs
    exact ⟨by rwa [hprevious], hfree⟩
  · refine .pure fun s hs => ?_
    obtain ⟨hs, rfl⟩ := hs
    have haside : Aside (old artifact) false (t.disk (artifact, .own))
        (t.disk (artifact, .previous)) := Bool.eq_false_iff.2 hsaved ▸ hs.1
    exact hs.step rfl haside.unsaved.1

theorem Both.restored {s : State} (h : Both old artifact .restored .restored s) :
    Restored old s := by
  intro a
  cases artifact with
  | model => cases a with
    | model => exact h.1
    | llbc => exact h.2
  | llbc => cases a with
    | model => exact h.2
    | llbc => exact h.1

/-- The handler puts both old outputs back. -/
theorem handler_spec {host : Host} {e : Exn} {Q : Record → State → Prop} :
    Triple (fun _ => Restored old) (Kept old) (Left old) (handler host e) Q := by
  refine .bind (.weaken undoNew_spec (fun s hs => Both.swap hs) fun _ s hs => hs.swap) fun _ => ?_
  refine .bind undoNew_spec fun _ => ?_
  refine .bind (.weaken restoreOld_spec (fun s hs => hs.swap) fun _ s hs => hs.swap) fun _ => ?_
  refine .bind restoreOld_spec fun _ => ?_
  refine .bind (triple_setVars (Q := Both old .model .restored .restored) fun s hs => hs)
    fun _ => ?_
  refine .bind (triple_untouched (fun s e hs => hs.restored) fun s hs => hs.kept) fun _ => ?_
  exact .raise fun s hs => hs.restored

end Handler

/-! ## The installation -/

section Install

variable {host : Host} {provenance : Provenance} {old : Artifact → Option Entry}

theorem Both.fresh_restored {s : State} (h : Both old .model .fresh .fresh s) : Restored old s := by
  intro a
  cases a with
  | model => exact h.1.own
  | llbc => exact h.2.own

/-- An operation on the staged outputs. -/
theorem triple_staged {operation : State → Except Exn Unit × State}
    (hstaged : ∀ s, ∃ artifact entry,
      (operation s).2 = { s with disk := Function.update s.disk (artifact, .staged) entry }) :
    Triple (fun _ => Restored old) (Kept old) (Both old .model .fresh .fresh) (.perform operation)
      (fun _ => Both old .model .fresh .fresh) := by
  have hnext : ∀ s, Both old .model .fresh .fresh s →
      Both old .model .fresh .fresh (operation s).2 := by
    intro s hs
    obtain ⟨artifact, entry, hstate⟩ := hstaged s
    have hside : ∀ a, side (operation s).2 a = side s a := by
      intro a
      simp [hstate, side]
    exact ⟨by rw [hside]; exact hs.1, by rw [hside]; exact hs.2⟩
  exact .perform (fun s hs _ => hnext s hs) (fun s _ hs _ => (hnext s hs).fresh_restored)
    fun s hs => (hnext s hs).kept

theorem stage_spec :
    Triple (fun _ => Restored old) (Kept old) (Both old .model .fresh .fresh) (stage host)
      (fun _ => Both old .model .fresh .fresh) := by
  have hwrite : ∀ point name content, Triple (fun _ => Restored old) (Kept old)
      (Both old .model .fresh .fresh) (writeStaged host point name content)
      (fun _ => Both old .model .fresh .fresh) :=
    fun point name content => triple_staged fun s => ⟨.model, _, rfl⟩
  refine .bind (triple_staged fun s => ?_) fun _ => ?_
  · cases host.fault .stagedDirectory with
    | none => exact ⟨.model, _, rfl⟩
    | some e => exact ⟨.model, s.disk (.model, .staged), by simp⟩
  refine .bind (hwrite _ _ _) fun _ => .bind (hwrite _ _ _) fun _ => .bind (hwrite _ _ _) fun _ =>
    .bind (hwrite _ _ _) fun _ => .bind (hwrite _ _ _) fun _ => ?_
  refine .bind (triple_staged fun s => ⟨.llbc, _, rfl⟩) fun _ => ?_
  refine .bind (.check (fun s _ hs _ => hs) fun s _ hs _ => hs.fresh_restored) fun _ => ?_
  exact .pure fun s hs => hs

/-- The check of the old LLBC admits no link, so its name is free unless it exists. -/
theorem exists_eq_isSome {entry : Option Entry}
    (h : (!Entry.isSymlink entry && (!Entry.pathExists entry || Entry.isFile entry)) = true) :
    Entry.pathExists entry = entry.isSome := by
  rcases entry with _ | _ | _ | target | _ <;> simp_all [Entry.pathExists, Entry.isSymlink]

theorem install_spec (hmodel : Entry.pathExists (old .model) = (old .model).isSome) :
    Triple (fun _ => Restored old) (Kept old) (Both old .model .fresh .fresh)
      (install host provenance) (fun record s => Installed host provenance old s ∧
        record = s.vars) := by
  have hcheck : ∀ test : State → Except Exn Unit, Triple (fun _ => Restored old) (Kept old)
      (Both old .model .fresh .fresh) (.check test) (fun _ => Both old .model .fresh .fresh) :=
    fun _ => .check (fun s _ hs _ => hs) fun s _ hs _ => hs.fresh_restored
  have huntouched : ∀ fault : Option Exn, Triple (fun _ => Restored old) (Kept old)
      (Both old .model .fresh .fresh) (orFail fault untouched)
      (fun _ => Both old .model .fresh .fresh) :=
    fun _ => triple_untouched (fun s _ hs => hs.fresh_restored) fun s hs => hs.kept
  have hpaths : Triple (fun _ => Restored old) (Kept old) (Both old .model .fresh .fresh)
      (checkPaths host) (fun _ s => Both old .model .fresh .fresh s ∧
        Entry.pathExists (old .llbc) = (old .llbc).isSome) := by
    refine .bind (hcheck _) fun _ => .bind (hcheck _) fun _ => .bind (hcheck _) fun _ => ?_
    refine .check (fun s _ hs htest => ⟨hs, ?_⟩) fun s _ hs _ => hs.fresh_restored
    have hown : s.disk (.llbc, .own) = old .llbc := hs.2.own
    rw [← hown]
    exact exists_eq_isSome (SailModelTransaction.require_eq_ok.1 htest)
  refine .bind hpaths fun _ => .assume fun hllbc => ?_
  refine .bind (hcheck _) fun _ => ?_
  refine .bind (huntouched (host.fault .destinationParent)) fun _ => ?_
  refine .bind (huntouched (host.fault .targetParent)) fun _ => ?_
  refine .bind (huntouched (host.fault .backup)) fun _ => ?_
  refine .bind stage_spec fun _ => ?_
  refine .bind (huntouched (host.fault .firstSave)) fun _ => ?_
  refine .handle (body_spec fun artifact => ?_) fun e => handler_spec
  cases artifact with
  | model => exact hmodel
  | llbc => exact hllbc

end Install

/-- Whichever operation fails: an exception leaves both names as they were, a
return leaves both new outputs with the digests of the provenance and both old
ones in the backup, and no step loses an old output. -/
theorem install_all_or_nothing (host : Host) (provenance : Provenance)
    (oldModel : Option (List (Path × Node))) (oldLlbc : Option Entry) :
    let initial := initialState host oldModel oldLlbc
    let old : Artifact → Option Entry := fun artifact => initial.disk (artifact, .own)
    let run := install host provenance initial
    (∀ e, run.result = .error e → Restored old run.state) ∧
    (∀ record, run.result = .ok record →
      Installed host provenance old run.state ∧ record = run.state.vars) ∧
    ∀ s ∈ initial :: run.visited, Kept old s := by
  intro initial old run
  have hinitial : Both old .model .fresh .fresh initial :=
    ⟨⟨rfl, rfl, rfl, rfl, rfl⟩, ⟨rfl, rfl, rfl, rfl, rfl⟩⟩
  have hmodel : Entry.pathExists (old .model) = (old .model).isSome := by
    show Entry.pathExists (oldModel.map .directory) = (oldModel.map Entry.directory).isSome
    cases oldModel <;> rfl
  have hspec : Triple _ _ _ (install host provenance) _ := install_spec hmodel
  have hrun := hspec initial hinitial
  refine ⟨hrun.raised, hrun.returned, fun s hs => ?_⟩
  rcases List.mem_cons.1 hs with rfl | hs
  · exact hinitial.kept
  · exact hrun.visited s hs

/-! ## A run that returns -/

/-- Nothing is in the way of installing `new` over a model with the given contents. -/
structure Obliging (host : Host) (provenance : Provenance) (oldModel : List (Path × Node))
    (new : Artifact → List UInt8) : Prop where
  fault : ∀ point, host.fault point = none
  root : directoryPath host.paths host.root host.rootEntry = .ok ()
  destination : directoryPath host.paths (destination host) (some (.directory oldModel)) = .ok ()
  targetParent : directoryPath host.paths (target host).dropLast host.targetParentEntry = .ok ()
  hashed : ∀ artifact, host.hashed artifact = .ok (new artifact)
  copied : ∀ artifact, host.copied artifact = .ok (new artifact)
  digest : ∀ artifact, host.sha256 (new artifact) = provenance.digest artifact
  toolchain : ∃ bytes, host.toolchainFile = .ok bytes

/-- A file of a tree in place of one of the same name. -/
def putFile (name : String) (bytes : List UInt8) (contents : List (Path × Node)) :
    List (Path × Node) :=
  ([name], .file 1 bytes) :: contents.filter (·.1 ≠ [name])

/-- What is staged beside the LLBC. -/
def stagedTree (host : Host) (model toolchain : List UInt8) : List (Path × Node) :=
  putFile "TOOLCHAIN.txt" toolchainText.toUTF8.toList
    (putFile "SOURCE_BASELINE.json" host.baseline
      (putFile "lakefile.toml" (lakefileText host.supportHome).toUTF8.toList
        (putFile "lean-toolchain" toolchain (putFile MODEL_FILE model []))))

section Returns

variable {host : Host} {provenance : Provenance} {oldModel : List (Path × Node)}
  {new : Artifact → List UInt8} {s : State}

theorem readChild_stagedTree (model toolchain : List UInt8) :
    Entry.readChild MODEL_FILE (some (.directory (stagedTree host model toolchain))) =
      .ok model := by
  have hlookup : List.lookup [ MODEL_FILE] (stagedTree host model toolchain) =
      some (.file 1 model) := by
    simp [stagedTree, putFile, MODEL_FILE, List.lookup_cons]
  rw [Entry.readChild, hlookup]

theorem regularEntry_file {root : Path} {name : String} (bytes : List UInt8)
    (hname : (!CACHED_NAMES.contains name && !CACHED_SUFFIXES.contains (suffix name)) = true) :
    regularEntry root ([name], .file 1 bytes) = .ok () := by
  simp only [regularEntry, List.getLastD_cons, List.getLastD_nil, hname]
  rfl

theorem checkEntries_full {root : Path} {rows : List (Path × Node)}
    (h : ∀ row ∈ rows, regularEntry root row = .ok ()) : checkEntries .full root rows = .ok () := by
  induction rows with
  | nil => rfl
  | cons row rows ih =>
      rw [List.forall_mem_cons] at h
      rw [checkEntries, if_pos (Access.reaches_full _), h.1]
      exact ih h.2

theorem regularEntry_stagedTree (root : Path) (model toolchain : List UInt8) :
    ∀ row ∈ stagedTree host model toolchain, regularEntry root row = .ok () := by
  have hput {name : String} {bytes : List UInt8} {contents : List (Path × Node)}
      (hname : (!CACHED_NAMES.contains name && !CACHED_SUFFIXES.contains (suffix name)) = true)
      (h : ∀ row ∈ contents, regularEntry root row = .ok ()) :
      ∀ row ∈ putFile name bytes contents, regularEntry root row = .ok () :=
    List.forall_mem_cons.2 ⟨regularEntry_file bytes hname, fun row hrow =>
      h row (List.mem_filter.1 hrow).1⟩
  exact hput (by decide +kernel) (hput (by decide +kernel) (hput (by decide +kernel)
    (hput (by decide +kernel) (hput (by decide +kernel) (List.forall_mem_nil _)))))

theorem regularTree_stagedTree (root : Path) (model toolchain : List UInt8) :
    ∃ files, regularTree .full root (some (.directory (stagedTree host model toolchain))) =
      .ok files := by
  have hseen : Access.full.seen (stagedTree host model toolchain) =
      stagedTree host model toolchain :=
    List.filter_eq_self.2 fun row _ => Access.sees_full row.1
  have hcheck := checkEntries_full (@regularEntry_stagedTree host root model toolchain)
  refine ⟨((stagedTree host model toolchain).filterMap fileName?).mergeSort (· ≤ ·), ?_⟩
  rw [regularTree, hseen, hcheck]
  rfl

theorem writeStaged_returns {point : Point} (hfault : host.fault point = none) (name : String)
    (bytes : List UInt8) (s : State) (contents : List (Path × Node)) :
    Returns (writeStaged host point name (.ok bytes))
      (s.put (.model, .staged) (.directory contents)) ()
      (s.put (.model, .staged) (.directory (putFile name bytes contents))) := by
  refine .perform ?_
  simp [written, hfault, leaving, Workspace.put, addFile, putFile]

theorem copyStagedLlbc_returns (h : Obliging host provenance oldModel new) (s : State) :
    Returns (copyStagedLlbc host) s () (s.put (.llbc, .staged) (.file 1 (new .llbc))) := by
  refine .perform ?_
  simp [written, h.fault, h.copied, leaving, Workspace.put]

theorem stage_returns (h : Obliging host provenance oldModel new) (s : State) :
    ∃ toolchain, Returns (stage host) s ()
      ((s.put (.model, .staged) (.directory (stagedTree host (new .model) toolchain))).put
        (.llbc, .staged) (.file 1 (new .llbc))) := by
  obtain ⟨toolchain, htoolchain⟩ := h.toolchain
  obtain ⟨files, hfiles⟩ := @regularTree_stagedTree host (backup host ++ ["staged"]) (new .model)
    toolchain
  refine ⟨toolchain, ?_⟩
  rw [stage, h.copied .model, htoolchain]
  refine .bind (returns_orFail (t := s.put (.model, .staged) (.directory [])) (h.fault _) rfl) ?_
  refine .bind (writeStaged_returns (h.fault _) _ _ _ _) ?_
  refine .bind (writeStaged_returns (h.fault _) _ _ _ _) ?_
  refine .bind (writeStaged_returns (h.fault _) _ _ _ _) ?_
  refine .bind (writeStaged_returns (h.fault _) _ _ _ _) ?_
  refine .bind (writeStaged_returns (h.fault _) _ _ _ _) ?_
  refine .bind (copyStagedLlbc_returns h _) ?_
  exact .bind (.check (hfiles)) (.pure _ _)

theorem checkPaths_returns (h : Obliging host provenance oldModel new) {links : Nat}
    {bytes : List UInt8} (hmodel : s.disk (.model, .own) = some (.directory oldModel))
    (hllbc : s.disk (.llbc, .own) = some (.file links bytes)) :
    Returns (checkPaths host) s () s := by
  have hdestination : directoryPath host.paths (destination host) (s.disk (.model, .own)) =
      .ok () := by
    rw [hmodel]
    exact h.destination
  refine .bind (.check h.root) (.bind (.check hdestination) (.bind (.check h.targetParent) ?_))
  refine .check ?_
  simp only [hllbc]
  rfl

theorem checkNew_returns (h : Obliging host provenance oldModel new) (s : State) :
    Returns (checkNew host provenance) s () s := by
  have hmodel := h.digest .model
  have hllbc := h.digest .llbc
  refine .check ?_
  rw [h.hashed .model, h.hashed .llbc]
  simp only [Provenance.digest] at hmodel hllbc
  simp only [bind, Except.bind, hmodel, hllbc, if_true, decide_true]
  rfl

/-- The names before the exchange: both outputs and both backups in place. -/
structure Waiting (oldModel staged : List (Path × Node)) (oldLlbc newLlbc : Entry) (s : State) :
    Prop where
  model : s.disk (.model, .own) = some (.directory oldModel)
  llbc : s.disk (.llbc, .own) = some oldLlbc
  stagedModel : s.disk (.model, .staged) = some (.directory staged)
  stagedLlbc : s.disk (.llbc, .staged) = some newLlbc
  free : ∀ artifact, s.disk (artifact, .previous) = none

/-- The names after it. -/
structure Exchange (oldModel staged : List (Path × Node)) (oldLlbc newLlbc : Entry) (s : State) :
    Prop where
  model : s.disk (.model, .own) = some (.directory staged)
  llbc : s.disk (.llbc, .own) = some newLlbc
  previousModel : s.disk (.model, .previous) = some (.directory oldModel)
  previousLlbc : s.disk (.llbc, .previous) = some oldLlbc

/-- The state once an old output is in the backup. -/
def State.saved (s : State) (artifact : Artifact) : State :=
  (s.move (artifact, .own) (artifact, .previous)).set fun record =>
    { record with oldSaved := Function.update record.oldSaved artifact true }

/-- The state once a staged output is in place. -/
def State.installed (s : State) (artifact : Artifact) : State :=
  (s.move (artifact, .staged) (artifact, .own)).set fun record =>
    { record with newInstalled := Function.update record.newInstalled artifact true }

theorem saveOld_returns {artifact : Artifact} {entry : Entry}
    (hfault : ∀ point, host.fault point = none) (hold : s.disk (artifact, .own) = some entry)
    (hexists : Entry.pathExists (some entry) = true)
    (hfree : s.disk (artifact, .previous) = none) :
    Returns (saveOld host artifact) s () (s.saved artifact) :=
  returns_moveAside (hfault _) (hfault _) _ hold hexists hfree

theorem installNew_returns {artifact : Artifact} {entry : Entry}
    (hfault : ∀ point, host.fault point = none)
    (hstaged : s.disk (artifact, .staged) = some entry) (hfree : s.disk (artifact, .own) = none) :
    Returns (installNew host artifact) s () (s.installed artifact) := by
  refine .bind (returns_orFail (hfault _) (renameSlot_of_free hstaged hfree)) ?_
  exact .bind (.assign _ _) (returns_untouched (hfault _) _)

theorem hashMatches_of_bytes {artifact : Artifact} {bytes : List UInt8}
    (hfault : ∀ point, host.fault point = none)
    (hbytes : installedBytes artifact (s.disk (artifact, .own)) = .ok bytes)
    (hdigest : host.sha256 bytes = provenance.digest artifact) :
    hashMatches host provenance artifact s = .ok true := by
  simp [hashMatches, hfault, hbytes, hdigest, bind, Except.bind, pure, Except.pure]

theorem checkInstalled_returns (h : Obliging host provenance oldModel new) {toolchain : List UInt8}
    (hmodel : s.disk (.model, .own) =
      some (.directory (stagedTree host (new .model) toolchain)))
    (hllbc : s.disk (.llbc, .own) = some (.file 1 (new .llbc))) :
    Returns (checkInstalled host provenance) s () s := by
  have hread : installedBytes .model (s.disk (.model, .own)) = .ok (new .model) := by
    rw [hmodel]
    exact @readChild_stagedTree host (new .model) toolchain
  have hread' : installedBytes .llbc (s.disk (.llbc, .own)) = .ok (new .llbc) := by
    rw [hllbc]
    rfl
  refine .check ?_
  rw [hashMatches_of_bytes h.fault hread (h.digest .model),
    hashMatches_of_bytes h.fault hread' (h.digest .llbc)]
  rfl

theorem body_returns (h : Obliging host provenance oldModel new) {links : Nat}
    {bytes toolchain : List UInt8}
    (hs : Waiting oldModel (stagedTree host (new .model) toolchain) (.file links bytes)
      (.file 1 (new .llbc)) s) :
    ∃ t, Returns (body host provenance) s t.vars t ∧ t.vars.status = "installed" ∧
      Exchange oldModel (stagedTree host (new .model) toolchain) (.file links bytes)
        (.file 1 (new .llbc)) t := by
  have hllbc : (s.saved .model).disk (.llbc, .own) = some (.file links bytes) := by
    simp [State.saved, hs.llbc]
  have hbackup : (s.saved .model).disk (.llbc, .previous) = none := by
    simp [State.saved, hs.free]
  have hstaged : ((s.saved .model).saved .llbc).disk (.model, .staged) =
      some (.directory (stagedTree host (new .model) toolchain)) := by
    simp [State.saved, hs.stagedModel]
  have hfree : ((s.saved .model).saved .llbc).disk (.model, .own) = none := by
    simp [State.saved]
  have hstaged' : (((s.saved .model).saved .llbc).installed .model).disk (.llbc, .staged) =
      some (.file 1 (new .llbc)) := by
    simp [State.saved, State.installed, hs.stagedLlbc]
  have hfree' : (((s.saved .model).saved .llbc).installed .model).disk (.llbc, .own) = none := by
    simp [State.saved, State.installed]
  have hexchange : Exchange oldModel (stagedTree host (new .model) toolchain) (.file links bytes)
      (.file 1 (new .llbc))
      ((((s.saved .model).saved .llbc).installed .model).installed .llbc) := by
    constructor <;> simp [State.saved, State.installed, hs.model, hs.llbc, hs.stagedModel,
      hs.stagedLlbc]
  refine ⟨((((s.saved .model).saved .llbc).installed .model).installed .llbc).set fun record =>
    { record with status := "installed" }, ?_, rfl, hexchange.model, hexchange.llbc,
    hexchange.previousModel, hexchange.previousLlbc⟩
  refine .bind (saveOld_returns h.fault hs.model rfl (hs.free .model)) ?_
  refine .bind (saveOld_returns h.fault hllbc rfl hbackup) ?_
  refine .bind (installNew_returns h.fault hstaged hfree) ?_
  refine .bind (installNew_returns h.fault hstaged' hfree') ?_
  refine .bind (checkInstalled_returns h hexchange.model hexchange.llbc) ?_
  refine .bind (returns_setVars _ _) (.bind (returns_untouched (h.fault _) _) ?_)
  exact .bind (.get _) (.pure _ _)

/-- On an obliging host a new pair replaces old outputs that are there: the installation
returns, with the new pair in place and the old one in the backup. -/
theorem install_returns (h : Obliging host provenance oldModel new) (links : Nat)
    (bytes : List UInt8) :
    ∃ record t, Returns (install host provenance)
        (initialState host (some oldModel) (some (.file links bytes))) record t ∧
      record.status = "installed" ∧ ∃ toolchain,
        Exchange oldModel (stagedTree host (new .model) toolchain) (.file links bytes)
          (.file 1 (new .llbc)) t := by
  obtain ⟨toolchain, hstage⟩ := stage_returns h
    (initialState host (some oldModel) (some (.file links bytes)))
  have hwaiting : Waiting oldModel (stagedTree host (new .model) toolchain) (.file links bytes)
      (.file 1 (new .llbc))
      (((initialState host (some oldModel) (some (.file links bytes))).put (.model, .staged)
        (.directory (stagedTree host (new .model) toolchain))).put (.llbc, .staged)
          (.file 1 (new .llbc))) := by
    constructor <;> simp [initialState]
  obtain ⟨t, hbody, hstatus, hexchange⟩ := body_returns h hwaiting
  refine ⟨t.vars, t, ?_, hstatus, toolchain, hexchange⟩
  refine .bind (checkPaths_returns h rfl rfl) ?_
  refine .bind (checkNew_returns h _) ?_
  refine .bind (returns_untouched (h.fault _) _) (.bind (returns_untouched (h.fault _) _) ?_)
  refine .bind (returns_untouched (h.fault _) _) (.bind hstage ?_)
  exact .bind (returns_untouched (h.fault _) _) (.handle _ hbody)

end Returns

def plainOutput : Artifact → List UInt8
  | .model => [1]
  | .llbc => [2, 2]

/-- A checkout in `/work`, with the number of bytes for a digest. -/
def plainHost : Host where
  paths := ⟨id, ["root"]⟩
  sha256 := fun bytes => toString bytes.length
  root := ["work"]
  rootEntry := some (.directory [])
  targetParentEntry := some (.directory [])
  backupSuffix := "a1b2c3d4"
  hashed := fun artifact => .ok (plainOutput artifact)
  copied := fun artifact => .ok (plainOutput artifact)
  toolchainFile := .ok TOOLCHAIN.toUTF8.toList
  supportHome := ["opt", "aeneas"]
  baseline := []
  fault := fun _ => none
  partialWrite := fun _ => none

theorem plainHost_obliging : Obliging plainHost ⟨"1", "2"⟩ [([ MODEL_FILE], .file 1 [0])]
    plainOutput where
  fault _ := rfl
  root := by decide +kernel
  destination := by decide +kernel
  targetParent := by decide +kernel
  hashed _ := rfl
  copied _ := rfl
  digest artifact := by cases artifact <;> decide +kernel
  toolchain := ⟨_, rfl⟩

end CkbSail.Scripts.GenerateRebuiltRust
