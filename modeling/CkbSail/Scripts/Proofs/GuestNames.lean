import CkbSail.PythonStd.PosixPath
import CkbSail.Scripts.GuestEvidence
import CkbSail.ProofSupport.ExactRun
import Mathlib

/-!
# The targets of the guest's files

A kept name leads below the boundary-check directory, or below the guest's directory
with at most one step up, behind `checkout-logs`.
-/

namespace CkbSail.Scripts.GuestEvidence

open PythonStd ProofSupport ReleaseCommon

/-! ## Names -/

theorem behind?_eq_some {start name rest : String} :
    behind? start name = some rest ↔ name = start ++ rest := by
  unfold behind?
  rw [Option.map_eq_some_iff]
  constructor
  · rintro ⟨tail, htail, rfl⟩
    obtain ⟨front, hname, hfront⟩ := List.dropPrefix?_eq_some_iff.1 htail
    rw [← String.toList_inj, String.toList_append, hname, eq_of_beq hfront, String.toList_ofList]
  · rintro rfl
    refine ⟨rest.toList, List.dropPrefix?_eq_some_iff.2 ⟨start.toList, ?_, beq_self_eq_true _⟩, ?_⟩
    · exact String.toList_append
    · exact String.ofList_toList

/-- A name is one component, or has a first one. -/
theorem first_component (name : String) :
    '/' ∉ name.toList ∨ ∃ head tail, name = head ++ "/" ++ tail ∧ '/' ∉ head.toList := by
  by_cases hslash : '/' ∈ name.toList
  · obtain ⟨front, rest, hname, hfront⟩ := List.eq_append_cons_of_mem hslash
    refine Or.inr ⟨String.ofList front, String.ofList rest, ?_, ?_⟩
    · rw [← String.toList_inj, hname]
      simp
    · rwa [String.toList_ofList]
  · exact Or.inl hslash

/-- All components of a name lead down. -/
def OrdinaryName (name : String) : Prop := ∀ part ∈ split name, Ordinary part

theorem OrdinaryName.behind {start rest : String} (h : OrdinaryName (start ++ "/" ++ rest)) :
    OrdinaryName rest := by
  intro part hpart
  apply h
  rw [split_append_slash]
  exact List.mem_append_right _ hpart

theorem parts_of_ordinary {name : String} (h : OrdinaryName name) : parts name = split name := by
  refine List.filter_eq_self.2 fun part hpart => ?_
  have hpart := h part hpart
  simp only [Ordinary, List.mem_cons, List.not_mem_nil, or_false, not_or] at hpart
  simp [hpart]

theorem plain_of_ordinary {name : String} (h : OrdinaryName name) : ".." ∉ parts name := by
  rw [parts_of_ordinary h]
  exact fun hmem => h _ hmem (by decide)

theorem parts_append_slash (start name : String) :
    parts (start ++ "/" ++ name) = parts start ++ parts name := by
  rw [parts, split_append_slash, List.filter_append, ← parts, ← parts]

/-- Only the first component of what follows `clean-room-checkout-` is free. -/
theorem parts_checkout {start rest : String} (h : OrdinaryName (start ++ rest)) :
    ".." ∉ parts rest ∨ ∃ below, parts rest = ".." :: below ∧ ".." ∉ below := by
  rcases first_component rest with hslash | ⟨head, tail, rfl, hslash⟩
  · by_cases hup : rest = ".."
    · exact Or.inr ⟨[], by rw [hup]; decide, List.not_mem_nil⟩
    · refine Or.inl fun hmem => hup ?_
      have hmem := (List.mem_filter.1 hmem).1
      rw [split_eq_singleton hslash] at hmem
      exact (List.mem_singleton.1 hmem).symm
  · have htail : OrdinaryName tail := by
      apply @OrdinaryName.behind (start ++ head)
      simpa only [String.append_assoc] using h
    rw [parts_append_slash]
    by_cases hup : head = ".."
    · refine Or.inr ⟨parts tail, ?_, plain_of_ordinary htail⟩
      rw [hup]
      rfl
    · refine Or.inl fun hmem => ?_
      rcases List.mem_append.1 hmem with hhead | hmem
      · have hhead := (List.mem_filter.1 hhead).1
        rw [split_eq_singleton hslash] at hhead
        exact hup (List.mem_singleton.1 hhead).symm
      · exact plain_of_ordinary htail hmem

/-! ## Targets -/

/-- Evidence goes below the boundary-check directory, outside restored roots. -/
structure BoundaryPath (path : Path) : Prop where
  plain : ".." ∉ path
  inside : ∃ top below, path = parts BOUNDARY_CHECK ++ top :: below ∧
    startsWithAny RESTORED_ROOT_PREFIXES top = false

/-- Below the guest's directory at most one step leads up again. -/
structure GuestPath (path : Path) : Prop where
  nonempty : path ≠ []
  steps : ".." ∉ path ∨ ∃ below, path = "checkout-logs" :: ".." :: below ∧ ".." ∉ below

def Target.Sound (target : Target) : Prop :=
  match target.root with
  | .evidence => BoundaryPath (parts target.relative)
  | .guest => GuestPath (parts target.relative)

theorem parts_ne_nil_of_ordinary {name : String} (h : OrdinaryName name) : parts name ≠ [] := by
  rw [parts_of_ordinary h]
  exact split_ne_nil name

theorem locateEvidence_eq_some {name rest : String} {target : Target}
    (h : locateEvidence name rest = .ok (some target)) :
    target = ⟨.evidence, BOUNDARY_CHECK ++ "/" ++ rest⟩ ∧
      startsWithAny RESTORED_ROOT_PREFIXES ((split rest).headD "") = false := by
  simp only [locateEvidence, except_bind_eq_ok, SailModelTransaction.require_eq_ok,
    Bool.not_eq_true'] at h
  obtain ⟨-, hroot, h⟩ := h
  refine ⟨?_, hroot⟩
  split_ifs at h
  · obtain ⟨-, -, h⟩ := except_bind_eq_ok.1 h
    exact (Option.some.inj (except_pure_eq_ok.1 h)).symm
  · obtain ⟨-, -, h⟩ := except_bind_eq_ok.1 h
    cases except_pure_eq_ok.1 h
  · obtain ⟨-, -, h⟩ := except_bind_eq_ok.1 h
    exact (Option.some.inj (except_pure_eq_ok.1 h)).symm

theorem sound_of_locateEvidence {name rest : String} {target : Target} (hrest : OrdinaryName rest)
    (h : locateEvidence name rest = .ok (some target)) : target.Sound := by
  obtain ⟨rfl, hroot⟩ := locateEvidence_eq_some h
  show BoundaryPath (parts (BOUNDARY_CHECK ++ "/" ++ rest))
  rw [parts_append_slash]
  refine ⟨?_, ?_⟩
  · rw [List.mem_append, not_or]
    exact ⟨by decide, plain_of_ordinary hrest⟩
  · rw [parts_of_ordinary hrest]
    cases hsplit : split rest with
    | nil => exact absurd hsplit (split_ne_nil rest)
    | cons top below =>
        rw [hsplit] at hroot
        exact ⟨top, below, rfl, hroot⟩

theorem sound_checkout {rest : String} (h : OrdinaryName (checkoutLogs ++ rest)) :
    Target.Sound ⟨.guest, "checkout-logs/" ++ rest⟩ := by
  have hparts : parts ("checkout-logs/" ++ rest) = "checkout-logs" :: parts rest := by
    have hsplit : "checkout-logs/" ++ rest = "checkout-logs" ++ "/" ++ rest := rfl
    rw [hsplit, parts_append_slash]
    rfl
  show GuestPath (parts ("checkout-logs/" ++ rest))
  rw [hparts]
  refine ⟨List.cons_ne_nil _ _, ?_⟩
  rcases parts_checkout h with hplain | ⟨below, hbelow, hplain⟩
  · refine Or.inl fun hmem => ?_
    rcases List.mem_cons.1 hmem with hup | hmem
    · exact absurd hup (by decide)
    · exact hplain hmem
  · exact Or.inr ⟨below, by rw [hbelow], hplain⟩

theorem sound_of_locate {name : String} {target : Target} (hname : OrdinaryName name)
    (h : locate name = .ok (some target)) : target.Sound := by
  cases hboundary : behind? boundary name with
  | some rest =>
      have hrest : name = CANONICAL ++ "/" ++ BOUNDARY_CHECK ++ "/" ++ rest :=
        behind?_eq_some.1 hboundary
      rw [hrest] at hname
      simp only [locate, hboundary] at h
      exact sound_of_locateEvidence hname.behind h
  | none =>
      cases hrun : behind? run name with
      | some rest =>
          have hrest : name = GUEST_RUN ++ "/" ++ rest := behind?_eq_some.1 hrun
          rw [hrest] at hname
          simp only [locate, hboundary, hrun] at h
          obtain rfl := Option.some.inj (Except.ok.inj h)
          exact ⟨parts_ne_nil_of_ordinary hname.behind, Or.inl (plain_of_ordinary hname.behind)⟩
      | none =>
          cases hcheckout : behind? checkoutLogs name with
          | some rest =>
              rw [behind?_eq_some.1 hcheckout] at hname
              simp only [locate, hboundary, hrun, hcheckout] at h
              obtain rfl := Option.some.inj (Except.ok.inj h)
              exact sound_checkout hname
          | none =>
              simp only [locate, hboundary, hrun, hcheckout] at h
              cases h

theorem targetOf_eq_some {item : Member} {target : Target} (h : targetOf item = .ok (some target)) :
    item.type = .regular ∧ target.Sound := by
  simp only [targetOf, except_bind_eq_ok, SailModelTransaction.require_eq_ok] at h
  obtain ⟨-, hname, -, htype, h⟩ := h
  have hname : OrdinaryName item.name := by
    intro part hpart
    simp only [Bool.and_eq_true, List.all_eq_true, decide_eq_true_eq] at hname
    obtain ⟨⟨hempty, hdot⟩, hup⟩ := hname.2 part hpart
    simp [Ordinary, hempty, hdot, hup]
  split_ifs at h with hdirectory
  · cases except_pure_eq_ok.1 h
  · refine ⟨?_, sound_of_locate hname h⟩
    simp only [hdirectory, decide_false, Bool.or_false, decide_eq_true_eq] at htype
    exact htype

/-! ## The first loop -/

/-- The target that a member is kept with. -/
def kept? (item : Member) : Option Target :=
  match targetOf item with
  | .ok target => target
  | .error _ => none

/-- The kept members of an archive. -/
def kept (items : List Member) : Targets :=
  items.filterMap fun item => (kept? item).map fun target => (item.name, target)

theorem kept?_eq_some {item : Member} {target : Target} :
    kept? item = some target ↔ targetOf item = .ok (some target) := by
  unfold kept?
  cases targetOf item with
  | error e => simp
  | ok found => simp

theorem kept_cons (item : Member) (items : List Member) :
    kept (item :: items) = kept [item] ++ kept items := by
  rw [kept, kept, kept, ← List.filterMap_append]
  rfl

theorem mem_kept {items : List Member} {name : String} {target : Target} :
    (name, target) ∈ kept items ↔ ∃ item ∈ items, kept? item = some target ∧ item.name = name := by
  rw [kept, List.mem_filterMap]
  constructor
  · rintro ⟨item, hitem, h⟩
    obtain ⟨other, hother, h⟩ := Option.map_eq_some_iff.1 h
    cases h
    exact ⟨item, hitem, hother, rfl⟩
  · rintro ⟨item, hitem, htarget, rfl⟩
    exact ⟨item, hitem, by rw [htarget, Option.map_some]⟩

theorem keep_eq_ok {item : Member} {targets targets' : Targets}
    (htargets : (targets.map Prod.fst).Nodup) :
    keep item targets = .ok targets' ↔ (∃ target, targetOf item = .ok target) ∧
      ((targets ++ kept [item]).map Prod.fst).Nodup ∧ targets' = targets ++ kept [item] := by
  unfold keep
  cases hallows : targetOf item with
  | error e => simp [bind, Except.bind]
  | ok found =>
      cases found with
      | none =>
          have hnone : kept [item] = [] := by simp [kept, kept?, hallows]
          simp [hnone, htargets, bind, Except.bind, pure, Except.pure, eq_comm]
      | some target =>
          have hsome : kept [item] = [(item.name, target)] := by simp [kept, kept?, hallows]
          have hnew : (!(targets.map Prod.fst).contains item.name) = true ↔
              ((targets ++ kept [item]).map Prod.fst).Nodup := by
            rw [hsome, List.map_append, List.map_singleton, List.nodup_append]
            simp only [htargets, List.nodup_singleton, true_and, List.mem_singleton, forall_eq,
              Bool.not_eq_true', List.contains_eq_mem, decide_eq_false_iff_not]
            exact ⟨fun h name hname hsame => h (hsame ▸ hname), fun h hmem => h _ hmem rfl⟩
          rw [hsome] at hnew ⊢
          constructor
          · intro h
            obtain ⟨_, hfound, h⟩ := except_bind_eq_ok.1 h
            cases hfound
            obtain ⟨_, hrequire, h⟩ := except_bind_eq_ok.1 h
            rw [SailModelTransaction.require_eq_ok] at hrequire
            exact ⟨⟨_, rfl⟩, hnew.1 hrequire, (except_pure_eq_ok.1 h).symm⟩
          · rintro ⟨-, hdistinct, rfl⟩
            exact except_bind_eq_ok.2 ⟨_, rfl, except_bind_eq_ok.2
              ⟨(), SailModelTransaction.require_eq_ok.2 (hnew.2 hdistinct), rfl⟩⟩

/-- The members that the loop accepts, with the names of the targets so far. -/
structure Accepted (stop : Option Exn) (items : List Member) (targets : Targets) : Prop where
  ended : stop = none
  allowed : ∀ item ∈ items, ∃ target, targetOf item = .ok target
  distinct : ((targets ++ kept items).map Prod.fst).Nodup

theorem accepted_cons {stop : Option Exn} {item : Member} {items : List Member}
    {targets : Targets} :
    Accepted stop (item :: items) targets ↔ (∃ target, targetOf item = .ok target) ∧
      Accepted stop items (targets ++ kept [item]) := by
  constructor
  · rintro ⟨hended, hallowed, hdistinct⟩
    obtain ⟨hallows, hallowed⟩ := List.forall_mem_cons.1 hallowed
    rw [kept_cons, ← List.append_assoc] at hdistinct
    exact ⟨hallows, hended, hallowed, hdistinct⟩
  · rintro ⟨hallows, hended, hallowed, hdistinct⟩
    rw [List.append_assoc, ← kept_cons] at hdistinct
    exact ⟨hended, List.forall_mem_cons.2 ⟨hallows, hallowed⟩, hdistinct⟩

theorem keepAll_eq_ok {stop : Option Exn} {items : List Member} {targets targets' : Targets}
    (htargets : (targets.map Prod.fst).Nodup) :
    keepAll stop items targets = .ok targets' ↔
      Accepted stop items targets ∧ targets' = targets ++ kept items := by
  induction items generalizing targets with
  | nil =>
      cases stop with
      | some e =>
          constructor
          · intro h
            cases h
          · intro h
            cases h.1.ended
      | none =>
          have hnil : targets ++ kept [] = targets := List.append_nil targets
          rw [hnil]
          refine ⟨fun h => ⟨⟨rfl, by simp, hnil.symm ▸ htargets⟩, ?_⟩, fun h => ?_⟩
          · exact (Except.ok.inj h).symm
          · rw [h.2]
            rfl
  | cons item items ih =>
      rw [keepAll, except_bind_eq_ok, accepted_cons, kept_cons item items, ← List.append_assoc]
      constructor
      · rintro ⟨next, hkeep, h⟩
        obtain ⟨hallows, hdistinct, rfl⟩ := (keep_eq_ok htargets).1 hkeep
        obtain ⟨haccepted, heq⟩ := (ih hdistinct).1 h
        exact ⟨⟨hallows, haccepted⟩, heq⟩
      · rintro ⟨⟨hallows, haccepted⟩, rfl⟩
        have hdistinct : ((targets ++ kept [item]).map Prod.fst).Nodup := by
          have hall := haccepted.distinct
          rw [List.map_append] at hall
          exact hall.of_append_left
        exact ⟨_, (keep_eq_ok htargets).2 ⟨hallows, hdistinct, rfl⟩,
          (ih hdistinct).2 ⟨haccepted, rfl⟩⟩

end CkbSail.Scripts.GuestEvidence
