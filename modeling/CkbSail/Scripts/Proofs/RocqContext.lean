import CkbSail.Scripts.Proofs.SailModelTransaction
import CkbSail.Scripts.RocqContext

/-!
# What the later check reads of a publication

A returned record names the directories of the run and the files that it has seen.
Of an unchanged record only the inventory of the tree is left to check.
-/

namespace CkbSail.Scripts.RocqContext

open PythonStd ProofSupport
open SailModelTransaction hiding require require_eq_ok suffix Host

/-! ## The returned record -/

section Returned

variable {start : Start}

/-- What the record says all along. -/
structure Named (start : Start) (record : Record) : Prop where
  source : record.source = start.source.display
  destination : record.destination = start.destination.display
  policyChanged : record.policyChanged = false

/-- If the program returns, what the record says all along still holds. -/
def KeepsNames {α : Type} (start : Start) (program : Transaction α) : Prop :=
  Triple (fun _ _ => True) (fun _ => True) (fun s => Named start s.vars.record) program
    fun _ s => Named start s.vars.record

theorem keepsNames_check {α : Type} {test : State → Except Exn α} :
    KeepsNames start (.check test) :=
  .check (fun _ _ hs _ => hs) fun _ _ _ _ => trivial

/-- An operation on the trees leaves the record alone. -/
theorem keepsNames_perform {operation : State → Except Exn Unit × State}
    (h : ∀ s, (operation s).2.vars = s.vars) : KeepsNames start (.perform operation) := by
  refine .perform (fun s hs _ => ?_) (fun _ _ _ _ => trivial) fun _ _ => trivial
  rwa [h s]

theorem keepsNames_orFail {fault : Option Exn} {operation : State → Except Exn Unit × State}
    (h : ∀ s, (operation s).2.vars = s.vars) : KeepsNames start (orFail fault operation) := by
  refine keepsNames_perform fun s => ?_
  cases fault with
  | none => exact h s
  | some e => rfl

theorem keepsNames_untouched {fault : Option Exn} : KeepsNames start (orFail fault untouched) :=
  keepsNames_orFail fun _ => rfl

theorem keepsNames_setVars {update : Variables → Variables}
    (h : ∀ vars, Named start vars.record → Named start (update vars).record) :
    KeepsNames start (setVars update) :=
  .assign fun s hs => h s.vars hs

theorem keepsNames_moveAside {move written : Option Exn} {slot backup : Slot}
    {flag : Variables → Variables}
    (h : ∀ vars, Named start vars.record → Named start (flag vars).record) :
    KeepsNames start (moveAside move written slot backup flag) := by
  refine .get_bind fun t => .ite (fun _ => ?_) fun _ => .pure fun s hs => hs.1
  have hmove : KeepsNames start (orFail move (renameSlot slot backup)) :=
    keepsNames_orFail fun _ => rfl
  refine .bind (.weaken hmove (fun s hs => hs.1) fun _ _ h => h) fun _ => ?_
  exact .bind (keepsNames_setVars h) fun _ => keepsNames_untouched

theorem body_named :
    Triple (fun _ _ => True) (fun _ => True) (fun s => Named start s.vars.record)
      (body start.host start.source start.destination)
      (fun record _ => Named start record ∧ record.status = "installed") := by
  have hflag : ∀ {update : Record → Record}, (∀ record, Named start record →
      Named start (update record)) → KeepsNames start (setRecord update) :=
    fun h => keepsNames_setVars fun vars => h vars.record
  refine .bind (keepsNames_moveAside fun vars hs => ⟨hs.source, hs.destination,
    hs.policyChanged⟩) fun _ => ?_
  refine .bind (.bind (keepsNames_setVars fun vars hs => hs) fun _ =>
    keepsNames_perform fun s => rfl) fun _ => ?_
  refine .bind keepsNames_check fun rawFiles => ?_
  refine .bind (hflag fun record hs => ⟨hs.source, hs.destination, hs.policyChanged⟩) fun _ => ?_
  refine .bind (keepsNames_perform fun s => ?_) fun _ => ?_
  · cases start.host.fault .copy <;> rfl
  refine .bind (keepsNames_perform fun s => ?_) fun _ => ?_
  · unfold adaptStage
    cases s.disk .stage <;> rfl
  refine .bind keepsNames_check fun installedFiles => ?_
  refine .bind (hflag fun record hs => ⟨hs.source, hs.destination, hs.policyChanged⟩) fun _ => ?_
  refine .bind keepsNames_check fun _ => ?_
  refine .bind (keepsNames_moveAside fun vars hs => ⟨hs.source, hs.destination,
    hs.policyChanged⟩) fun _ => ?_
  have hpublish : Triple (fun _ _ => True) (fun _ => True) (fun s => Named start s.vars.record)
      (publish start.host)
      fun _ s => Named start s.vars.record ∧ s.vars.record.status = "installed" :=
    .bind (keepsNames_orFail fun _ => rfl) fun _ => .assign fun s hs =>
      ⟨⟨hs.source, hs.destination, hs.policyChanged⟩, rfl⟩
  refine .bind hpublish fun _ => ?_
  refine .bind (triple_untouched (fun _ _ _ => trivial) fun _ _ => trivial) fun _ => ?_
  refine .get_bind fun t => .pure fun s hs => ?_
  rw [hs.2]
  exact hs.1

theorem replaceModel_named :
    Triple (fun _ _ => True) (fun _ => True) (fun s => Named start s.vars.record)
      (replaceModel start.host start.source start.destination)
      (fun record _ => Named start record ∧ record.status = "installed") := by
  have hpaths : KeepsNames start (checkPaths start.host start.source start.destination) :=
    .bind keepsNames_check fun _ => .bind keepsNames_check fun _ => .bind keepsNames_check
      fun _ => keepsNames_check
  refine .bind hpaths fun _ => ?_
  refine .bind keepsNames_untouched fun _ => ?_
  refine .bind keepsNames_untouched fun _ => ?_
  refine .bind keepsNames_untouched fun _ => ?_
  refine .bind keepsNames_untouched fun _ => ?_
  -- The handler raises again, whatever it does before.
  exact .handle body_named fun e => .bind .trivially fun _ => .bind .trivially fun _ =>
    .bind .trivially fun _ => .raise fun _ _ => trivial

/-- What a publication sees of the tree that it leaves, when it records the files. -/
def seenBy (start : Start) (contents : List (Path × Node)) : List (Path × Node) :=
  (start.host.access .stage).seen contents

/-- What a record is that `replaceModel` returns: it names the two directories and
the backup, and lists what is seen of the tree that stands at the destination. -/
structure Published (start : Start) (record : Record) (contents : List (Path × Node)) : Prop where
  named : Named start record
  status : record.status = "installed"
  published : record.published = true
  backup : record.installationBackup = (installBackup start.host start.destination).display
  regular : ∃ access root, checkEntries access root (seenBy start contents) = .ok ()
  files : record.installedFiles =
    some (((seenBy start contents).filterMap fileName?).mergeSort (· ≤ ·))

theorem regularTree_directory_eq_ok {access : Access} {root : Path}
    {contents : List (Path × Node)} {files : List String}
    (h : regularTree access root (some (.directory contents)) = .ok files) :
    checkEntries access root (access.seen contents) = .ok () ∧
      files = ((access.seen contents).filterMap fileName?).mergeSort (· ≤ ·) := by
  unfold regularTree at h
  cases hcheck : checkEntries access root (access.seen contents) with
  | error e => simp [hcheck, bind, Except.bind] at h
  | ok u =>
      refine ⟨rfl, ?_⟩
      by_cases hempty : ((access.seen contents).filterMap fileName?).isEmpty = true
      · simp [hcheck, bind, Except.bind, SailModelTransaction.require, hempty] at h
      · have hfiles : SailModelTransaction.require
            (!((access.seen contents).filterMap fileName?).isEmpty)
            "empty fresh generated directory" = .ok () := by
          rw [SailModelTransaction.require_eq_ok]
          simpa using hempty
        simp only [hcheck, bind, Except.bind, hfiles, pure, Except.pure, Except.ok.injEq] at h
        exact h.symm

theorem published_of_returned {record : Record}
    (h : (replaceModel start.host start.source start.destination (initialState start.host
      start.source start.destination start.oldSource start.oldDestination)).result = .ok record) :
    ∃ contents, (replaceModel start.host start.source start.destination (initialState start.host
        start.source start.destination start.oldSource start.oldDestination)).state.disk
          .destination = some (.directory contents) ∧
      Published start record contents := by
  obtain ⟨hinstalled, hrecord⟩ := (replaceModel_spec _ initialState_initial).returned record h
  obtain ⟨hnamed, hstatus⟩ := (replaceModel_named _ ⟨rfl, rfl, rfl⟩).returned record h
  obtain ⟨tree, files, hadapted, hdestination, hfiles⟩ := hinstalled.tree
  obtain ⟨contents, htree⟩ := eq_directory_of_regularTree hadapted.accepted
  obtain rfl := Option.some.inj htree
  obtain ⟨hcheck, rfl⟩ := regularTree_directory_eq_ok hadapted.accepted
  refine ⟨contents, hdestination, hnamed, hstatus, ?_, ?_, ⟨_, _, hcheck⟩, ?_⟩
  · rw [hrecord, hinstalled.published]
  · rw [hrecord, hinstalled.recorded.installation]
  · rw [hrecord, hfiles]
    rfl

end Returned

/-! ## Paths and their names -/

section Paths

/-- A component of a path as the host resolves it. -/
def Proper (part : String) : Prop := Component part ∧ part ≠ "" ∧ part ≠ "."

theorem display_eq {path : Path} : path.display = String.ofList ('/' :: (join path).toList) := by
  have hjoin : (join path).toList = (slashed path).toList := by
    rw [join, String.toList_ofList, toList_slashed]
  apply String.toList_injective
  rw [Path.display, String.toList_append, hjoin, slashed]
  simp

theorem parts_display {path : Path} (h : ∀ part ∈ path, Proper part) :
    parts path.display = path := by
  have hsplit : split path.display = "" :: split (join path) := by
    rw [split, display_eq, String.toList_ofList, List.splitOn_cons_eq_if_modifyHead,
      if_pos (beq_self_eq_true _)]
    rfl
  rw [parts, hsplit]
  cases path with
  | nil => decide
  | cons head rest =>
      rw [split_join (List.cons_ne_nil _ _) fun part hpart => (h part hpart).1]
      rw [List.filter_cons_of_neg (by simp), List.filter_eq_self]
      intro part hpart
      simp [(h part hpart).2.1, (h part hpart).2.2]

theorem anchor_display {path : Path} (h : ∀ part ∈ path, Proper part) :
    anchor path.display = "/" := by
  rw [anchor, display_eq, String.toList_ofList]
  cases path with
  | nil => rfl
  | cons head rest =>
      obtain ⟨hslash, hempty, -⟩ := h head List.mem_cons_self
      have hchars : (join (head :: rest)).toList = head.toList ++ tail rest := by
        rw [join, String.toList_ofList, ← toList_slashed, toList_slashed_cons]
      rw [hchars]
      cases hhead : head.toList with
      | nil => exact absurd (String.toList_injective hhead) hempty
      | cons c cs =>
          have hc : c ≠ '/' := by
            rintro rfl
            exact hslash (by rw [hhead]; exact List.mem_cons_self)
          simp [hc]

theorem pathOf_display {path : Path} (h : ∀ part ∈ path, Proper part) :
    pathOf (.str path.display) = .ok ("/", path) := by
  rw [pathOf, anchor_display h, parts_display h]

end Paths

/-! ## The inventory -/

section Inventory

/-- A node the check passes by or lists. -/
def Regular : Node → Prop
  | .directory => True
  | .file links _ => links = 1
  | _ => False

theorem regular_of_regularEntry {root : Path} {row : Path × Node}
    (h : regularEntry root row = .ok ()) : Regular row.2 := by
  obtain ⟨path, node⟩ := row
  rcases node with _ | ⟨links, bytes⟩ | target | _
  · trivial
  · by_contra hlinks
    simp [regularEntry, SailModelTransaction.require, bind, Except.bind,
      show links ≠ 1 from hlinks] at h
    split at h <;> simp at h
  · simp [regularEntry, SailModelTransaction.require, bind, Except.bind] at h
  · simp [regularEntry, SailModelTransaction.require, bind, Except.bind] at h

theorem regular_of_checkEntries {access : Access} {root : Path} {contents : List (Path × Node)}
    (h : checkEntries access root contents = .ok ()) : ∀ row ∈ contents, Regular row.2 := by
  induction contents with
  | nil => simp
  | cons row rows ih =>
      rw [checkEntries] at h
      split_ifs at h
      cases hrow : regularEntry root row with
      | error e => simp [hrow, bind, Except.bind] at h
      | ok u =>
          have hrows : checkEntries access root rows = .ok () := by
            simpa [hrow, bind, Except.bind] using h
          exact List.forall_mem_cons.2 ⟨regular_of_regularEntry hrow, ih hrows⟩

/-- What the check passes by or lists: the user can look at it, and read it if it is a
file. -/
structure Passes (access : Access) (row : Path × Node) : Prop where
  reached : access.reaches row.1 = true
  regular : Regular row.2
  read : row.2 ≠ .directory → access.reads row.1 = true

/-- The loop goes through exactly when every row passes, and then lists the files. -/
theorem inventory_iff {access : Access} {sha256 : List UInt8 → String}
    {rows : List (Path × Node)} {names : List String} :
    (∃ files, inventory access sha256 rows = .ok files ∧ files.map Prod.fst = names) ↔
      (∀ row ∈ rows, Passes access row) ∧ rows.filterMap fileName? = names := by
  induction rows generalizing names with
  | nil => simp [inventory]
  | cons row rows ih =>
      obtain ⟨path, node⟩ := row
      rw [List.forall_mem_cons]
      cases hreaches : access.reaches path with
      | false =>
          have hfails : ¬Passes access (path, node) := fun h => by simp [h.reached] at hreaches
          simp [inventory, hreaches, hfails]
      | true =>
          rcases node with _ | ⟨links, bytes⟩ | target | _
          · have hpasses : Passes access (path, .directory) :=
              ⟨hreaches, trivial, fun h => absurd rfl h⟩
            rw [List.filterMap_cons_none rfl, inventory, if_pos hreaches, ih]
            simp [hpasses]
          · have hname : fileName? (path, .file links bytes) = some (slashed path) := rfl
            rw [List.filterMap_cons_some hname]
            constructor
            · rintro ⟨files, hfiles, rfl⟩
              rw [inventory, if_pos hreaches] at hfiles
              obtain ⟨u, hlinks, hfiles⟩ := Py.bind_eq_ok.1 hfiles
              split_ifs at hfiles with hread
              obtain ⟨rest, hrest, hfiles⟩ := Py.bind_eq_ok.1 hfiles
              obtain rfl := Py.pure_eq_ok.1 hfiles
              rw [require_eq_ok, decide_eq_true_iff] at hlinks
              obtain ⟨hrows, hnames⟩ := ih.1 ⟨rest, hrest, rfl⟩
              exact ⟨⟨⟨hreaches, hlinks, fun _ => hread⟩, hrows⟩, by rw [hnames]; rfl⟩
            · rintro ⟨⟨hrow, hrows⟩, rfl⟩
              obtain ⟨rest, hrest, hnames⟩ := ih.2 ⟨hrows, rfl⟩
              refine ⟨(slashed path, sha256 bytes) :: rest, ?_, by rw [← hnames]; rfl⟩
              have hrequire : require (links = 1) "nonregular/shared Sail Rocq output" = .ok () :=
                require_eq_ok.2 (decide_eq_true_iff.2 hrow.regular)
              have hread : access.reads path = true := hrow.read fun h => by cases h
              rw [inventory, if_pos hreaches, hrequire, hread, hrest]
              rfl
          · have hfails : ¬Passes access (path, .symlink target) := fun h => h.regular.elim
            simp [inventory, hreaches, hfails]
          · have hfails : ¬Passes access (path, .special) := fun h => h.regular.elim
            simp [inventory, hreaches, hfails]

end Inventory

/-! ## Acceptance -/

section Acceptance

/-- The row that a passed generation stage is reported with. -/
structure StageRow (root : Path) (digest : String) (row : Json) : Prop where
  name : row.getItem "name" = .ok (.str "sail-generate")
  command : row.getItem "command" =
    .ok (.arr [.str "bash", .str "scripts/generate_proof_model.sh", .str "rocq"])
  cwd : row.getItem "cwd" = .ok (.str root.display)
  status : row.getItem "status" = .ok (.str "passed")
  exitCode : row.getItem "exit_code" = .ok (.int 0)
  log : row.getItem "log" = .ok (.str "sail-generate.log")
  logSha256 : row.getItem "log_sha256" = .ok (.str digest)

/-- The record is in the log of the reported stage, once, and in its own file. -/
structure Logged (host : Host) (report : Json) (record : Record) (backup : Path) : Prop where
  row : ∃ stages row digest, report.getItem "stages" = .ok stages ∧ stages.getAt 0 = .ok row ∧
    StageRow host.root digest row ∧ host.logSha = .ok digest
  logIsItself : host.logIsItself = true
  once : host.logLines.filterMap LogLine.value? = [recordJson record]
  transactionIsItself : host.transactionIsItself (backup ++ ["transaction.json"]) = true
  transactionJson : host.transactionJson (backup ++ ["transaction.json"]) = .ok (recordJson record)
  transactionSha : ∃ digest, host.transactionSha (backup ++ ["transaction.json"]) = .ok digest

def Accepts (host : Host) (report : Json) : Prop :=
  ∃ evidence, generationEvidence host report = .ok evidence

/-- The same host with another entry at the destination. -/
def Host.finding (host : Host) (entry : Option Entry) : Host :=
  { host with destinationEntry := entry }

/-- The run of a publication for the destination of the check. -/
structure ForRocq (start : Start) (root : Path) : Prop where
  source : start.source = sourceOf root
  destination : start.destination = destinationOf root
  proper : ∀ part ∈ root, Proper part
  suffix : Component start.host.installSuffix

variable {start : Start} {host : Host} {report : Json} {record : Record}
  {contents : List (Path × Node)}

theorem completed_of_stageRow {root : Path} {digest : String} {row : Json}
    (h : StageRow root digest row) : completed root row = .ok true := by
  simp [completed, h.name, h.command, h.cwd, h.status, h.exitCode, h.log, bind, Except.bind,
    Json.eq_self, Json.isInt]

theorem installBackup_eq {root : Path} (hrocq : ForRocq start root) :
    installBackup start.host start.destination = root ++ ["proof", "rocq", "generated",
      ".sail-install-" ++ start.host.installSuffix] := by
  rw [installBackup, hrocq.destination, destinationOf,
    List.dropLast_append_of_ne_nil (List.cons_ne_nil _ _), List.append_assoc]
  rfl

theorem proper_installBackup {root : Path} (hrocq : ForRocq start root) :
    ∀ part ∈ installBackup start.host start.destination, Proper part := by
  rw [installBackup_eq hrocq]
  intro part hpart
  rcases List.mem_append.1 hpart with hroot | hnew
  · exact hrocq.proper part hroot
  · have hbackup : Proper (".sail-install-" ++ start.host.installSuffix) := by
      refine ⟨?_, ?_, ?_⟩
      · have hsuffix : '/' ∉ start.host.installSuffix.toList := hrocq.suffix
        simpa [Component, String.toList_append] using hsuffix
      · intro h
        have hlength := congrArg String.length h
        rw [String.length_append, show ".sail-install-".length = 14 from rfl] at hlength
        exact absurd hlength (by simp)
      · intro h
        have hlength := congrArg String.length h
        rw [String.length_append, show ".sail-install-".length = 14 from rfl,
          show ".".length = 1 from rfl] at hlength
        omega
    simp only [List.mem_cons, List.not_mem_nil, or_false] at hnew
    rcases hnew with rfl | rfl | rfl | rfl
    · exact ⟨by simp [Component], by decide, by decide⟩
    · exact ⟨by simp [Component], by decide, by decide⟩
    · exact ⟨by simp [Component], by decide, by decide⟩
    · exact hbackup

/-- The record is that of a publication for the destination. -/
theorem rightTransaction_of_published {root : Path} (hrocq : ForRocq start root)
    (hpublished : Published start record contents) :
    rightTransaction root (recordJson record) ("/", installBackup start.host start.destination) =
      .ok true := by
  have hsource : (recordJson record).getItem "source" = .ok (.str (sourceOf root).display) := by
    rw [← hrocq.source, ← hpublished.named.source]
    rfl
  have hdestination : (recordJson record).getItem "destination" =
      .ok (.str (destinationOf root).display) := by
    rw [← hrocq.destination, ← hpublished.named.destination]
    rfl
  have hstatus : (recordJson record).getItem "status" = .ok (.str "installed") := by
    rw [← hpublished.status]
    rfl
  have hflag : (recordJson record).getItem "published" = .ok (.bool true) := by
    rw [← hpublished.published]
    rfl
  have hchanged : (recordJson record).getItem "policy_changed" = .ok (.bool false) := by
    rw [← hpublished.named.policyChanged]
    rfl
  have hname : ".sail-install-".toList.isPrefixOf
      ((installBackup start.host start.destination).getLastD "").toList = true := by
    rw [installBackup, List.getLastD_concat, String.toList_append, List.isPrefixOf_iff_prefix]
    exact List.prefix_append _ _
  have hparent : (installBackup start.host start.destination).dropLast =
      (destinationOf root).dropLast := by
    rw [installBackup, List.dropLast_concat, hrocq.destination]
  simp only [rightTransaction, hsource, hdestination, hstatus, hflag, hchanged, Json.eq_self,
    hname, hparent, bind, Except.bind, pure, Except.pure, Json.isBool]
  simp

theorem matchesLog_of_logged {backup : Path} (h : Logged host report record backup) :
    matchesLog host (backup ++ ["transaction.json"]) (recordJson record) = .ok true := by
  rw [matchesLog, if_pos h.transactionIsItself, h.transactionJson]
  simp [bind, Except.bind, pure, Except.pure, Json.eq_self]

theorem namesJson_eq_iff {names names' : List String} :
    (namesJson names).eq (namesJson names') = true ↔ names = names' := by
  have hforall : ∀ names : List String,
      List.Forall₂ (fun x name => x = Json.str name) (names.map .str) names := fun names =>
    List.forall₂_map_left_iff.2 (List.forall₂_same.2 fun _ _ => rfl)
  rw [namesJson, namesJson, Json.eq, Json.eqBy_arr]
  refine Json.eqItems_iff_of_forall₂ (fun x a y b hx hy => ?_) (hforall names) (hforall names')
  rw [hx, hy]
  exact Json.eq_str_iff.trans (Json.str.injEq _ _).to_iff

/-- Of an unchanged record only the inventory is left to check. -/
theorem accepts_iff {root : Path} (hrocq : ForRocq start root) (hroot : host.root = root)
    (hpublished : Published start record contents)
    (hlogged : Logged host report record (installBackup start.host start.destination)) :
    Accepts host report ↔
      ∃ files, inventory host.access host.sha256
          (sortedPaths (descendants host.access host.destinationEntry)) = .ok files ∧
        files.map Prod.fst = ((seenBy start contents).filterMap fileName?).mergeSort (· ≤ ·) ∧
        ∀ name ∈ ["rv64d.v", "rv64d_types.v"], name ∈ files.map Prod.fst := by
  subst hroot
  obtain ⟨stages, row, digest, hstages, hrow, hstage, hsha⟩ := hlogged.row
  have hdrift : logDrift host row = .ok true := by
    rw [logDrift, if_pos hlogged.logIsItself, hsha, hstage.logSha256]
    simp [bind, Except.bind, pure, Except.pure, Json.eq_self]
  have hbackup : (recordJson record).getItem "installation_backup" =
      .ok (.str (installBackup start.host start.destination).display) := by
    rw [← hpublished.backup]
    rfl
  have hrecorded : (recordJson record).getItem "installed_files" =
      .ok (namesJson (((seenBy start contents).filterMap fileName?).mergeSort (· ≤ ·))) := by
    rw [recordJson, hpublished.files, Json.getItem_obj_eq_ok]
    cases record.rawFiles <;> rfl
  obtain ⟨transactionDigest, htransaction⟩ := hlogged.transactionSha
  rw [Accepts, generationEvidence]
  simp only [hstages, hrow, completed_of_stageRow hstage, hdrift, hlogged.once, hbackup,
    pathOf_display (proper_installBackup hrocq), rightTransaction_of_published hrocq hpublished,
    matchesLog_of_logged hlogged, hrecorded, htransaction, bind, Except.bind, requirePy,
    require, if_true]
  cases hinventory : inventory host.access host.sha256
      (sortedPaths (descendants host.access host.destinationEntry)) with
  | error e => simp
  | ok files =>
      have hnames : (Json.arr (files.map fun file => .str file.1)).eq
          (namesJson (((seenBy start contents).filterMap fileName?).mergeSort (· ≤ ·))) = true ↔
            files.map Prod.fst =
              ((seenBy start contents).filterMap fileName?).mergeSort (· ≤ ·) := by
        have hmap : Json.arr (files.map fun file => .str file.1) =
            namesJson (files.map Prod.fst) := by
          rw [namesJson, List.map_map]
          rfl
        rw [hmap, namesJson_eq_iff]
      have hrequired : (["rv64d.v", "rv64d_types.v"].all fun name =>
          files.any fun file => file.1 = name) = true ↔
            ∀ name ∈ ["rv64d.v", "rv64d_types.v"], name ∈ files.map Prod.fst := by
        simp
      simp only [Bool.and_eq_true, hnames, hrequired, Except.ok.injEq, exists_eq_left']
      by_cases hmatch : files.map Prod.fst =
          ((seenBy start contents).filterMap fileName?).mergeSort (· ≤ ·) ∧
          ∀ name ∈ ["rv64d.v", "rv64d_types.v"], name ∈ files.map Prod.fst
      · rw [if_pos hmatch]
        exact iff_of_true ⟨_, rfl⟩ hmatch
      · rw [if_neg hmatch]
        simpa using hmatch

end Acceptance

end CkbSail.Scripts.RocqContext
