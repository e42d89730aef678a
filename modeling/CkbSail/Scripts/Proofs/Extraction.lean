import CkbSail.Scripts.Proofs.SafeName

/-!
# Extraction is contained and exact

Below a new destination there are directories and unlinked files, and everything
else is as it was: that holds after every operation.  Between two members the
files are those extracted so far.
-/

namespace CkbSail.Scripts.ReleaseCommon

open PythonStd ProofSupport

/-! ## Containment -/

/-- Nothing stands at or below the destination, and no link on the way to it. -/
structure NewDestination (tree : Tree) (destination : Path) : Prop where
  absent : ∀ rest, tree (destination ++ rest) = none
  unlinked : Unlinked tree destination

/-- What a machine may differ in from the one the extraction started on: only
missing directories above the destination are made outside of it, below it there
are directories and unlinked files, and no link was followed. -/
structure Contained (start : Machine) (destination : Path) (m : Machine) : Prop where
  outside : ∀ place, ¬destination <+: place → m.tree place = start.tree place ∨
    place <+: destination ∧ start.tree place = none ∧ m.tree place = some .directory
  below : ∀ rest node, m.tree (destination ++ rest) = some node →
    node = .directory ∨ ∃ bytes mode, node = .file 1 bytes mode
  followed : m.followed = start.followed

theorem prefix_append_cases {place path rest : Path} (h : place <+: path ++ rest) :
    place <+: path ∨ ∃ below, place = path ++ below ∧ below <+: rest := by
  rcases List.prefix_or_prefix_of_prefix h (List.prefix_append path rest) with hleft | hright
  · exact Or.inl hleft
  · obtain ⟨below, rfl⟩ := hright
    exact Or.inr ⟨below, rfl, (List.prefix_append_right_inj path).1 h⟩

section Contained

variable {start m : Machine} {destination place rest : Path}

theorem NewDestination.contained (h : NewDestination start.tree destination) :
    Contained start destination start := by
  refine ⟨fun _ _ => Or.inl rfl, fun rest node hnode => ?_, rfl⟩
  rw [h.absent rest] at hnode
  cases hnode

/-- No path to the destination or below it leads over a link. -/
theorem Contained.unlinked (hnew : NewDestination start.tree destination)
    (h : Contained start destination m) (rest : Path) :
    Unlinked m.tree (destination ++ rest) := by
  intro place hplace target htarget
  by_cases hbelow : destination <+: place
  · obtain ⟨below, rfl⟩ := hbelow
    rcases h.below below _ htarget with hnode | ⟨bytes, mode, hnode⟩
    · cases hnode
    · cases hnode
  · have habove : place <+: destination := by
      rcases prefix_append_cases hplace with habove | ⟨below, rfl, -⟩
      · exact habove
      · exact absurd (List.prefix_append destination below) hbelow
    rcases h.outside place hbelow with hsame | ⟨-, -, hdirectory⟩
    · exact hnew.unlinked place habove target (hsame.symm.trans htarget)
    · rw [hdirectory] at htarget
      cases htarget

/-- Making a missing directory on the way to the destination or below it. -/
theorem Contained.makeDirectory (h : Contained start destination m)
    (hplace : place <+: destination ++ rest) (hfree : m.tree place = none) :
    Contained start destination
      { m with tree := Function.update m.tree place (some .directory) } := by
  refine ⟨fun other hother => ?_, fun below node hnode => ?_, h.followed⟩
  · by_cases hsame : other = place
    · subst hsame
      refine Or.inr ⟨?_, ?_, by simp⟩
      · rcases prefix_append_cases hplace with habove | ⟨below, rfl, -⟩
        · exact habove
        · exact absurd (List.prefix_append destination below) hother
      · rcases h.outside other hother with hstart | ⟨-, hstart, -⟩
        · rw [← hstart, hfree]
        · exact hstart
    · simpa [hsame] using h.outside other hother
  · by_cases hsame : destination ++ below = place
    · subst hsame
      exact Or.inl (by simpa [eq_comm] using hnode)
    · exact h.below below node (by simpa [hsame] using hnode)

/-- Making or changing an unlinked file below the destination. -/
theorem Contained.setFile (h : Contained start destination m) {bytes : List UInt8} {mode : Nat} :
    Contained start destination { m with
      tree := Function.update m.tree (destination ++ rest) (some (.file 1 bytes mode)) } := by
  refine ⟨fun other hother => ?_, fun below node hnode => ?_, h.followed⟩
  · have hne : other ≠ destination ++ rest := by
      rintro rfl
      exact hother (List.prefix_append destination rest)
    simpa [hne] using h.outside other hother
  · by_cases hsame : below = rest
    · subst hsame
      exact Or.inr ⟨bytes, mode, by simpa [eq_comm] using hnode⟩
    · exact h.below below node (by simpa [hsame] using hnode)

end Contained

/-! ## Between two members -/

/-- The directories an extraction may make. -/
def AllowedDirectory (members : Inventory) (directories : List String) (rest : Path) : Prop :=
  rest = [] ∨ (∃ row ∈ members, rest <+: parts row.1 ∧ rest ≠ parts row.1) ∨
    ∃ name ∈ directories, rest <+: parts name

/-- A file of the inventory with its recorded size and digest. -/
def Recorded (sha256 : List UInt8 → String) (destination : Path) (members : Inventory) (m : Machine)
    (name : String) : Prop :=
  ∃ row bytes mode, members.lookup name = some row ∧
    m.tree (destination ++ parts name) = some (.file 1 bytes mode) ∧
    bytes.length = row.size ∧ sha256 bytes = row.sha256

/-- The files below the destination are those extracted so far. -/
structure Extracting (sha256 : List UInt8 → String) (start : Machine) (destination : Path)
    (members : Inventory) (directories files : List String) (m : Machine) : Prop where
  contained : Contained start destination m
  recorded : ∀ name ∈ files, Recorded sha256 destination members m name
  onlyFiles : ∀ rest links bytes mode, m.tree (destination ++ rest) = some (.file links bytes mode)
    →
    ∃ name ∈ files, rest = parts name
  onlyDirectories : ∀ rest, m.tree (destination ++ rest) = some .directory →
    AllowedDirectory members directories rest

theorem AllowedDirectory.initial {members : Inventory} {directories : List String}
    {rest place : Path} (h : AllowedDirectory members directories rest) (hplace : place <+: rest) :
    AllowedDirectory members directories place := by
  rcases h with rfl | ⟨row, hrow, hinitial, hne⟩ | ⟨name, hname, hinitial⟩
  · exact Or.inl (List.prefix_nil.1 hplace)
  · refine Or.inr (Or.inl ⟨row, hrow, hplace.trans hinitial, ?_⟩)
    rintro rfl
    exact hne (hinitial.eq_of_length_le hplace.length_le)
  · exact Or.inr (Or.inr ⟨name, hname, hplace.trans hinitial⟩)

/-- The components of a joined path of components. -/
theorem parts_join {path : Path} {name : String} (hpath : path ≠ [])
    (hparts : ∀ part ∈ path, part ∈ parts name) : parts (join path) = path := by
  have hslash : ∀ part ∈ path, '/' ∉ part.toList :=
    fun part hpart => slash_notMem_of_mem_split (List.mem_of_mem_filter (hparts part hpart))
  rw [parts, split_join hpath hslash]
  exact List.filter_eq_self.2 fun part hpart => (List.mem_filter.1 (hparts part hpart)).2

theorem allowedDirectory_of_mem_allowed {members : Inventory} {directories : List String}
    {name : String} (h : name ∈ allowed members directories) :
    AllowedDirectory members directories (parts name) := by
  rcases List.mem_append.1 h with hmember | hdirectory
  · obtain ⟨row, hrow, hname⟩ := List.mem_flatMap.1 hmember
    obtain ⟨place, hplace, rfl⟩ := List.mem_map.1 hname
    obtain ⟨hinitial, hne, hnil⟩ := mem_ancestors.1 hplace
    rw [parts_join hnil fun part hpart => hinitial.mem hpart]
    exact Or.inr (Or.inl ⟨row, hrow, hinitial, hne⟩)
  · exact Or.inr (Or.inr ⟨name, hdirectory, List.prefix_refl _⟩)

section Extracting

variable {sha256 : List UInt8 → String} {start m : Machine} {destination : Path}
  {members : Inventory} {directories files : List String}

/-- Making an allowed directory does not touch the extracted files. -/
theorem Extracting.makeDirectory {rest place : Path}
    (h : Extracting sha256 start destination members directories files m)
    (hallowed : AllowedDirectory members directories rest) (hplace : place <+: destination ++ rest)
    (hfree : m.tree place = none) :
    Extracting sha256 start destination members directories files
      { m with tree := Function.update m.tree place (some .directory) } := by
  refine ⟨h.contained.makeDirectory hplace hfree, fun name hname => ?_,
    fun below links bytes mode hnode => ?_, fun below hnode => ?_⟩
  · obtain ⟨row, bytes, mode, hrow, hfile, hbytes⟩ := h.recorded name hname
    have hne : destination ++ parts name ≠ place := by
      rintro rfl
      rw [hfree] at hfile
      cases hfile
    exact ⟨row, bytes, mode, hrow, by simpa [hne] using hfile, hbytes⟩
  · have hne : destination ++ below ≠ place := by
      rintro rfl
      simp at hnode
    exact h.onlyFiles below links bytes mode (by simpa [hne] using hnode)
  · by_cases hsame : destination ++ below = place
    · subst hsame
      exact hallowed.initial ((List.prefix_append_right_inj destination).1 hplace)
    · exact h.onlyDirectories below (by simpa [hsame] using hnode)

/-- A file is open, and holds what was written to it so far. -/
structure Writing (sha256 : List UInt8 → String) (start : Machine) (destination : Path)
    (members : Inventory) (directories files : List String) (name : String) (written : List UInt8)
    (m : Machine) : Prop where
  contained : Contained start destination m
  recorded : ∀ other ∈ files, Recorded sha256 destination members m other
  fresh : ∀ other ∈ files, parts other ≠ parts name
  current : ∃ mode, m.tree (destination ++ parts name) = some (.file 1 written mode)
  onlyFiles : ∀ rest links bytes mode, m.tree (destination ++ rest) = some (.file links bytes mode)
    →
    rest = parts name ∨ ∃ other ∈ files, rest = parts other
  onlyDirectories : ∀ rest, m.tree (destination ++ rest) = some .directory →
    AllowedDirectory members directories rest

variable {name : String} {written : List UInt8}

theorem Extracting.openFile (h : Extracting sha256 start destination members directories files m)
    (hfree : m.tree (destination ++ parts name) = none) (mode : Nat) :
    Writing sha256 start destination members directories files name [] { m with
      tree := Function.update m.tree (destination ++ parts name) (some (.file 1 [] mode)) } := by
  have hfresh : ∀ other ∈ files, parts other ≠ parts name := by
    intro other hother hsame
    obtain ⟨row, bytes, mode', -, hfile, -⟩ := h.recorded other hother
    rw [hsame, hfree] at hfile
    cases hfile
  refine ⟨h.contained.setFile, fun other hother => ?_, hfresh, ⟨mode, by simp⟩,
    fun rest links bytes mode' hnode => ?_, fun rest hnode => ?_⟩
  · obtain ⟨row, bytes, mode', hrow, hfile, hbytes⟩ := h.recorded other hother
    exact ⟨row, bytes, mode', hrow, by simpa [hfresh other hother] using hfile, hbytes⟩
  · by_cases hsame : rest = parts name
    · exact Or.inl hsame
    · exact Or.inr (h.onlyFiles rest links bytes mode' (by simpa [hsame] using hnode))
  · by_cases hsame : rest = parts name
    · simp [hsame] at hnode
    · exact h.onlyDirectories rest (by simpa [hsame] using hnode)

/-- The open file changes, and nothing else. -/
theorem Writing.set
    (h : Writing sha256 start destination members directories files name written m)
    (bytes : List UInt8) (mode : Nat) :
    Writing sha256 start destination members directories files name bytes { m with
      tree := Function.update m.tree (destination ++ parts name) (some (.file 1 bytes mode)) } := by
  refine ⟨h.contained.setFile, fun other hother => ?_, h.fresh, ⟨mode, by simp⟩,
    fun rest links bytes' mode' hnode => ?_, fun rest hnode => ?_⟩
  · obtain ⟨row, bytes', mode', hrow, hfile, hbytes⟩ := h.recorded other hother
    exact ⟨row, bytes', mode', hrow, by simpa [h.fresh other hother] using hfile, hbytes⟩
  · by_cases hsame : rest = parts name
    · exact Or.inl hsame
    · exact h.onlyFiles rest links bytes' mode' (by simpa [hsame] using hnode)
  · by_cases hsame : rest = parts name
    · simp [hsame] at hnode
    · exact h.onlyDirectories rest (by simpa [hsame] using hnode)

/-- The open file is complete. -/
theorem Writing.close {row : Row}
    (h : Writing sha256 start destination members directories files name written m)
    (hrow : members.lookup name = some row) (hsize : written.length = row.size)
    (hdigest : sha256 written = row.sha256) :
    Extracting sha256 start destination members directories (name :: files) m := by
  obtain ⟨mode, hcurrent⟩ := h.current
  refine ⟨h.contained, fun other hother => ?_, fun rest links bytes mode' hnode => ?_,
    h.onlyDirectories⟩
  · rcases List.mem_cons.1 hother with rfl | hother
    · exact ⟨row, written, mode, hrow, hcurrent, hsize, hdigest⟩
    · exact h.recorded other hother
  · rcases h.onlyFiles rest links bytes mode' hnode with rfl | ⟨other, hother, hrest⟩
    · exact ⟨name, List.mem_cons_self, rfl⟩
    · exact ⟨other, List.mem_cons_of_mem _ hother, hrest⟩

end Extracting

/-! ## One member -/

section Member

variable {host : FileHost} {sha256 : List UInt8 → String} {start : Machine} {destination : Path}
  {members : Inventory} {directories files seen : List String} {name : String} {item : Member}
  {P : Machine → Prop}

theorem admitMember_spec (hnew : NewDestination start.tree destination)
    (h : ∀ m, P m → Contained start destination m) :
    Triple (fun _ => Contained start destination) (Contained start destination) P
      (admitMember destination item seen) (fun name m => P m ∧ safeName item.entryName = .ok name ∧
        name ∉ seen ∧ item.special = false) := by
  refine .bind (Q := fun name m => P m ∧ safeName item.entryName = .ok name)
    (.check (fun m name hm hname => ⟨hm, hname⟩) fun m _ hm _ => h m hm) fun name => ?_
  refine .bind (Q := fun _ m => P m ∧ safeName item.entryName = .ok name ∧ name ∉ seen ∧
    item.special = false) (.check (fun m _ hm htest => ⟨hm.1, hm.2, ?_⟩)
      fun m _ hm _ => h m hm.1) fun _ => ?_
  · simpa using SailModelTransaction.require_eq_ok.1 htest
  · refine .bind (anySymlink_spec (fun m hm path hpath => ?_) fun m hm => h m hm.1) fun linked =>
      .ite (fun _ => .raise fun m hm => h m hm.1.1) fun _ => .pure fun m hm => hm.1
    exact ((h m hm.1).unlinked hnew _).initial (List.mem_inits _ _ |>.1 (List.mem_reverse.1
      hpath))

theorem extractDirectory_spec (hnew : NewDestination start.tree destination) :
    Triple (fun _ => Contained start destination) (Contained start destination)
      (Extracting sha256 start destination members directories files)
      (extractDirectory host destination members directories name)
      (fun _ => Extracting sha256 start destination members directories files) := by
  refine .bind (Q := fun _ m => Extracting sha256 start destination members directories files m ∧
    AllowedDirectory members directories (parts name))
    (.check (fun m _ hm htest => ⟨hm, ?_⟩) fun m _ hm _ => hm.contained) fun _ =>
      .assume fun hallowed => ?_
  · have hcontains := SailModelTransaction.require_eq_ok.1 htest
    rw [Bool.and_eq_true, List.contains_iff_mem] at hcontains
    exact allowedDirectory_of_mem_allowed hcontains.1
  · exact mkdirParents_spec (fun m hm => hm.contained.unlinked hnew _)
      (fun m _ hm => hm.contained) (fun m hm => hm.contained)
      fun m place hm hplace hfree => hm.makeDirectory hallowed hplace hfree

theorem writeBlocks_spec (hnew : NewDestination start.tree destination) {stop : Option Exn}
    {blocks : List (List UInt8)} {written : List UInt8} :
    Triple (fun _ => Contained start destination) (Contained start destination)
      (Writing sha256 start destination members directories files name written)
      (writeBlocks (destination ++ parts name) stop blocks)
      (fun _ m => Writing sha256 start destination members directories files name
        (written ++ blocks.flatten) m ∧ stop = none) := by
  induction blocks generalizing written with
  | nil =>
      cases stop with
      | some e => exact .raise fun m hm => hm.contained
      | none => exact .pure fun m hm => ⟨by simpa using hm, rfl⟩
  | cons block blocks ih =>
      refine .bind (systemCall_spec (Q := Writing sha256 start destination members directories
        files name (written ++ block)) (fun m hm => hm.contained.unlinked hnew _)
        (fun m _ hm => hm.contained) (fun m hm => hm.contained) fun m node hm hnode => ?_) fun _ =>
          ?_
      · obtain ⟨mode, hcurrent⟩ := hm.current
        rw [hcurrent] at hnode
        obtain rfl := Except.ok.inj hnode
        exact ⟨hm.set _ mode, (hm.set _ mode).contained⟩
      · rw [List.flatten_cons, ← List.append_assoc]
        exact ih

theorem expectedRow_eq_ok {row : Row} (h : expectedRow members item name = .ok row) :
    members.lookup name = some row ∧ item.size = row.size := by
  unfold expectedRow at h
  split at h
  · split_ifs at h with hmatch
    obtain rfl := Except.ok.inj h
    exact ⟨‹_›, by simpa using (Bool.and_eq_true_iff.1 hmatch).2⟩
  · cases h

theorem parent_allowed {row : Row} (hrow : members.lookup name = some row) {place : Path}
    (hplace : place <+: (destination ++ parts name).dropLast) :
    ∃ rest, AllowedDirectory members directories rest ∧ place <+: destination ++ rest := by
  obtain ⟨before, after, hmembers, -⟩ := List.lookup_eq_some_iff.1 hrow
  have hmem : (name, row) ∈ members := by simp [hmembers]
  by_cases hnil : parts name = []
  · rw [hnil, List.append_nil] at hplace
    exact ⟨[], Or.inl rfl, by simpa using hplace.trans (List.dropLast_prefix destination)⟩
  · rw [List.dropLast_append_of_ne_nil hnil] at hplace
    refine ⟨(parts name).dropLast, Or.inr (Or.inl ⟨(name, row), hmem, List.dropLast_prefix _, ?_⟩),
      hplace⟩
    intro (hsame : (parts name).dropLast = parts name)
    have hlength := congrArg List.length hsame
    have hpos := List.length_pos_iff.2 hnil
    rw [List.length_dropLast] at hlength
    omega

theorem extractFile_spec (hnew : NewDestination start.tree destination) :
    Triple (fun _ => Contained start destination) (Contained start destination)
      (Extracting sha256 start destination members directories files)
      (extractFile host sha256 destination members item name)
      (fun _ => Extracting sha256 start destination members directories (name :: files)) := by
  refine .bind (Q := fun row m => Extracting sha256 start destination members directories files m ∧
    (members.lookup name = some row ∧ item.size = row.size))
    (.check (fun m row hm hrow => ⟨hm, expectedRow_eq_ok hrow⟩) fun m _ hm _ => hm.contained)
    fun row => .assume fun hrow => ?_
  refine .bind (mkdirParents_spec
    (fun m hm => (hm.contained.unlinked hnew _).initial (List.dropLast_prefix _))
    (fun m _ hm => hm.contained) (fun m hm => hm.contained) fun m place hm hplace hfree => ?_)
    fun _ => ?_
  · obtain ⟨rest, hallowed, hbelow⟩ := parent_allowed hrow.1 hplace
    exact hm.makeDirectory hallowed hbelow hfree
  refine .bind (systemCall_spec (Q := Writing sha256 start destination members directories files
    name []) (fun m hm => hm.contained.unlinked hnew _) (fun m _ hm => hm.contained)
    (fun m hm => hm.contained) fun m node hm hnode => ?_) fun _ => ?_
  · obtain ⟨hfree, rfl⟩ := makeNew_eq_ok.1 hnode
    exact ⟨hm.openFile hfree _, (hm.openFile hfree _).contained⟩
  refine .bind (writeBlocks_spec hnew) fun _ => .assume fun hstop => ?_
  rw [List.nil_append]
  refine .bind (Q := fun _ m => Writing sha256 start destination members directories files name
    item.content.bytes m ∧ sha256 item.content.bytes = row.sha256)
    (.check (fun m _ hm htest => ⟨hm, by simpa using SailModelTransaction.require_eq_ok.1 htest⟩)
      fun m _ hm _ => hm.contained) fun _ => .assume fun hdigest => ?_
  have hsize : item.content.bytes.length = row.size := by
    rw [item.complete hstop, hrow.2, Int.toNat_natCast]
  refine systemCall_spec (fun m hm => hm.contained.unlinked hnew _) (fun m _ hm => hm.contained)
    (fun m hm => hm.contained) fun m node hm hnode => ?_
  obtain ⟨mode, hcurrent⟩ := hm.current
  rw [hcurrent] at hnode
  obtain rfl := Except.ok.inj hnode
  exact ⟨(hm.set _ _).close hrow.1 hsize hdigest, (hm.set _ _).contained⟩

/-- From the files extracted so far the loop extracts more of them, or stops
inside the destination. -/
theorem extractMembers_spec (hnew : NewDestination start.tree destination) {stop : Option Exn}
    {items : List Member} :
    Triple (fun _ => Contained start destination) (Contained start destination)
      (Extracting sha256 start destination members directories files)
      (extractMembers host sha256 destination members directories stop items seen files)
      (fun files' => Extracting sha256 start destination members directories files') := by
  induction items generalizing seen files with
  | nil =>
      cases stop with
      | some e => exact .raise fun m hm => hm.contained
      | none => exact .pure fun m hm => hm
  | cons item items ih =>
      refine .bind (.weaken (admitMember_spec hnew fun m hm => hm.contained) (fun _ hm => hm)
        fun _ _ hm => hm.1) fun name => ?_
      refine .ite (fun _ => ?_) fun _ => ?_
      · exact .bind (extractDirectory_spec hnew) fun _ => ih
      · exact .bind (extractFile_spec hnew) fun _ => ih

/-! ## The whole extraction -/

/-- What stands below the destination when the extraction returns. -/
structure Extracted (sha256 : List UInt8 → String) (destination : Path) (members : Inventory)
    (directories : List String) (m : Machine) : Prop where
  recorded : ∀ row ∈ members, Recorded sha256 destination members m row.1
  onlyFiles : ∀ rest links bytes mode, m.tree (destination ++ rest) = some (.file links bytes mode)
    →
    ∃ row ∈ members, rest = parts row.1
  onlyDirectories : ∀ rest, m.tree (destination ++ rest) = some .directory →
    AllowedDirectory members directories rest

theorem Extracting.extracted {m : Machine}
    (h : Extracting sha256 start destination members directories files m)
    (hsame : sameNames members files = true) :
    Extracted sha256 destination members directories m := by
  rw [sameNames, Bool.and_eq_true, List.all_eq_true, List.all_eq_true] at hsame
  refine ⟨fun row hrow => h.recorded _ (List.contains_iff_mem.1 (hsame.2 row hrow)),
    fun rest links bytes mode hnode => ?_, h.onlyDirectories⟩
  obtain ⟨name, hname, rfl⟩ := h.onlyFiles rest links bytes mode hnode
  obtain ⟨row, hrow⟩ := Option.isSome_iff_exists.1 (hsame.1 name hname)
  obtain ⟨before, after, hmembers, -⟩ := List.lookup_eq_some_iff.1 hrow
  exact ⟨(name, row), by simp [hmembers], rfl⟩

theorem NewDestination.extracting (hnew : NewDestination start.tree destination) :
    Extracting sha256 start destination members directories [] start := by
  refine ⟨hnew.contained, fun name hname => absurd hname List.not_mem_nil,
    fun rest links bytes mode hnode => ?_, fun rest hnode => ?_⟩
  all_goals
    rw [hnew.absent rest] at hnode
    cases hnode

theorem extractVerified_spec (hnew : NewDestination start.tree destination) {archive : Archive} :
    Triple (fun _ => Contained start destination) (Contained start destination)
      (Extracting sha256 start destination members directories [])
      (extractVerified host sha256 destination members directories archive)
      (fun _ m => Extracted sha256 destination members directories m ∧
        Contained start destination m) := by
  have hunlinked : ∀ m, Extracting sha256 start destination members directories [] m →
      Unlinked m.tree destination := fun m hm => by simpa using hm.contained.unlinked hnew []
  refine .bind (Q := fun _ => Extracting sha256 start destination members directories []) ?_
    fun _ => ?_
  · refine .bind (pathExists_spec hunlinked fun m hm => hm.contained) fun _ => .ite
      (fun _ => .raise fun m hm => hm.1.contained) fun _ => ?_
    refine .bind (anySymlink_spec (fun m hm path hpath => ?_) fun m hm => hm.1.contained) fun _ =>
      .ite (fun _ => .raise fun m hm => hm.1.1.contained) fun _ => .pure fun m hm => hm.1.1
    exact (hunlinked m hm.1).initial (List.mem_inits _ _ |>.1 (List.mem_reverse.1 hpath))
  refine .bind (.check (fun m _ hm _ => hm) fun m _ hm _ => hm.contained) fun _ => ?_
  refine .bind (mkdirParents_spec hunlinked (fun m _ hm => hm.contained)
    (fun m hm => hm.contained) fun m place hm hplace hfree =>
      hm.makeDirectory (Or.inl rfl) (by simpa using hplace) hfree) fun _ => ?_
  refine .bind (Q := fun _ => Extracting sha256 start destination members directories []) ?_
    fun _ => ?_
  · unfold openArchive
    cases archive.openFault with
    | some e => exact .raise fun m hm => hm.contained
    | none => exact .pure fun m hm => hm
  refine .bind (extractMembers_spec hnew) fun files => ?_
  exact .check (fun m _ hm htest =>
    ⟨hm.extracted (SailModelTransaction.require_eq_ok.1 htest), hm.contained⟩)
    fun m _ hm _ => hm.contained

end Member

/-- For every archive and inventory: an extraction that returns has extracted
exactly the inventory, and every operation of every extraction stays below its
new destination and follows or makes no link. -/
theorem extractVerified_exact_and_contained (host : FileHost) (sha256 : List UInt8 → String)
    (archive : Archive) (destination : Path) (members : Inventory) (directories : List String)
    (start : Machine) (hnew : NewDestination start.tree destination) :
    let run := extractVerified host sha256 destination members directories archive start
    (run.result = .ok () → Extracted sha256 destination members directories run.state) ∧
    ∀ m ∈ run.state :: run.visited, Contained start destination m := by
  intro run
  have hspec : Triple _ _ (Extracting sha256 start destination members directories [])
      (extractVerified host sha256 destination members directories archive) _ :=
    extractVerified_spec hnew
  have hrun := hspec start hnew.extracting
  refine ⟨fun hok => (hrun.returned () hok).1, fun m hm => ?_⟩
  rcases List.mem_cons.1 hm with rfl | hm
  · cases hresult : run.result with
    | ok u => exact (hrun.returned u hresult).2
    | error e => exact hrun.raised e hresult
  · exact hrun.visited m hm

/-- A machine of empty directories `/` and `/tmp`. -/
def emptyMachine : Machine where
  tree path := if path = [] || path = ["tmp"] then some .directory else none
  followed := []

theorem newDestination_emptyMachine : NewDestination emptyMachine.tree ["tmp", "new"] := by
  refine ⟨fun rest => by simp [emptyMachine], fun place _ target htarget => ?_⟩
  simp only [emptyMachine] at htarget
  split_ifs at htarget
  cases htarget

end CkbSail.Scripts.ReleaseCommon
