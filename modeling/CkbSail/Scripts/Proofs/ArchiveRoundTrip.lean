import CkbSail.Scripts.Proofs.Archive
import CkbSail.Scripts.Proofs.Extraction

/-!
# An archive is extracted as it was packed

The checks of the extraction pass for the members of a packed archive, one after
the other.  The exception is the name `.`, which the writer accepts: it stands for
the destination itself, where no file can be made.
-/

namespace CkbSail.Scripts.ReleaseCommon

open PythonStd ProofSupport

/-! ## Between two members -/

/-- A new destination whose existing parents are directories. -/
structure Ready (tree : Tree) (destination : Path) : Prop where
  root : tree [] = some .directory
  clear : Clear tree destination
  absent : ∀ rest, tree (destination ++ rest) = none

theorem Ready.new {tree : Tree} {destination : Path} (h : Ready tree destination) :
    NewDestination tree destination :=
  ⟨h.absent, h.clear.unlinked⟩

theorem Ready.ne_nil {tree : Tree} {destination : Path} (h : Ready tree destination) :
    destination ≠ [] := by
  intro hnil
  have habsent := h.absent []
  rw [hnil, List.append_nil, h.root] at habsent
  cases habsent

/-- The mode of an extracted file. -/
def Content.mode (content : Content) : Nat := content.2.2 &&& 0o777

/-- The contents are below the destination with their bytes and modes. -/
def Placed (destination : Path) (items : List Content) (m : Machine) : Prop :=
  ∀ content ∈ items,
    m.tree (destination ++ parts content.1) = some (.file 1 content.2.1 content.mode)

/-- Between two members: the contents placed so far, and nothing else. -/
structure Unpacking (sha256 : List UInt8 → String) (start : Machine) (destination : Path)
    (members : Inventory) (directories : List String) (items : List Content) (m : Machine) :
    Prop where
  extracting : Extracting sha256 start destination members directories (items.map Prod.fst) m
  placed : Placed destination items m
  root : m.tree [] = some .directory

section Unpacking

variable {sha256 : List UInt8 → String} {start m : Machine} {destination : Path}
  {members : Inventory} {directories : List String} {items : List Content} {rest : Path}

/-- No file is on the way to a path that no placed content is above of. -/
theorem Unpacking.clear (hready : Ready start.tree destination)
    (h : Unpacking sha256 start destination members directories items m)
    (hfree : ∀ content ∈ items, ¬parts content.1 <+: rest) :
    Clear m.tree (destination ++ rest) := by
  intro place hplace
  by_cases hbelow : destination <+: place
  · obtain ⟨below, rfl⟩ := hbelow
    cases hnode : m.tree (destination ++ below) with
    | none => exact Or.inl rfl
    | some node =>
        rcases h.extracting.contained.below below node hnode with rfl | ⟨bytes, mode, rfl⟩
        · exact Or.inr rfl
        · obtain ⟨name, hname, rfl⟩ := h.extracting.onlyFiles below 1 bytes mode hnode
          obtain ⟨content, hcontent, rfl⟩ := List.mem_map.1 hname
          exact absurd ((List.prefix_append_right_inj destination).1 hplace)
            (hfree content hcontent)
  · have habove : place <+: destination := by
      rcases prefix_append_cases hplace with habove | ⟨below, rfl, -⟩
      · exact habove
      · exact absurd (List.prefix_append destination below) hbelow
    rcases h.extracting.contained.outside place hbelow with hsame | ⟨-, -, hdirectory⟩
    · rw [hsame]
      exact hready.clear place habove
    · exact Or.inr hdirectory

theorem Unpacking.makeDirectory {place : Path}
    (h : Unpacking sha256 start destination members directories items m)
    (hallowed : AllowedDirectory members directories rest) (hplace : place <+: destination ++ rest)
    (hfree : m.tree place = none) :
    Unpacking sha256 start destination members directories items
      { m with tree := Function.update m.tree place (some .directory) } := by
  refine ⟨h.extracting.makeDirectory hallowed hplace hfree, fun content hcontent => ?_, ?_⟩
  · have hfile := h.placed content hcontent
    have hne : destination ++ parts content.1 ≠ place := by
      rintro rfl
      rw [hfree] at hfile
      cases hfile
    simpa [hne] using hfile
  · have hne : [] ≠ place := by
      rintro rfl
      rw [h.root] at hfree
      cases hfree
    simpa [hne] using h.root

/-- A file is open among the placed contents. -/
structure Opened (sha256 : List UInt8 → String) (start : Machine) (destination : Path)
    (members : Inventory) (directories : List String) (items : List Content) (name : String)
    (written : List UInt8) (m : Machine) : Prop where
  writing : Writing sha256 start destination members directories (items.map Prod.fst) name written m
  placed : Placed destination items m
  root : m.tree [] = some .directory
  parents : Directories m.tree (destination ++ parts name).dropLast

theorem placed_update {name : String} {node : Inode} (h : Placed destination items m)
    (hfresh : ∀ content ∈ items, parts content.1 ≠ parts name) :
    Placed destination items
      { m with tree := Function.update m.tree (destination ++ parts name) (some node) } := by
  intro content hcontent
  have hne : destination ++ parts content.1 ≠ destination ++ parts name :=
    fun hsame => hfresh content hcontent (List.append_cancel_left hsame)
  simpa [hne] using h content hcontent

theorem Unpacking.openFile {name : String} (hready : Ready start.tree destination)
    (h : Unpacking sha256 start destination members directories items m)
    (hparents : Directories m.tree (destination ++ parts name).dropLast)
    (hfree : m.tree (destination ++ parts name) = none) (mode : Nat) :
    Opened sha256 start destination members directories items name [] { m with
      tree := Function.update m.tree (destination ++ parts name) (some (.file 1 [] mode)) } := by
  have hne : destination ++ parts name ≠ [] := by simp [hready.ne_nil]
  have hwriting := h.extracting.openFile hfree mode
  refine ⟨hwriting, placed_update h.placed fun content hcontent =>
    hwriting.fresh _ (List.mem_map_of_mem hcontent), ?_, directories_update hparents hne⟩
  simpa [hne.symm] using h.root

theorem Opened.set {name : String} {written : List UInt8} (hready : Ready start.tree destination)
    (h : Opened sha256 start destination members directories items name written m)
    (bytes : List UInt8) (mode : Nat) :
    Opened sha256 start destination members directories items name bytes { m with
      tree := Function.update m.tree (destination ++ parts name) (some (.file 1 bytes mode)) } := by
  have hne : destination ++ parts name ≠ [] := by simp [hready.ne_nil]
  refine ⟨h.writing.set bytes mode, placed_update h.placed fun content hcontent =>
    h.writing.fresh _ (List.mem_map_of_mem hcontent), ?_, directories_update h.parents hne⟩
  simpa [hne.symm] using h.root

end Unpacking

/-! ## One member -/

section Member

variable {host : FileHost} {sha256 : List UInt8 → String} {start : Machine} {destination : Path}
  {members : Inventory} {directories seen : List String} {items : List Content}

/-- A host on which no call fails; a limit on the length of names or paths is a fault
of the call that meets it. -/
structure Working (host : FileHost) : Prop where
  mkdir : ∀ path, host.mkdirFault path = none
  openNew : ∀ path, host.openFault path = none
  chmod : ∀ path, host.chmodFault path = none

theorem admitMember_total {P : Machine → Prop} {item : Member} {name : String}
    (hunlinked : ∀ m, P m → Unlinked m.tree (destination ++ parts name))
    (hname : item.entryName = name) (hsafe : safeName name = .ok name) (hseen : name ∉ seen)
    (hspecial : item.special = false) :
    Triple (fun _ _ => False) (fun _ => True) P (admitMember destination item seen)
      (fun admitted m => P m ∧ admitted = name) := by
  refine .bind (Q := fun admitted m => P m ∧ admitted = name) (.check (fun m admitted hm hok => ?_)
    fun m e _ herror => ?_) fun admitted => .assume fun hadmitted => ?_
  · rw [hname, hsafe] at hok
    exact ⟨hm, (Except.ok.inj hok).symm⟩
  · rw [hname, hsafe] at herror
    cases herror
  rw [hadmitted]
  refine .bind (Q := fun _ => P) (.check (fun m _ hm _ => hm) fun m e _ herror => ?_) fun _ => ?_
  · simp [SailModelTransaction.require, hseen, hspecial] at herror
  refine .bind (anySymlink_spec (fun m hm path hpath => ?_) fun _ _ => trivial) fun linked =>
    .assume fun hlinked => ?_
  · exact (hunlinked m hm).initial (List.mem_inits _ _ |>.1 (List.mem_reverse.1 hpath))
  · rw [hlinked]
    exact .pure fun m hm => ⟨hm, rfl⟩

theorem extractDirectory_total (hhost : Working host) (hready : Ready start.tree destination)
    {name : String} (hmem : name ∈ directories) (hlookup : members.lookup name = none)
    (hfree : ∀ content ∈ items, ¬parts content.1 <+: parts name) :
    Triple (fun _ _ => False) (fun _ => True)
      (Unpacking sha256 start destination members directories items)
      (extractDirectory host destination members directories name)
      (fun _ => Unpacking sha256 start destination members directories items) := by
  have hallowed : AllowedDirectory members directories (parts name) :=
    Or.inr (Or.inr ⟨name, hmem, List.prefix_refl _⟩)
  have hcontains : (allowed members directories).contains name = true :=
    List.contains_iff_mem.2 (List.mem_append_right _ hmem)
  refine .bind (Q := fun _ => Unpacking sha256 start destination members directories items)
    (.check (fun m _ hm _ => hm) fun m e _ herror => ?_) fun _ => ?_
  · rw [hcontains, hlookup] at herror
    cases herror
  exact .weaken (mkdirParents_total hhost.mkdir (fun m hm => hm.root)
    (fun m hm => hm.clear hready hfree)
    (fun m place hm hplace _ hnone => hm.makeDirectory hallowed hplace hnone)
    (fun m hm hnone => hm.makeDirectory hallowed (List.prefix_refl _) hnone)
    (fun m hm _ => ⟨rfl, hm⟩)) (fun _ hm => hm) fun _ _ hm => hm.1

/-- What a content has to satisfy when its turn comes. -/
structure Placeable (sha256 : List UInt8 → String) (members : Inventory)
    (directories : List String) (items : List Content) (content : Content) : Prop where
  safe : SafeName content.1
  lookup : members.lookup content.1 = some (content.row sha256).2
  notAbove : ∀ row ∈ members, parts content.1 <+: parts row.1 → parts content.1 = parts row.1
  noDirectory : ∀ name ∈ directories, ¬parts content.1 <+: parts name
  notBelow : ∀ other ∈ items, ¬parts other.1 <+: parts content.1

theorem Unpacking.target_free {m : Machine} {content : Content}
    (hready : Ready start.tree destination)
    (h : Unpacking sha256 start destination members directories items m)
    (hcontent : Placeable sha256 members directories items content) :
    m.tree (destination ++ parts content.1) = none := by
  rcases h.clear hready hcontent.notBelow _ (List.prefix_refl _) with hnone | hdirectory
  · exact hnone
  · rcases h.extracting.onlyDirectories _ hdirectory with hnil | ⟨row, hrow, habove, hne⟩ | ⟨name,
    hname, hbelow⟩
    · exact absurd hnil hcontent.safe.parts_ne_nil
    · exact absurd (hcontent.notAbove row hrow habove) hne
    · exact absurd hbelow (hcontent.noDirectory name hname)

theorem extractFile_total (hhost : Working host) (hready : Ready start.tree destination)
    {content : Content} (hcontent : Placeable sha256 members directories items content) :
    Triple (fun _ _ => False) (fun _ => True)
      (Unpacking sha256 start destination members directories items)
      (extractFile host sha256 destination members content.member.stored content.1)
      (fun _ => Unpacking sha256 start destination members directories (content :: items)) := by
  have hrow : expectedRow members content.member.stored content.1 = .ok (content.row sha256).2 := by
    simp [expectedRow, hcontent.lookup, Member.stored, Content.member, fileMember, Content.row]
  refine .bind (Q := fun row m => Unpacking sha256 start destination members directories items m ∧
    row = (content.row sha256).2) (.check (fun m row hm hok => ?_) fun m e _ herror => ?_)
    fun row => .assume fun hsame => ?_
  · rw [hrow] at hok
    exact ⟨hm, (Except.ok.inj hok).symm⟩
  · rw [hrow] at herror
    cases herror
  subst hsame
  have hparents : Triple (fun _ _ => False) (fun _ => True)
      (Unpacking sha256 start destination members directories items)
      (mkdirParents host true (destination ++ parts content.1).dropLast)
      (fun _ m => Unpacking sha256 start destination members directories items m ∧
        Directories m.tree (destination ++ parts content.1).dropLast) := by
    have hmake : ∀ (m : Machine) (place : Path),
        Unpacking sha256 start destination members directories items m →
        place <+: (destination ++ parts content.1).dropLast → m.tree place = none →
        Unpacking sha256 start destination members directories items
          { m with tree := Function.update m.tree place (some .directory) } := by
      intro m place hm hplace hnone
      obtain ⟨rest, hallowed, hbelow⟩ := parent_allowed hcontent.lookup hplace
      exact hm.makeDirectory hallowed hbelow hnone
    exact mkdirParents_total hhost.mkdir (fun m hm => hm.root)
      (fun m hm place hplace => hm.clear hready hcontent.notBelow place
        (hplace.trans (List.dropLast_prefix _)))
      (fun m place hm hplace _ hnone => hmake m place hm hplace hnone)
      (fun m hm hnone => hmake m _ hm (List.prefix_refl _) hnone) (fun m hm _ => ⟨rfl, hm⟩)
  refine .bind hparents fun _ => ?_
  refine .bind (Q := fun _ => Opened sha256 start destination members directories items content.1
    [])
    ?_ fun _ => ?_
  · rw [openNew, hhost.openNew]
    refine systemCall_total (fun m hm => (hm.1.clear hready hcontent.notBelow).unlinked)
      (fun m hm => hm.2) fun m hm => ?_
    have hfree := hm.1.target_free hready hcontent
    exact ⟨_, makeNew_eq_ok.2 ⟨hfree, rfl⟩, hm.1.openFile hready hm.2 hfree _⟩
  have hunlinked : ∀ (m : Machine) (written : List UInt8),
      Opened sha256 start destination members directories items content.1 written m →
      Unlinked m.tree (destination ++ parts content.1) :=
    fun m written hm => hm.writing.contained.unlinked hready.new _
  refine .bind (Q := fun _ => Opened sha256 start destination members directories items content.1
    content.2.1) ?_ fun _ => ?_
  · refine .bind (systemCall_total (fun m hm => hunlinked m _ hm) (fun m hm => hm.parents)
      fun m hm => ?_) fun _ => .pure fun m hm => hm
    obtain ⟨mode, hcurrent⟩ := hm.writing.current
    rw [hcurrent]
    exact ⟨_, rfl, hm.set hready _ mode⟩
  refine .bind (Q := fun _ => Opened sha256 start destination members directories items content.1
    content.2.1) (.check (fun m _ hm _ => hm) fun m e _ herror => ?_) fun _ => ?_
  · rw [bytes_member] at herror
    simp [SailModelTransaction.require, Content.row] at herror
  rw [chmod, hhost.chmod]
  refine systemCall_total (fun m hm => hunlinked m _ hm) (fun m hm => hm.parents) fun m hm => ?_
  obtain ⟨mode, hcurrent⟩ := hm.writing.current
  rw [hcurrent]
  have hset := hm.set hready content.2.1 content.mode
  have hclosed := hset.writing.close hcontent.lookup rfl rfl
  refine ⟨some (.file 1 content.2.1 content.mode), rfl, hclosed, fun other hother => ?_, hset.root⟩
  rcases List.mem_cons.1 hother with rfl | hother
  · simp
  · exact hset.placed other hother

/-! ## All members -/

theorem extractMembers_directories {items' : List Member} {names files : List String}
    {Q : List String → Machine → Prop} (hhost : Working host)
    (hready : Ready start.tree destination) (hsafe : ∀ name ∈ names, safeName name = .ok name)
    (hnodup : names.Nodup) (hseen : ∀ name ∈ names, name ∉ seen)
    (hmem : ∀ name ∈ names, name ∈ directories)
    (hlookup : ∀ name ∈ names, members.lookup name = none)
    (hfree : ∀ name ∈ names, ∀ content ∈ items, ¬parts content.1 <+: parts name)
    (hrest : Triple (fun _ _ => False) (fun _ => True)
      (Unpacking sha256 start destination members directories items)
      (extractMembers host sha256 destination members directories none items'
        (names.reverse ++ seen) files) Q) :
    Triple (fun _ _ => False) (fun _ => True)
      (Unpacking sha256 start destination members directories items)
      (extractMembers host sha256 destination members directories none
        (names.map (Member.stored ∘ directoryMember) ++ items') seen files) Q := by
  induction names generalizing seen with
  | nil => exact hrest
  | cons name names ih =>
      rw [List.nodup_cons] at hnodup
      have hname := hsafe name List.mem_cons_self
      refine .bind (admitMember_total (fun m hm => (hm.clear hready
        (hfree name List.mem_cons_self)).unlinked) (entryName_directory hname) hname
        (hseen name List.mem_cons_self) rfl) fun admitted => .assume fun hadmitted => ?_
      subst hadmitted
      refine .bind (extractDirectory_total hhost hready (hmem _ List.mem_cons_self)
        (hlookup _ List.mem_cons_self) (hfree _ List.mem_cons_self)) fun _ => ?_
      refine ih (fun other hother => hsafe other (List.mem_cons_of_mem _ hother)) hnodup.2
        (fun other hother hmem => ?_) (fun other hother => hmem other (List.mem_cons_of_mem _
          hother))
        (fun other hother => hlookup other (List.mem_cons_of_mem _ hother))
        (fun other hother => hfree other (List.mem_cons_of_mem _ hother)) (by simpa using hrest)
      rcases List.mem_cons.1 hmem with rfl | hmem
      · exact hnodup.1 hother
      · exact hseen other (List.mem_cons_of_mem _ hother) hmem

/-- The contents of a list are placed one after the other. -/
theorem extractMembers_contents {rest : List Content} (hhost : Working host)
    (hready : Ready start.tree destination)
    (hplaceable : ∀ before content after, rest = before ++ content :: after →
      Placeable sha256 members directories (before.reverse ++ items) content)
    (hnodup : (rest.map Prod.fst).Nodup) (hseen : ∀ content ∈ rest, content.1 ∉ seen) :
    Triple (fun _ _ => False) (fun _ => True)
      (Unpacking sha256 start destination members directories items)
      (extractMembers host sha256 destination members directories none
        (rest.map (Member.stored ∘ Content.member)) seen (items.map Prod.fst))
      (fun files m => Unpacking sha256 start destination members directories
        (rest.reverse ++ items) m ∧ files = (rest.reverse ++ items).map Prod.fst) := by
  induction rest generalizing items seen with
  | nil => exact .pure fun m hm => ⟨hm, rfl⟩
  | cons content rest ih =>
      rw [List.map_cons, List.nodup_cons] at hnodup
      have hcontent := hplaceable [] content rest rfl
      have hsafe : safeName content.1 = .ok content.1 :=
        safeName_eq_ok.2 ⟨rfl, Or.inr hcontent.safe⟩
      refine .bind (admitMember_total (fun m hm => (hm.clear hready hcontent.notBelow).unlinked) rfl
        hsafe (hseen content List.mem_cons_self) (special_member content)) fun admitted =>
        .assume fun hadmitted => ?_
      subst hadmitted
      refine .bind (extractFile_total hhost hready hcontent) fun _ => ?_
      have hnext : Triple _ _ (Unpacking sha256 start destination members directories
          (content :: items)) (extractMembers host sha256 destination members directories none
            (rest.map (Member.stored ∘ Content.member)) (content.1 :: seen)
            ((content :: items).map Prod.fst)) _ :=
        ih (fun before other after hsplit => ?_) hnodup.2 fun other hother hmem => ?_
      · simpa using hnext
      · have hother := hplaceable (content :: before) other after (by rw [hsplit]; rfl)
        simpa using hother
      · rcases List.mem_cons.1 hmem with hsame | hmem
        · exact hnodup.1 (hsame ▸ List.mem_map_of_mem hother)
        · exact hseen other (List.mem_cons_of_mem _ hother) hmem

end Member

/-! ## The round trip -/

section RoundTrip

variable {host : FileHost} {sha256 : List UInt8 → String} {start : Machine} {destination : Path}
  {files : List (String × Source)} {extra : List (String × List UInt8)} {directories : List String}

/-- The inventory of a packed archive. -/
def inventory (sha256 : List UInt8 → String) (files : List (String × Source))
    (extra : List (String × List UInt8)) : Inventory :=
  (packed files extra).map (Content.row sha256)

theorem lookup_rows {items : List Content} {content : Content} (hcontent : content ∈ items)
    (hnodup : (items.map Prod.fst).Nodup) :
    (items.map (Content.row sha256)).lookup content.1 = some (content.row sha256).2 := by
  induction items with
  | nil => cases hcontent
  | cons other items ih =>
      rw [List.map_cons, List.nodup_cons] at hnodup
      rcases List.mem_cons.1 hcontent with rfl | hmem
      · exact List.lookup_cons_self
      · have hne : (content.1 == other.1) = false := by
          rw [beq_eq_false_iff_ne]
          rintro hsame
          exact hnodup.1 (hsame ▸ List.mem_map_of_mem hmem)
        rw [List.map_cons, Content.row, List.lookup_cons, hne]
        exact ih hmem hnodup.2

theorem Packable.nodup_packed (h : Packable files extra directories) :
    ((packed files extra).map Prod.fst).Nodup :=
  ((perm_packed : (packed files extra).Perm (contents files extra)).map Prod.fst).nodup_iff.2 h.nodup

theorem mem_packed {content : Content} :
    content ∈ packed files extra ↔ content ∈ contents files extra := perm_packed.mem_iff

theorem Packable.placeable (h : Packable files extra directories)
    (hdot : ∀ content ∈ contents files extra, content.1 ≠ ".") {before after : List Content}
    {content : Content} (hsplit : packed files extra = before ++ content :: after) :
    Placeable sha256 (inventory sha256 files extra) directories (before.reverse ++ []) content := by
  have hpacked : content ∈ packed files extra := by simp [hsplit]
  have hcontent := mem_packed.1 hpacked
  refine ⟨?_, lookup_rows hpacked h.nodup_packed, fun row hrow habove => ?_,
    fun name hname => h.directoriesFree name hname content hcontent, fun other hother => ?_⟩
  · rcases (safeName_eq_ok.1 (h.safe content hcontent)).2 with hname | hsafe
    · exact absurd hname (hdot content hcontent)
    · exact hsafe
  · obtain ⟨other, hother, rfl⟩ := List.mem_map.1 hrow
    by_cases hsame : content.1 = other.1
    · exact congrArg parts hsame
    · exact absurd habove (h.unnested content hcontent other (mem_packed.1 hother) hsame)
  · have hbefore : other ∈ before := by simpa using hother
    have hmem : other ∈ contents files extra := mem_packed.1 (by simp [hsplit, hbefore])
    refine h.unnested other hmem content hcontent fun hsame => ?_
    have hnodup := h.nodup_packed
    rw [hsplit, List.map_append, List.map_cons, List.nodup_append] at hnodup
    exact hnodup.2.2 _ (List.mem_map_of_mem hbefore) _ List.mem_cons_self hsame

theorem checkNew_total {P : Machine → Prop} (hunlinked : ∀ m, P m → Unlinked m.tree destination)
    (habsent : ∀ m, P m → m.tree destination = none) :
    Triple (fun _ _ => False) (fun _ => True) P (checkNew destination) (fun _ => P) := by
  refine .bind (pathExists_spec hunlinked fun _ _ => trivial) fun present => .ite (fun hpresent =>
    ?_)
    fun _ => ?_
  · exact .raise fun m hm => hm.2 hpresent (habsent m hm.1)
  · refine .bind (anySymlink_spec (fun m hm path hpath => ?_) fun _ _ => trivial) fun linked =>
      .assume fun hlinked => ?_
    · exact (hunlinked m hm.1).initial (List.mem_inits _ _ |>.1 (List.mem_reverse.1 hpath))
    · rw [hlinked]
      exact .pure fun m hm => hm.1

theorem checkNames_eq_ok {rows : Inventory} (h : ∀ row ∈ rows, safeName row.1 = .ok row.1) :
    checkNames rows = .ok () := by
  induction rows with
  | nil => rfl
  | cons row rows ih =>
      rw [checkNames, h row List.mem_cons_self]
      exact ih fun other hother => h other (List.mem_cons_of_mem _ hother)

theorem Packable.checkNames (h : Packable files extra directories) :
    checkNames (inventory sha256 files extra) = .ok () := by
  refine checkNames_eq_ok fun row hrow => ?_
  obtain ⟨content, hcontent, rfl⟩ := List.mem_map.1 hrow
  exact h.safe content (mem_packed.1 hcontent)

/-- The destination is made, and nothing else. -/
theorem mkdirDestination_total (hhost : Working host) (hready : Ready start.tree destination)
    {members : Inventory} :
    Triple (fun _ _ => False) (fun _ => True)
      (fun m => Unpacking sha256 start destination members directories [] m ∧
        m.tree destination = none)
      (mkdirParents host false destination)
      (fun _ m => Unpacking sha256 start destination members directories [] m ∧
        Directories m.tree destination) := by
  have hclear : ∀ m, Unpacking sha256 start destination members directories [] m →
      Clear m.tree destination := by
    intro m hm
    have hempty : Clear m.tree (destination ++ []) := hm.clear hready (by simp)
    rwa [List.append_nil] at hempty
  refine mkdirParents_total hhost.mkdir (fun m hm => hm.1.root) (fun m hm => hclear m hm.1)
    (fun m place hm hplace hne hnone => ⟨?_, ?_⟩) (fun m hm hnone => ?_) fun m hm hthere => ?_
  · exact hm.1.makeDirectory (Or.inl rfl) (by simpa using hplace) hnone
  · simpa [hne.symm] using hm.2
  · exact hm.1.makeDirectory (Or.inl rfl) (by simp) hnone
  · rw [hm.2] at hthere
    cases hthere

/-- A packed archive without the name `.` is extracted. -/
theorem extractVerified_total (hhost : Working host) (hready : Ready start.tree destination)
    (h : Packable files extra directories)
    (hdot : ∀ content ∈ contents files extra, content.1 ≠ ".") :
    Triple (fun _ _ => False) (fun _ => True)
      (fun m => Unpacking sha256 start destination (inventory sha256 files extra) directories [] m ∧
        m.tree destination = none)
      (extractVerified host sha256 destination (inventory sha256 files extra) directories
        (stored (directories.map directoryMember ++ (packed files extra).map Content.member)))
      (fun _ => Unpacking sha256 start destination (inventory sha256 files extra) directories
        (packed files extra).reverse) := by
  refine .bind (checkNew_total (fun m hm => ?_) fun m hm => hm.2) fun _ => ?_
  · simpa using hm.1.extracting.contained.unlinked hready.new []
  refine .bind (.check (fun m _ hm _ => hm) fun m e _ herror => ?_) fun _ => ?_
  · rw [h.checkNames] at herror
    cases herror
  refine .bind (.weaken (mkdirDestination_total hhost hready) (fun _ hm => hm) fun _ _ hm => hm.1)
    fun _ => ?_
  refine .bind (Q := fun _ => Unpacking sha256 start destination (inventory sha256 files extra)
    directories []) (.pure fun _ hm => hm) fun _ => ?_
  have hmembers : (stored (directories.map directoryMember ++
      (packed files extra).map Content.member)).members =
      directories.map (Member.stored ∘ directoryMember) ++
        (packed files extra).map (Member.stored ∘ Content.member) := by
    simp [stored]
  have hlookup : ∀ name ∈ directories, (inventory sha256 files extra).lookup name = none := by
    intro name hname
    rw [List.lookup_eq_none_iff]
    intro row hrow
    obtain ⟨content, hcontent, rfl⟩ := List.mem_map.1 hrow
    rw [bne_iff_ne]
    rintro rfl
    exact h.directory_ne (mem_packed.1 hcontent) hname
  have hloop : Triple (fun _ _ => False) (fun _ => True)
      (Unpacking sha256 start destination (inventory sha256 files extra) directories [])
      (extractMembers host sha256 destination (inventory sha256 files extra) directories none
        (directories.map (Member.stored ∘ directoryMember) ++
          (packed files extra).map (Member.stored ∘ Content.member)) [] [])
      (fun names m => Unpacking sha256 start destination (inventory sha256 files extra) directories
        ((packed files extra).reverse ++ []) m ∧
          names = ((packed files extra).reverse ++ []).map Prod.fst) := by
    refine extractMembers_directories hhost hready h.directoriesSafe h.directoriesNodup (by simp)
      (fun _ hname => hname) hlookup (by simp) ?_
    exact extractMembers_contents hhost hready (fun before content after hsplit =>
      h.placeable hdot hsplit) h.nodup_packed
      fun content hcontent => by simpa using h.directory_ne (mem_packed.1 hcontent)
  rw [hmembers]
  refine .bind hloop fun names => .assume fun hnames => ?_
  rw [List.append_nil] at hnames ⊢
  refine .check (fun m _ hm _ => hm) fun m e _ herror => ?_
  have hsame : sameNames (inventory sha256 files extra) names = true := by
    rw [hnames, sameNames, Bool.and_eq_true, List.all_eq_true, List.all_eq_true]
    refine ⟨fun name hname => ?_, fun row hrow => ?_⟩
    · obtain ⟨content, hcontent, rfl⟩ := List.mem_map.1 hname
      rw [inventory, lookup_rows (List.mem_reverse.1 hcontent) h.nodup_packed]
      rfl
    · obtain ⟨content, hcontent, rfl⟩ := List.mem_map.1 hrow
      exact List.contains_iff_mem.2 (List.mem_map_of_mem (List.mem_reverse.2 hcontent))
  rw [hsame] at herror
  cases herror

/-- The initial state of an extraction into a ready destination. -/
theorem Ready.unpacking (hready : Ready start.tree destination) {members : Inventory} :
    Unpacking sha256 start destination members directories [] start ∧
      start.tree destination = none := by
  refine ⟨⟨hready.new.extracting, fun content hcontent => ?_, hready.root⟩, ?_⟩
  · cases hcontent
  · simpa using hready.absent []

theorem parts_dot : parts "." = [] := by decide

/-- The name `.` is above every other name, so it comes alone. -/
theorem Packable.alone (h : Packable files extra directories) {content : Content}
    (hcontent : content ∈ contents files extra) (hdot : content.1 = ".") :
    contents files extra = [content] ∧ directories = [] := by
  have habove : ∀ path, parts content.1 <+: path := by
    intro path
    rw [hdot, parts_dot]
    exact List.nil_prefix
  have hname : ∀ other ∈ contents files extra, other = content := by
    intro other hother
    by_contra hne
    refine h.unnested content hcontent other hother (fun hsame => hne ?_) (habove _)
    exact (List.inj_on_of_nodup_map h.nodup hcontent hother hsame).symm
  refine ⟨?_, List.eq_nil_iff_forall_not_mem.2 fun name hmem =>
    h.directoriesFree name hmem content hcontent (habove _)⟩
  have hnodup : (contents files extra).Nodup := List.Nodup.of_map _ h.nodup
  have hreplicate := List.eq_replicate_iff.2 ⟨rfl, hname⟩
  rw [hreplicate, List.nodup_replicate] at hnodup
  have hpos := List.length_pos_of_mem hcontent
  rw [hreplicate, show (contents files extra).length = 1 by omega]
  rfl

/-- No file can be made under the name `.`. -/
theorem extractFile_dot (hready : Ready start.tree destination) {members : Inventory}
    {item : Member} :
    Triple (fun _ _ => True) (fun _ => True)
      (fun m => Unpacking sha256 start destination members directories [] m ∧
        m.tree destination = some .directory)
      (extractFile host sha256 destination members item ".") (fun _ _ => False) := by
  have hunlinked : ∀ m, Unpacking sha256 start destination members directories [] m →
      Unlinked m.tree (destination ++ parts ".") :=
    fun m hm => hm.extracting.contained.unlinked hready.new _
  refine .bind (Q := fun _ m => Unpacking sha256 start destination members directories [] m ∧
    m.tree destination = some .directory) (.check (fun m _ hm _ => hm) fun _ _ _ _ => trivial)
    fun row => ?_
  refine .bind (Q := fun _ m => Unpacking sha256 start destination members directories [] m ∧
    m.tree destination = some .directory) (mkdirParents_spec
      (fun m hm => (hunlinked m hm.1).initial (List.dropLast_prefix _)) (fun _ _ _ => trivial)
      (fun _ _ => trivial) fun m place hm hplace hfree => ⟨?_, ?_⟩) fun _ => ?_
  · refine hm.1.makeDirectory (Or.inl rfl) (hplace.trans (List.dropLast_prefix _)) hfree
  · have hne : destination ≠ place := by
      rintro rfl
      rw [hm.2] at hfree
      cases hfree
    simpa [hne] using hm.2
  refine .bind (Q := fun _ _ => False) (systemCall_spec (fun m hm => hunlinked m hm.1)
    (fun _ _ _ => trivial) (fun _ _ => trivial) fun m node hm hnode => ?_) fun _ _ hm => hm.elim
  have hfree := (makeNew_eq_ok.1 hnode).1
  rw [parts_dot, List.append_nil, hm.2] at hfree
  cases hfree

theorem extractVerified_dot (hhost : Working host) (hready : Ready start.tree destination)
    (h : Packable files extra directories) {content : Content}
    (hcontent : content ∈ contents files extra) (hdot : content.1 = ".") :
    Triple (fun _ _ => True) (fun _ => True)
      (fun m => Unpacking sha256 start destination (inventory sha256 files extra) directories [] m ∧
        m.tree destination = none)
      (extractVerified host sha256 destination (inventory sha256 files extra) directories
        (stored (directories.map directoryMember ++ (packed files extra).map Content.member)))
      (fun _ _ => False) := by
  obtain ⟨hcontents, rfl⟩ := h.alone hcontent hdot
  have hpacked : packed files extra = [content] := by
    rw [← List.perm_singleton, ← hcontents]
    exact perm_packed
  refine .bind (.raises (checkNew_total (fun m hm => ?_) fun m hm => hm.2) fun _ _ _ => trivial)
    fun _ => ?_
  · simpa using hm.1.extracting.contained.unlinked hready.new []
  refine .bind (.check (fun m _ hm _ => hm) fun _ _ _ _ => trivial) fun _ => ?_
  refine .bind (.raises (mkdirDestination_total hhost hready) fun _ _ _ => trivial) fun _ => ?_
  refine .bind (Q := fun _ m => Unpacking sha256 start destination (inventory sha256 files extra)
    [] [] m ∧ m.tree destination = some .directory) (.pure fun m hm =>
      ⟨hm.1, hm.2 destination (List.prefix_refl _)⟩) fun _ => ?_
  rw [hpacked]
  refine .bind (Q := fun _ _ => False) ?_ fun _ _ hm => hm.elim
  refine .bind (Q := fun name m => (Unpacking sha256 start destination
    (inventory sha256 files extra) [] [] m ∧ m.tree destination = some .directory) ∧
      name = content.1) (.raises (admitMember_total (fun m hm => ?_)
        (show content.member.stored.entryName = content.1 from rfl) (h.safe content hcontent)
        List.not_mem_nil (special_member content)) fun _ _ _ => trivial) fun name =>
    .assume fun hname => ?_
  · exact hm.1.extracting.contained.unlinked hready.new _
  · rw [hname, hdot]
    exact .bind (extractFile_dot hready) fun _ _ hm => hm.elim

/-- What the round trip promises. -/
structure RoundTrips (host : FileHost) (sha256 : List UInt8 → String) (start : Machine)
    (destination : Path) (files : List (String × Source)) (extra : List (String × List UInt8))
    (directories : List String) : Prop where
  deterministic : ∀ files' extra', (files.map (Prod.map id Source.toFileContents)).Perm
      (files'.map (Prod.map id Source.toFileContents)) → extra.Perm extra' →
    writeTarGz files' extra' directories = writeTarGz files extra directories
  inverse : ∃ members rows names, writeTarGz files extra directories = .ok members ∧
    tarInventory sha256 (stored members) = .ok (rows, names) ∧
    (∀ row, row ∈ rows ↔ ∃ content ∈ contents files extra, row = content.row sha256) ∧
    (∀ name, name ∈ names ↔ ∃ directory ∈ directories, name = directory ++ "/") ∧
    let run := extractVerified host sha256 destination rows directories (stored members) start
    run.result = .ok () ∧ Placed destination (contents files extra) run.state ∧
      ∀ rest links bytes mode, run.state.tree (destination ++ rest) = some (.file links bytes mode)
        →
        ∃ content ∈ contents files extra, rest = parts content.1

theorem roundTrips_of_no_dot (hhost : Working host) (hready : Ready start.tree destination)
    (h : Packable files extra directories)
    (hdot : ∀ content ∈ contents files extra, content.1 ≠ ".") :
    RoundTrips host sha256 start destination files extra directories := by
  have hnames : ((files.map ofFile ++ extra.map ofExtra).map Prod.fst).Nodup := h.nodup
  rw [List.map_append, List.map_map, List.map_map, List.nodup_append] at hnames
  refine ⟨fun files' extra' hfiles hextra => (writeTarGz_congr hnames.1 hnames.2.1 hfiles
    hextra).symm,
    _, _, _, writeTarGz_eq_ok h, tarInventory_eq_ok h, fun row => ?_, fun name => ?_, ?_⟩
  · rw [List.mem_map]
    constructor
    · rintro ⟨content, hcontent, rfl⟩
      exact ⟨content, mem_packed.1 hcontent, rfl⟩
    · rintro ⟨content, hcontent, rfl⟩
      exact ⟨content, mem_packed.2 hcontent, rfl⟩
  · simp [eq_comm]
  · have hrun := @extractVerified_total host sha256 start destination files extra directories
      hhost hready h hdot start hready.unpacking
    intro run
    have hok : run.result = .ok () := by
      cases hresult : run.result with
      | ok u => rfl
      | error e => exact (hrun.raised e hresult).elim
    have hstate := hrun.returned () hok
    refine ⟨hok, fun content hcontent => hstate.placed content
      (List.mem_reverse.2 (mem_packed.2 hcontent)), fun rest links bytes mode hnode => ?_⟩
    obtain ⟨name, hname, rfl⟩ := hstate.extracting.onlyFiles rest links bytes mode hnode
    obtain ⟨content, hcontent, rfl⟩ := List.mem_map.1 hname
    exact ⟨content, mem_packed.1 (List.mem_reverse.1 hcontent), rfl⟩

theorem not_roundTrips_of_dot (hhost : Working host) (hready : Ready start.tree destination)
    (h : Packable files extra directories) {content : Content}
    (hcontent : content ∈ contents files extra) (hdot : content.1 = ".") :
    ¬RoundTrips host sha256 start destination files extra directories := by
  rintro ⟨-, members, rows, names, hwrite, hinventory, -, -, hok, -⟩
  rw [writeTarGz_eq_ok h] at hwrite
  obtain rfl := Except.ok.inj hwrite
  rw [tarInventory_eq_ok h] at hinventory
  obtain ⟨rfl, rfl⟩ := Prod.mk.inj (Except.ok.inj hinventory)
  exact (extractVerified_dot hhost hready h hcontent hdot start hready.unpacking).returned () hok

end RoundTrip

/-- A packed archive goes through all three functions and back exactly when no
member is named `.`. -/
theorem round_trip_iff (host : FileHost) (sha256 : List UInt8 → String) (start : Machine)
    (destination : Path) (files : List (String × Source)) (extra : List (String × List UInt8))
    (directories : List String) (hhost : Working host) (hready : Ready start.tree destination)
    (h : Packable files extra directories) :
    RoundTrips host sha256 start destination files extra directories ↔
      ∀ content ∈ contents files extra, content.1 ≠ "." := by
  refine ⟨fun htrips content hcontent hdot => ?_, roundTrips_of_no_dot hhost hready h⟩
  exact not_roundTrips_of_dot hhost hready h hcontent hdot htrips

/-! ## A report -/

def workingHost : FileHost := ⟨fun _ => none, fun _ => none, fun _ => none, 0o644⟩

theorem workingHost_working : Working workingHost := ⟨fun _ => rfl, fun _ => rfl, fun _ => rfl⟩

theorem emptyMachine_ready : Ready emptyMachine.tree ["tmp", "new"] := by
  refine ⟨rfl, fun place _ => ?_, newDestination_emptyMachine.absent⟩
  show (if place = [] || place = ["tmp"] then some Inode.directory else none) = none ∨
    (if place = [] || place = ["tmp"] then some Inode.directory else none) = some .directory
  split_ifs
  · exact Or.inr rfl
  · exact Or.inl rfl

/-- A regular file with these bytes. -/
def plainSource (bytes : List UInt8) : Source where
  path := "/tmp/source"
  linked := false
  isFile := true
  mode := 0o644
  bytes := bytes
  mtime := 0
  uid := 0
  gid := 0
  uname := ""
  gname := ""

theorem regular_plainSource (bytes : List UInt8) :
    regular (plainSource bytes).toFileContents = .ok () := by
  simp [plainSource, regular, SailModelTransaction.require, bind, Except.bind]

def reportFiles : List (String × Source) :=
  [("logs/run.txt", plainSource [0x6f, 0x6b, 0x0a]), ("logs/deep/trace.bin", plainSource [7])]

def reportExtra : List (String × List UInt8) := [("manifest.json", [0x7b, 0x7d])]

def reportDirectories : List String := ["logs", "empty"]

/-- The digests of the three files. -/
def reportSha256 (bytes : List UInt8) : String :=
  if bytes = [0x6f, 0x6b, 0x0a] then
    "dc51b8c96c2d745df3bd5590d990230a482fd247123599548e0632fdbf97fc22"
  else if bytes = [7] then "ca358758f6d27e6cf45272937977a748fd88391db679ceda7dc7bf1f005ee879"
  else "44136fa355b3678a1146ad16f7e8649e94fb4fc21fe77e8310c060f61caaff8a"

theorem packable_report : Packable reportFiles reportExtra reportDirectories where
  nonempty := by simp [reportFiles]
  regular := by simp [reportFiles, regular_plainSource]
  safe := by decide
  nodup := by decide
  unnested := by decide
  directoriesSafe := by decide
  directoriesNodup := by decide
  directoriesFree := by decide

theorem report_no_dot : ∀ content ∈ contents reportFiles reportExtra, content.1 ≠ "." := by
  decide

theorem round_trip_iff_report :
    RoundTrips workingHost reportSha256 emptyMachine ["tmp", "new"] reportFiles reportExtra
      reportDirectories :=
  (round_trip_iff _ _ _ _ _ _ _ workingHost_working emptyMachine_ready packable_report).2
    report_no_dot

/-- The archive of two directories and three files, extracted for its inventory. -/
theorem extractVerified_exact_and_contained_report :
    let rows := inventory reportSha256 reportFiles reportExtra
    let archive := stored (reportDirectories.map directoryMember ++
      (packed reportFiles reportExtra).map Content.member)
    let run := extractVerified workingHost reportSha256 ["tmp", "new"] rows reportDirectories
      archive emptyMachine
    run.result = .ok () ∧
      Extracted reportSha256 ["tmp", "new"] rows reportDirectories run.state ∧
      ∀ m ∈ run.state :: run.visited, Contained emptyMachine ["tmp", "new"] m := by
  intro rows archive run
  have htotal : Triple (fun _ _ => False) (fun _ => True) _
      (extractVerified workingHost reportSha256 ["tmp", "new"] rows reportDirectories archive) _ :=
    extractVerified_total workingHost_working emptyMachine_ready packable_report report_no_dot
  have hok : run.result = .ok () := by
    cases hresult : run.result with
    | ok u => rfl
    | error e => exact ((htotal emptyMachine emptyMachine_ready.unpacking).raised e hresult).elim
  have hrun := extractVerified_exact_and_contained workingHost reportSha256 archive ["tmp", "new"]
    rows reportDirectories emptyMachine newDestination_emptyMachine
  exact ⟨hok, hrun.1 hok, hrun.2⟩

/-! ## The name `.` -/

theorem packable_one {name : String} (hname : safeName name = .ok name) :
    Packable [(name, plainSource [7])] [] [] where
  nonempty := by simp
  regular := by simp [regular_plainSource]
  safe := by simpa [contents, ofFile] using hname
  nodup := by simp [contents]
  unnested := by simp [contents]
  directoriesSafe := by simp
  directoriesNodup := by simp
  directoriesFree := by simp

/-- A single file under the accepted name `.` is packed and listed, but not extracted. -/
theorem dot_not_extracted : safeName "." = .ok "." ∧ Packable [(".", plainSource [7])] [] [] ∧
    Ready emptyMachine.tree ["tmp", "new"] ∧
    ¬RoundTrips workingHost (fun _ => "") emptyMachine ["tmp", "new"] [(".", plainSource [7])] []
      [] := by
  have hname : safeName "." = .ok "." := by decide
  refine ⟨hname, packable_one hname, emptyMachine_ready, ?_⟩
  exact not_roundTrips_of_dot workingHost_working emptyMachine_ready (packable_one hname)
    List.mem_cons_self rfl

end CkbSail.Scripts.ReleaseCommon
