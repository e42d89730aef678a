import CkbSail.Scripts.Proofs.SafeName
import Mathlib.Data.List.Nodup
import Mathlib.Data.String.Basic

/-!
# What the writer puts into an archive, and the reader finds

The members are the directories, the sorted files and the sorted extra items; the
inventory read from them lists the same names with their sizes and digests.
-/

namespace CkbSail.Scripts.ReleaseCommon

open PythonStd ProofSupport

/-! ## Order -/

section Order

variable {α : Type} {items items' : List (String × α)}

theorem perm_sortedItems (items : List (String × α)) : (sortedItems items).Perm items :=
  List.mergeSort_perm _ _

theorem mem_sortedItems {item : String × α} : item ∈ sortedItems items ↔ item ∈ items :=
  (perm_sortedItems items).mem_iff

/-- The order of a dictionary does not matter. -/
theorem sortedItems_eq_of_perm (h : items.Perm items') (hnodup : (items.map Prod.fst).Nodup) :
    sortedItems items = sortedItems items' := by
  have htrans : ∀ a b c : String × α, decide (a.1 ≤ b.1) = true → decide (b.1 ≤ c.1) = true →
      decide (a.1 ≤ c.1) = true := by
    intro a b c hab hbc
    simp only [decide_eq_true_eq] at *
    exact le_trans hab hbc
  have htotal : ∀ a b : String × α, (decide (a.1 ≤ b.1) || decide (b.1 ≤ a.1)) = true := by
    intro a b
    simpa using le_total a.1 b.1
  refine List.Perm.eq_of_pairwise (fun a b ha hb hab hba => ?_)
    (List.pairwise_mergeSort htrans htotal items) (List.pairwise_mergeSort htrans htotal items')
    ((perm_sortedItems items).trans (h.trans (perm_sortedItems items').symm))
  have hname : a.1 = b.1 := le_antisymm (of_decide_eq_true hab) (of_decide_eq_true hba)
  exact List.inj_on_of_nodup_map hnodup (mem_sortedItems.1 ha)
    (h.mem_iff.2 (mem_sortedItems.1 hb)) hname

theorem map_sortedItems {β : Type} (f : α → β) :
    (sortedItems items).map (Prod.map id f) = sortedItems (items.map (Prod.map id f)) :=
  List.map_mergeSort fun _ _ _ _ => rfl

end Order

/-! ## Writing -/

theorem writeAll_eq_ok {α : Type} {write : α → Except Exn Member} {item : α → Member}
    {items : List α} (h : ∀ a ∈ items, write a = .ok (item a)) :
    writeAll write items = .ok (items.map item) := by
  induction items with
  | nil => rfl
  | cons a as ih =>
      simp only [writeAll, h a List.mem_cons_self,
        ih fun b hb => h b (List.mem_cons_of_mem a hb)]
      rfl

theorem writeAll_map {α β : Type} {write : β → Except Exn Member} (f : α → β) (items : List α) :
    writeAll write (items.map f) = writeAll (write ∘ f) items := by
  induction items with
  | nil => rfl
  | cons a as ih => simp only [List.map_cons, writeAll, ih, Function.comp_apply]

/-- A name, its bytes and its mode. -/
abbrev Content := String × List UInt8 × Nat

def ofFile (file : String × Source) : Content := (file.1, file.2.bytes, file.2.mode)

def ofExtra (item : String × List UInt8) : Content := (item.1, item.2, 0o644)

def contents (files : List (String × Source)) (extra : List (String × List UInt8)) : List Content :=
  files.map ofFile ++ extra.map ofExtra

def Content.member (content : Content) : Member := fileMember content.1 content.2.1 content.2.2

def Content.row (sha256 : List UInt8 → String) (content : Content) : String × Row :=
  (content.1, ⟨content.2.1.length, sha256 content.2.1⟩)

/-- The inputs the two archive operations are meant for. -/
structure Packable (files : List (String × Source)) (extra : List (String × List UInt8))
    (directories : List String) : Prop where
  nonempty : files ≠ []
  regular : ∀ file ∈ files, regular file.2.toFileContents = .ok ()
  safe : ∀ content ∈ contents files extra, safeName content.1 = .ok content.1
  nodup : ((contents files extra).map Prod.fst).Nodup
  unnested : ∀ left ∈ contents files extra, ∀ right ∈ contents files extra, left.1 ≠ right.1 →
    ¬parts left.1 <+: parts right.1
  directoriesSafe : ∀ name ∈ directories, safeName name = .ok name
  directoriesNodup : directories.Nodup
  directoriesFree : ∀ name ∈ directories, ∀ content ∈ contents files extra,
    ¬parts content.1 <+: parts name

/-- The contents in the order of the archive. -/
def packed (files : List (String × Source)) (extra : List (String × List UInt8)) : List Content :=
  contents (sortedItems files) (sortedItems extra)

section Writing

variable {files : List (String × Source)} {extra : List (String × List UInt8)}
  {directories : List String}

theorem perm_packed : (packed files extra).Perm (contents files extra) :=
  ((perm_sortedItems files).map _).append ((perm_sortedItems extra).map _)

theorem writeTarGz_of_safe (hregular : ∀ file ∈ files, regular file.2.toFileContents = .ok ())
    (hsafe : ∀ content ∈ contents files extra, safeName content.1 = .ok content.1) :
    writeTarGz files extra directories =
      .ok (directories.map directoryMember ++ (packed files extra).map Content.member) := by
  have hfiles : writeAll writeFile (sortedItems files) =
      .ok ((sortedItems files).map fun file => (ofFile file).member) := by
    refine writeAll_eq_ok fun file hfile => ?_
    have hmem := mem_sortedItems.1 hfile
    have hname := hsafe (ofFile file) (List.mem_append_left _ (List.mem_map_of_mem hmem))
    simp only [writeFile, hregular file hmem]
    rw [show safeName file.1 = .ok file.1 from hname]
    rfl
  have hextra : writeAll writeExtra (sortedItems extra) =
      .ok ((sortedItems extra).map fun item => (ofExtra item).member) := by
    refine writeAll_eq_ok fun item hitem => ?_
    have hname := hsafe (ofExtra item)
      (List.mem_append_right _ (List.mem_map_of_mem (mem_sortedItems.1 hitem)))
    rw [writeExtra, show safeName item.1 = .ok item.1 from hname]
    rfl
  rw [writeTarGz, hfiles, hextra]
  simp [bind, Except.bind, pure, Except.pure, packed, contents, Function.comp_def]

theorem writeTarGz_eq_ok (h : Packable files extra directories) :
    writeTarGz files extra directories =
      .ok (directories.map directoryMember ++ (packed files extra).map Content.member) :=
  writeTarGz_of_safe h.regular h.safe

/-- Timestamps, owners and the order of the dictionaries do not show. -/
theorem writeTarGz_congr {files' : List (String × Source)} {extra' : List (String × List UInt8)}
    (hfiles : (files.map Prod.fst).Nodup) (hextra : (extra.map Prod.fst).Nodup)
    (hsame : (files.map (Prod.map id Source.toFileContents)).Perm
      (files'.map (Prod.map id Source.toFileContents)))
    (hperm : extra.Perm extra') :
    writeTarGz files extra directories = writeTarGz files' extra' directories := by
  have hwrite : ∀ items : List (String × Source), writeAll writeFile (sortedItems items) =
      writeAll (fun file : String × FileContents => do
        regular file.2
        let name ← safeName file.1
        pure (fileMember name file.2.bytes file.2.mode))
        (sortedItems (items.map (Prod.map id Source.toFileContents))) := by
    intro items
    rw [← map_sortedItems, writeAll_map]
    rfl
  have hnodup : ((files.map (Prod.map id Source.toFileContents)).map Prod.fst).Nodup := by
    simpa [Function.comp_def] using hfiles
  rw [writeTarGz, writeTarGz, hwrite files, hwrite files', sortedItems_eq_of_perm hsame hnodup,
    sortedItems_eq_of_perm hperm hextra]

end Writing

/-! ## Reading back -/

/-- An accepted name does not end in a slash. -/
theorem rstripSlash_of_safe {name : String} (h : safeName name = .ok name) :
    rstripSlash name = name := by
  have hlast : ∀ front, name.toList ≠ front ++ ['/'] := by
    intro front hfront
    rcases (safeName_eq_ok.1 h).2 with rfl | hsafe
    · have hlength := congrArg List.getLast? hfront
      simp at hlength
    · refine hsafe.components "" ?_ (by decide)
      rw [split, hfront, List.splitOn_append_cons_self]
      simp
  have hdrop : name.toList.reverse.dropWhile (· = '/') = name.toList.reverse := by
    cases hreverse : name.toList.reverse with
    | nil => rfl
    | cons c cs =>
        refine List.dropWhile_cons_of_neg ?_
        intro hc
        refine hlast cs.reverse ?_
        rw [← List.reverse_reverse name.toList, hreverse, of_decide_eq_true hc]
        simp
  rw [rstripSlash, hdrop, List.reverse_reverse, String.ofList_toList]

theorem rstripSlash_append (name : String) : rstripSlash (name ++ "/") = rstripSlash name := by
  simp [rstripSlash]

theorem entryName_directory {name : String} (h : safeName name = .ok name) :
    (directoryMember name).stored.entryName = name := by
  have hname : (directoryMember name).entryName = name := by
    show rstripSlash (rstripSlash name ++ "/") = name
    rw [rstripSlash_append, rstripSlash_of_safe h, rstripSlash_of_safe h]
  show rstripSlash (directoryMember name).entryName = name
  rw [hname, rstripSlash_of_safe h]

theorem special_member (content : Content) : content.member.stored.special = false := by
  have hlt : content.2.2 &&& 0o777 < 512 := by
    rw [Nat.and_two_pow_sub_one_eq_mod content.2.2 9]
    exact Nat.mod_lt _ (by decide)
  show decide (((content.2.2 &&& 0o777 : Nat) : Int) / 0o1000 ≠ 0) = false
  rw [decide_eq_false_iff_not, not_not]
  omega

theorem bytes_member (content : Content) : content.member.stored.content.bytes = content.2.1 :=
  List.append_nil _

section Reading

variable {sha256 : List UInt8 → String} {listing : Listing}

theorem readMember_directory {name : String} (hsafe : safeName name = .ok name)
    (hseen : name ∉ listing.seen) :
    readMember sha256 (directoryMember name).stored listing = .ok { listing with
      directories := listing.directories ++ [name ++ "/"], seen := name :: listing.seen } := by
  have hspecial : (directoryMember name).stored.special = false := rfl
  have htype : (directoryMember name).stored.type = .directory := rfl
  rw [readMember, entryName_directory hsafe, hsafe]
  simp [SailModelTransaction.require, hspecial, hseen, htype, bind, Except.bind, pure, Except.pure]

theorem readMember_content {content : Content} (hsafe : safeName content.1 = .ok content.1)
    (hseen : content.1 ∉ listing.seen) :
    readMember sha256 content.member.stored listing = .ok { listing with
      files := listing.files ++ [content.row sha256], seen := content.1 :: listing.seen } := by
  have hname : content.member.stored.entryName = content.1 := rfl
  have htype : content.member.stored.type = .regular := rfl
  have hlink : content.member.stored.linkname = "" := rfl
  have hstop : content.member.stored.content.stop = none := rfl
  have hsize : content.member.stored.size = content.2.1.length := rfl
  rw [readMember, hname, hsafe]
  simp [SailModelTransaction.require, special_member, hseen, htype, hlink, hstop, hsize,
    bytes_member, Content.row,
    bind, Except.bind, pure, Except.pure]

theorem readMembers_directories {names : List String} {items : List Member}
    (hsafe : ∀ name ∈ names, safeName name = .ok name) (hnodup : names.Nodup)
    (hseen : ∀ name ∈ names, name ∉ listing.seen) :
    readMembers sha256 (names.map (Member.stored ∘ directoryMember) ++ items) listing =
      readMembers sha256 items { listing with
        directories := listing.directories ++ names.map (· ++ "/")
        seen := names.reverse ++ listing.seen } := by
  induction names generalizing listing with
  | nil => simp
  | cons name names ih =>
      rw [List.nodup_cons] at hnodup
      rw [List.map_cons, List.cons_append, readMembers, Function.comp_apply,
        readMember_directory (hsafe name List.mem_cons_self) (hseen name List.mem_cons_self)]
      refine (ih (fun other hother => hsafe other (List.mem_cons_of_mem _ hother)) hnodup.2
        fun other hother hmem => ?_).trans (by simp)
      rcases List.mem_cons.1 hmem with rfl | hmem
      · exact hnodup.1 hother
      · exact hseen other (List.mem_cons_of_mem _ hother) hmem

theorem readMembers_contents {items : List Content}
    (hsafe : ∀ content ∈ items, safeName content.1 = .ok content.1)
    (hnodup : (items.map Prod.fst).Nodup) (hseen : ∀ content ∈ items, content.1 ∉ listing.seen) :
    readMembers sha256 (items.map (Member.stored ∘ Content.member)) listing = .ok { listing with
      files := listing.files ++ items.map (Content.row sha256)
      seen := (items.map Prod.fst).reverse ++ listing.seen } := by
  induction items generalizing listing with
  | nil => simp [readMembers]
  | cons content items ih =>
      rw [List.map_cons, List.nodup_cons] at hnodup
      rw [List.map_cons, readMembers, Function.comp_apply,
        readMember_content (hsafe content List.mem_cons_self) (hseen content List.mem_cons_self)]
      refine (ih (fun other hother => hsafe other (List.mem_cons_of_mem _ hother)) hnodup.2
        fun other hother hmem => ?_).trans (by simp)
      rcases List.mem_cons.1 hmem with hsame | hmem
      · exact hnodup.1 (hsame ▸ List.mem_map_of_mem hother)
      · exact hseen other (List.mem_cons_of_mem _ hother) hmem

variable {files : List (String × Source)} {extra : List (String × List UInt8)}
  {directories : List String}

/-- A directory is no content: its name would be below that content. -/
theorem Packable.directory_ne (h : Packable files extra directories) {content : Content}
    (hcontent : content ∈ contents files extra) : content.1 ∉ directories :=
  fun hmem => h.directoriesFree _ hmem content hcontent (List.prefix_refl _)

theorem tarInventory_eq_ok (h : Packable files extra directories) :
    tarInventory sha256
        (stored (directories.map directoryMember ++ (packed files extra).map Content.member)) =
      .ok ((packed files extra).map (Content.row sha256), directories.map (· ++ "/")) := by
  have hmem : ∀ content, content ∈ packed files extra ↔ content ∈ contents files extra :=
    fun content => perm_packed.mem_iff
  have hnodup : ((packed files extra).map Prod.fst).Nodup :=
    ((perm_packed : (packed files extra).Perm (contents files extra)).map Prod.fst).nodup_iff.2 h.nodup
  have hne : packed files extra ≠ [] := by
    intro hnil
    have hlength := (perm_packed : (packed files extra).Perm (contents files extra)).length_eq
    rw [hnil, contents, List.length_append, List.length_map] at hlength
    have hpos := List.length_pos_iff.2 h.nonempty
    simp only [List.length_nil] at hlength
    omega
  have hread : readMembers sha256 (stored (directories.map directoryMember ++
      (packed files extra).map Content.member)).members ⟨[], [], []⟩ =
      .ok ⟨(packed files extra).map (Content.row sha256), directories.map (· ++ "/"),
        ((packed files extra).map Prod.fst).reverse ++ (directories.reverse ++ [])⟩ := by
    show readMembers sha256 (List.map Member.stored _) _ = _
    rw [List.map_append, List.map_map, List.map_map,
      readMembers_directories h.directoriesSafe h.directoriesNodup (by simp),
      readMembers_contents (fun content hcontent => h.safe content ((hmem content).1 hcontent))
        hnodup]
    · simp
    · intro content hcontent
      simpa using h.directory_ne ((hmem content).1 hcontent)
  rw [tarInventory, hread]
  simp [stored, SailModelTransaction.require, hne, bind, Except.bind, pure, Except.pure]

end Reading

end CkbSail.Scripts.ReleaseCommon
