import CkbSail.PythonStd.FileTree
import CkbSail.PythonStd.PurePath
import CkbSail.Scripts.SailModelTransaction

/-!
# Archives of the acceptance scripts

`writeTarGz` writes files in a fixed order and without timestamps or owners,
`tarInventory` reads the sizes and digests of an archive, and `extractVerified`
extracts exactly a known inventory.  An archive is the sequence of its members.
-/

namespace CkbSail.Scripts.ReleaseCommon

open PythonStd ProofSupport
open SailModelTransaction (require)

/-! ## Names -/

/-- The escapes of `repr` for printable text and ASCII controls. -/
def reprChar (quote : Char) (c : Char) : List Char :=
  if c = '\\' then ['\\', '\\']
  else if c = quote then ['\\', quote]
  else if c = '\n' then ['\\', 'n']
  else if c = '\r' then ['\\', 'r']
  else if c = '\t' then ['\\', 't']
  else if c.toNat < 32 || c.toNat = 127 then
    ['\\', 'x', (c.toNat / 16).digitChar, (c.toNat % 16).digitChar]
  else [c]

/-- `repr(text)`. -/
def repr (text : String) : String :=
  let quote := if text.toList.contains '\'' && !text.toList.contains '"' then '"' else '\''
  String.ofList ([quote] ++ text.toList.flatMap (reprChar quote) ++ [quote])

def FORBIDDEN : List Char := ['\\', '\x00', '\r', '\n']

def safeName (name : String) : Except Exn String := do
  require (name ≠ "" && !name.toList.any FORBIDDEN.contains) ("unsafe path: " ++ repr name)
  require (!isAbsolute name && asPosix name = name &&
    (parts name).all fun part => !(["", ".", ".."].contains part)) ("unsafe path: " ++ name)
  pure name

/-! ## Members -/

/-- Regular members also include the old, contiguous and sparse types. -/
inductive MemberType where
  | regular
  | directory
  | symlink
  | link
  | device
deriving DecidableEq, Repr

/-- What reading gives: blocks, and an exception if it breaks off. -/
structure Stream where
  blocks : List (List UInt8)
  stop : Option Exn

def Stream.bytes (stream : Stream) : List UInt8 := stream.blocks.flatten

/-- A member of an archive.  Reading it to the end gives as many bytes as its size
says. -/
structure Member where
  name : String
  type : MemberType
  mode : Int
  size : Int
  uid : Int
  gid : Int
  mtime : Int
  linkname : String
  uname : String
  gname : String
  content : Stream
  complete : content.stop = none → content.bytes.length = size.toNat

/-- A gzip archive as it is read. -/
structure Archive where
  openFault : Option Exn
  members : List Member
  stop : Option Exn

/-- `item.name.rstrip("/") if item.isdir() else item.name`. -/
def Member.entryName (item : Member) : String :=
  if item.type = .directory then rstripSlash item.name else item.name

/-- `item.mode & ~0o777`. -/
def Member.special (item : Member) : Bool := item.mode / 0o1000 ≠ 0

structure Row where
  size : Nat
  sha256 : String
deriving DecidableEq, Repr

/-- A dictionary from names to rows, without a name twice. -/
abbrev Inventory := List (String × Row)

/-! ## Writing -/

/-- What an archive keeps of a file. -/
structure FileContents where
  path : String
  linked : Bool
  isFile : Bool
  mode : Nat
  bytes : List UInt8

/-- A file to archive, which does not change meanwhile. -/
structure Source extends FileContents where
  mtime : Int
  uid : Int
  gid : Int
  uname : String
  gname : String

/-- Neither a link nor below one, and without special mode bits. -/
def regular (source : FileContents) : Except Exn Unit := do
  require (!source.linked && source.isFile) ("missing/linked file: " ++ source.path)
  require (source.mode &&& 0o7000 = 0) ("special file: " ++ source.path)

/-- A regular member with its bytes. -/
def fileMember (name : String) (bytes : List UInt8) (mode : Nat) : Member where
  name := name
  type := .regular
  mode := (mode &&& 0o777 : Nat)
  size := bytes.length
  uid := 0
  gid := 0
  mtime := 0
  linkname := ""
  uname := ""
  gname := ""
  content := ⟨[bytes], none⟩
  complete := by simp [Stream.bytes]

def directoryMember (name : String) : Member where
  name := rstripSlash name ++ "/"
  type := .directory
  mode := 0o755
  size := 0
  uid := 0
  gid := 0
  mtime := 0
  linkname := ""
  uname := ""
  gname := ""
  content := ⟨[], none⟩
  complete := by simp [Stream.bytes]

/-- `sorted(items.items())` of a dictionary. -/
def sortedItems {α : Type} (items : List (String × α)) : List (String × α) :=
  items.mergeSort fun left right => decide (left.1 ≤ right.1)

def writeFile (file : String × Source) : Except Exn Member := do
  regular file.2.toFileContents
  let name ← safeName file.1
  pure (fileMember name file.2.bytes file.2.mode)

def writeExtra (item : String × List UInt8) : Except Exn Member := do
  let name ← safeName item.1
  pure (fileMember name item.2 0o644)

def writeAll {α : Type} (write : α → Except Exn Member) : List α → Except Exn (List Member)
  | [] => .ok []
  | item :: items => do
      let member ← write item
      let members ← writeAll write items
      pure (member :: members)

/-- The members of a new archive. -/
def writeTarGz (files : List (String × Source)) (extra : List (String × List UInt8))
    (directories : List String) : Except Exn (List Member) := do
  let regularFiles ← writeAll writeFile (sortedItems files)
  let extraFiles ← writeAll writeExtra (sortedItems extra)
  pure (directories.map directoryMember ++ regularFiles ++ extraFiles)

/-- A member as it is read back: directories lose the slash at the end. -/
def Member.stored (item : Member) : Member := { item with name := item.entryName }

def stored (members : List Member) : Archive := ⟨none, members.map Member.stored, none⟩

/-! ## Reading an inventory -/

/-- What the reader has found. -/
structure Listing where
  files : Inventory
  directories : List String
  seen : List String

def readMember (sha256 : List UInt8 → String) (item : Member) (listing : Listing) :
    Except Exn Listing := do
  let name ← safeName item.entryName
  require (!item.special && !listing.seen.contains name)
    ("special/duplicate archive member: " ++ name)
  let seen := name :: listing.seen
  if item.type = .directory then
    pure { listing with directories := listing.directories ++ [name ++ "/"], seen := seen }
  else do
    require (item.type = .regular && item.linkname = "") ("special/link archive member: " ++ name)
    if let some e := item.content.stop then throw e
    require ((item.content.bytes.length : Int) = item.size) "archive member size differs"
    let row : Row := ⟨item.content.bytes.length, sha256 item.content.bytes⟩
    pure { listing with files := listing.files ++ [(name, row)], seen := seen }

def readMembers (sha256 : List UInt8 → String) : List Member → Listing → Except Exn Listing
  | [], listing => .ok listing
  | item :: items, listing => do
      let listing ← readMember sha256 item listing
      readMembers sha256 items listing

/-- Size and digest of every regular member, and the directories. -/
def tarInventory (sha256 : List UInt8 → String) (archive : Archive) :
    Except Exn (Inventory × List String) := do
  if let some e := archive.openFault then throw e
  let listing ← readMembers sha256 archive.members ⟨[], [], []⟩
  if let some e := archive.stop then throw e
  require (!listing.files.isEmpty) "empty archive"
  pure (listing.files, listing.directories)

/-! ## Extraction -/

section Extract

variable (host : FileHost) (sha256 : List UInt8 → String) (destination : Path)
  (members : Inventory) (directories : List String)

def checkNew : FileProgram Unit := do
  if ← pathExists destination then .raise (.runtimeError "new extraction destination required")
  else if ← anySymlink (withParents destination) then
    .raise (.runtimeError "new extraction destination required")
  else pure ()

def checkNames : Inventory → Except Exn Unit
  | [] => .ok ()
  | (name, _) :: rows => do
      let _ ← safeName name
      checkNames rows

def allowed : List String :=
  (members.flatMap fun row => (ancestors (parts row.1)).map join) ++ directories

def extractDirectory (name : String) : FileProgram Unit := do
  .check fun _ => require ((allowed members directories).contains name &&
    (members.lookup name).isNone) ("unexpected extraction directory: " ++ name)
  mkdirParents host true (destination ++ parts name)

/-- The row an extracted file has to match. -/
def expectedRow (item : Member) (name : String) : Except Exn Row :=
  match members.lookup name with
  | some row =>
      if item.type = .regular && item.size = row.size then .ok row
      else .error (.runtimeError ("unexpected extraction member: " ++ name))
  | none => .error (.runtimeError ("unexpected extraction member: " ++ name))

/-- `while block := incoming.read(...)`. -/
def writeBlocks (target : Path) (stop : Option Exn) : List (List UInt8) → FileProgram Unit
  | [] =>
      match stop with
      | some e => .raise e
      | none => pure ()
  | block :: blocks => do
      append target block
      writeBlocks target stop blocks

def extractFile (item : Member) (name : String) : FileProgram Unit := do
  let target := destination ++ parts name
  let row ← .check fun _ => expectedRow members item name
  mkdirParents host true target.dropLast
  openNew host target
  writeBlocks target item.content.stop item.content.blocks
  .check fun _ => require (sha256 item.content.bytes = row.sha256)
    ("extracted bytes differ: " ++ name)
  chmod host target item.mode.toNat

/-- The checks every member goes through. -/
def admitMember (item : Member) (seen : List String) : FileProgram String := do
  let name ← .check fun _ => safeName item.entryName
  .check fun _ => require (!seen.contains name && !item.special)
    ("duplicate/special extraction entry: " ++ name)
  if ← anySymlink (withParents (destination ++ parts name)) then
    .raise (.runtimeError "linked extraction ancestor")
  else pure name

/-- The loop over the members, with the names seen and the files extracted. -/
def extractMembers (stop : Option Exn) :
    List Member → List String → List String → FileProgram (List String)
  | [], _, files =>
      match stop with
      | some e => .raise e
      | none => pure files
  | item :: items, seen, files => do
      let name ← admitMember destination item seen
      if item.type = .directory then
        extractDirectory host destination members directories name
        extractMembers stop items (name :: seen) files
      else
        extractFile host sha256 destination members item name
        extractMembers stop items (name :: seen) (name :: files)

/-- `files == set(members)`. -/
def sameNames (files : List String) : Bool :=
  files.all (fun name => (members.lookup name).isSome) &&
    members.all fun row => files.contains row.1

def openArchive (archive : Archive) : FileProgram Unit :=
  match archive.openFault with
  | some e => .raise e
  | none => pure ()

def extractVerified (archive : Archive) : FileProgram Unit := do
  checkNew destination
  .check fun _ => checkNames members
  mkdirParents host false destination
  openArchive archive
  let files ← extractMembers host sha256 destination members directories archive.stop
    archive.members [] []
  .check fun _ => require (sameNames members files) "missing extraction members"

end Extract

end CkbSail.Scripts.ReleaseCommon
