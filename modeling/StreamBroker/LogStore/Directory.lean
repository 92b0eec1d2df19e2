import StreamBroker.LogStore.Call
import StreamBroker.Error

/-!
# A log store in a directory

Every namespace is a directory below the root, and every entry a file in it whose name is the
number of the entry in twenty digits.  An entry is written to a file beside it, which is then
renamed, so that no half-written entry is ever read.  The store lives with what else is in the
directories: it passes over files that are no entries, and refuses to work where a name says
"entry" but no number, or where there is a directory in the place of a file.

## Main definitions

* `FileNode`, `DirectoryTree`: files and directories.
* `DirectoryStore`: the store.
* `DirectoryStore.entryName`, `DirectoryStore.parseIndex`: names of entries.
* `DirectoryStore.answer`: the answer to a call and the store after it.
-/

namespace StreamBroker

/-! ## Files and directories -/

/-- A file with its contents, or a directory with what is in it under its names. -/
inductive FileNode where
  | file (contents : Bytes)
  | directory (nodes : List (String × FileNode))
  deriving Inhabited

/-- What is in a directory, each name once. -/
abbrev DirectoryTree := List (String × FileNode)

namespace DirectoryTree

/-- The directory with something under a name, in place of what was there. -/
def set (t : DirectoryTree) (name : String) (node : FileNode) : DirectoryTree :=
  if t.any (fun e => e.1 == name) then t.map fun e => if e.1 == name then (name, node) else e
  else t ++ [(name, node)]

/-- The directory without a name. -/
def unset (t : DirectoryTree) (name : String) : DirectoryTree := t.filter fun e => e.1 != name

/-- What is found by following names; a file has nothing below it. -/
def find? (t : DirectoryTree) : List String → Option FileNode
  | [] => some (.directory t)
  | name :: path =>
    match t.lookup name with
    | some (.directory below) => find? below path
    | some (.file contents) => if path.isEmpty then some (.file contents) else none
    | none => none

/-- Puts something at the end of a path and makes the directories that are missing on the way;
nothing if a file is in the way. -/
def place? (t : DirectoryTree) : List String → FileNode → Option DirectoryTree
  | [], _ => none
  | [name], node => some (t.set name node)
  | name :: next :: path, node =>
    match t.lookup name with
    | some (.directory below) =>
      (place? below (next :: path) node).map fun below => t.set name (.directory below)
    | some (.file _) => none
    | none => (place? [] (next :: path) node).map fun below => t.set name (.directory below)

end DirectoryTree

/-! ## The store -/

/-- A log store in a directory. -/
structure DirectoryStore where
  /-- What is in the root directory. -/
  root : DirectoryTree := []
  deriving Inhabited

namespace DirectoryStore

/-- What the root directory is called in messages. -/
def rootName : String := "<root>"

/-- The name of the file of an entry. -/
def entryName (index : Nat) : String :=
  String.ofList (Decimal.padded 20 index) ++ ".entry"

/-- The name of the file that an entry is first written to. -/
def temporaryName (index : Nat) : String :=
  String.ofList (Decimal.padded 20 index) ++ ".tmp"

/-- A file name cut at its last dot.  A dot at the very front does not count. -/
def splitExtension (name : String) : String × Option String :=
  let back := name.toList.reverse
  let extension := back.takeWhile (· != '.')
  match back.dropWhile (· != '.') with
  | [] => (name, none)
  | _ :: stem =>
    if stem.isEmpty then (name, none)
    else (String.ofList stem.reverse, some (String.ofList extension.reverse))

/-- A number of sixty-four bits in digits, with a plus sign allowed in front. -/
def parseWord? (text : String) : Option Nat := do
  let digits := match text.toList with
    | '+' :: digits => digits
    | digits => digits
  let n ← Decimal.parse? digits
  if n < wordLimit then some n else none

/-- The number of an entry by the name of its file; nothing for files that are no entries. -/
def parseIndex (ns name : String) : Except StorageError (Option Nat) :=
  match splitExtension name with
  | (stem, some "entry") =>
    match parseWord? stem with
    | some index => .ok (some index)
    | none => .error (.invalidValue (rootName ++ "/" ++ ns ++ "/" ++ name))
  | _ => .ok none

/-- Refuses names that are no name of a directory. -/
def checkNamespace (ns : String) : Except StorageError Unit :=
  if ns.isEmpty || ns == "." || ns == ".." || ns.toList.any (fun c => "/\\\x00".toList.contains c)
  then .error (.invalidNamespace ns)
  else .ok ()

/-- How many octets the name of a file or a directory may have. -/
def maxNameLength : Nat := 255

/-- The directory of a namespace; nothing if it does not exist. -/
def directory? (s : DirectoryStore) (ns : String) :
    Except StorageError (Option DirectoryTree) := do
  checkNamespace ns
  if maxNameLength < ns.utf8ByteSize then throw .io
  match s.root.lookup ns with
  | some (.directory t) => pure (some t)
  | some (.file _) => throw .io
  | none => pure none

/-- The numbers of the entries in a directory, in ascending order. -/
def indices (ns : String) (t : DirectoryTree) : Except StorageError (List Nat) := do
  let found ← t.mapM fun e => parseIndex ns e.1
  pure ((found.filterMap id).mergeSort (· ≤ ·))

/-- The numbers of the entries of a namespace. -/
def namespaceIndices (s : DirectoryStore) (ns : String) : Except StorageError (List Nat) := do
  match ← s.directory? ns with
  | some t => indices ns t
  | none => pure []

/-- Writes an entry: first to a file beside it, which is then renamed.  The file beside it is left
over where there is a directory in the place of the entry. -/
def writeEntry (t : DirectoryTree) (index : Nat) (data : Bytes) :
    Except StorageError Unit × DirectoryTree :=
  match t.lookup (temporaryName index) with
  -- The file beside the entry cannot be made.
  | some (.directory _) => (.error .io, t)
  | _ =>
    match t.lookup (entryName index) with
    | some (.directory _) => (.error .io, t.set (temporaryName index) (.file data))
    | _ => (.ok (), (t.unset (temporaryName index)).set (entryName index) (.file data))

/-- Writes entries one after the other, up to the first that fails. -/
def writeEntries (t : DirectoryTree) : List (Nat × Bytes) →
    Except StorageError Unit × DirectoryTree
  | [] => (.ok (), t)
  | e :: es =>
    match writeEntry t e.1 e.2 with
    | (.ok (), t) => writeEntries t es
    | (.error error, t) => (.error error, t)

/-- Removes the file of an entry, and says whether there was one. -/
def removeEntry (t : DirectoryTree) (index : Nat) : Except StorageError (Bool × DirectoryTree) :=
  match t.lookup (entryName index) with
  | some (.file _) => .ok (true, t.unset (entryName index))
  | some (.directory _) => .error .io
  | none => .ok (false, t)

/-- Removes the files of entries one after the other, up to the first that fails. -/
def removeEntries (t : DirectoryTree) : List Nat → Except StorageError Unit × DirectoryTree
  | [] => (.ok (), t)
  | index :: more =>
    match removeEntry t index with
    | .ok (_, t) => removeEntries t more
    | .error error => (.error error, t)

/-- Reads the files of entries; an entry whose file has another name is passed over. -/
def readEntries (t : DirectoryTree) : List Nat → Except StorageError (List (Nat × Bytes))
  | [] => .ok []
  | index :: more =>
    match t.lookup (entryName index) with
    | some (.file data) => (readEntries t more).map ((index, data) :: ·)
    | some (.directory _) => .error .io
    | none => readEntries t more

/-- The store with another directory for a namespace. -/
def setDirectory (s : DirectoryStore) (ns : String) (t : DirectoryTree) : DirectoryStore :=
  ⟨s.root.set ns (.directory t)⟩

/-- Writes entries into a namespace, whose directory is made when it is missing. -/
def append (s : DirectoryStore) (ns : String) (es : List (Nat × Bytes)) :
    Except StorageError Unit × DirectoryStore :=
  if es.isEmpty then (.ok (), s)
  else match s.directory? ns with
    | .error error => (.error error, s)
    | .ok t =>
      let (result, t) := writeEntries (t.getD []) es
      (result, s.setDirectory ns t)

/-- Removes the entries of a namespace up to a number. -/
def compactBefore (s : DirectoryStore) (ns : String) (index : Nat) :
    Except StorageError Unit × DirectoryStore :=
  match s.directory? ns with
  | .error error => (.error error, s)
  | .ok none => (.ok (), s)
  | .ok (some t) =>
    match indices ns t with
    | .error error => (.error error, s)
    | .ok found =>
      let (result, t) := removeEntries t (found.takeWhile (· ≤ index))
      (result, s.setDirectory ns t)

/-- Reads the entries of a namespace from a number up to below another. -/
def readRange (s : DirectoryStore) (ns : String) (start stop : Nat) :
    Except StorageError (List (Nat × Bytes)) := do
  match ← s.directory? ns with
  | none => pure []
  | some t =>
    let found ← indices ns t
    readEntries t ((found.dropWhile (· < start)).takeWhile (· < stop))

/-- Removes one entry of a namespace, and says whether there was one. -/
def deleteEntry (s : DirectoryStore) (ns : String) (index : Nat) :
    Except StorageError Bool × DirectoryStore :=
  match s.directory? ns with
  | .error error => (.error error, s)
  | .ok none => (.ok false, s)
  | .ok (some t) =>
    match removeEntry t index with
    | .error error => (.error error, s)
    | .ok (existed, t) => (.ok existed, s.setDirectory ns t)

def answer (s : DirectoryStore) : LogCall → Except StorageError LogReply × DirectoryStore
  | .append ns es =>
    let (result, s) := s.append ns es
    (result.map fun _ => .done, s)
  | .bounds ns =>
    ((s.namespaceIndices ns).map fun found =>
      .bounds (match found.head?, found.getLast? with
        | some first, some last => some (first, last)
        | _, _ => none), s)
  | .compactBefore ns index =>
    let (result, s) := s.compactBefore ns index
    (result.map fun _ => .done, s)
  | .readRange ns start stop => ((s.readRange ns start stop).map .entries, s)
  | .removeNamespace ns =>
    match s.directory? ns with
    | .error error => (.error error, s)
    | .ok _ => (.ok .done, ⟨s.root.unset ns⟩)
  | .deleteEntry ns index =>
    let (result, s) := s.deleteEntry ns index
    (result.map .existed, s)

/-! ## What else may happen in the directories -/

/-- A path cut at its slashes, without the names that stay in a directory. -/
def pathParts (path : String) : List String :=
  (path.splitOn "/").filter fun name => name != "" && name != "."

/-- Writes a file, and makes the directories above it; nothing happens if a file is in the way. -/
def writeFile (s : DirectoryStore) (path : String) (data : Bytes) : DirectoryStore :=
  ⟨(s.root.place? (pathParts path) (.file data)).getD s.root⟩

/-- Makes a directory and those above it, where they are missing. -/
def makeDirectory (s : DirectoryStore) (path : String) : DirectoryStore :=
  match s.root.find? (pathParts path) with
  | some _ => s
  | none => ⟨(s.root.place? (pathParts path) (.directory [])).getD s.root⟩

/-- The names in a directory, in ascending order; nothing if there is no directory. -/
def list? (s : DirectoryStore) (path : String) : Option (List String) :=
  match s.root.find? (pathParts path) with
  | some (.directory t) => some ((t.map (·.1)).mergeSort (· ≤ ·))
  | _ => none

end DirectoryStore

end StreamBroker
