import Std.Data.ExtTreeMap
import OnePass.Files.Fault
import OnePass.Path
set_option autoImplicit false

/-!
# Files in memory

A tree of files and directories kept as a map from keys to entries; a key is a cleaned path
without a slash at its beginning.  A file that is read is read as it was when it was opened, and
what is written to a file appears in it when the handle is closed.
-/

namespace OnePass

/-- Something in a tree of files. -/
inductive FileEntry where
  /-- a file with its contents and the time of its last change -/
  | file (data : Bytes) (modified : Int)
  /-- a directory with the time of its making -/
  | directory (modified : Int)
  deriving DecidableEq, Repr, Inhabited

namespace FileEntry

/-- Whether an entry is a directory. -/
def isDirectory : FileEntry → Bool
  | .file .. => false
  | .directory _ => true

/-- The time of an entry's last change. -/
def modified : FileEntry → Int
  | .file _ time => time
  | .directory time => time

/-- The length of an entry's contents. -/
def size : FileEntry → Nat
  | .file data _ => data.length
  | .directory _ => 0

/-- The permissions of an entry. -/
def mode : FileEntry → Bytes
  | .file .. => text "-rw-r--r--"
  | .directory _ => text "drwxr-xr-x"

end FileEntry

/-- What is known of a file without its contents. -/
structure FileInfo where
  name : Bytes
  size : Nat
  isDirectory : Bool
  mode : Bytes
  modified : Int
  deriving DecidableEq, Repr, Inhabited

/-- What is known of an entry. -/
def FileInfo.ofEntry (key : Bytes) (e : FileEntry) : FileInfo :=
  ⟨Path.base key, e.size, e.isDirectory, e.mode, e.modified⟩

/-- An open file of a tree in memory. -/
inductive FileHandle where
  /-- open for reading, with what is left to read -/
  | reader (key rest : Bytes)
  /-- open for writing, with what has been written -/
  | writer (key written : Bytes)
  /-- opened for writing and closed -/
  | closed (key : Bytes)
  deriving DecidableEq, Repr, Inhabited

namespace FileHandle

/-- The key of the file. -/
def key : FileHandle → Bytes
  | .reader key _ => key
  | .writer key _ => key
  | .closed key => key

/-- Reads up to a number of bytes.  At the end there is nothing to read, not even nothing. -/
def read (h : FileHandle) (count : Nat) : Except FileFault Bytes × FileHandle :=
  match h with
  | .reader key rest =>
    if rest = [] then (.error .endOfFile, h)
    else (.ok (rest.take count), .reader key (rest.drop count))
  | _ => (.error .permission, h)

/-- Writes bytes behind those written before. -/
def write (h : FileHandle) (data : Bytes) : Except FileFault Unit × FileHandle :=
  match h with
  | .writer key written => (.ok (), .writer key (written ++ data))
  | _ => (.error .permission, h)

end FileHandle

/-- A tree of files in memory, and the time that it gives to changes. -/
structure MemoryFiles where
  entries : Std.ExtTreeMap Bytes FileEntry compare := ∅
  clock : Int := 0

instance : Inhabited MemoryFiles := ⟨{}⟩

namespace MemoryFiles

/-- The tree with nothing in it, at time zero. -/
def empty : MemoryFiles := {}

/-- The key of a path. -/
def keyOf (path : Bytes) : Bytes :=
  let cleaned := Path.clean path
  if cleaned.head? = some Ascii.slash then cleaned.tail else cleaned

/-- The entry under a key. -/
def find? (fs : MemoryFiles) (key : Bytes) : Option FileEntry := fs.entries[key]?

/-- Puts an entry under a key. -/
def put (fs : MemoryFiles) (key : Bytes) (e : FileEntry) : MemoryFiles :=
  { fs with entries := fs.entries.insert key e }

/-- Puts a file under a key, changed at the present time. -/
def putFile (fs : MemoryFiles) (key data : Bytes) : MemoryFiles :=
  fs.put key (.file data fs.clock)

/-- What is put under a key is found there, and every other entry stays. -/
theorem find?_put (fs : MemoryFiles) (key other : Bytes) (e : FileEntry) :
    (fs.put key e).find? other = if key = other then some e else fs.find? other := by
  simp [find?, put, Std.ExtTreeMap.getElem?_insert]

/-- Whether there is a directory under a key. -/
def hasDirectory (fs : MemoryFiles) (key : Bytes) : Bool :=
  (fs.find? key).any FileEntry.isDirectory

/-! ## Operations -/

/-- Opens a file for reading.  A directory cannot be opened. -/
def openFile (fs : MemoryFiles) (path : Bytes) : Except FileFault FileHandle :=
  let key := keyOf path
  match fs.find? key with
  | some (.file data _) => .ok (.reader key data)
  | _ => .error (.path .open path .missing)

/-- Opens a file for writing and empties it.  The directory that it is in has to exist. -/
def createFile (fs : MemoryFiles) (path : Bytes) : Except FileFault (FileHandle × MemoryFiles) :=
  let key := keyOf path
  let parent := Path.dir key
  if parent ≠ text "." ∧ !fs.hasDirectory parent then .error (.path .create path .missing)
  else if fs.hasDirectory key then .error (.path .create path .occupied)
  else .ok (.writer key [], fs.putFile key [])

/-- Closes a handle.  What was written becomes the contents of the file. -/
def close (fs : MemoryFiles) : FileHandle → FileHandle × MemoryFiles
  | .writer key written => (.closed key, fs.putFile key written)
  | h => (h, fs)

/-- Makes a directory and those it is in, given its components and the key made so far. -/
def makeDirectoriesFrom (key : Bytes) : List Bytes → MemoryFiles → Except FileFault Unit × MemoryFiles
  | [], fs => (.ok (), fs)
  | part :: parts, fs =>
    if part = [] ∨ part = text "." then makeDirectoriesFrom key parts fs
    else
      let key := Path.join key part
      match fs.find? key with
      | some (.file ..) => (.error (.path .mkdir key .occupied), fs)
      | some (.directory _) => makeDirectoriesFrom key parts fs
      | none => makeDirectoriesFrom key parts (fs.put key (.directory fs.clock))

/-- Makes a directory and those it is in.  If a file is in the way, the directories before it have
been made. -/
def makeDirectories (fs : MemoryFiles) (path : Bytes) : Except FileFault Unit × MemoryFiles :=
  makeDirectoriesFrom [] (List.splitOn Ascii.slash (keyOf path)) fs

/-- Removes a file or a directory.  What is in a directory stays. -/
def remove (fs : MemoryFiles) (path : Bytes) : Except FileFault MemoryFiles :=
  let key := keyOf path
  if key ∈ fs.entries then .ok { fs with entries := fs.entries.erase key }
  else .error (.path .remove path .missing)

/-- What is known of a file or a directory. -/
def stat (fs : MemoryFiles) (path : Bytes) : Except FileFault FileInfo :=
  let key := keyOf path
  match fs.find? key with
  | some e => .ok (.ofEntry key e)
  | none => .error (.path .stat path .missing)

/-- What is known of the file of a handle. -/
def statHandle (fs : MemoryFiles) (h : FileHandle) : Except FileFault FileInfo := fs.stat h.key

/-- Puts a file in place of whatever is there, and makes the directories that it is in as far as
that is possible. -/
def addFile (fs : MemoryFiles) (path data : Bytes) : MemoryFiles :=
  let key := keyOf path
  let parent := Path.dir key
  let fs := if parent = text "." then fs else (fs.makeDirectories parent).2
  fs.putFile key data

/-- Closing a handle that was written to makes what was written the contents of its file. -/
theorem find?_close_writer (fs : MemoryFiles) (key written : Bytes) :
    (fs.close (.writer key written)).2.find? key = some (.file written fs.clock) := by
  simp [close, putFile, find?_put]

/-! ## Whole files -/

/-- The contents of a file. -/
def readAll (fs : MemoryFiles) (path : Bytes) : Except FileFault Bytes :=
  match fs.openFile path with
  | .ok (.reader _ data) => .ok data
  | .ok _ => .error .permission
  | .error e => .error e

/-- Opens a file for writing, writes to it and closes it. -/
def createWith (fs : MemoryFiles) (path data : Bytes) : Except FileFault Unit × MemoryFiles :=
  match fs.createFile path with
  | .error e => (.error e, fs)
  | .ok (h, fs) =>
    let (result, h) := h.write data
    (result, (fs.close h).2)

/-- Writes a whole file, and makes the directories that it is in. -/
def writeAll (fs : MemoryFiles) (path data : Bytes) : Except FileFault Unit × MemoryFiles :=
  let parent := Path.dir path
  if parent = text "." ∨ parent = text "/" then fs.createWith path data
  else match fs.makeDirectories parent with
    | (.error e, fs) => (.error e, fs)
    | (.ok (), fs) => fs.createWith path data

end MemoryFiles

end OnePass
