import OnePass.Files.Store
set_option autoImplicit false

/-!
# The files of a host

A tree of files and directories under a root, seen from a working directory.  A path is followed
component by component: each component but the first needs a directory in front of it, `..` leads
to the directory around, and a path that does not start at the root starts in the working
directory.  A host takes a path up to the zero byte that ends it, so a path with a zero byte of its
own cannot be put to a host, and there is a limit to the length of a path and of a component.
-/

namespace OnePass

/-- Something in a host's tree. -/
inductive HostNode where
  | file (data : Bytes)
  | directory
  deriving DecidableEq, Repr, Inhabited

/-- A host's tree: what is under the root, by the components that lead there. -/
structure HostFiles where
  nodes : Std.ExtTreeMap (List Bytes) HostNode compare := ∅
  /-- the components that lead to the working directory -/
  working : List Bytes

namespace HostFiles

/-- The beginnings of a list of components, from the first component on. -/
def beginnings (components : List Bytes) : List (List Bytes) :=
  (List.range components.length).map fun n => components.take (n + 1)

/-- The tree with nothing in it but the working directory. -/
def empty (working : List Bytes) : HostFiles where
  nodes := (beginnings working).foldl (fun m key => m.insert key .directory) ∅
  working := working

/-- What is at a place; the root is a directory. -/
def nodeAt? (fs : HostFiles) (key : List Bytes) : Option HostNode :=
  if key = [] then some .directory else fs.nodes[key]?

/-- The longest name that a component may have. -/
def nameLimit : Nat := 255

/-- The longest path. -/
def pathLimit : Nat := 4095

/-- Follows one component from a place. -/
def follow (fs : HostFiles) (here : List Bytes) (component : Bytes) : Except FileReason (List Bytes) :=
  match fs.nodeAt? here with
  | none => .error .noEntry
  | some (.file _) => .error .notDirectory
  | some .directory =>
    if component = [] ∨ component = text "." then .ok here
    else if component = text ".." then .ok here.dropLast
    else if component.length > nameLimit then .error .tooLong
    else
      let there := here ++ [component]
      if (fs.nodeAt? there).isSome then .ok there else .error .noEntry

/-- The place where a path starts. -/
def origin (fs : HostFiles) (path : Bytes) : List Bytes :=
  if path.head? = some Ascii.slash then [] else fs.working

/-- Whether a host takes a path at all, wherever it leads. -/
def check (path : Bytes) : Except FileReason Unit :=
  if path.contains 0 then .error .unusable
  else if path.length > pathLimit then .error .tooLong
  else .ok ()

/-- The place that a path leads to. -/
def locate (fs : HostFiles) (path : Bytes) : Except FileReason (List Bytes) := do
  check path
  if path = [] then throw .noEntry
  (List.splitOn Ascii.slash path).foldlM fs.follow (fs.origin path)

/-- The place for something new that a path names, if the path leads nowhere yet: everything before
its last component has to exist. -/
def place (fs : HostFiles) (path : Bytes) : Except FileReason (List Bytes) := do
  let components := List.splitOn Ascii.slash path
  let parent ← components.dropLast.foldlM fs.follow (fs.origin path)
  return parent ++ [components.getLastD []]

/-- Puts something at a place. -/
def put (fs : HostFiles) (key : List Bytes) (node : HostNode) : HostFiles :=
  { fs with nodes := fs.nodes.insert key node }

/-! ## Whole files -/

/-- The contents of a file.  A directory can be opened but not read. -/
def readAll (fs : HostFiles) (path : Bytes) : Except FileFault Bytes :=
  match fs.locate path with
  | .error reason => .error (.path .open path reason)
  | .ok key => match fs.nodeAt? key with
    | some (.file data) => .ok data
    | some .directory => .error (.path .read path .isDirectory)
    | none => .error (.path .open path .noEntry)

/-- Goes into a directory in a directory, and makes it if it is not there. -/
def enter (fs : HostFiles) (here : List Bytes) (component : Bytes) :
    Except FileReason (List Bytes × HostFiles) :=
  match fs.follow here component with
  | .ok there => match fs.nodeAt? there with
    | some (.file _) => .error .notDirectory
    | _ => .ok (there, fs)
  | .error .noEntry =>
    let there := here ++ [component]
    .ok (there, fs.put there .directory)
  | .error reason => .error reason

/-- Makes directories one inside the other, as long as that is possible.  The path `before` leads to
the first of them, and the path up to the one that cannot be made is at fault. -/
def makeEach : List Bytes → Bytes → List Bytes → HostFiles → Except FileFault Unit × HostFiles
  | [], _, _, fs => (.ok (), fs)
  | component :: rest, before, here, fs =>
    let path := before ++ component
    match check path with
    | .error reason => (.error (.path .mkdir path reason), fs)
    | .ok () => match fs.enter here component with
      | .error reason => (.error (.path .mkdir path reason), fs)
      | .ok (there, fs) => makeEach rest (path ++ text "/") there fs

/-- Makes a directory and those it is in. -/
def makeDirectories (fs : HostFiles) (path : Bytes) : Except FileFault Unit × HostFiles :=
  makeEach (List.splitOn Ascii.slash path) [] (fs.origin path) fs

/-- Puts contents in place of those of a file, or makes a new file. -/
def replace (fs : HostFiles) (path data : Bytes) : Except FileFault HostFiles :=
  let refuse (reason : FileReason) : Except FileFault HostFiles := .error (.path .open path reason)
  match fs.locate path with
  | .ok key => match fs.nodeAt? key with
    | some .directory => refuse .isDirectory
    | _ => .ok (fs.put key (.file data))
  | .error .noEntry => match fs.place path with
    | .ok key => .ok (fs.put key (.file data))
    | .error reason => refuse reason
  | .error reason => refuse reason

/-- Writes a whole file, and makes the directories that it is in. -/
def writeAll (fs : HostFiles) (path data : Bytes) : Except FileFault Unit × HostFiles :=
  let parent := Path.dir path
  let (made, fs) :=
    if parent = text "." ∨ parent = text "/" then (.ok (), fs) else fs.makeDirectories parent
  match made with
  | .error e => (.error e, fs)
  | .ok () => match fs.replace path data with
    | .ok fs => (.ok (), fs)
    | .error e => (.error e, fs)

/-- The files under the working directory by their paths from there. -/
def listing (fs : HostFiles) : List (Bytes × Bytes) :=
  fs.nodes.toList.filterMap fun (key, node) =>
    match node with
    | .file data =>
      if fs.working.isPrefixOf key then
        some (Bytes.join (text "/") (key.drop fs.working.length), data)
      else none
    | .directory => none

end HostFiles

instance : FileStore (StateM HostFiles) where
  readAll path fs := (fs.readAll path, fs)
  writeAll path data fs := fs.writeAll path data
  reach path fs := ((fs.locate path).map fun _ => (), fs)

end OnePass
