import OnePass.Text.Bytes
set_option autoImplicit false

/-!
# Faults of file access

Why a file operation is refused.  A fault that belongs to a path names the operation and shows the
path as it was given.
-/

namespace OnePass

/-- The file operations that can be refused for a path. -/
inductive FileOperation where
  | open
  | create
  | mkdir
  | remove
  | stat
  | read
  deriving DecidableEq, Repr, Inhabited

/-- The name of an operation. -/
def FileOperation.name : FileOperation → Bytes
  | .open => text "open"
  | .create => text "create"
  | .mkdir => text "mkdir"
  | .remove => text "remove"
  | .stat => text "stat"
  | .read => text "read"

/-- Why an operation is refused for a path. -/
inductive FileReason where
  /-- there is no such file -/
  | missing
  /-- there is something else of that name -/
  | occupied
  /-- a host's file tree has nothing of that name -/
  | noEntry
  /-- a part of the path is a file -/
  | notDirectory
  /-- the path is a directory -/
  | isDirectory
  /-- the path or a part of it is longer than a host allows -/
  | tooLong
  /-- the path cannot be put to a host -/
  | unusable
  /-- the host gives another reason -/
  | host (words : Bytes)
  deriving DecidableEq, Repr, Inhabited

/-- The wording of a reason. -/
def FileReason.message : FileReason → Bytes
  | .missing => text "file does not exist"
  | .occupied => text "file already exists"
  | .noEntry => text "no such file or directory"
  | .notDirectory => text "not a directory"
  | .isDirectory => text "is a directory"
  | .tooLong => text "file name too long"
  | .unusable => text "invalid argument"
  | .host words => words

/-- Why a file operation is refused. -/
inductive FileFault where
  /-- an operation is refused for a path -/
  | path (operation : FileOperation) (path : Bytes) (reason : FileReason)
  /-- a handle is used in a way that it was not opened for -/
  | permission
  /-- there is nothing left to read -/
  | endOfFile
  deriving DecidableEq, Repr, Inhabited

namespace FileFault

/-- The wording of a fault. -/
def message : FileFault → Bytes
  | .path operation name reason =>
    operation.name ++ text " " ++ name ++ text ": " ++ reason.message
  | .permission => text "permission denied"
  | .endOfFile => text "EOF"

/-- Whether the fault is that there is no such file. -/
def isAbsence : FileFault → Bool
  | .path _ _ .missing | .path _ _ .noEntry => true
  | _ => false

end FileFault

end OnePass
