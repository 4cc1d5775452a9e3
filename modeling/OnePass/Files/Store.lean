import OnePass.Files.Memory
set_option autoImplicit false

/-!
# File stores

The file access that compiling needs: reading and writing whole files, and a look whether
something is there.  Compiling is written over any monad that offers it, so that it runs on files
in memory as well as on the files of a host.
-/

namespace OnePass

/-- Reading and writing whole files. -/
class FileStore (m : Type → Type) where
  /-- the contents of a file -/
  readAll : Bytes → m (Except FileFault Bytes)
  /-- writes a whole file, and makes the directories that it is in -/
  writeAll : Bytes → Bytes → m (Except FileFault Unit)
  /-- follows a path to whatever it leads to, and gives the reason if it leads nowhere -/
  reach : Bytes → m (Except FileReason Unit)

instance : FileStore (StateM MemoryFiles) where
  readAll path fs := (fs.readAll path, fs)
  writeAll path data fs := fs.writeAll path data
  reach path fs :=
    (if (fs.find? (MemoryFiles.keyOf path)).isSome then .ok () else .error .missing, fs)

end OnePass
