import StyleAudit.Disk.Entry
import StyleAudit.Fault
import StyleAudit.Path
import StyleAudit.Text.Utf8

/-!
# Disks

A disk is a directory tree with a working directory. Paths are followed component by component, so
that `..` leads to the directory above the one reached, and nothing lies below a file.
-/

namespace StyleAudit

structure Disk where
  tree : Disk.Entry
  cwd : String

namespace Disk

/-- Follows the components of a path from the entry `here`, which lies below the entries `above`. -/
def follow (above : List Entry) (here : Entry) : List String → Except FileCause Entry
  | [] => .ok here
  | part :: parts =>
    match here with
    | .file _ => .error .notDirectory
    | .directory es =>
      if part.isEmpty || part == "." then follow above here parts
      else if part == ".." then
        match above with
        | [] => follow [] here parts
        | up :: more => follow more up parts
      else
        match Table.find? es part with
        | some next => follow (here :: above) next parts
        | none => .error .notFound

/-- The entry at a path, or why there is none. -/
def locate (d : Disk) (path : String) : Except FileCause Entry :=
  follow [] d.tree (Path.components (Path.join d.cwd path))

def isFile (d : Disk) (path : String) : Bool :=
  match d.locate path with
  | .ok e => e.isFile
  | .error _ => false

def hasEntry (d : Disk) (path : String) : Bool :=
  (d.locate path).isOk

/-- The text of a file. -/
def read (d : Disk) (path : String) : Except FileError String :=
  match d.locate path with
  | .ok (.file bytes) => .ok (Text.ofBytes bytes)
  | .ok (.directory _) => .error ⟨.isDirectory, path⟩
  | .error cause => .error ⟨cause, path⟩

/-- The names on the way to a path. -/
def place (d : Disk) (path : String) : List String :=
  (Path.components (Path.real d.cwd path)).filter (! ·.isEmpty)

/-- The disk with an entry put at a path. Directories on the way are made. -/
def put (d : Disk) (path : String) (e : Entry) : Disk :=
  { d with tree := Entry.put e (d.place path) d.tree }

/-- The disk without the entry at a path. -/
def remove (d : Disk) (path : String) : Disk :=
  { d with tree := d.tree.remove (d.place path) }

/-- Why a file cannot be written at a path, if it cannot. The directory has to exist. -/
def writeError? (d : Disk) (path : String) : Option FileError :=
  match d.locate (Path.directory path), d.locate path with
  | .error cause, _ => some ⟨cause, path⟩
  | .ok (.file _), _ => some ⟨.notDirectory, path⟩
  | .ok (.directory _), .ok (.directory _) => some ⟨.isDirectory, path⟩
  | .ok (.directory _), _ => none

end Disk

end StyleAudit
