import StyleAudit.CommandLine.Run
import StyleAudit.Disk.Discovery

/-!
# The program

Reads the part of the disk that a run can look at, runs, and then prints and writes what the run
says.
-/

namespace StyleAudit.CommandLine

open StyleAudit.Disk (Entry)

/-- Whether a run can look into a file with this path. -/
def isRead (path : String) : Bool :=
  (Disk.Category.ofPath? path).isSome || Path.name path == Configuration.fileName ||
    Alias.candidates.any fun c => Path.name c.file == Path.name path

/-- The tree at a path. Directories that are not entered are left out, and files that are not looked
into are empty. -/
partial def readTree (path : String) : IO Entry := do
  let place ← IO.FS.realPath path
  if ← place.isDir then
    let mut entries := #[]
    for e in ← place.readDir do
      let below := Path.join path e.fileName
      if !(← e.path.isDir) || Disk.isEntered e.fileName then
        entries := entries.push (e.fileName, ← readTree below)
    return .directory entries.toList
  else if isRead path then
    return .file (← IO.FS.readBinFile path).data.toList
  else
    return .file []

/-- The disk with the entry at a path as it is on the machine, if there is one. -/
def mount (d : Disk) (path : String) (read : String → IO Entry) : IO Disk := do
  let path := Path.real d.cwd path
  match ← (IO.FS.realPath path).toBaseIO with
  | .ok _ => return d.put path (← read path)
  | .error _ => return d

/-- A configuration file of any name. -/
def readConfiguration (path : String) : IO Entry := do
  let place ← IO.FS.realPath path
  if ← place.isDir then return .directory []
  else return .file (← IO.FS.readBinFile path).data.toList

/-- What a run with these arguments can see. -/
def visibleDisk (words : List String) : IO Disk := do
  let d : Disk := ⟨.directory [], (← IO.currentDir).toString⟩
  match Arguments.read words with
  | .error _ => return d
  | .ok a =>
    let root := Path.real d.cwd a.root
    let d ← mount d root readTree
    mount d (Configuration.place root a.config) readConfiguration

end StyleAudit.CommandLine

open StyleAudit.CommandLine in
def main (words : List String) : IO UInt32 := do
  let outcome := run (← visibleDisk words) words
  for (path, text) in outcome.written do
    IO.FS.writeFile path text
  (← IO.getStdout).putStr outcome.stdout
  (← IO.getStderr).putStr outcome.stderr
  match outcome.result with
  | .ok code => return code.toUInt32
  | .error fault =>
    (← IO.getStderr).putStrLn fault.message
    return 1
