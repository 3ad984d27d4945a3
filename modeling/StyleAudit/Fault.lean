import StyleAudit.Configuration.Error
import StyleAudit.Json.Access
import StyleAudit.Json.Printer
import StyleAudit.Path
import StyleAudit.Style.Limit

/-!
# Faults

What can stop a run.
-/

namespace StyleAudit

/-- Why a file cannot be opened. -/
inductive FileCause where
  | notFound
  | notDirectory
  | isDirectory
deriving DecidableEq, Repr

structure FileError where
  cause : FileCause
  path : String
deriving DecidableEq, Repr

def FileCause.text : FileCause → String
  | .notFound => "[Errno 2] No such file or directory"
  | .notDirectory => "[Errno 20] Not a directory"
  | .isDirectory => "[Errno 21] Is a directory"

def FileError.message (e : FileError) : String :=
  e.cause.text ++ ": " ++ Text.quoted e.path

inductive Fault where
  | misuse (m : Json.Misuse)
  | json (e : Json.ReadError)
  | printing (e : Json.PrintError)
  | configuration (e : Configuration.Error)
  | file (e : FileError)
  | path (e : Path.Error)

namespace Fault

def message : Fault → String
  | .misuse m => m.message
  | .json e => e.message
  | .printing e => e.message
  | .configuration e => e.message
  | .file e => e.message
  | .path e => e.message

def ofLimit : Style.LimitFault → Fault
  | .misuse m => .misuse m
  | .configuration e => .configuration e

end Fault

end StyleAudit
