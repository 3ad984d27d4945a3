import StyleAudit.Disk.Basic
import StyleAudit.Logged
import StyleAudit.Style.Limit
import StyleAudit.Style.Palette

/-!
# Rules about declarations

The palette and the limits are checked file by file. A file that cannot be read is reported and
skipped.
-/

namespace StyleAudit.Audit

open StyleAudit.Style (Declaration Palette)

/-- The declarations of a file, or what is wrong with it. -/
def declarationsOfFile (d : Disk) (path : String) : Except String (List Declaration) :=
  match d.read path with
  | .ok text => (Style.declarations (.ofPath path) text).mapError (·.message)
  | .error e => .error e.message

/-- The violations of a file under a check of declarations. -/
def checkFile (d : Disk) (root : String)
    (check : (file : String) → List Declaration → Except Fault (List Violation)) (path : String) :
    Logged (List Violation) :=
  let file := Path.relative d.cwd path root
  match declarationsOfFile d path with
  | .ok ds => .lift (check file ds)
  | .error reason => do
    Logged.tell [.styleUnreadable file reason]
    return []

/-- The violations of files under a check of declarations. -/
def checkFiles (d : Disk) (root : String)
    (check : (file : String) → List Declaration → Except Fault (List Violation)) :
    List String → Logged (List Violation)
  | [] => pure []
  | path :: paths => do
    let vs ← checkFile d root check path
    return vs ++ (← checkFiles d root check paths)

/-- The rule about colours. Without a list of allowed colours it demands nothing. -/
def checkColors (d : Disk) (root : String) (files : List String) (rule : Option Json) :
    Logged (List Violation) :=
  match rule.bind (Json.find? "allowedColors") with
  | some (.array (c :: cs)) =>
    checkFiles d root (fun file ds =>
      match Palette.ofJson (.array (c :: cs)) with
      | .ok palette => .ok (palette.check file ds)
      | .error m => .error (.misuse m)) files
  | _ => pure []

/-- The rule about limits. Without limits it demands nothing. -/
def checkLimits (d : Disk) (root : String) (files : List String) (rule : Option Json) :
    Logged (List Violation) :=
  match rule with
  | some (.object (e :: es)) => do
    let limits ← Logged.lift ((Style.validLimits (e :: es)).mapError Fault.ofLimit)
    checkFiles d root (fun file ds => .ok (Style.checkLimits limits file ds)) files
  | _ => pure []

end StyleAudit.Audit
