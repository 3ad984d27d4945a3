import StyleAudit.Audit.Options
import StyleAudit.Markup.Usage
import StyleAudit.Style.Sheet
import StyleAudit.Violation

/-!
# Contexts

A context holds the sheets of a project and all that its markup says about them. From it follows
which classes are used, and so the violations.
-/

namespace StyleAudit.Audit

open StyleAudit.Style (Sheet)
open StyleAudit.Markup (Usage MarkupUse)

/-- An identifier at its first dot, if it has one: a class and the class nested under it. -/
def splitIdentifier? (identifier : String) : Option (String × String) :=
  (Text.splitAtMark? ['.'] identifier.toList).map fun (p, c) => (String.ofList p, String.ofList c)

/-- Whether a class that a sheet defines is used. A nested class is used if its parent is reached by
a computed name, or if both names are asked for. Any other class is used if it is asked for, if it
stands in a plain string, or if it is nested under a class that is reached by a computed name. -/
def isUsed (identifier : String) (sheet : Sheet) (usage : Usage) (literals : List String)
    (ignoreDynamic : Bool) : Bool :=
  let parents := if ignoreDynamic then usage.dynamicParents else []
  match splitIdentifier? identifier with
  | some (parent, child) =>
    parents.contains parent || usage.static.contains parent && usage.static.contains child
  | none =>
    usage.static.contains identifier || literals.contains identifier ||
      parents.any fun p => (sheet.children p).contains identifier

structure Context where
  root : String
  sheets : Table Sheet := []
  usages : Table Usage := []
  literals : List String := []
  /-- The files that could not be read, in the order in which they were met. -/
  failures : List String := []
deriving DecidableEq, Repr

namespace Context

/-- Adds what one markup file contributes. -/
def addUse (c : Context) (u : MarkupUse) : Context :=
  { c with
    usages := u.usages.foldl (fun t (path, usage) => t.alter path {} (·.merge usage)) c.usages
    literals := addNames c.literals u.literals }

/-- What the markup says about the sheet at a path. -/
def usageFor (c : Context) (path : String) : Usage :=
  (c.usages.find? path).getD {}

/-- The violation of a class. -/
def violation (file identifier : String) (line : Int) : Violation where
  rule := Violation.unusedClasses
  file := file
  line := line
  message := "Unused class: " ++ identifier
  className := some identifier

/-- The violations of the sheet at a path, in the order of its definitions. -/
def unusedIn (c : Context) (cwd : String) (o : Options) (path : String) (sheet : Sheet) :
    List Violation :=
  let usage := c.usageFor path
  (sheet.definitions.filter fun (identifier, _) =>
      !isUsed identifier sheet usage c.literals o.ignoreDynamic).map
    fun (identifier, line) => violation (Path.relative cwd path c.root) identifier line

/-- The violations of all sheets, in their order. -/
def reconcile (c : Context) (cwd : String) (o : Options) : List Violation :=
  c.sheets.flatMap fun (path, sheet) => c.unusedIn cwd o path sheet

/-- The violations of all sheets, unless there is a sheet at an empty path: its file has no name. -/
def report (c : Context) (cwd : String) (o : Options) : Except Path.Error (List Violation) :=
  if c.sheets.keys.contains "" then .error .empty else .ok (c.reconcile cwd o)

end Context

end StyleAudit.Audit
