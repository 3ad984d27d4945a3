import StyleAudit.Json.Printer
import StyleAudit.Violation

/-!
# Reports

A report shows violations to a reader, or to another program as JSON. The text groups unused classes
by file, and lists violations of the other rules after them.
-/

namespace StyleAudit.Report

/-- The violations by rule, unused classes also by file. -/
structure Summary where
  unused : Table (List Violation)
  colors : List Violation
  limits : List Violation
deriving DecidableEq, Repr

/-- The violations of a rule, in order. -/
def ofRule (rule : String) (vs : List Violation) : List Violation :=
  vs.filter (·.rule == rule)

/-- The violations by file, files in the order of their first violation. -/
def byFile (vs : List Violation) : Table (List Violation) :=
  vs.foldl (fun t v => t.alter v.file [] (· ++ [v])) []

def summary (vs : List Violation) : Summary where
  unused := byFile (ofRule Violation.unusedClasses vs)
  colors := ofRule Violation.paletteColors vs
  limits := ofRule Violation.numericLimits vs

/-- The violations of a summary, in the order of the report. -/
def Summary.listed (s : Summary) : List Violation :=
  s.unused.flatMap Prod.snd ++ s.colors ++ s.limits

/-! ### Text -/

/-- A line about a class, below the name of its file. -/
def classLine (v : Violation) : String :=
  "- " ++ v.message ++ " (line " ++ toString v.line ++ ")\n"

/-- A line about a place in a file. -/
def placeLine (v : Violation) : String :=
  "- " ++ v.file ++ ":" ++ toString v.line ++ " - " ++ v.message ++ "\n"

/-- A section with a heading; a section without lines is left out. -/
def textSection (heading : String) (lines : List String) : String :=
  if lines.isEmpty then "" else "\n" ++ heading ++ "\n" ++ String.join lines

/-- The lines about the classes of a file. -/
def fileLines (group : String × List Violation) : String :=
  group.1 ++ "\n" ++ String.join (group.2.map classLine)

def rulerLine : String := "============================\n"

def Summary.layout (s : Summary) : String :=
  "Style Sentry Linting Report\n" ++ rulerLine ++
    textSection "Unused CSS classes found:" (s.unused.map fileLines) ++
    textSection "Design system color violations found:" (s.colors.map placeLine) ++
    textSection "Numeric property limit violations found:" (s.limits.map placeLine) ++
    "\n" ++ rulerLine ++ "Linting complete.\n"

/-- The report for a reader with lines of any length. -/
def layout (vs : List Violation) : String :=
  if vs.isEmpty then "No linting issues found. Your styles are looking great!\n"
  else (summary vs).layout

/-- The report for a reader. -/
def text (vs : List Violation) : Except Json.PrintError String :=
  if (summary vs).listed.all (Json.fitsLimit ·.line) then .ok (layout vs)
  else .error .tooManyDigits

/-! ### JSON -/

/-- The report for another program. -/
def json (vs : List (Violation CodeText)) : Except Json.PrintError String :=
  (Json.array (vs.map Violation.toJson)).text

/-! ### Without configuration -/

def noConfiguration : String :=
  "No configuration found. Run \"style-sentry init\" to create a config file."

/-- The report of a project without configuration. -/
def missing (asJson : Bool) : String :=
  if asJson then (Json.object [("error", .string noConfiguration)]).layout else noConfiguration

end StyleAudit.Report
