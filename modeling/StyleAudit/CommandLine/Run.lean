import StyleAudit.Audit.Rules
import StyleAudit.CommandLine.Arguments
import StyleAudit.CommandLine.Help
import StyleAudit.Report

/-!
# Runs of the program

A run takes a disk and arguments and says what is printed, what is written and how it ends. It
changes nothing by itself.
-/

namespace StyleAudit.CommandLine

structure Outcome where
  stdout : String := ""
  stderr : String := ""
  /-- The files that are to be written, with their texts. -/
  written : List (String × String) := []
  /-- The exit code, or the fault that ended the run. -/
  result : Except Fault Nat := .ok 0

/-- Makes a configuration file in a project that has none. -/
def initialise (d : Disk) (root : String) : Outcome :=
  match Configuration.newPath? d root with
  | .error e => { result := .error (.file e) }
  | .ok none => { stdout := Configuration.fileName ++ " already exists.\n" }
  | .ok (some path) =>
    { stdout := "Successfully created " ++ Path.name path ++ "\n"
      written := [(path, Configuration.newText)] }

/-- The report about a project. -/
def reportText (d : Disk) (root : String) (a : Arguments) (nesting : Nat := Json.nestingLimit) :
    Logged String := do
  match ← Configuration.load d root a.config nesting with
  | none => return Report.missing a.json ++ "\n"
  | some c =>
    let vs ← Audit.violations d root c
    let text := if a.json then (Report.json (vs.map Violation.coded)).map (· ++ "\n")
      else Report.text vs
    Logged.lift (text.mapError Fault.printing)

/-- Checks a project. Whatever is wrong with the configuration is an ordinary end with code 1. -/
def lint (d : Disk) (root : String) (a : Arguments) (nesting : Nat := Json.nestingLimit) :
    Outcome :=
  let report := reportText d root a nesting
  let log := logText (if a.verbose then .debug else .warning) report.events
  match report.result with
  | .ok text => { stdout := text, stderr := log }
  | .error (.configuration e) => { stderr := log ++ e.message ++ "\n", result := .ok 1 }
  | .error e => { stderr := log, result := .error e }

/-- A whole run, in which at most `nesting` brackets of the configuration may be open at a time. -/
def run (d : Disk) (words : List String) (nesting : Nat := Json.nestingLimit) : Outcome :=
  match Arguments.read words with
  | .error .help => { stdout := helpText }
  | .error (.error e) => { stderr := usageErrorText e.message, result := .ok 2 }
  | .ok a =>
    let root := Path.real d.cwd a.root
    if a.init then initialise d root else lint d root a nesting

end StyleAudit.CommandLine
