import StyleAudit.Audit.Options
import StyleAudit.Disk.Basic
import StyleAudit.Json.Commented
import StyleAudit.Logged
import StyleAudit.Style.Limit

/-!
# Configurations

A configuration has an entry for each rule. It is validated as a whole before any rule runs.
-/

namespace StyleAudit

structure Configuration where
  rules : Json.Entries

namespace Configuration

open StyleAudit.Audit (Options)

/-- The name of a configuration file. -/
def fileName : String := ".stylesentryrc.json"

/-! ### The rules -/

/-- The configuration of a value that lists rules. -/
def ofJson (rules : Json) : Except Fault Configuration :=
  match rules with
  | .object es => .ok ⟨es⟩
  | v => .error (.misuse (.lacks v.kind "get"))

def rule? (c : Configuration) (name : String) : Option Json :=
  c.rules.find? name

def colorRule? (c : Configuration) : Option Json :=
  c.rule? Violation.paletteColors

def limitRule? (c : Configuration) : Option Json :=
  c.rule? Violation.numericLimits

/-- A text value. -/
def text? : Json → Option CodeText
  | .string s => some s
  | _ => none

/-- The names that a rule lists under a key, or the usual ones. A text that is no string names
nothing. -/
def names (rule : Json.Entries) (key : String) (usual : List String) :
    Except Error (List String) :=
  match rule.find? key with
  | none => .ok usual
  | some .null => .ok usual
  | some (.array es) =>
    match es.mapM text? with
    | some ns => .ok (addNames [] (ns.filterMap CodeText.toString?))
    | none => .error (.namesShape key)
  | some _ => .error (.namesShape key)

/-- A switch of a rule, which is on unless it says otherwise. -/
def switch (rule : Json.Entries) (key : String) : Bool :=
  match rule.find? key with
  | some v => v.isSet
  | none => true

/-- The options of the rule about unused classes. A rule that is not listed is switched off. -/
def options (c : Configuration) : Except Error Options :=
  match c.rule? Violation.unusedClasses with
  | none => .ok { enabled := false }
  | some .null => .ok { enabled := false }
  | some (.bool b) => .ok { enabled := b }
  | some (.object rule) => do
    let helpers ← names rule "classHelpers" Markup.defaultHelpers
    let attributes ← names rule "classAttributes" Markup.defaultAttributes
    return { enabled := switch rule "enabled"
             ignoreDynamic := switch rule "ignoreDynamicClasses"
             helpers, attributes }
  | some _ => .error .unusedShape

/-- Checks all rules. -/
def validate (c : Configuration) : Except Fault Unit := do
  let _ ← c.options.mapError Fault.configuration
  match c.limitRule? with
  | some (.object es) =>
    let _ ← (Style.validLimits es).mapError Fault.ofLimit
    return
  | _ => return

/-! ### Files -/

/-- The value of the text of a configuration file. A text that is nested too deep is no configuration
error. -/
def readJson (text : String) (nesting : Nat) : Except Fault Json :=
  match Json.parseCommentedWithin nesting text with
  | .ok v => .ok v
  | .error (.tooDeep b) => .error (.json (.tooDeep b))
  | .error e => .error (.configuration (.unreadable (.json e)))

/-- The configuration in the text of a file, if it states rules. -/
def ofText? (text : String) (nesting : Nat := Json.nestingLimit) :
    Except Fault (Option Configuration) := do
  match ← readJson text nesting with
  | .object es =>
    match Table.find? es "rules" with
    | none => return none
    | some rules =>
      if rules.isSet then
        match rules with
        | .object rs =>
          let c : Configuration := ⟨rs⟩
          c.validate
          return some c
        | _ => .error (.configuration .rulesNoObject)
      else return none
  | _ => .error (.configuration .noObject)

/-- Where the configuration of a project is looked for. An empty path means the usual place. -/
def place (root : String) (path : Option String) : String :=
  let path := match path with
    | some p => if p.isEmpty then fileName else p
    | none => fileName
  Path.tidy (Path.join root path)

/-- The configuration of a project, if it has one. -/
def load (d : Disk) (root : String) (path : Option String) (nesting : Nat := Json.nestingLimit) :
    Logged (Option Configuration) :=
  let path := place root path
  if d.isFile path then
    match d.read path with
    | .ok text => .lift (ofText? text nesting)
    | .error e => .lift (.error (.configuration (.unreadable (.file e.message))))
  else do
    Logged.tell [.noConfiguration path]
    return none

/-! ### The first configuration -/

/-- The lines of a new configuration file. -/
def newLines : List String :=
  [ "\x7b"
  , "  \"rules\": \x7b"
  , "    // Finds CSS classes that are defined but not used in your JSX/TSX files."
  , "    // Set \"enabled\" to false to disable. \"ignoreDynamicClasses\" keeps classes"
  , "    // reachable through styles[variable] from being reported."
  , "    \"no-unused-classes\": \x7b"
  , "      \"enabled\": true,"
  , "      \"ignoreDynamicClasses\": true"
  , "    \x7d,"
  , ""
  , "    // Checks that colors come from your design system's palette."
  , "    // Add your colors to \"allowedColors\" to enable."
  , "    \"design-system-colors\": \x7b"
  , "      \"allowedColors\": []"
  , "    \x7d,"
  , ""
  , "    // Checks limits on numeric CSS properties, e.g."
  , "    // \"z-index\": \x7b\"threshold\": 100, \"operator\": \">=\"\x7d"
  , "    \"numeric-property-limits\": \x7b\x7d"
  , "  \x7d"
  , "\x7d" ]

/-- The text of a new configuration file. -/
def newText : String :=
  String.join (newLines.map (· ++ "\n"))

/-- The path of the new configuration file of a project, unless there is something in its place. -/
def newPath? (d : Disk) (root : String) : Except FileError (Option String) :=
  let path := Path.tidy (Path.join root fileName)
  if d.hasEntry path then .ok none
  else match d.writeError? path with
    | some e => .error e
    | none => .ok (some path)

end Configuration

end StyleAudit
