import StyleAudit.Json.Parser

/-!
# Configuration errors

Everything that can be wrong with a configuration, and how it is reported.
-/

namespace StyleAudit.Configuration

/-- Why a configuration file has no value. -/
inductive Unreadable where
  | file (reason : String)
  | json (e : Json.ReadError)
deriving DecidableEq, Repr

inductive Error where
  | unreadable (why : Unreadable)
  | noObject
  | rulesNoObject
  /-- The rule about unused classes is neither a switch nor an object. -/
  | unusedShape
  /-- A list of names of the rule about unused classes is none. -/
  | namesShape (key : String)
  /-- A limit is no object with a threshold. -/
  | limitShape (property : CodeText)
  | thresholdNoNumber (property : CodeText) (threshold : Json)
  | unknownOperator (property : CodeText) (operator : Json)

/-- How a limit is named in messages. -/
def limitName (property : CodeText) : String :=
  "'numeric-property-limits." ++ property.shown ++ "'"

def Unreadable.message : Unreadable → String
  | .file reason => reason
  | .json e => e.message

def Error.message : Error → String
  | .unreadable why => "Error loading config file: " ++ why.message
  | .noObject => "Error loading config file: top level must be an object"
  | .rulesNoObject => "Error loading config file: 'rules' must be an object"
  | .unusedShape => "'no-unused-classes' must be a boolean or an object"
  | .namesShape key => "'no-unused-classes." ++ key ++ "' must be a list of names"
  | .limitShape property => limitName property ++ " must be an object with a 'threshold'"
  | .thresholdNoNumber property threshold =>
    limitName property ++ " threshold must be a number, got " ++ threshold.display
  | .unknownOperator property operator =>
    limitName property ++ " has unknown operator " ++ operator.display

end StyleAudit.Configuration
