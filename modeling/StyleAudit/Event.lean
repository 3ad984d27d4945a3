/-!
# Events

What a run tells about itself beside its result. An event has a level, and a reader who asks for a
level sees the events of that level and above.
-/

namespace StyleAudit

inductive Level where
  | debug
  | info
  | warning
  | error
deriving DecidableEq, Repr

namespace Level

def name : Level → String
  | .debug => "DEBUG"
  | .info => "INFO"
  | .warning => "WARNING"
  | .error => "ERROR"

def rank : Level → Nat
  | .debug => 0
  | .info => 1
  | .warning => 2
  | .error => 3

end Level

inductive Event where
  | noConfiguration (path : String)
  | classesExtracted (count : Nat) (path : String)
  | unresolvedImport (source path : String)
  | aliasesLoaded (count : Nat) (origin : String)
  | filesScanned (styles markups : Nat)
  | aliasFileUnreadable (path reason : String)
  | markupUnreadable (path reason : String)
  | styleUnreadable (path reason : String)
deriving DecidableEq, Repr

namespace Event

def level : Event → Level
  | .noConfiguration _ => .debug
  | .classesExtracted _ _ => .debug
  | .unresolvedImport _ _ => .debug
  | .aliasesLoaded _ _ => .debug
  | .filesScanned _ _ => .info
  | .aliasFileUnreadable _ _ => .warning
  | .markupUnreadable _ _ => .warning
  | .styleUnreadable _ _ => .error

def message : Event → String
  | .noConfiguration path => "No configuration file at " ++ path
  | .classesExtracted count path => "Extracted " ++ toString count ++ " classes from " ++ path
  | .unresolvedImport source path => "Unresolved style import '" ++ source ++ "' in " ++ path
  | .aliasesLoaded count origin => "Using " ++ toString count ++ " path aliases from " ++ origin
  | .filesScanned styles markups =>
    "Scanned " ++ toString styles ++ " style files and " ++ toString markups ++ " markup files"
  | .aliasFileUnreadable path reason => "Could not read alias config " ++ path ++ ": " ++ reason
  | .markupUnreadable path reason =>
    "Could not parse " ++ path ++ ". It may contain syntax errors. Error: " ++ reason
  | .styleUnreadable path reason => "Error parsing " ++ path ++ ": " ++ reason

/-- The event as a line of the log. -/
def logLine (e : Event) : String :=
  e.level.name ++ ": " ++ e.message ++ "\n"

end Event

/-- The log of a run for a reader who asks for a level. -/
def logText (least : Level) (events : List Event) : String :=
  String.join ((events.filter (least.rank ≤ ·.level.rank)).map Event.logLine)

end StyleAudit
