/-!
# Help

What the command line says about its own use.
-/

namespace StyleAudit.CommandLine

def programName : String := "style-sentry"

def usageLine : String :=
  "usage: " ++ programName ++ " [-h] [-c CONFIG] [--json] [--root ROOT] [-v] [\x7binit\x7d]\n"

def helpLines : List String :=
  [ ""
  , "A custom CSS linter for your team."
  , ""
  , "positional arguments:"
  , "  \x7binit\x7d                init: create a default .stylesentryrc.json"
  , ""
  , "options:"
  , "  -h, --help            show this help message and exit"
  , "  -c CONFIG, --config CONFIG"
  , "                        Path to custom config file"
  , "  --json                Output results in JSON format"
  , "  --root ROOT           Project root to lint (default: current directory)"
  , "  -v, --verbose         Enable debug logging" ]

def helpText : String :=
  usageLine ++ String.join (helpLines.map (· ++ "\n"))

/-- What is said about a wrong use. -/
def usageErrorText (message : String) : String :=
  usageLine ++ programName ++ ": error: " ++ message ++ "\n"

end StyleAudit.CommandLine
