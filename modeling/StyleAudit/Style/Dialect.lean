import StyleAudit.Path
import StyleAudit.Style.Comment
import StyleAudit.Style.Forest
import StyleAudit.Text.Case

/-!
# Style dialects

A dialect decides whether line comments are removed and whether a rule may be a mixin with
parameters. It is named by the suffix of the file.
-/

namespace StyleAudit.Style

open StyleAudit.Text

inductive Dialect where
  | css
  | scss
  | less
deriving DecidableEq, Repr

namespace Dialect

def name : Dialect → String
  | .css => "css"
  | .scss => "scss"
  | .less => "less"

/-- The dialect of a name; any name but the two of the preprocessors means plain sheets. -/
def ofName (name : String) : Dialect :=
  if name == "scss" then .scss else if name == "less" then .less else .css

/-- The dialect of a file. -/
def ofPath (path : String) : Dialect :=
  let suffix := lowered (Path.suffix path)
  if suffix == ".scss" then .scss else if suffix == ".less" then .less else .css

def hasLineComments (d : Dialect) : Bool :=
  d != .css

/-- The forest of a stylesheet in this dialect, or why it is refused. -/
def parse (d : Dialect) (source : String) : Except ParseError (List Token) :=
  let cs := source.toList
  parseSound (if d.hasLineComments then stripLineComments cs else cs)

end Dialect

end StyleAudit.Style
