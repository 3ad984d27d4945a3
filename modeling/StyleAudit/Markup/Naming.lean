import StyleAudit.Table
import StyleAudit.Text.Blank
import StyleAudit.Text.Case
import StyleAudit.Text.Pattern

/-!
# Spellings of a class name

A class that is written `used-wrapper` in a stylesheet may be asked for as `usedWrapper` in markup.
The variants of a name are the name itself and its spellings with hyphens, with underscores, with
inner capitals, all small and all capital.
-/

namespace StyleAudit.Markup

open StyleAudit.Text

/-- A capital letter after a small letter or digit, where a new word begins. -/
def innerCapital : Pattern Char
  | some b, c :: cs => if (b.isLower || b.isDigit) && c.isUpper then some (c, cs) else none
  | _, _ => none

/-- One character for another throughout a text. -/
def substitute (old new : Char) (cs : List Char) : List Char :=
  cs.map fun c => if c == old then new else c

/-- The spelling with hyphens between the words. -/
def kebabCase (name : List Char) : List Char :=
  lower (substitute '_' '-' (innerCapital.replace (fun c => ['-', c]) name))

/-- A word with a capital at its beginning. -/
def capitalized : List Char → List Char
  | [] => []
  | c :: cs => upperChar c ++ cs

/-- The words of a name in hyphen spelling, joined with inner capitals; a name without words stays. -/
def camelCase (name : List Char) : List Char :=
  match (splitWhere (· == '-') (kebabCase name)).filter (! ·.isEmpty) with
  | [] => name
  | first :: more => first ++ more.flatMap capitalized

def variantsOf (name : List Char) : List (List Char) :=
  [name, kebabCase name, substitute '-' '_' (kebabCase name), camelCase name, lower name, upper name]

/-- All spellings of a name, each once. -/
def namingVariants (name : String) : List String :=
  addNames [] ((variantsOf name.toList).map String.ofList)

end StyleAudit.Markup
