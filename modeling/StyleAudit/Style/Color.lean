import StyleAudit.Text.Blank
import StyleAudit.Text.Case
import StyleAudit.Text.Digit
import StyleAudit.Text.Pattern
import StyleAudit.Text.WordChar

/-!
# Colours

Colours in the value of a declaration, and the one spelling to which all spellings of a colour are
brought. Spaces and the case of letters do not count, and a short hexadecimal colour doubles its
digits.
-/

namespace StyleAudit.Style.Color

open StyleAudit.Text

/-! ### Spelling -/

/-- A hexadecimal digit in lower case. -/
def isLowerHex (c : Char) : Bool :=
  c.isDigit || ('a' ≤ c && c ≤ 'f')

/-- A colour in lower case and without spaces, with doubled digits if it is a short hexadecimal one. -/
def expandHex : List Char → List Char
  | '#' :: ds =>
    if ds.all isLowerHex && (ds.length == 3 || ds.length == 4) then
      '#' :: ds.flatMap fun d => [d, d]
    else '#' :: ds
  | cs => cs

/-- The one spelling of a colour. -/
def normal (cs : List Char) : List Char :=
  expandHex ((lower (trim cs)).filter (· != ' '))

/-! ### Colours in a value -/

def isAsciiHex (c : Char) : Bool :=
  c.isDigit || ('a' ≤ c && c ≤ 'f') || ('A' ≤ c && c ≤ 'F')

/-- The first `count` characters, if there are so many, all of them are digits, and no word goes on
after them. -/
def hexRun? (count : Nat) (cs : List Char) : Option (List Char × List Char) :=
  let run := cs.take count
  let rest := cs.drop count
  if run.length == count && run.all isAsciiHex && !isWordChar? rest.head? then some (run, rest)
  else none

/-- A hexadecimal colour of six or three digits. -/
def hexColor? : List Char → Option (List Char × List Char)
  | '#' :: cs => ((hexRun? 6 cs).or (hexRun? 3 cs)).map fun (run, rest) => ('#' :: run, rest)
  | _ => none

/-- The functions that make a colour, longer names first. -/
def colorFunctions : List (List Char) :=
  ["rgba(".toList, "rgb(".toList, "hsla(".toList, "hsl(".toList]

/-- A call of one of the colour functions, with something between its brackets. -/
def functionColor? (cs : List Char) : Option (List Char × List Char) :=
  colorFunctions.findSome? fun name =>
    (dropLead? name cs).bind fun rest =>
      match rest.takeWhile (· != ')'), rest.dropWhile (· != ')') with
      | a :: as, close :: after => some (name ++ a :: as ++ [close], after)
      | _, _ => none

/-- Words that are no colours. -/
def plainWords : List (List Char) :=
  ["solid".toList, "dotted".toList, "dashed".toList, "inherit".toList, "initial".toList,
    "unset".toList, "transparent".toList, "none".toList]

/-- A whole word of ASCII letters that may name a colour. -/
def wordColor? (cs : List Char) : Option (List Char × List Char) :=
  let run := cs.takeWhile Char.isAlpha
  let rest := cs.dropWhile Char.isAlpha
  if run.isEmpty || isWordChar? rest.head? || plainWords.contains run then none
  else some (run, rest)

/-- A colour in a value. A function or a word must stand at the beginning of a word. -/
def pattern : Pattern (List Char)
  | before, cs =>
    (hexColor? cs).or (if isWordChar? before then none else (functionColor? cs).or (wordColor? cs))

/-- The colours of a value, in order. -/
def find (value : List Char) : List (List Char) :=
  pattern.findAll value

end StyleAudit.Style.Color
