import StyleAudit.Text.Blank
import StyleAudit.Text.Pattern

/-!
# Selectors

The class names that a selector mentions. A class token is a dot with a whole name after it, unless
the name runs on into an interpolation. `&` stands for the class of the enclosing rule: `&.x` asks
for one more class on the same element, and `&-x` at the front of the selector makes a longer name
of it.
-/

namespace StyleAudit.Style

open StyleAudit.Text

/-! ### Names -/

def isClassChar (c : Char) : Bool :=
  c.isAlphanum || c == '_' || c == '-'

def isClassStart (c : Char) : Bool :=
  c.isAlpha || c == '_'

/-- The run of class characters begins a name: with a letter or underscore, after at most one
hyphen. -/
def isClassName : List Char → Bool
  | '-' :: c :: _ => isClassStart c
  | c :: _ => isClassStart c
  | [] => false

/-- An interpolation follows. -/
def startsInterpolation : List Char → Bool
  | '#' :: '{' :: _ => true
  | '@' :: '{' :: _ => true
  | _ => false

/-- The whole run of class characters at the front of a text that does not run on into an
interpolation. -/
def wholeRun? (cs : List Char) : Option (List Char × List Char) :=
  let rest := cs.dropWhile isClassChar
  if startsInterpolation rest then none else some (cs.takeWhile isClassChar, rest)

/-- The whole class name at the front of a text. -/
def className? (cs : List Char) : Option (List Char × List Char) :=
  if isClassName (cs.takeWhile isClassChar) then wholeRun? cs else none

/-! ### Patterns -/

/-- A dot and a whole class name. -/
def classToken : Pattern (List Char)
  | _, '.' :: cs => className? cs
  | _, _ => none

/-- A class token right after `&`. -/
def parentClass : Pattern (List Char)
  | before, '&' :: cs => classToken before cs
  | _, _ => none

/-- The attribute conditions in square brackets. -/
def attributeCondition : Pattern Unit
  | _, '[' :: cs => (splitAtMark? [']'] cs).map fun (_, rest) => ((), rest)
  | _, _ => none

/-- The suffix after `&` at the front of a selector, and what is left. -/
def parentSuffix? : List Char → Option (List Char × List Char)
  | '&' :: c :: cs => if c == '_' || c == '-' then wholeRun? (c :: cs) else none
  | _ => none

/-- The selector without its attribute conditions, whose values are no classes. -/
def withoutAttributes (selector : List Char) : List Char :=
  attributeCondition.replace (fun _ => []) selector

/-- A rule that begins like this is a mixin with parameters where the dialect has them. -/
def isParametricMixin : List Char → Bool
  | '.' :: cs =>
    isClassName (cs.takeWhile isClassChar) &&
      ((cs.dropWhile isClassChar).dropWhile isBlank).head? == some '('
  | _ => false

/-! ### Selector lists -/

/-- The pieces between the commas outside round brackets. A bracket that closes nothing is ignored. -/
def splitCommas (depth : Nat) : List Char → List (List Char)
  | [] => [[]]
  | c :: cs =>
    let depth' := if c == '(' then depth + 1 else if c == ')' then depth - 1 else depth
    if c == ',' && depth == 0 then [] :: splitCommas 0 cs
    else match splitCommas depth' cs with
      | [] => [[c]]
      | piece :: pieces => (c :: piece) :: pieces

/-- The selectors of a list, without blanks around them and without empty ones. -/
def splitSelectors (text : List Char) : List (List Char) :=
  ((splitCommas 0 text).map trim).filter (! ·.isEmpty)

end StyleAudit.Style
