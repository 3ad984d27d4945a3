import StyleAudit.Markup.Node

/-!
# Grammars

A grammar is a list of named rules. A rule has alternatives, and an alternative is a phrase: a
sequence of tokens and other rules, with choices between them. Every part of a phrase says which
role it plays in the tree and under which kind it is shown there. Where two readings of a source
compete, the level of an alternative and the side to which it groups decide between them; if they
do not, both readings go on, and the one of the greater weight is kept once they meet again.

* `Phrase.heads`: the ways to begin a phrase, each with what may follow.
* `Phrase.isOptional`: nothing need follow.
-/

namespace StyleAudit.Markup

-- a library may bring its own hash of characters; tokens keep to the standard one
local instance standardCharHash : Hashable Char := instHashableChar

/-- The tokens of a source. Words and marks are known by their spelling, the others by their form. -/
inductive Token where
  | sourceEnd
  | identifier
  /-- An identifier after a number sign. -/
  | privateIdentifier
  /-- A name with hyphens, as elements and attributes have them. -/
  | dashedName
  | word (spelling : String)
  | mark (spelling : String)
  | number
  | stringText (quote : Char)
  | attributeText (quote : Char)
  | escape
  | templateText
  | elementText
  /-- A character of an element, by name or by number. -/
  | reference
  | regexText
  | regexEnd
  | regexFlags
  | interpreterLine
  /-- The end of a statement that only the end of a line shows. -/
  | impliedEnd
  /-- The same after the head of a function without a body. -/
  | impliedSignatureEnd
  /-- The question mark of a conditional expression. -/
  | conditionMark
  | comment
  /-- A comment to the end of the line, in the marks of another markup. -/
  | angleComment
deriving DecidableEq, Hashable, Repr

namespace Token

/-- The tokens that are known by their form. -/
def forms : List Token :=
  [sourceEnd, identifier, privateIdentifier, dashedName, number, stringText '"', stringText '\'',
    attributeText '"', attributeText '\'', escape, templateText, elementText, reference, regexText,
    regexEnd, regexFlags, interpreterLine, impliedEnd, impliedSignatureEnd, conditionMark, comment,
    angleComment]

/-- Comments may stand between any two tokens. -/
def isComment : Token → Bool
  | comment => true
  | angleComment => true
  | _ => false

/-- The token is a word of the language. -/
def isWord : Token → Bool
  | word _ => true
  | _ => false

end Token

inductive Symbol where
  | token (t : Token)
  | rule (name : String)
deriving DecidableEq, Hashable, Repr

/-- How a part of a phrase appears in the tree. -/
structure Mark where
  role : Role := .plain
  /-- The kind that the part is shown as, if not its own. -/
  kind : Option String := none
deriving DecidableEq, Repr

inductive Phrase where
  | empty
  | part (symbol : Symbol) (mark : Mark)
  | both (first second : Phrase)
  | either (first second : Phrase)
deriving DecidableEq, Repr

/-- How tightly the parts of an alternative hold together. Named levels are ordered by lists; ranks
are ordered as numbers, with the usual level as zero. -/
inductive Level where
  | usual
  | rank (n : Int)
  | named (name : String)
deriving DecidableEq, Repr

/-- The side to which equal readings are grouped. -/
inductive Side where
  | left
  | right
deriving DecidableEq, Repr

structure Alternative where
  phrase : Phrase
  level : Level := .usual
  side : Option Side := none
  weight : Int := 0

structure Rule where
  name : String
  /-- A hidden rule has no node of its own: its parts stand in its place. -/
  hidden : Bool := false
  alternatives : List Alternative

namespace Phrase

/-- One phrase after another. -/
def append : Phrase → Phrase → Phrase
  | .empty, q => q
  | p, .empty => p
  | p, q => .both p q

def isOptional : Phrase → Bool
  | .empty => true
  | .part _ _ => false
  | .both p q => p.isOptional && q.isOptional
  | .either p q => p.isOptional || q.isOptional

/-- The parts that a phrase can begin with, each with the phrase that is left after it. -/
def heads : Phrase → List (Symbol × Mark × Phrase)
  | .empty => []
  | .part s m => [(s, m, .empty)]
  | .both p q =>
    let begun := p.heads.map fun (s, m, rest) => (s, m, rest.append q)
    if p.isOptional then begun ++ q.heads else begun
  | .either p q => p.heads ++ q.heads

/-- The symbols of a phrase, in order. -/
def symbols : Phrase → List Symbol
  | .empty => []
  | .part s _ => [s]
  | .both p q => p.symbols ++ q.symbols
  | .either p q => p.symbols ++ q.symbols

/-! ### Building phrases -/

def seq (ps : List Phrase) : Phrase :=
  ps.foldr append .empty

/-- One of several phrases. -/
def any : List Phrase → Phrase
  | [] => .empty
  | [p] => p
  | p :: ps => .either p (any ps)

def opt (p : Phrase) : Phrase :=
  .either p .empty

def tok (t : Token) : Phrase :=
  .part (.token t) {}

/-- A word or a mark, by its spelling. -/
def lit (spelling : String) : Phrase :=
  tok (if spelling.toList.all Char.isAlpha then .word spelling else .mark spelling)

def ref (name : String) : Phrase :=
  .part (.rule name) {}

def mapMarks (f : Mark → Mark) : Phrase → Phrase
  | .empty => .empty
  | .part s m => .part s (f m)
  | .both p q => .both (p.mapMarks f) (q.mapMarks f)
  | .either p q => .either (p.mapMarks f) (q.mapMarks f)

/-- The phrase with its parts in a role. -/
def inRole (p : Phrase) (role : Role) : Phrase :=
  p.mapMarks ({ · with role })

/-- The phrase with its parts shown as nodes of a kind. -/
def shown (p : Phrase) (kind : String) : Phrase :=
  p.mapMarks ({ · with kind := some kind })

end Phrase

namespace Rule

open Phrase

/-- A rule with a node of its own, and one alternative of the usual level. -/
def plain (name : String) (parts : List Phrase) : Rule :=
  { name, alternatives := [{ phrase := seq parts }] }

/-- A rule that is one of several phrases and has no node of its own. -/
def union (name : String) (phrases : List Phrase) : Rule :=
  { name, hidden := true, alternatives := [{ phrase := any phrases }] }

/-- A rule of a named level. -/
def leveled (name level : String) (parts : List Phrase) : Rule :=
  { name, alternatives := [{ phrase := seq parts, level := .named level }] }

/-- A rule of a named level that groups to a side. -/
def sided (name level : String) (side : Side) (parts : List Phrase) : Rule :=
  { name, alternatives := [{ phrase := seq parts, level := .named level, side := some side }] }

/-- A rule that groups to a side. -/
def grouped (name : String) (side : Side) (parts : List Phrase) : Rule :=
  { name, alternatives := [{ phrase := seq parts, side := some side }] }

/-- A rule of little weight. -/
def light (name : String) (parts : List Phrase) : Rule :=
  { name, alternatives := [{ phrase := seq parts, weight := -1 }] }

/-- One or more phrases in a row, grouped to the left. -/
def many (name : String) (p : Phrase) : Rule :=
  { name, hidden := true
    alternatives := [{ phrase := p, side := some .left },
      { phrase := seq [ref name, ref name], side := some .left }] }

end Rule

end StyleAudit.Markup
