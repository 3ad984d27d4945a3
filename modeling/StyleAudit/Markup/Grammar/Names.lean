import StyleAudit.Markup.Phrase

/-!
# Names and small phrases

What the rules of the grammar share: names, words that may also be names, lists with commas, and the
ends of statements.
-/

namespace StyleAudit.Markup.Grammar

open Phrase

def identifier : Phrase :=
  tok .identifier

/-- Words of the language that may also be used as names. -/
def softWords : Phrase :=
  any <| ["declare", "namespace", "type", "public", "private", "protected", "override", "readonly",
    "module", "any", "number", "boolean", "string", "symbol", "export", "object", "new", "get", "set",
    "async", "static", "let"].map lit

/-- A name that may be one of the soft words. -/
def anyName : Phrase :=
  any [identifier, softWords]

def softName : Phrase :=
  softWords.shown "identifier"

/-- A word that is a node by itself. -/
def nodeWord (word : String) : Phrase :=
  (lit word).shown word

/-- A name as the operand of an expression. -/
def valueName : Phrase :=
  any [nodeWord "undefined", identifier]

def propertyName : Phrase :=
  identifier.shown "property_identifier"

def typeName : Phrase :=
  identifier.shown "type_identifier"

def openBrace : Phrase :=
  lit "\x7b"

def closeBrace : Phrase :=
  lit "\x7d"

/-- The end of a statement. -/
def semicolon : Phrase :=
  any [tok .impliedEnd, lit ";"]

/-- An expression, or several with commas. -/
def expressions : Phrase :=
  any [ref "expression", ref "sequence_expression"]

/-- What can be assigned to. -/
def target : Phrase :=
  any [ref "member_expression", ref "subscript_expression", valueName, softName,
    ref "destructuring_pattern", ref "non_null_expression"]

/-- A name, or a pattern that takes a value apart. -/
def binder : Phrase :=
  any [identifier, ref "destructuring_pattern"]

/-- One or more phrases with commas between them; `more` is the rule of those after the first. -/
def listOf (p : Phrase) (more : String) : Phrase :=
  seq [p, opt (ref more)]

/-- The rule of the later phrases of a list. -/
def laterOf (more : String) (p : Phrase) : Rule :=
  .many more (seq [lit ",", p])

end StyleAudit.Markup.Grammar
