import StyleAudit.Markup.Grammar.Names

/-!
# Expressions, objects and arrays

The kinds of expressions, and the brackets that are values in one place and patterns in another.
-/

namespace StyleAudit.Markup.Grammar

open Phrase

def objectMember : Phrase :=
  any [ref "pair", ref "spread_element", ref "method_definition",
    anyName.shown "shorthand_property_identifier"]

def objectPatternMember : Phrase :=
  any [ref "pair_pattern", ref "rest_pattern", ref "object_assignment_pattern",
    anyName.shown "shorthand_property_identifier_pattern"]

/-- An element of an array or an argument of a call. -/
def element : Phrase :=
  any [ref "expression", ref "spread_element"]

def arrayPatternMember : Phrase :=
  any [ref "pattern", ref "assignment_pattern"]

/-- Phrases with commas between them, any of which may be missing. -/
def gappedList (p : Phrase) (more : String) : Phrase :=
  seq [opt p, opt (ref more)]

def valueRules : List Rule :=
  [.plain "parenthesized_expression" [lit "(", any [seq [ref "expression", opt (ref "type_annotation")],
      ref "sequence_expression"], lit ")"],
    .union "expression" [ref "as_expression", ref "satisfies_expression",
      ref "instantiation_expression", ref "internal_module", ref "primary_expression",
      ref "jsx_element", ref "jsx_self_closing_element", ref "assignment_expression",
      ref "augmented_assignment_expression", ref "await_expression", ref "unary_expression",
      ref "binary_expression", ref "ternary_expression", ref "update_expression",
      ref "new_expression", ref "yield_expression"],
    .union "primary_expression" [ref "subscript_expression", ref "member_expression",
      ref "parenthesized_expression", valueName, softName, nodeWord "this", nodeWord "super",
      tok .number, ref "string", ref "template_string", ref "regex", nodeWord "true",
      nodeWord "false", nodeWord "null", ref "object", ref "array", ref "function_expression",
      ref "arrow_function", ref "generator_function", ref "class", ref "meta_property",
      ref "call_expression", ref "non_null_expression"],
    .grouped "yield_expression" .right [lit "yield", any [seq [lit "*", ref "expression"],
      opt (ref "expression")]],
    .leveled "object" "object" [openBrace, gappedList objectMember "more_members", closeBrace],
    .leveled "object_pattern" "object" [openBrace,
      gappedList objectPatternMember "more_member_patterns", closeBrace],
    .plain "assignment_pattern" [ref "pattern", lit "=", ref "expression"],
    .plain "object_assignment_pattern" [
      any [anyName.shown "shorthand_property_identifier_pattern", ref "destructuring_pattern"],
      lit "=", ref "expression"],
    .plain "array" [lit "[", gappedList element "more_elements", lit "]"],
    .plain "array_pattern" [lit "[", gappedList arrayPatternMember "more_patterns", lit "]"]]

def valueLists : List Rule :=
  [laterOf "more_members" (opt objectMember),
    laterOf "more_member_patterns" (opt objectPatternMember),
    laterOf "more_elements" (opt element),
    laterOf "more_patterns" (opt arrayPatternMember)]

end StyleAudit.Markup.Grammar
