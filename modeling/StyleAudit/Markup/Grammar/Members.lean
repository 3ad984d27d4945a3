import StyleAudit.Markup.Grammar.Values

/-!
# Texts, members and parameters

Strings, templates and regular expressions; the members of classes and objects; parameters and
patterns.
-/

namespace StyleAudit.Markup.Grammar

open Phrase

def decoratorName : Phrase :=
  any [identifier, (ref "decorator_member_expression").shown "member_expression"]

/-- What can be named before the parameters of a method. -/
def methodName : Phrase :=
  seq [opt (any [lit "get", lit "set", lit "*"]), ref "property_name", opt (lit "?")]

def memberModifiers : Phrase :=
  seq [opt (ref "accessibility_modifier"), opt (lit "static"), opt (ref "override_modifier"),
    opt (lit "readonly")]

def classMember : Phrase :=
  any [seq [opt (ref "decorators"), ref "method_definition", opt semicolon],
    seq [ref "method_signature", any [tok .impliedSignatureEnd, lit ","]],
    ref "class_static_block",
    seq [any [ref "abstract_method_signature", ref "index_signature", ref "method_signature",
      ref "public_field_definition"], any [semicolon, lit ","]],
    lit ";"]

def memberRules : List Rule :=
  [.plain "string" [any [
      seq [lit "\"", opt (ref "double_parts"), lit "\""],
      seq [lit "'", opt (ref "single_parts"), lit "'"]]],
    .plain "template_string" [lit "\x60", opt (ref "template_parts"), lit "\x60"],
    .plain "template_substitution" [lit "$\x7b", expressions, closeBrace],
    .plain "regex" [lit "/", tok .regexText, tok .regexEnd, opt (tok .regexFlags)],
    .plain "meta_property" [any [seq [lit "new", lit ".", lit "target"],
      seq [lit "import", lit ".", lit "meta"]]],
    .plain "arguments" [lit "(", gappedList element "more_elements", lit ")"],
    .plain "decorator" [lit "@", any [decoratorName,
      (ref "decorator_call_expression").shown "call_expression",
      (ref "decorator_parenthesized_expression").shown "parenthesized_expression"]],
    .leveled "decorator_member_expression" "member" [decoratorName.inRole .object, lit ".",
      propertyName.inRole .property],
    .leveled "decorator_call_expression" "call" [decoratorName.inRole .function,
      opt (ref "type_arguments"), (ref "arguments").inRole .arguments],
    .plain "class_body" [openBrace, opt (ref "class_members"), closeBrace],
    .plain "formal_parameters" [lit "(",
      opt (seq [listOf (ref "formal_parameter") "more_parameters", opt (lit ",")]), lit ")"],
    .plain "class_static_block" [lit "static", opt (tok .impliedEnd), ref "statement_block"],
    { name := "pattern", hidden := true
      alternatives := [{ phrase := any [target, ref "rest_pattern"], weight := -1 }] },
    .grouped "rest_pattern" .right [lit "...", target],
    .grouped "method_definition" .left [memberModifiers, opt (lit "async"), methodName,
      ref "signature", ref "statement_block"],
    .plain "pair" [(ref "property_name").inRole .key, lit ":", ref "expression"],
    .plain "pair_pattern" [ref "property_name", lit ":", arrayPatternMember],
    .union "property_name" [anyName.shown "property_identifier", tok .privateIdentifier, ref "string",
      tok .number, ref "computed_property_name"],
    .plain "computed_property_name" [lit "[", ref "expression", lit "]"]]

def memberLists : List Rule :=
  [.many "double_parts" (any [tok (.stringText '"'), tok .escape]),
    .many "single_parts" (any [tok (.stringText '\''), tok .escape]),
    .many "template_parts" (any [tok .templateText, tok .escape, ref "template_substitution"]),
    .many "class_members" classMember]

end StyleAudit.Markup.Grammar
