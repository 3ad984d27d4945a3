import StyleAudit.Markup.Grammar.Names

/-!
# Elements

Elements with their attributes and children. The name of a closing tag need not be that of the
opening tag.
-/

namespace StyleAudit.Markup.Grammar

open Phrase

def simpleName : Phrase :=
  any [(tok .dashedName).shown "identifier", identifier]

def dottedName : Phrase :=
  (ref "nested_identifier").shown "member_expression"

def anyElement : Phrase :=
  any [ref "jsx_element", ref "jsx_self_closing_element"]

/-- An opening tag up to its end. An element without a name has no attributes. -/
def tagStart : Phrase :=
  seq [lit "<", opt (seq [
    any [simpleName, ref "jsx_namespace_name",
      seq [any [identifier, dottedName], opt (ref "type_arguments")]],
    opt (ref "attributes")])]

def elementRules : List Rule :=
  [.plain "jsx_element" [ref "jsx_opening_element", opt (ref "children"), ref "jsx_closing_element"],
    .plain "jsx_expression" [openBrace, opt (any [ref "expression", ref "sequence_expression",
      ref "spread_element"]), closeBrace],
    .light "jsx_opening_element" [tagStart, lit ">"],
    .leveled "nested_identifier" "member" [(any [identifier, dottedName]).inRole .object, lit ".",
      propertyName.inRole .property],
    .plain "jsx_namespace_name" [simpleName, lit ":", simpleName],
    .plain "jsx_closing_element" [lit "</",
      opt (any [simpleName, dottedName, ref "jsx_namespace_name"]), lit ">"],
    .light "jsx_self_closing_element" [tagStart, lit "/>"],
    .plain "jsx_attribute" [
      any [simpleName.shown "property_identifier", ref "jsx_namespace_name"],
      opt (seq [lit "=", any [(ref "attribute_string").shown "string", ref "jsx_expression",
        anyElement]])],
    { name := "attribute_string", hidden := true
      alternatives := [{ phrase := any [
        seq [lit "\"", opt (ref "double_attribute_parts"), lit "\""],
        seq [lit "'", opt (ref "single_attribute_parts"), lit "'"]] }] }]

def elementLists : List Rule :=
  [.many "children" (any [(tok .elementText).shown "jsx_text", tok .reference, anyElement,
      ref "jsx_expression"]),
    .many "attributes" (any [ref "jsx_attribute", ref "jsx_expression"]),
    .many "double_attribute_parts" (any [tok (.attributeText '"'), tok .reference]),
    .many "single_attribute_parts" (any [tok (.attributeText '\''), tok .reference])]

end StyleAudit.Markup.Grammar
