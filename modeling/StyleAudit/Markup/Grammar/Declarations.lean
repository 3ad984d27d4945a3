import StyleAudit.Markup.Grammar.Members

/-!
# Declarations

Fields and signatures of classes, expressions that state a type, and the declarations of modules,
interfaces, enumerations and types.
-/

namespace StyleAudit.Markup.Grammar

open Phrase

/-- The words before the name of a field. -/
def fieldModifiers : Phrase :=
  seq [
    opt (any [seq [lit "declare", opt (ref "accessibility_modifier")],
      seq [ref "accessibility_modifier", opt (lit "declare")]]),
    any [seq [opt (lit "static"), opt (ref "override_modifier"), opt (lit "readonly")],
      seq [opt (lit "abstract"), opt (lit "readonly")],
      seq [opt (lit "readonly"), opt (lit "abstract")],
      opt (lit "accessor")]]

def enumMember : Phrase :=
  any [ref "property_name", ref "enum_assignment"]

def extendedType : Phrase :=
  any [typeName, ref "nested_type_identifier", ref "generic_type"]

def declarationRules : List Rule :=
  [.plain "public_field_definition" [opt (ref "decorators"), fieldModifiers, ref "property_name",
      opt (any [lit "?", lit "!"]), opt (ref "type_annotation"), opt (ref "initializer")],
    .union "import_identifier" [identifier, (lit "type").shown "identifier"],
    .sided "non_null_expression" "unary" .left [ref "expression", lit "!"],
    .plain "method_signature" [memberModifiers, opt (lit "async"), methodName, ref "signature"],
    .plain "abstract_method_signature" [opt (ref "accessibility_modifier"), lit "abstract",
      opt (ref "override_modifier"), methodName, ref "signature"],
    .plain "function_signature" [opt (lit "async"), lit "function", identifier, ref "signature",
      any [semicolon, tok .impliedSignatureEnd]],
    .plain "decorator_parenthesized_expression" [lit "(", any [decoratorName,
      (ref "decorator_call_expression").shown "call_expression"], lit ")"],
    .sided "as_expression" "binary" .left [ref "expression", lit "as", any [lit "const", ref "type"]],
    .sided "satisfies_expression" "binary" .left [ref "expression", lit "satisfies", ref "type"],
    .leveled "instantiation_expression" "instantiation" [ref "expression", ref "type_arguments"],
    .plain "import_require_clause" [identifier, lit "=", lit "require", lit "(",
      (ref "string").inRole .source, lit ")"],
    .plain "extends_clause" [lit "extends", listOf (ref "extended_value") "more_extended_values"],
    { name := "extended_value", hidden := true
      alternatives := [{ phrase := seq [ref "expression", opt (ref "type_arguments")]
                         level := .named "extends" }] },
    .plain "implements_clause" [lit "implements", listOf (ref "type") "more_types"],
    .plain "ambient_declaration" [lit "declare", any [ref "declaration",
      seq [lit "global", ref "statement_block"],
      seq [lit "module", lit ".", propertyName, lit ":", ref "type", semicolon]]],
    .leveled "abstract_class_declaration" "declaration" [opt (ref "decorators"), lit "abstract",
      lit "class", typeName, opt (ref "type_parameters"), opt (ref "class_heritage"),
      ref "class_body"],
    .plain "module" [lit "module", ref "module_rest"],
    .plain "internal_module" [lit "namespace", ref "module_rest"],
    { name := "module_rest", hidden := true
      alternatives := [{ phrase := seq [any [ref "string", identifier, ref "nested_identifier"],
                           opt (ref "statement_block")]
                         side := some .right }] },
    .plain "import_alias" [lit "import", identifier, lit "=",
      any [identifier, ref "nested_identifier"], semicolon],
    .leveled "nested_type_identifier" "member" [any [identifier, ref "nested_identifier"], lit ".",
      typeName],
    .plain "interface_declaration" [lit "interface", typeName, opt (ref "type_parameters"),
      opt (ref "extends_type_clause"), (ref "object_type").shown "interface_body"],
    .plain "extends_type_clause" [lit "extends", listOf extendedType "more_extended_types"],
    .plain "enum_declaration" [opt (lit "const"), lit "enum", identifier, ref "enum_body"],
    .plain "enum_body" [openBrace, opt (seq [listOf enumMember "more_enum_members", opt (lit ",")]),
      closeBrace],
    .plain "enum_assignment" [ref "property_name", ref "initializer"],
    .plain "type_alias_declaration" [lit "type", typeName, opt (ref "type_parameters"), lit "=",
      ref "type", semicolon],
    .plain "accessibility_modifier" [any [lit "public", lit "private", lit "protected"]],
    .plain "override_modifier" [lit "override"],
    .plain "required_parameter" [ref "parameter_name", opt (ref "type_annotation"),
      opt (ref "initializer")],
    .plain "optional_parameter" [ref "parameter_name", lit "?", opt (ref "type_annotation"),
      opt (ref "initializer")],
    { name := "parameter_name", hidden := true
      alternatives := [{ phrase := seq [opt (ref "decorators"), opt (ref "accessibility_modifier"),
        opt (ref "override_modifier"), opt (lit "readonly"),
        any [ref "pattern", nodeWord "this"]] }] }]

def declarationLists : List Rule :=
  [laterOf "more_extended_values" (ref "extended_value"),
    laterOf "more_types" (ref "type"),
    laterOf "more_extended_types" extendedType,
    laterOf "more_enum_members" enumMember]

end StyleAudit.Markup.Grammar
