import StyleAudit.Markup.Grammar.Names

/-!
# Types
-/

namespace StyleAudit.Markup.Grammar

open Phrase

def queriedMember : Phrase :=
  (ref "queried_member").shown "member_expression"

def queriedSubscript : Phrase :=
  (ref "queried_subscript").shown "subscript_expression"

def queriedCall : Phrase :=
  (ref "queried_call").shown "call_expression"

def annotatedMember : Phrase :=
  (ref "annotated_member").shown "member_expression"

def annotatedCall : Phrase :=
  (ref "annotated_call").shown "call_expression"

/-- The value of which an access in a type query takes a member. -/
def queriedObject : Phrase :=
  any [identifier, nodeWord "this", queriedSubscript, queriedMember, queriedCall]

/-- The function that a call or instantiation in a type query names. -/
def queriedFunction : Phrase :=
  any [ref "import", identifier, queriedMember, queriedSubscript]

def queriedMemberName : Phrase :=
  any [tok .privateIdentifier, propertyName]

def objectTypeMember : Phrase :=
  any [ref "export_statement", ref "property_signature", ref "call_signature",
    ref "construct_signature", ref "index_signature", ref "method_signature"]

/-- What stands between the members of an object type. -/
def memberEnd : Phrase :=
  any [lit ",", semicolon]

def typeRules : List Rule :=
  [.plain "omitting_type_annotation" [lit "-?:", ref "type"],
    .plain "adding_type_annotation" [lit "+?:", ref "type"],
    .plain "opting_type_annotation" [lit "?:", ref "type"],
    .plain "type_annotation" [lit ":", any [ref "type", annotatedMember, annotatedCall]],
    { name := "annotated_member", hidden := true
      alternatives := [{ phrase := seq [
        (any [ref "import", annotatedMember, annotatedCall]).inRole .object, lit ".",
        queriedMemberName.inRole .property] }] },
    { name := "annotated_call", hidden := true
      alternatives := [{ phrase := seq [(any [ref "import", annotatedMember]).inRole .function,
        (ref "arguments").inRole .arguments] }] },
    .plain "asserts" [lit "asserts", any [ref "type_predicate", identifier, nodeWord "this"]],
    .plain "asserts_annotation" [lit ":", ref "asserts"],
    { name := "type", hidden := true
      alternatives := [
        { phrase := any [ref "primary_type", ref "function_type", ref "readonly_type",
            ref "constructor_type", ref "infer_type"] },
        { phrase := any [annotatedMember, annotatedCall], level := .rank (-1) }] },
    .plain "tuple_parameter" [any [identifier, ref "rest_pattern"], ref "type_annotation"],
    .plain "optional_tuple_parameter" [identifier, lit "?", ref "type_annotation"],
    .plain "optional_type" [ref "type", lit "?"],
    .plain "rest_type" [lit "...", ref "type"],
    .union "tuple_member" [(ref "tuple_parameter").shown "required_parameter",
      (ref "optional_tuple_parameter").shown "optional_parameter", ref "optional_type",
      ref "rest_type", ref "type"],
    .grouped "constructor_type" .left [opt (lit "abstract"), lit "new", opt (ref "type_parameters"),
      ref "formal_parameters", lit "=>", ref "type"],
    .union "primary_type" [ref "parenthesized_type", ref "predefined_type", typeName,
      ref "nested_type_identifier", ref "generic_type", ref "object_type", ref "array_type",
      ref "tuple_type", ref "flow_maybe_type", ref "type_query", ref "index_type_query",
      (lit "this").shown "this_type", ref "existential_type", ref "literal_type", ref "lookup_type",
      ref "conditional_type", ref "template_literal_type", ref "intersection_type", ref "union_type",
      lit "const"],
    .plain "template_type" [lit "$\x7b", any [ref "primary_type", ref "infer_type"], closeBrace],
    .plain "template_literal_type" [lit "\x60", opt (ref "template_type_parts"), lit "\x60"],
    .grouped "infer_type" .right [lit "infer", typeName, opt (seq [lit "extends", ref "type"])],
    .grouped "conditional_type" .right [ref "type", lit "extends", ref "type", lit "?", ref "type",
      lit ":", ref "type"],
    .leveled "generic_type" "call" [any [typeName, ref "nested_type_identifier"],
      ref "type_arguments"],
    .plain "type_predicate" [any [identifier, nodeWord "this",
      (ref "predefined_type").shown "identifier"], lit "is", ref "type"],
    .plain "type_predicate_annotation" [lit ":", ref "type_predicate"],
    { name := "queried_member", hidden := true
      alternatives := [{ phrase := seq [queriedObject.inRole .object, any [lit ".", lit "?."],
        queriedMemberName.inRole .property] }] },
    { name := "queried_subscript", hidden := true
      alternatives := [{ phrase := seq [queriedObject.inRole .object, opt (lit "?."), lit "[",
        (any [ref "predefined_type", ref "string", tok .number]).inRole .index, lit "]"] }] },
    { name := "queried_call", hidden := true
      alternatives := [{ phrase := seq [queriedFunction.inRole .function,
        (ref "arguments").inRole .arguments] }] },
    { name := "queried_instantiation", hidden := true
      alternatives := [{ phrase := seq [queriedFunction.inRole .function,
        ref "type_arguments"] }] },
    .grouped "type_query" .right [lit "typeof", any [queriedSubscript, queriedMember, queriedCall,
      (ref "queried_instantiation").shown "instantiation_expression", identifier, nodeWord "this"]],
    .plain "index_type_query" [lit "keyof", ref "primary_type"],
    .plain "lookup_type" [ref "primary_type", lit "[", ref "type", lit "]"],
    .plain "mapped_type_clause" [typeName, lit "in", ref "type", opt (seq [lit "as", ref "type"])],
    .plain "literal_type" [any [(ref "signed_number").shown "unary_expression", tok .number,
      ref "string", nodeWord "true", nodeWord "false", nodeWord "null", nodeWord "undefined"]],
    { name := "signed_number", hidden := true
      alternatives := [{ phrase := seq [any [lit "-", lit "+"], tok .number]
                         level := .rank 1
                         side := some .left }] },
    .plain "existential_type" [lit "*"],
    .grouped "flow_maybe_type" .right [lit "?", ref "primary_type"],
    .plain "parenthesized_type" [lit "(", ref "type", lit ")"],
    .plain "predefined_type" [any [lit "any", lit "number", lit "boolean", lit "string",
      lit "symbol", seq [lit "unique", lit "symbol"], lit "void", lit "unknown", lit "never",
      lit "object"]],
    .plain "type_arguments" [lit "<", listOf (ref "type") "more_types", opt (lit ","), lit ">"],
    .plain "object_type" [any [openBrace, lit "\x7b|"],
      opt (seq [opt (any [lit ",", lit ";"]), objectTypeMember, opt (ref "more_type_members"),
        opt memberEnd]),
      any [closeBrace, lit "|\x7d"]],
    .plain "call_signature" [ref "signature"],
    .plain "property_signature" [opt (ref "accessibility_modifier"), opt (lit "static"),
      opt (ref "override_modifier"), opt (lit "readonly"), ref "property_name", opt (lit "?"),
      opt (ref "type_annotation")],
    .plain "type_parameters" [lit "<", listOf (ref "type_parameter") "more_type_parameters",
      opt (lit ","), lit ">"],
    .plain "type_parameter" [opt (lit "const"), typeName, opt (ref "constraint"),
      opt (ref "default_type")],
    .plain "default_type" [lit "=", ref "type"],
    .plain "constraint" [any [lit "extends", lit ":"], ref "type"],
    .plain "construct_signature" [opt (lit "abstract"), lit "new", opt (ref "type_parameters"),
      ref "formal_parameters", opt (ref "type_annotation")],
    .plain "index_signature" [opt (seq [opt (any [lit "-", lit "+"]), lit "readonly"]), lit "[",
      any [seq [any [identifier, softName], lit ":", ref "type"], ref "mapped_type_clause"], lit "]",
      any [ref "type_annotation", ref "omitting_type_annotation", ref "adding_type_annotation",
        ref "opting_type_annotation"]],
    .plain "array_type" [ref "primary_type", lit "[", lit "]"],
    .plain "tuple_type" [lit "[", opt (listOf (ref "tuple_member") "more_tuple_members"),
      opt (lit ","), lit "]"],
    .plain "readonly_type" [lit "readonly", ref "type"],
    .grouped "union_type" .left [opt (ref "type"), lit "|", ref "type"],
    .grouped "intersection_type" .left [opt (ref "type"), lit "&", ref "type"],
    .grouped "function_type" .left [opt (ref "type_parameters"), ref "formal_parameters", lit "=>",
      any [ref "type", ref "asserts", ref "type_predicate"]]]

def typeLists : List Rule :=
  [.many "template_type_parts" (any [tok .templateText, ref "template_type"]),
    .many "more_type_members" (seq [memberEnd, objectTypeMember]),
    laterOf "more_type_parameters" (ref "type_parameter"),
    laterOf "more_tuple_members" (ref "tuple_member")]

end StyleAudit.Markup.Grammar
