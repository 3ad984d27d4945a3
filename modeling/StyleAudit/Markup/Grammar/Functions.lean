import StyleAudit.Markup.Grammar.Names

/-!
# Classes and functions
-/

namespace StyleAudit.Markup.Grammar

open Phrase

/-- A class after its name. -/
def classRest : Phrase :=
  seq [opt (ref "type_parameters"), opt (ref "class_heritage"), ref "class_body"]

def functionRules : List Rule :=
  [.leveled "class" "literal" [opt (ref "decorators"), lit "class", opt typeName, classRest],
    .sided "class_declaration" "declaration" .left [opt (ref "decorators"), lit "class", typeName,
      classRest, opt (tok .impliedEnd)],
    .plain "class_heritage" [any [seq [ref "extends_clause", opt (ref "implements_clause")],
      ref "implements_clause"]],
    .leveled "function_expression" "literal" [opt (lit "async"), lit "function", opt identifier,
      ref "signature", ref "statement_block"],
    .sided "function_declaration" "declaration" .right [opt (lit "async"), lit "function", identifier,
      ref "signature", ref "statement_block", opt (tok .impliedEnd)],
    .leveled "generator_function" "literal" [opt (lit "async"), lit "function", lit "*",
      opt identifier, ref "signature", ref "statement_block"],
    .sided "generator_function_declaration" "declaration" .right [opt (lit "async"), lit "function",
      lit "*", identifier, ref "signature", ref "statement_block", opt (tok .impliedEnd)],
    .plain "arrow_function" [opt (lit "async"), any [softName, identifier, ref "signature"],
      lit "=>", any [ref "expression", ref "statement_block"]],
    { name := "signature", hidden := true
      alternatives := [{ phrase := seq [opt (ref "type_parameters"), ref "formal_parameters",
        opt (any [ref "type_annotation", ref "asserts_annotation",
          ref "type_predicate_annotation"])] }] },
    .union "formal_parameter" [ref "required_parameter", ref "optional_parameter"]]

def functionLists : List Rule :=
  [.many "decorators" (ref "decorator"),
    laterOf "more_parameters" (ref "formal_parameter")]

end StyleAudit.Markup.Grammar
