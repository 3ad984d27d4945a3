import StyleAudit.Markup.Grammar.Declarations
import StyleAudit.Markup.Grammar.Elements
import StyleAudit.Markup.Grammar.Functions
import StyleAudit.Markup.Grammar.Operators
import StyleAudit.Markup.Grammar.Statements
import StyleAudit.Markup.Grammar.Types

/-!
# The grammar of markup sources

All rules in order, and the order of their levels. Of two trees that are equally good the one whose
rule comes first is kept, so the order of the rules is part of the grammar.
-/

namespace StyleAudit.Markup.Grammar

/-- All rules; the rules of lists come last. -/
def rules : List Rule :=
  moduleRules ++ statementRules ++ valueRules ++ elementRules ++ functionRules ++ operatorRules ++
    memberRules ++ declarationRules ++ typeRules ++ statementLists ++ valueLists ++ elementLists ++
    functionLists ++ operatorLists ++ memberLists ++ declarationLists ++ typeLists

/-- A place in an order of levels: a named level, or every alternative of a rule. -/
inductive Rank where
  | level (name : String)
  | rule (name : String)
deriving DecidableEq, Repr

open Rank

/-- The levels of expressions, the tightest first. -/
def operatorOrder : List Rank :=
  [level "member", level "template_call", level "call", rule "update_expression",
    level "unary_void", level "binary_exp", level "binary_times", level "binary_plus",
    level "binary_shift", level "binary_compare", level "binary_relation", level "binary_equality",
    level "bitwise_and", level "bitwise_xor", level "bitwise_or", level "logical_and",
    level "logical_or", level "ternary", rule "sequence_expression", rule "arrow_function"]

/-- The orders of levels, each from the tightest on. The first order that has both of two levels
decides between them. -/
def orders : List (List Rank) :=
  [operatorOrder,
    [level "assign", rule "primary_expression"],
    [level "member", level "template_call", level "new", level "call", rule "expression"],
    [level "declaration", level "literal"],
    [rule "primary_expression", rule "statement_block", level "object"],
    [rule "meta_property", rule "import"],
    [rule "import_statement", rule "import"],
    [rule "export_statement", rule "primary_expression"],
    [rule "lexical_declaration", rule "primary_expression"],
    [level "call", level "instantiation", level "unary", level "binary", rule "await_expression",
      rule "arrow_function"],
    [level "extends", level "instantiation"],
    [rule "intersection_type", rule "union_type", rule "conditional_type", rule "function_type",
      level "binary", rule "type_predicate", rule "readonly_type"],
    [rule "mapped_type_clause", rule "primary_expression"],
    [rule "accessibility_modifier", rule "primary_expression"],
    [level "unary_void", rule "expression"],
    [rule "extends_clause", rule "primary_expression"],
    [level "unary", level "assign"],
    [level "declaration", rule "expression"],
    [rule "predefined_type", rule "unary_expression"],
    [rule "type", rule "flow_maybe_type"],
    [rule "tuple_type", rule "array_type", rule "pattern", rule "type"],
    [rule "readonly_type", rule "pattern"],
    [rule "readonly_type", rule "primary_expression"],
    [rule "type_query", rule "subscript_expression", rule "expression"],
    [rule "type_query", rule "queried_subscript"],
    [rule "nested_type_identifier", rule "generic_type", rule "primary_type", rule "lookup_type",
      rule "index_type_query", rule "type"],
    [rule "as_expression", rule "satisfies_expression", rule "primary_type"],
    [rule "queried_member", rule "member_expression"],
    [rule "member_expression", rule "annotated_member"],
    [rule "queried_member", rule "primary_expression"],
    [rule "queried_subscript", rule "subscript_expression"],
    [rule "queried_subscript", rule "primary_expression"],
    [rule "queried_call", rule "primary_expression"],
    [rule "queried_instantiation", rule "primary_expression"],
    [rule "type_query", rule "primary_expression"],
    [rule "override_modifier", rule "primary_expression"],
    [rule "decorator_call_expression", rule "decorator"],
    [rule "literal_type", rule "pattern"],
    [rule "predefined_type", rule "pattern"],
    [rule "call_expression", rule "queried_call"],
    [rule "call_expression", rule "annotated_call"],
    [rule "new_expression", rule "primary_expression"],
    [rule "meta_property", rule "primary_expression"],
    [rule "construct_signature", rule "property_name"]]

end StyleAudit.Markup.Grammar
