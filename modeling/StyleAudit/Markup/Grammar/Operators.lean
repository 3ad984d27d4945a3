import StyleAudit.Markup.Grammar.Names

/-!
# Operators, calls and accesses
-/

namespace StyleAudit.Markup.Grammar

open Phrase

/-- An alternative of a binary expression. -/
def binary (operator level : String) (side : Side) (left : Phrase) : Alternative :=
  { phrase := seq [left.inRole .left, (lit operator).inRole .operator,
      (ref "expression").inRole .right]
    level := .named level
    side := some side }

/-- The operators that group to the left, with their levels. -/
def leftOperators : List (String × String) :=
  [("&&", "logical_and"), ("||", "logical_or"), (">>", "binary_shift"), (">>>", "binary_shift"),
    ("<<", "binary_shift"), ("&", "bitwise_and"), ("^", "bitwise_xor"), ("|", "bitwise_or"),
    ("+", "binary_plus"), ("-", "binary_plus"), ("*", "binary_times"), ("/", "binary_times"),
    ("%", "binary_times"), ("<", "binary_relation"), ("<=", "binary_relation"),
    ("==", "binary_equality"), ("===", "binary_equality"), ("!=", "binary_equality"),
    ("!==", "binary_equality"), (">=", "binary_relation"), (">", "binary_relation"),
    ("??", "ternary"), ("instanceof", "binary_relation")]

def assigningOperators : List String :=
  ["+=", "-=", "*=", "/=", "%=", "^=", "&=", "|=", ">>=", ">>>=", "<<=", "**=", "&&=", "||=", "??="]

/-- The name of a member. -/
def memberName : Phrase :=
  any [tok .privateIdentifier, propertyName]

def operatorRules : List Rule :=
  [.plain "optional_chain" [lit "?."],
    { name := "call_expression"
      alternatives := [
        { phrase := seq [(any [ref "expression", ref "import"]).inRole .function,
            opt (ref "type_arguments"), (ref "arguments").inRole .arguments]
          level := .named "call" },
        { phrase := seq [(any [ref "primary_expression", ref "new_expression"]).inRole .function,
            (ref "template_string").inRole .arguments]
          level := .named "template_call" },
        { phrase := seq [(ref "primary_expression").inRole .function, lit "?.",
            opt (ref "type_arguments"), (ref "arguments").inRole .arguments]
          level := .named "member" }] },
    .sided "new_expression" "new" .right [lit "new", ref "primary_expression",
      opt (ref "type_arguments"), opt (ref "arguments")],
    .leveled "await_expression" "unary_void" [lit "await", ref "expression"],
    .leveled "member_expression" "member" [
      (any [ref "expression", ref "primary_expression", ref "import"]).inRole .object,
      any [lit ".", ref "optional_chain"], memberName.inRole .property],
    .sided "subscript_expression" "member" .right [
      (any [ref "expression", ref "primary_expression"]).inRole .object, opt (ref "optional_chain"),
      lit "[", expressions.inRole .index, lit "]"],
    .sided "assignment_expression" "assign" .right [opt (lit "using"),
      any [ref "parenthesized_expression", target], lit "=", ref "expression"],
    .union "augmented_target" [ref "member_expression", ref "subscript_expression", softName,
      identifier, ref "parenthesized_expression", ref "non_null_expression"],
    .sided "augmented_assignment_expression" "assign" .right [ref "augmented_target",
      any (assigningOperators.map lit), ref "expression"],
    { name := "initializer", hidden := true
      alternatives := [{ phrase := seq [lit "=", ref "expression"] }] },
    .union "destructuring_pattern" [ref "object_pattern", ref "array_pattern"],
    .plain "spread_element" [lit "...", ref "expression"],
    .sided "ternary_expression" "ternary" .right [ref "expression", tok .conditionMark,
      (ref "expression").inRole .consequence, lit ":", (ref "expression").inRole .alternative],
    { name := "binary_expression"
      alternatives :=
        leftOperators.map (fun (operator, level) => binary operator level .left (ref "expression")) ++
        [binary "**" "binary_exp" .right (ref "expression"),
          binary "in" "binary_relation" .left
            (any [ref "expression", tok .privateIdentifier])] },
    .sided "unary_expression" "unary_void" .left [
      any (["!", "~", "-", "+", "typeof", "void", "delete"].map lit), ref "expression"],
    .grouped "update_expression" .left [any [
      seq [ref "expression", any [lit "++", lit "--"]],
      seq [any [lit "++", lit "--"], ref "expression"]]],
    .grouped "sequence_expression" .right [listOf (ref "expression") "more_expressions"]]

def operatorLists : List Rule :=
  [laterOf "more_expressions" (ref "expression")]

end StyleAudit.Markup.Grammar
