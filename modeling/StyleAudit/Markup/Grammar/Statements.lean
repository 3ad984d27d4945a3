import StyleAudit.Markup.Grammar.Names

/-!
# Statements

Sources, imports and exports, declarations of names, and the statements that direct the flow.
-/

namespace StyleAudit.Markup.Grammar

open Phrase

def exportClause : Phrase :=
  any [seq [lit "*", ref "from_clause"], seq [ref "namespace_export", ref "from_clause"],
    seq [ref "export_clause", ref "from_clause"], ref "export_clause"]

def exportedDeclaration : Phrase :=
  any [ref "declaration",
    seq [lit "default", any [ref "declaration", seq [ref "expression", semicolon]]]]

/-- The words that mark an import or export of types. -/
def typeMark : Phrase :=
  any [lit "type", lit "typeof"]

def moduleRules : List Rule :=
  [.plain "program" [opt ((tok .interpreterLine).shown "hash_bang_line"), opt (ref "statements")],
    .plain "export_statement" [any [
      seq [lit "export", exportClause, semicolon],
      seq [opt (ref "decorators"), lit "export", exportedDeclaration],
      seq [lit "export", lit "type", ref "export_clause", opt (ref "from_clause"), semicolon],
      seq [lit "export", lit "import", ref "import_alias"],
      seq [lit "export", lit "=", ref "expression", semicolon],
      seq [lit "export", lit "as", lit "namespace", identifier, semicolon]]],
    .plain "namespace_export" [lit "*", lit "as", ref "module_export_name"],
    .plain "export_clause" [openBrace, opt (listOf (ref "export_specifier") "more_exports"),
      opt (lit ","), closeBrace],
    .plain "export_specifier" [opt typeMark, ref "module_export_name",
      opt (seq [lit "as", ref "module_export_name"])],
    .union "module_export_name" [identifier, ref "string"],
    { name := "declaration", hidden := true
      alternatives := [
        { phrase := any [ref "function_declaration", ref "generator_function_declaration",
            ref "class_declaration", ref "lexical_declaration", ref "variable_declaration",
            ref "function_signature", ref "abstract_class_declaration", ref "module",
            ref "type_alias_declaration", ref "enum_declaration", ref "interface_declaration",
            ref "import_alias", ref "ambient_declaration"] },
        { phrase := ref "internal_module", level := .named "declaration" }] },
    .plain "import" [lit "import"],
    .plain "import_statement" [lit "import", opt typeMark,
      any [seq [ref "import_clause", ref "from_clause"], ref "import_require_clause",
        (ref "string").inRole .source],
      opt (ref "import_attribute"), semicolon],
    .plain "import_clause" [any [ref "namespace_import", ref "named_imports",
      seq [ref "import_identifier",
        opt (seq [lit ",", any [ref "namespace_import", ref "named_imports"]])]]],
    { name := "from_clause", hidden := true
      alternatives := [{ phrase := seq [lit "from", (ref "string").inRole .source] }] },
    .plain "namespace_import" [lit "*", lit "as", identifier],
    .plain "named_imports" [openBrace, opt (listOf (ref "import_specifier") "more_imports"),
      opt (lit ","), closeBrace],
    .plain "import_specifier" [opt typeMark, any [ref "import_identifier",
      seq [any [ref "module_export_name", (lit "type").shown "identifier"], lit "as",
        ref "import_identifier"]]],
    .plain "import_attribute" [lit "with", ref "object"]]

/-- The first part of the head of a loop over steps. -/
def loopStart : Phrase :=
  any [ref "lexical_declaration", ref "variable_declaration", seq [expressions, lit ";"],
    ref "empty_statement"]

/-- What a loop over the members of a value binds. -/
def loopBinder : Phrase :=
  any [target, ref "parenthesized_expression",
    seq [lit "var", binder, opt (ref "initializer")],
    seq [any [lit "let", lit "const"], binder, opt (tok .impliedEnd)]]

def statementRules : List Rule :=
  [.union "statement" [ref "export_statement", ref "import_statement", ref "debugger_statement",
      ref "expression_statement", ref "declaration", ref "statement_block", ref "if_statement",
      ref "switch_statement", ref "for_statement", ref "for_in_statement", ref "while_statement",
      ref "do_statement", ref "try_statement", ref "with_statement", ref "break_statement",
      ref "continue_statement", ref "return_statement", ref "throw_statement", ref "empty_statement",
      ref "labeled_statement"],
    .plain "expression_statement" [expressions, semicolon],
    .plain "variable_declaration" [lit "var", listOf (ref "variable_declarator") "more_declarators",
      semicolon],
    .plain "lexical_declaration" [any [lit "let", lit "const"],
      listOf (ref "variable_declarator") "more_declarators", semicolon],
    { name := "variable_declarator"
      alternatives := [
        { phrase := seq [binder, opt (ref "type_annotation"), opt (ref "initializer")] },
        { phrase := seq [identifier, lit "!", ref "type_annotation"]
          level := .named "declaration" }] },
    .grouped "statement_block" .right [openBrace, opt (ref "statements"), closeBrace,
      opt (tok .impliedEnd)],
    .plain "else_clause" [lit "else", ref "statement"],
    .grouped "if_statement" .right [lit "if", ref "parenthesized_expression", ref "statement",
      opt (ref "else_clause")],
    .plain "switch_statement" [lit "switch", ref "parenthesized_expression", ref "switch_body"],
    .plain "for_statement" [lit "for", lit "(", loopStart,
      any [seq [expressions, lit ";"], ref "empty_statement"], opt expressions, lit ")",
      ref "statement"],
    .plain "for_in_statement" [lit "for", opt (lit "await"), ref "for_header", ref "statement"],
    { name := "for_header", hidden := true
      alternatives := [{ phrase := seq [lit "(", loopBinder, any [lit "in", lit "of"], expressions,
        lit ")"] }] },
    .plain "while_statement" [lit "while", ref "parenthesized_expression", ref "statement"],
    .grouped "do_statement" .right [lit "do", ref "statement", lit "while",
      ref "parenthesized_expression", opt semicolon],
    .plain "try_statement" [lit "try", ref "statement_block", opt (ref "catch_clause"),
      opt (ref "finally_clause")],
    .plain "with_statement" [lit "with", ref "parenthesized_expression", ref "statement"],
    .plain "break_statement" [lit "break", opt (identifier.shown "statement_identifier"), semicolon],
    .plain "continue_statement" [lit "continue", opt (identifier.shown "statement_identifier"),
      semicolon],
    .plain "debugger_statement" [lit "debugger", semicolon],
    .plain "return_statement" [lit "return", opt expressions, semicolon],
    .plain "throw_statement" [lit "throw", expressions, semicolon],
    .plain "empty_statement" [lit ";"],
    .light "labeled_statement" [anyName.shown "statement_identifier", lit ":", ref "statement"],
    .plain "switch_body" [openBrace, opt (ref "cases"), closeBrace],
    .plain "switch_case" [lit "case", expressions, lit ":", opt (ref "statements")],
    .plain "switch_default" [lit "default", lit ":", opt (ref "statements")],
    .plain "catch_clause" [lit "catch", opt (seq [lit "(", binder, opt (ref "type_annotation"),
      lit ")"]), ref "statement_block"],
    .plain "finally_clause" [lit "finally", ref "statement_block"]]

def statementLists : List Rule :=
  [.many "statements" (ref "statement"),
    laterOf "more_exports" (ref "export_specifier"),
    laterOf "more_imports" (ref "import_specifier"),
    laterOf "more_declarators" (ref "variable_declarator"),
    .many "cases" (any [ref "switch_case", ref "switch_default"])]

end StyleAudit.Markup.Grammar
