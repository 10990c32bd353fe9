import DefectScan.Grammar.C.Basic

/-!
# Statements

Statements are also items at file scope, with one difference: an expression statement there is not
a binary expression, since `a * b;` is read as a declaration.
-/

namespace DefectScan.Grammar.C

open Rule

/-- Statements that read alike inside and outside of functions. -/
def commonStatements : List String :=
  ["if_statement", "switch_statement", "do_statement", "while_statement", "for_statement",
    "return_statement", "break_statement", "continue_statement", "goto_statement"]

/-- Statements that may follow a `case` label without ending its list. -/
def nonCaseStatement : Rule :=
  oneOf <|
    ["attributed_statement", "labeled_statement", "compound_statement", "expression_statement"]
      ++ commonStatements ++ ["seh_try_statement", "seh_leave_statement"]

/-- The expressions other than binary ones. -/
def plainExpression : Rule :=
  any
    [oneOf
        ["conditional_expression", "assignment_expression", "unary_expression",
          "update_expression", "cast_expression", "pointer_expression", "sizeof_expression",
          "alignof_expression", "offsetof_expression", "generic_expression",
          "subscript_expression", "call_expression", "field_expression",
          "compound_literal_expression"],
      identifier, number, var "_string", lexeme .trueWord, lexeme .falseWord, var "null",
      oneOf ["char_literal", "parenthesized_expression", "gnu_asm_expression",
        "extension_expression"]]

def condition : Rule := var "parenthesized_expression"

def block : Rule := withBody (var "compound_statement")

def loopBody : Rule := withBody (var "statement")

def statements : Definitions :=
  [node "attributed_statement" <| all
      [many "_attribute_declarations" (var "attribute_declaration"), var "statement"],
    part "statement" <| any [var "case_statement", nonCaseStatement],
    part "_top_level_statement" <| any
      [oneOf ["case_statement", "attributed_statement", "labeled_statement",
          "compound_statement"],
        shownAs "expression_statement" "_top_level_expression_statement", oneOf commonStatements],
    node "labeled_statement" <| all [labelName, ":", oneOf ["declaration", "statement"]],
    part "_top_level_expression_statement" <| all [opt plainExpression, ";"],
    node "expression_statement" <| all [opt expressions, ";"],
    node "if_statement" <| leaningRight 0 <| all
      ["if", condition, var "statement", opt (var "else_clause")],
    node "else_clause" <| all ["else", var "statement"],
    node "switch_statement" <| all ["switch", condition, block],
    node "case_statement" <| leaningRight 0 <| all
      [any [all ["case", var "expression"], "default"], ":",
        list "_case_items" (any [nonCaseStatement, var "declaration", var "type_definition"])],
    node "while_statement" <| all ["while", condition, loopBody],
    node "do_statement" <| all ["do", loopBody, "while", condition, ";"],
    node "for_statement" <| all ["for", "(", var "_for_statement_body", ")", loopBody],
    part "_for_statement_body" <| all
      [any [var "declaration", all [opt expressions, ";"]], opt expressions, ";",
        opt expressions],
    node "return_statement" <| all ["return", opt expressions, ";"],
    node "break_statement" <| all ["break", ";"],
    node "continue_statement" <| all ["continue", ";"],
    node "goto_statement" <| all ["goto", labelName, ";"],
    node "seh_try_statement" <| all
      ["__try", block, oneOf ["seh_except_clause", "seh_finally_clause"]],
    node "seh_except_clause" <| all ["__except", condition, block],
    node "seh_finally_clause" <| all ["__finally", block],
    node "seh_leave_statement" <| all ["__leave", ";"]]

end DefectScan.Grammar.C
