import DefectScan.Grammar.C.Basic

/-!
# Items and directives

A source is a list of items: definitions, declarations, statements and preprocessor directives. The
conditional directives come in four families, one for each kind of list they can stand in.
-/

namespace DefectScan.Grammar.C

open Rule

/-- What may stand in a list of items, with `statement` for the statements among them. -/
def item (statement : String) : Rule :=
  any
    [var "function_definition", shownAs "function_definition" "_old_style_function_definition",
      oneOf
        ["linkage_specification", "declaration", statement, "attributed_statement",
          "type_definition", "_empty_declaration", "preproc_if", "preproc_ifdef",
          "preproc_include", "preproc_def", "preproc_function_def", "preproc_call"]]

def lineText : Rule := opt (lexeme .directiveText)

def lineEnd : Rule := lexeme .directiveEnd

/-- The conditional directives around a list of `items`. Outside of the block level they are told
apart by a suffix and appear under the plain names. -/
def conditionals (suffix : String) (precedence : Int) (items : Rule) : Definitions :=
  let ref (name : String) : Rule :=
    if suffix.isEmpty then var name else shownAs name (name ++ suffix)
  let otherwise : Rule :=
    opt (any [ref "preproc_else", ref "preproc_elif", ref "preproc_elifdef"])
  let define (name : String) (parts : List Rule) : Definition :=
    node (name ++ suffix) (level precedence (all parts))
  [define "preproc_if"
      [directive .ifTrue, var "_preproc_expression", lexeme .conditionEnd, items, otherwise,
        directive .endIf],
    define "preproc_ifdef"
      [any [directive .ifDefined, directive .ifUndefined], identifier, items, otherwise,
        directive .endIf],
    define "preproc_else" [directive .otherwise, items],
    define "preproc_elif"
      [directive .otherwiseIf, var "_preproc_expression", lexeme .conditionEnd, items, otherwise],
    define "preproc_elifdef"
      [any [directive .otherwiseIfDefined, directive .otherwiseIfUndefined], identifier, items,
        otherwise]]

def items : Definitions :=
  [node "source_text" (list "_top_level_items" (var "_top_level_item")),
    part "_top_level_item" (item "_top_level_statement"),
    part "_block_item" (item "statement")]

def directives : Definitions :=
  [node "preproc_include" <| all
      [directive .includeFile,
        any
          [var "string_literal", lexeme .systemPath, identifier,
            shownAs "call_expression" "preproc_call_expression"],
        lineEnd],
    node "preproc_def" <| all [directive .define, identifier, lineText, lineEnd],
    node "preproc_function_def" <| all
      [directive .define, identifier, var "preproc_params", lineText, lineEnd],
    node "preproc_params" <| all
      [lexeme .macroParen, opt (commas "_more_macro_parameters" (any [identifier, "..."])), ")"],
    node "preproc_call" <| all [lexeme .otherDirective, lineText, lineEnd]]

/-- The expressions of conditional directives. -/
def directiveExpressions : Definitions :=
  [part "_preproc_expression" <| any
      [identifier, shownAs "call_expression" "preproc_call_expression", number, var "char_literal",
        var "preproc_defined", shownAs "unary_expression" "preproc_unary_expression",
        shownAs "binary_expression" "preproc_binary_expression",
        shownAs "parenthesized_expression" "preproc_parenthesized_expression"],
    node "preproc_parenthesized_expression" <| all ["(", var "_preproc_expression", ")"],
    node "preproc_defined" <| any
      [level Level.call (all ["defined", "(", identifier, ")"]), all ["defined", identifier]],
    node "preproc_unary_expression" <| leaningLeft Level.unary <| all
      [words ["!", "~", "-", "+"], var "_preproc_expression"],
    node "preproc_call_expression" <| level Level.call <| all
      [identifier, shownAs "argument_list" "preproc_argument_list"],
    node "preproc_argument_list" <| all
      ["(", opt (commas "_more_preproc_arguments" (var "_preproc_expression")), ")"],
    node "preproc_binary_expression" <| binary (var "_preproc_expression")]

def preprocessor : Definitions :=
  directives
    ++ conditionals "" 0 blockItems
    ++ conditionals "_in_field_declaration_list" 0 fieldItems
    ++ conditionals "_in_enumerator_list" 0
      (list "_ended_enumerators" (all [var "enumerator", ","]))
    ++ conditionals "_in_enumerator_list_no_comma" (-1) (list "_enumerators" (var "enumerator"))
    ++ directiveExpressions

end DefectScan.Grammar.C
