import DefectScan.Grammar.C.Statement

/-!
# Expressions and literals
-/

namespace DefectScan.Grammar.C

open Rule

def expression : Rule := var "expression"

/-- What may stand before an assignment operator. -/
def assignable : Rule :=
  any
    [identifier,
      oneOf
        ["call_expression", "field_expression", "pointer_expression", "subscript_expression",
          "parenthesized_expression"]]

def assignmentOperators : List String :=
  ["=", "*=", "/=", "%=", "+=", "-=", "<<=", ">>=", "&=", "^=", "|="]

def operators : Definitions :=
  [part "expression" <| any [plainExpression, var "binary_expression"],
    part "_string" <| leaningLeft 0 <| oneOf ["string_literal", "concatenated_string"],
    node "comma_expression" <| all [expression, ",", expressions],
    node "conditional_expression" <| leaningRight Level.conditional <| all
      [expression, "?", opt expressions, ":", expression],
    node "assignment_expression" <| leaningRight Level.assignment <| all
      [assignable, words assignmentOperators, expression],
    node "pointer_expression" <| leaningLeft Level.cast <| all [words ["*", "&"], expression],
    node "unary_expression" <| leaningLeft Level.unary <| all
      [words ["!", "~", "-", "+"], expression],
    node "binary_expression" <| binary expression,
    node "update_expression" <| leaningRight Level.unary <| any
      [all [words ["--", "++"], expression], all [expression, words ["--", "++"]]],
    node "cast_expression" <| level Level.cast <| all
      ["(", ofType (var "type_descriptor"), ")", expression],
    node "type_descriptor" <| all
      [typeQualifiers, ofType (var "type_specifier"), typeQualifiers,
        declaring (opt (var "_abstract_declarator"))],
    node "sizeof_expression" <| level Level.size <| all
      ["sizeof", any [expression, parenthesizedType]],
    node "alignof_expression" <| level Level.size <| all
      [words ["__alignof__", "__alignof", "_alignof", "alignof", "_Alignof"], parenthesizedType],
    node "offsetof_expression" <| level Level.offset <| all
      ["offsetof", "(", ofType (var "type_descriptor"), ",", fieldName, ")"],
    node "generic_expression" <| level Level.call <| all
      ["_Generic", "(", expression, ",",
        commas "_more_generic_choices" (all [var "type_descriptor", ":", expression]), ")"],
    node "subscript_expression" <| level Level.subscript <| all
      [expression, "[", expression, "]"],
    node "call_expression" <| level Level.call <| all [expression, var "argument_list"]]

def asmOperand : Rule :=
  all [opt (all ["[", identifier, "]"]), var "string_literal", "(", expression, ")"]

/-- A list of an `asm` expression, opened by a colon. -/
def asmList (name : String) (item : Rule) : Rule := all [":", opt (commas name item)]

def assembly : Definitions :=
  [node "gnu_asm_expression" <| level Level.call <| all
      [words ["asm", "__asm__", "__asm"], list "_asm_qualifiers" (var "gnu_asm_qualifier"), "(",
        var "_string",
        opt <| all
          [var "gnu_asm_output_operand_list",
            opt <| all
              [var "gnu_asm_input_operand_list",
                opt <| all [var "gnu_asm_clobber_list", opt (var "gnu_asm_goto_list")]]],
        ")"],
    node "gnu_asm_qualifier" <| words ["volatile", "__volatile__", "inline", "goto"],
    node "gnu_asm_output_operand_list" <|
      asmList "_more_asm_outputs" (var "gnu_asm_output_operand"),
    node "gnu_asm_output_operand" asmOperand,
    node "gnu_asm_input_operand_list" <| asmList "_more_asm_inputs" (var "gnu_asm_input_operand"),
    node "gnu_asm_input_operand" asmOperand,
    node "gnu_asm_clobber_list" <| asmList "_more_asm_clobbers" (var "_string"),
    node "gnu_asm_goto_list" <| asmList "_more_asm_labels" identifier]

/-- An argument may also be a block, for the sake of function-like macros. -/
def argument : Rule := oneOf ["expression", "compound_statement"]

def initializer : Rule := oneOf ["initializer_pair", "expression", "initializer_list"]

def initialValue : Rule := oneOf ["expression", "initializer_list"]

def designator : Rule :=
  oneOf ["subscript_designator", "field_designator", "subscript_range_designator"]

def primaries : Definitions :=
  [node "extension_expression" <| all ["__extension__", expression],
    node "argument_list" <| all ["(", opt (commas "_more_arguments" argument), ")"],
    node "field_expression" <| all
      [level Level.field (all [expression, words [".", "->"]]), fieldName],
    node "compound_literal_expression" <| all
      ["(", ofType (var "type_descriptor"), ")", var "initializer_list"],
    node "parenthesized_expression" <| all
      ["(", oneOf ["expression", "comma_expression", "compound_statement"], ")"],
    node "initializer_list" <| all
      [openBrace, opt (commas "_more_initializers" initializer), opt ",", closeBrace],
    node "initializer_pair" <| any
      [all [many "_designators" designator, "=", initialValue],
        all [fieldName, ":", initialValue]],
    node "subscript_designator" <| all ["[", expression, "]"],
    node "subscript_range_designator" <| all ["[", expression, "...", expression, "]"],
    node "field_designator" <| all [".", fieldName]]

def literals : Definitions :=
  [node "char_literal" <| all
      [words ["L'", "u'", "U'", "u8'", "'"],
        many "_characters" (any [lexeme .escape, renamed "character" (lexeme .character)]), "'"],
    node "concatenated_string" <| leaningRight 0 <| all
      [any
          [all [identifier, var "string_literal"],
            all [var "string_literal", var "string_literal"],
            all [var "string_literal", identifier]],
        list "_more_strings" (any [var "string_literal", identifier])],
    node "string_literal" <| all
      [words ["L\"", "u\"", "U\"", "u8\"", "\""],
        list "_string_pieces"
          (any [renamed "string_content" (lexeme .stringText), lexeme .escape]),
        "\""],
    node "null" <| words ["NULL", "nullptr"],
    part "_empty_declaration" <| all [var "type_specifier", ";"],
    node "macro_type_specifier" <| weight (-1) <| all
      [identifier, "(", ofType (var "type_descriptor"), ")"]]

end DefectScan.Grammar.C
