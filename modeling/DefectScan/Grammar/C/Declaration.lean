import DefectScan.Grammar.C.Basic

/-!
# Definitions, declarations and declarators

A declarator names what is declared and says how it is used: by a pointer, a call or an index. The
same shapes occur around a variable's name, a field's name, a type's name and around no name.
-/

namespace DefectScan.Grammar.C

open Rule

def callModifier : Rule := opt (var "ms_call_modifier")

def declared : Rule :=
  declaring <| any
    [all [callModifier, var "_declaration_declarator", opt (var "gnu_asm_expression")],
      all [callModifier, var "init_declarator"]]

def declarations : Definitions :=
  [node "function_definition" <| all
      [callModifier, var "_declaration_specifiers", callModifier, declaring (var "_declarator"),
        withBody (var "compound_statement")],
    part "_old_style_function_definition" <| all
      [callModifier, var "_declaration_specifiers",
        declaring (shownAs "function_declarator" "_old_style_function_declarator"),
        list "_declarations" (var "declaration"), withBody (var "compound_statement")],
    node "declaration" <| all
      [var "_declaration_specifiers", commas "_more_declarators" declared, ";"],
    part "_declaration_declarator" <| any
      [var "attributed_declarator", var "pointer_declarator",
        shownAs "function_declarator" "_function_declaration_declarator", var "array_declarator",
        var "parenthesized_declarator", identifier],
    node "type_definition" <| all
      [opt "__extension__", "typedef", var "_type_definition_type",
        var "_type_definition_declarators", attributes, ";"],
    part "_type_definition_type" <| all
      [typeQualifiers, ofType (var "type_specifier"), typeQualifiers],
    part "_type_definition_declarators" <|
      commas "_more_type_declarators" (declaring (var "_type_declarator")),
    part "_declaration_modifiers" <| oneOf
      ["storage_class_specifier", "type_qualifier", "attribute_specifier",
        "attribute_declaration", "ms_declspec_modifier"],
    part "_declaration_specifiers" <| leaningRight 0 <| all
      [list "_modifiers" (var "_declaration_modifiers"), ofType (var "type_specifier"),
        list "_modifiers" (var "_declaration_modifiers")],
    node "linkage_specification" <| all
      ["extern", var "string_literal",
        withBody (oneOf ["function_definition", "declaration", "declaration_list"])],
    node "attribute_specifier" <| all
      [words ["__attribute__", "__attribute"], "(", var "argument_list", ")"],
    node "attribute" <| all
      [opt (all [identifier, "::"]), identifier, opt (var "argument_list")],
    node "attribute_declaration" <| all
      ["[[", commas "_more_attributes" (var "attribute"), "]]"],
    node "ms_declspec_modifier" <| all ["__declspec", "(", identifier, ")"],
    node "ms_based_modifier" <| all ["__based", var "argument_list"],
    node "ms_call_modifier" <| words
      ["__cdecl", "__clrcall", "__stdcall", "__fastcall", "__thiscall", "__vectorcall"],
    node "ms_unaligned_ptr_modifier" <| words ["_unaligned", "__unaligned"],
    node "ms_pointer_modifier" <| any
      [var "ms_unaligned_ptr_modifier", renamed "ms_restrict_modifier" "__restrict",
        renamed "ms_unsigned_ptr_modifier" "__uptr", renamed "ms_signed_ptr_modifier" "__sptr"],
    node "declaration_list" <| all [openBrace, blockItems, closeBrace]]

/-- The kinds of declarators that name something. -/
def namingKinds : List String := ["attributed", "pointer", "function", "array", "parenthesized"]

/-- The symbol of a kind of declarator; `of` is empty, `_field` or `_type`. -/
def declaratorName (kind of : String) : String := kind ++ of ++ "_declarator"

/-- A declarator of any kind, or one of the `names`. -/
def declarator (of : String) (names : List Rule) : Definition :=
  part ((if of.isEmpty then "_" else of ++ "_") ++ "declarator") <| any <|
    namingKinds.map (fun kind => shownAs (declaratorName kind "") (declaratorName kind of)) ++ names

def inner (of : String) : Rule := var ((if of.isEmpty then "_" else of ++ "_") ++ "declarator")

def pointerParts : List Rule :=
  ["*", list "_pointer_modifiers" (var "ms_pointer_modifier"), typeQualifiers]

def indexParts : List Rule :=
  ["[", list "_array_qualifiers" (any [var "type_qualifier", "static"]),
    opt (any [var "expression", "*"]), "]"]

def parenthesizedDeclarator (of : String) : Definition :=
  node (declaratorName "parenthesized" of) <| weight (-10) <| all
    ["(", callModifier, inner of, ")"]

def attributedDeclarator (of : String) : Definition :=
  node (declaratorName "attributed" of) <| leaningRight 0 <| all
    [inner of, many "_attribute_declarations" (var "attribute_declaration")]

def pointerDeclarator (of : String) : Definition :=
  node (declaratorName "pointer" of) <| weight 1 <| leaningRight 0 <| all <|
    opt (var "ms_based_modifier") :: pointerParts ++ [declaring (inner of)]

def functionDeclarator (of : String) : Definition :=
  node (declaratorName "function" of) <| level 1 <| all
    [declaring (inner of), var "parameter_list"]

def arrayDeclarator (of : String) : Definition :=
  node (declaratorName "array" of) <| level 1 <| all (declaring (inner of) :: indexParts)

/-- A declarator without a name may also lack an inner declarator. -/
def innermost : Rule := declaring (opt (var "_abstract_declarator"))

def declarators : Definitions :=
  [part "_declarator" <| any
      [var "attributed_declarator", var "pointer_declarator", var "function_declarator",
        var "array_declarator", var "parenthesized_declarator", identifier],
    declarator "_field" [fieldName],
    declarator "_type"
      [typeName, renamed "primitive_type" (words ["signed", "unsigned", "long", "short"]),
        primitiveType],
    part "_abstract_declarator" <| oneOf
      ["abstract_pointer_declarator", "abstract_function_declarator",
        "abstract_array_declarator", "abstract_parenthesized_declarator"],
    parenthesizedDeclarator "", parenthesizedDeclarator "_field", parenthesizedDeclarator "_type",
    node "abstract_parenthesized_declarator" <| level 1 <| all
      ["(", callModifier, var "_abstract_declarator", ")"],
    attributedDeclarator "", attributedDeclarator "_field", attributedDeclarator "_type",
    pointerDeclarator "", pointerDeclarator "_field", pointerDeclarator "_type",
    node "abstract_pointer_declarator" <| weight 1 <| leaningRight 0 <| all <|
      pointerParts ++ [innermost],
    node "function_declarator" <| leaningRight 1 <| all
      [declaring (var "_declarator"), var "parameter_list", opt (var "gnu_asm_expression"),
        list "_declarator_tails" <| any
          [var "attribute_specifier", identifier,
            shownAs "call_expression" "preproc_call_expression"]],
    part "_function_declaration_declarator" <| leaningRight 1 <| all
      [declaring (var "_declarator"), var "parameter_list", opt (var "gnu_asm_expression"),
        attributes],
    functionDeclarator "_field", functionDeclarator "_type",
    node "abstract_function_declarator" <| level 1 <| all [innermost, var "parameter_list"],
    part "_old_style_function_declarator" <| all
      [declaring (var "_declarator"), shownAs "parameter_list" "_old_style_parameter_list"],
    arrayDeclarator "", arrayDeclarator "_field", arrayDeclarator "_type",
    node "abstract_array_declarator" <| level 1 <| all (innermost :: indexParts),
    node "init_declarator" <| all
      [declaring (var "_declarator"), "=", oneOf ["initializer_list", "expression"]]]

end DefectScan.Grammar.C
