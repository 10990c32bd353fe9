import DefectScan.Grammar.C.Basic

/-!
# Types, fields and parameters
-/

namespace DefectScan.Grammar.C

open Rule

def sizeWord : Rule := words ["signed", "unsigned", "long", "short"]

/-- A sized type may name the type that it sizes; a name that is not built in is the last resort. -/
def sizedType : Rule := ofType (opt (any [weight (-1) typeName, primitiveType]))

/-- The body of a structure, with or without a name before it. -/
def fieldsOrName : Rule :=
  any
    [all [typeName, withBody (opt (var "field_declaration_list"))],
      withBody (var "field_declaration_list")]

def parameter : Rule := oneOf ["parameter_declaration", "variadic_parameter"]

def fieldDeclarator : Rule :=
  all [declaring (var "_field_declarator"), opt (var "bitfield_clause")]

def types : Definitions :=
  [node "compound_statement" <| all [openBrace, blockItems, closeBrace],
    node "storage_class_specifier" <| words
      ["extern", "static", "auto", "register", "inline", "__inline", "__inline__",
        "__forceinline", "thread_local", "__thread"],
    node "type_qualifier" <| any
      [words
          ["const", "constexpr", "volatile", "restrict", "__restrict__", "__extension__",
            "_Atomic", "_Noreturn", "noreturn", "_Nonnull"],
        var "alignas_qualifier"],
    node "alignas_qualifier" <| all
      [words ["alignas", "_Alignas"], "(", oneOf ["expression", "type_descriptor"], ")"],
    part "type_specifier" <| any
      [oneOf
          ["struct_specifier", "union_specifier", "enum_specifier", "macro_type_specifier",
            "sized_type_specifier"],
        primitiveType, typeName],
    node "sized_type_specifier" <| any
      [all [list "_size_words" sizeWord, sizedType, many "_size_words" sizeWord],
        all [many "_size_words" sizeWord, typeQualifiers, sizedType, list "_size_words" sizeWord]],
    node "enum_specifier" <| all
      ["enum",
        any
          [all
              [typeName, opt (all [":", primitiveType]), withBody (opt (var "enumerator_list"))],
            withBody (var "enumerator_list")],
        opt (var "attribute_specifier")],
    node "enumerator_list" <| all
      [openBrace,
        list "_enumerator_items" <| any
          [all [var "enumerator", ","], shownAs "preproc_if" "preproc_if_in_enumerator_list",
            shownAs "preproc_ifdef" "preproc_ifdef_in_enumerator_list",
            all [var "preproc_call", ","]],
        opt <| any
          [var "enumerator", shownAs "preproc_if" "preproc_if_in_enumerator_list_no_comma",
            shownAs "preproc_ifdef" "preproc_ifdef_in_enumerator_list_no_comma",
            var "preproc_call"],
        closeBrace],
    node "struct_specifier" <| leaningRight 0 <| all
      ["struct", opt (var "attribute_specifier"), opt (var "ms_declspec_modifier"), fieldsOrName,
        opt (var "attribute_specifier")],
    node "union_specifier" <| leaningRight 0 <| all
      ["union", opt (var "ms_declspec_modifier"), fieldsOrName, opt (var "attribute_specifier")],
    node "field_declaration_list" <| all [openBrace, fieldItems, closeBrace],
    part "_field_declaration_list_item" <| any
      [oneOf ["field_declaration", "preproc_def", "preproc_function_def", "preproc_call"],
        shownAs "preproc_if" "preproc_if_in_field_declaration_list",
        shownAs "preproc_ifdef" "preproc_ifdef_in_field_declaration_list"],
    node "field_declaration" <| all
      [var "_declaration_specifiers", opt (var "_field_declaration_declarator"),
        opt (var "attribute_specifier"), ";"],
    part "_field_declaration_declarator" <| commas "_more_field_declarators" fieldDeclarator,
    node "bitfield_clause" <| all [":", var "expression"],
    node "enumerator" <| all [identifier, opt (all ["=", var "expression"])],
    node "variadic_parameter" "...",
    node "parameter_list" <| all
      ["(", any [opt (commas "_more_parameters" parameter), var "compound_statement"], ")"],
    part "_old_style_parameter_list" <| all
      ["(",
        opt (commas "_more_old_style_parameters" (any [identifier, var "variadic_parameter"])),
        ")"],
    node "parameter_declaration" <| all
      [var "_declaration_specifiers",
        opt (declaring (oneOf ["_declarator", "_abstract_declarator"])), attributes]]

end DefectScan.Grammar.C
