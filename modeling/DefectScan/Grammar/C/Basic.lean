import DefectScan.Grammar.Rule

/-!
# Words of the grammar of C

The precedence levels of the operators, and rules that many definitions share. The roles named here
are those that later checks ask for: the type, the declarator and the body of a definition.
-/

namespace DefectScan.Grammar.C

open Rule

namespace Level

def assignment : Int := -2
def conditional : Int := -1
def disjunction : Int := 1
def conjunction : Int := 2
def bitOr : Int := 3
def bitXor : Int := 4
def bitAnd : Int := 5
def equality : Int := 6
def comparison : Int := 7
def offset : Int := 8
def shift : Int := 9
def sum : Int := 10
def product : Int := 11
def cast : Int := 12
def size : Int := 13
def unary : Int := 14
def call : Int := 15
def field : Int := 16
def subscript : Int := 17

end Level

/-- The binary operators, with their levels. -/
def binaryOperators : List (String × Int) :=
  [("+", Level.sum), ("-", Level.sum), ("*", Level.product), ("/", Level.product),
    ("%", Level.product), ("||", Level.disjunction), ("&&", Level.conjunction),
    ("|", Level.bitOr), ("^", Level.bitXor), ("&", Level.bitAnd), ("==", Level.equality),
    ("!=", Level.equality), (">", Level.comparison), (">=", Level.comparison),
    ("<=", Level.comparison), ("<", Level.comparison), ("<<", Level.shift), (">>", Level.shift)]

def openBrace : Rule := "\x7b"

def closeBrace : Rule := "\x7d"

/-- A definition whose symbol appears in the tree. -/
def node (name : String) (body : Rule) : Definition := { name, hidden := false, body }

/-- A definition whose symbol leaves its place to its parts. -/
def part (name : String) (body : Rule) : Definition := { name, hidden := true, body }

def identifier : Rule := lexeme .identifier

def typeName : Rule := renamed "type_identifier" identifier

def fieldName : Rule := renamed "field_identifier" identifier

def labelName : Rule := renamed "statement_identifier" identifier

def number : Rule := lexeme .number

def primitiveType : Rule := lexeme .primitiveType

/-- A directive, which appears under its own spelling. -/
def directive (d : Directive) : Rule := renamed ("#" ++ d.word) (lexeme (.directive d))

def ofType (r : Rule) : Rule := role "type" r

def declaring (r : Rule) : Rule := role "declarator" r

def withBody (r : Rule) : Rule := role "body" r

/-- One of several named symbols. -/
def oneOf (names : List String) : Rule := any (names.map var)

/-- One of several words or marks. -/
def words (texts : List String) : Rule := any (texts.map fun (t : String) => (t : Rule))

/-- A symbol under the kind of its plainer relative. -/
def shownAs (kind name : String) : Rule := renamed kind (var name)

def binary (operand : Rule) : Rule :=
  any (binaryOperators.map fun (op, level) => leaningLeft level (all [operand, op, operand]))

def typeQualifiers : Rule := list "_type_qualifiers" (var "type_qualifier")

def attributes : Rule := list "_attribute_specifiers" (var "attribute_specifier")

def blockItems : Rule := list "_block_items" (var "_block_item")

def fieldItems : Rule := list "_field_items" (var "_field_declaration_list_item")

/-- An expression, or several with commas between them. -/
def expressions : Rule := oneOf ["expression", "comma_expression"]

def parenthesizedType : Rule := all ["(", var "type_descriptor", ")"]

end DefectScan.Grammar.C
