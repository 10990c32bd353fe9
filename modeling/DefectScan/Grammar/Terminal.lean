/-!
# Terminals

The terminal symbols of a grammar: the end of the input, words and punctuation marks spelled out,
and the classes of tokens that are known by their shape.
-/

namespace DefectScan.Grammar

/-- The conditional and file directives that have rules of their own. -/
inductive Directive
  | includeFile
  | define
  | ifTrue
  | endIf
  | ifDefined
  | ifUndefined
  | otherwise
  | otherwiseIf
  | otherwiseIfDefined
  | otherwiseIfUndefined
deriving DecidableEq, Repr

def Directive.word : Directive → String
  | .includeFile => "include"
  | .define => "define"
  | .ifTrue => "if"
  | .endIf => "endif"
  | .ifDefined => "ifdef"
  | .ifUndefined => "ifndef"
  | .otherwise => "else"
  | .otherwiseIf => "elif"
  | .otherwiseIfDefined => "elifdef"
  | .otherwiseIfUndefined => "elifndef"

/-- Tokens known by their shape. -/
inductive LexemeClass
  /-- A name, or a word that turns out not to be a keyword where it stands. -/
  | identifier
  | number
  /-- A directive that the grammar treats by its name. -/
  | directive (d : Directive)
  /-- Any other directive. -/
  | otherDirective
  /-- The rest of a directive's line. -/
  | directiveText
  /-- The line end that closes a directive, with nothing before it. -/
  | directiveEnd
  /-- The line end after the condition of a directive. -/
  | conditionEnd
  /-- The parenthesis that stands directly behind the name of a macro. -/
  | macroParen
  /-- One character of a character literal. -/
  | character
  /-- A piece of a string literal without escapes. -/
  | stringText
  | escape
  /-- A file name in angle brackets. -/
  | systemPath
  /-- The name of a built-in type. -/
  | primitiveType
  | trueWord
  | falseWord
  | comment
deriving DecidableEq, Repr

inductive Terminal
  | endOfInput
  | literal (text : String)
  | lexeme (c : LexemeClass)
deriving DecidableEq, Repr

namespace LexemeClass

/-- The kind of the tree node that a token of the class becomes. -/
def kind : LexemeClass → String
  | identifier => "identifier"
  | number => "number_literal"
  | directive d => "#" ++ d.word
  | otherDirective => "preproc_directive"
  | directiveText => "preproc_arg"
  | directiveEnd => "line end"
  | conditionEnd => "\n"
  | macroParen => "("
  | character => "character"
  | stringText => "string_content"
  | escape => "escape_sequence"
  | systemPath => "system_lib_string"
  | primitiveType => "primitive_type"
  | trueWord => "true"
  | falseWord => "false"
  | comment => "comment"

/-- Tokens that leave no node unless a rule gives them a name. -/
def hidden : LexemeClass → Bool
  | directive _ | directiveEnd | character | stringText => true
  | _ => false

/-- Tokens that are recognised only where no blank comes before them. -/
def adjacent : LexemeClass → Bool
  | directiveEnd | macroParen | character | stringText => true
  | _ => false

/-- Of two classes that match at one place, the one with the higher rank is taken. -/
def rank : LexemeClass → Int
  | directiveText => -1
  | stringText | escape => 1
  | _ => 0

/-- Of two tokens of one rank and length, the one with the higher preference is taken. -/
def preference : LexemeClass → Nat
  | conditionEnd => 2
  | macroParen => 3
  | directive _ | directiveEnd | character | stringText => 1
  | _ => 0

/-- The words that make up a class of keywords. -/
def words : LexemeClass → List String
  | primitiveType =>
    ["bool", "char", "int", "float", "double", "void", "size_t", "ssize_t", "ptrdiff_t",
      "intptr_t", "uintptr_t", "charptr_t", "nullptr_t", "max_align_t",
      "int8_t", "int16_t", "int32_t", "int64_t", "uint8_t", "uint16_t", "uint32_t", "uint64_t",
      "char8_t", "char16_t", "char32_t", "char64_t"]
  | trueWord => ["TRUE", "true"]
  | falseWord => ["FALSE", "false"]
  | _ => []

end LexemeClass

namespace Terminal

def kind : Terminal → String
  | endOfInput => "end"
  | literal text => text
  | lexeme c => c.kind

def visible : Terminal → Bool
  | lexeme c => !c.hidden
  | literal _ => true
  | endOfInput => false

/-- Whether the token has a name of its own, beyond its spelling. -/
def named : Terminal → Bool
  | lexeme .conditionEnd | lexeme .macroParen => false
  | lexeme _ => true
  | _ => false

end Terminal

end DefectScan.Grammar
