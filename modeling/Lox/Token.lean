import Lox.Number

/-!
# Tokens

The words of the language: punctuation and keywords with a fixed spelling, identifiers, the two
sorts of literal, and the end of the input. Only a literal carries a value, and two kinds agree when
they differ in nothing but such values.
-/

set_option autoImplicit false

namespace Lox

/-- Marks and operators. -/
inductive Punctuation where
  | leftParen
  | rightParen
  | leftBrace
  | rightBrace
  | comma
  | dot
  | minus
  | plus
  | semicolon
  | slash
  | star
  | bang
  | bangEqual
  | equal
  | equalEqual
  | greater
  | greaterEqual
  | less
  | lessEqual
  deriving DecidableEq, Repr

/-- Reserved words. -/
inductive Keyword where
  | and
  | «class»
  | else
  | false
  | fun
  | for
  | if
  | nil
  | or
  | print
  | return
  | super
  | this
  | true
  | var
  | while
  deriving DecidableEq, Repr

/-- What a token is, with the value of a literal. -/
inductive Kind where
  | punctuation (mark : Punctuation)
  | keyword (word : Keyword)
  | identifier
  | string (contents : String)
  | number (value : Float)
  /-- The end of the input. -/
  | eof

/-- A word of the source and the line on which it ends. -/
structure Token where
  kind : Kind
  lexeme : String
  line : Nat

namespace Punctuation

/-- All marks and operators. -/
def all : List Punctuation :=
  [.leftParen, .rightParen, .leftBrace, .rightBrace, .comma, .dot, .minus, .plus, .semicolon,
   .slash, .star, .bang, .bangEqual, .equal, .equalEqual, .greater, .greaterEqual, .less,
   .lessEqual]

/-- How a mark is written. -/
def spelling : Punctuation → String
  | .leftParen => "("
  | .rightParen => ")"
  | .leftBrace => "\x7b"
  | .rightBrace => "\x7d"
  | .comma => ","
  | .dot => "."
  | .minus => "-"
  | .plus => "+"
  | .semicolon => ";"
  | .slash => "/"
  | .star => "*"
  | .bang => "!"
  | .bangEqual => "!="
  | .equal => "="
  | .equalEqual => "=="
  | .greater => ">"
  | .greaterEqual => ">="
  | .less => "<"
  | .lessEqual => "<="

/-- The name of a mark in a listing. -/
def name : Punctuation → String
  | .leftParen => "LEFT_PAREN"
  | .rightParen => "RIGHT_PAREN"
  | .leftBrace => "LEFT_BRACE"
  | .rightBrace => "RIGHT_BRACE"
  | .comma => "COMMA"
  | .dot => "DOT"
  | .minus => "MINUS"
  | .plus => "PLUS"
  | .semicolon => "SEMICOLON"
  | .slash => "SLASH"
  | .star => "STAR"
  | .bang => "BANG"
  | .bangEqual => "BANG_EQUAL"
  | .equal => "EQUAL"
  | .equalEqual => "EQUAL_EQUAL"
  | .greater => "GREATER"
  | .greaterEqual => "GREATER_EQUAL"
  | .less => "LESS"
  | .lessEqual => "LESS_EQUAL"

end Punctuation

namespace Keyword

/-- All reserved words. -/
def all : List Keyword :=
  [.and, .class, .else, .false, .fun, .for, .if, .nil, .or, .print, .return, .super, .this,
   .true, .var, .while]

/-- How a reserved word is written. -/
def spelling : Keyword → String
  | .and => "and"
  | .class => "class"
  | .else => "else"
  | .false => "false"
  | .fun => "fun"
  | .for => "for"
  | .if => "if"
  | .nil => "nil"
  | .or => "or"
  | .print => "print"
  | .return => "return"
  | .super => "super"
  | .this => "this"
  | .true => "true"
  | .var => "var"
  | .while => "while"

/-- The name of a reserved word in a listing. -/
def name : Keyword → String
  | .and => "AND"
  | .class => "CLASS"
  | .else => "ELSE"
  | .false => "FALSE"
  | .fun => "FUN"
  | .for => "FOR"
  | .if => "IF"
  | .nil => "NIL"
  | .or => "OR"
  | .print => "PRINT"
  | .return => "RETURN"
  | .super => "SUPER"
  | .this => "THIS"
  | .true => "TRUE"
  | .var => "VAR"
  | .while => "WHILE"

/-- The reserved word that is written so, if there is one. -/
def ofSpelling? (word : String) : Option Keyword :=
  all.find? fun keyword => keyword.spelling == word

end Keyword

namespace Kind

/-- The name of a kind in a listing. -/
def name : Kind → String
  | .punctuation mark => mark.name
  | .keyword word => word.name
  | .identifier => "IDENTIFIER"
  | .string _ => "STRING"
  | .number _ => "NUMBER"
  | .eof => "EOF"

/-- Whether two kinds are the same but for the values of literals. -/
def agrees : Kind → Kind → Bool
  | .punctuation a, .punctuation b => a == b
  | .keyword a, .keyword b => a == b
  | .identifier, .identifier => true
  | .string _, .string _ => true
  | .number _, .number _ => true
  | .eof, .eof => true
  | _, _ => false

end Kind

namespace Token

/-- Whether two tokens are the same but for the values of literals. -/
def agrees (a b : Token) : Bool :=
  a.kind.agrees b.kind && a.lexeme == b.lexeme && a.line == b.line

/-- The value of a literal in a listing. -/
def literal (token : Token) : String :=
  match token.kind with
  | .string contents => contents
  | .number value => Number.listed value
  | _ => "null"

/-- A line of a listing: kind, lexeme and literal. -/
def listed (token : Token) : String :=
  token.kind.name ++ " " ++ token.lexeme ++ " " ++ token.literal

end Token

end Lox
