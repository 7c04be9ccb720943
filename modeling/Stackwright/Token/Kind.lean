/-! The kinds of token: reserved words, marks, the classes of literal, and the two that stand
for no text, the end of the file and text that is no token. -/

set_option autoImplicit false

namespace Stackwright

/-- A reserved word. -/
inductive Keyword where
  | mainWord | funcWord | immWord | mutWord | printWord | callWord | ifWord | elseWord
  | returnWord | intWord | boolWord | voidWord | trueWord | falseWord
  deriving DecidableEq, Repr

namespace Keyword

def text : Keyword → String
  | .mainWord => "main"
  | .funcWord => "func"
  | .immWord => "imm"
  | .mutWord => "mut"
  | .printWord => "print"
  | .callWord => "call"
  | .ifWord => "if"
  | .elseWord => "else"
  | .returnWord => "return"
  | .intWord => "int"
  | .boolWord => "bool"
  | .voidWord => "void"
  | .trueWord => "true"
  | .falseWord => "false"

def all : List Keyword :=
  [.mainWord, .funcWord, .immWord, .mutWord, .printWord, .callWord, .ifWord, .elseWord,
    .returnWord, .intWord, .boolWord, .voidWord, .trueWord, .falseWord]

/-- The reserved word with exactly this spelling. -/
def ofText? (text : String) : Option Keyword :=
  all.find? fun word => word.text == text

end Keyword

/-- An operator, delimiter or print mark. -/
inductive Mark where
  | plus | minus | star | greater | assign | comma | semicolon
  | leftParen | rightParen | leftBrace | rightBrace | newline | space
  deriving DecidableEq, Repr

def Mark.text : Mark → String
  | .plus => "+"
  | .minus => "-"
  | .star => "*"
  | .greater => ">"
  | .assign => ":="
  | .comma => ","
  | .semicolon => ";"
  | .leftParen => "("
  | .rightParen => ")"
  | .leftBrace => "\x7b"
  | .rightBrace => "\x7d"
  | .newline => "\\n"
  | .space => "\\s"

inductive Kind where
  | intLiteral
  | floatLiteral
  | charLiteral
  | stringLiteral
  | identifier
  | keyword (word : Keyword)
  | mark (mark : Mark)
  | endOfFile
  | invalid
  deriving DecidableEq, Repr

namespace Kind

/-- Whether a token of the kind is a reserved word; with `isType`, for callers that show tokens. -/
def isKeyword : Kind → Bool
  | .keyword _ => true
  | _ => false

/-- Whether a token of the kind is a literal by itself. -/
def isLiteral : Kind → Bool
  | .intLiteral | .floatLiteral | .charLiteral | .stringLiteral => true
  | .keyword .trueWord | .keyword .falseWord => true
  | _ => false

/-- Whether a token of the kind names a type. -/
def isType : Kind → Bool
  | .keyword .intWord | .keyword .boolWord | .keyword .voidWord => true
  | _ => false

/-- The words for the kind in messages. -/
def description : Kind → String
  | .intLiteral => "integer literal"
  | .floatLiteral => "float literal"
  | .charLiteral => "character literal"
  | .stringLiteral => "string literal"
  | .identifier => "identifier"
  | .keyword word => "'" ++ word.text ++ "'"
  | .mark sign => "'" ++ sign.text ++ "'"
  | .endOfFile => "end of file"
  | .invalid => "invalid token"

end Kind

end Stackwright
