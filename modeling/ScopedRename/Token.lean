import ScopedRename.Span

/-! Tokens: classified pieces of a source text, and the words the language reserves. -/

namespace ScopedRename

inductive TokenKind where
  | identifier
  | keyword
  /-- A string, text block or character literal. -/
  | stringLiteral
  | number
  | comment
  | whitespace
  | punctuation
  | other
deriving DecidableEq, Repr, Inhabited

namespace TokenKind

def isTrivia : TokenKind → Bool
  | .whitespace | .comment => true
  | _ => false

def name : TokenKind → String
  | .identifier => "identifier"
  | .keyword => "keyword"
  | .stringLiteral => "string_literal"
  | .number => "number"
  | .comment => "comment"
  | .whitespace => "whitespace"
  | .punctuation => "punctuation"
  | .other => "other"

end TokenKind

structure Lexeme where
  kind : TokenKind
  text : String
deriving DecidableEq, Repr, Inhabited

namespace Lexeme

def isPunctuation (lexeme : Lexeme) (text : String) : Bool :=
  lexeme.kind == .punctuation && lexeme.text == text

def isKeyword (lexeme : Lexeme) (text : String) : Bool :=
  lexeme.kind == .keyword && lexeme.text == text

def isIdentifier (lexeme : Lexeme) : Bool := lexeme.kind == .identifier

def totalBytes : List Lexeme → Nat
  | [] => 0
  | lexeme :: rest => lexeme.text.utf8ByteSize + totalBytes rest

end Lexeme

structure Token extends Lexeme where
  span : Span
deriving DecidableEq, Repr, Inhabited

namespace Token

def layOut : Nat → List Lexeme → List Token
  | _, [] => []
  | start, lexeme :: rest =>
    let stop := start + lexeme.text.utf8ByteSize
    ⟨lexeme, ⟨start, stop⟩⟩ :: layOut stop rest

end Token

/-- Reserved words, with the contextual words treated as reserved and the literals `true`, `false` and `null`. -/
def keywords : List String := [
  "abstract", "assert", "boolean", "break", "byte", "case", "catch", "char", "class", "const", "continue", "default",
  "do", "double", "else", "enum", "extends", "false", "final", "finally", "float", "for", "goto", "if", "implements",
  "import", "instanceof", "int", "interface", "long", "native", "new", "null", "package", "permits", "private",
  "protected", "public", "record", "return", "sealed", "short", "static", "strictfp", "super", "switch",
  "synchronized", "this", "throw", "throws", "transient", "true", "try", "var", "void", "volatile", "while", "yield"]

def isKeyword (word : String) : Bool := keywords.contains word

/-- Keywords that can stand where a type name would. -/
def typeKeywords : List String :=
  ["boolean", "byte", "char", "double", "float", "int", "long", "short", "var", "void"]

def isTypeKeyword (word : String) : Bool := typeKeywords.contains word

end ScopedRename
