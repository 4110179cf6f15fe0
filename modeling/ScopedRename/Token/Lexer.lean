import ScopedRename.Text.Blank
import ScopedRename.Name

/-!
Splitting a text into tokens that cover it without gaps. The reach of a token is the number of characters it takes
after its first one; the scan then takes that many and goes on with what is left.
-/

namespace ScopedRename

inductive Unterminated where
  | string
  | character
  | textBlock
  | comment
deriving DecidableEq, Repr

namespace Unterminated

def name : Unterminated → String
  | .string => "string literal"
  | .character => "character literal"
  | .textBlock => "text block"
  | .comment => "block comment"

end Unterminated

structure LexError where
  kind : Unterminated
  offset : Nat
deriving DecidableEq, Repr

namespace LexError

def message (error : LexError) : String :=
  "unterminated " ++ error.kind.name ++ " starting at byte " ++ toString error.offset

end LexError

namespace Lexer

def commentLength? : List Char → Option Nat
  | [] => none
  | '*' :: '/' :: _ => some 2
  | _ :: rest => (commentLength? rest).map (· + 1)

/-- Characters up to and with the three quotes that close a text block; a backslash hides the character after it. -/
def textBlockLength? : List Char → Option Nat
  | [] => none
  | '"' :: '"' :: '"' :: _ => some 3
  | '\\' :: _ :: rest => (textBlockLength? rest).map (· + 2)
  | _ :: rest => (textBlockLength? rest).map (· + 1)

/-- Characters up to and with the closing quote on the same line; a backslash hides the character after it. -/
def quotedLength? (quote : Char) : List Char → Option Nat
  | [] => none
  | '\\' :: _ :: rest => (quotedLength? quote rest).map (· + 2)
  | c :: rest =>
    if c == '\n' || c == '\r' || c == '\\' then none
    else if c == quote then some 1
    else (quotedLength? quote rest).map (· + 1)

def startsWithDigit : List Char → Bool
  | c :: _ => c.isDigit
  | [] => false

/-- Characters that continue a number after `previous`: letters, digits, underscores, a point before a digit, and the
sign of an exponent unless the number is hexadecimal. -/
def numberLength (hexadecimal : Bool) : Char → List Char → Nat
  | _, [] => 0
  | previous, c :: rest =>
    if c.isAlphanum || c == '_' || (c == '.' && startsWithDigit rest)
        || ((c == '+' || c == '-') && !hexadecimal && (previous == 'e' || previous == 'E')) then
      numberLength hexadecimal c rest + 1
    else
      0

/-- Operators that form one token. Angle brackets always stand alone, so nested type arguments close cleanly. -/
def operators : List (List Char) :=
  ["...", "->", "::", "==", "!=", "<=", ">=", "&&", "||", "++", "--", "+=", "-=", "*=", "/=", "%=", "&=", "|=",
    "^="].map String.toList

def isPunctuationMark (c : Char) : Bool :=
  ('!' ≤ c && c ≤ '/') || (':' ≤ c && c ≤ '@') || ('[' ≤ c && c ≤ Char.ofNat 0x60)
    || (Char.ofNat 0x7b ≤ c && c ≤ '~')

def operatorReach (chars : List Char) : Nat :=
  ((operators.find? (·.isPrefixOf chars)).map (·.length - 1)).getD 0

def wordKind (word : String) : TokenKind := if isKeyword word then .keyword else .identifier

def reach (first : Char) (rest : List Char) : Except Unterminated (TokenKind × Nat) :=
  if Text.isBlank first then
    .ok (.whitespace, (rest.takeWhile Text.isBlank).length)
  else if first == '/' && rest.head? == some '/' then
    .ok (.comment, (rest.takeWhile (· != '\n')).length)
  else if first == '/' && rest.head? == some '*' then
    match commentLength? rest.tail with
    | some length => .ok (.comment, length + 1)
    | none => .error .comment
  else if first == '"' && ['"', '"'].isPrefixOf rest then
    match textBlockLength? (rest.drop 2) with
    | some length => .ok (.stringLiteral, length + 2)
    | none => .error .textBlock
  else if first == '"' then
    match quotedLength? '"' rest with
    | some length => .ok (.stringLiteral, length)
    | none => .error .string
  else if first == '\'' then
    match quotedLength? '\'' rest with
    | some length => .ok (.stringLiteral, length)
    | none => .error .character
  else if Name.isStart first then
    let tail := rest.takeWhile Name.isPart
    .ok (wordKind (String.ofList (first :: tail)), tail.length)
  else if first.isDigit || (first == '.' && startsWithDigit rest) then
    let hexadecimal := first == '0' && (rest.head? == some 'x' || rest.head? == some 'X')
    .ok (.number, numberLength hexadecimal first rest)
  else if isPunctuationMark first then
    .ok (.punctuation, operatorReach (first :: rest))
  else
    .ok (.other, 0)

/-- The lexemes of the text up to its end, or up to a token that never closes. -/
structure Scan where
  lexemes : List Lexeme
  fault : Option Unterminated
deriving DecidableEq, Repr

def scan (chars : List Char) : Scan :=
  match chars with
  | [] => ⟨[], none⟩
  | first :: rest =>
    match reach first rest with
    | .error fault => ⟨[], some fault⟩
    | .ok (kind, count) =>
      let further := scan (rest.drop count)
      ⟨⟨kind, String.ofList (first :: rest.take count)⟩ :: further.lexemes, further.fault⟩
termination_by chars.length
decreasing_by simp only [List.length_drop, List.length_cons]; omega

end Lexer

namespace Token

def ofText (source : String) : Except LexError (List Token) :=
  let scanned := Lexer.scan source.toList
  match scanned.fault with
  | none => .ok (layOut 0 scanned.lexemes)
  | some kind => .error ⟨kind, Lexeme.totalBytes scanned.lexemes⟩

end Token

end ScopedRename
