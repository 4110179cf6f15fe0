import ScopedRename.Layout

/-!
Code is the sequence of words of a source, its tokens without blanks and comments, with every round, square and curly
delimiter paired. Words are addressed by their position in that sequence.
-/

namespace ScopedRename

inductive Delimiter where
  | round
  | square
  | curly
deriving DecidableEq, Repr

namespace Delimiter

def opener : Delimiter → Char
  | .round => '('
  | .square => '['
  | .curly => Char.ofNat 0x7b

def closer : Delimiter → Char
  | .round => ')'
  | .square => ']'
  | .curly => Char.ofNat 0x7d

end Delimiter

def openBrace : String := "\x7b"

def closeBrace : String := "\x7d"

namespace Lexeme

def opens? (word : Lexeme) : Option Delimiter :=
  if word.kind != .punctuation then none
  else if word.text == "(" then some .round
  else if word.text == "[" then some .square
  else if word.text == openBrace then some .curly
  else none

def closes? (word : Lexeme) : Option Delimiter :=
  if word.kind != .punctuation then none
  else if word.text == ")" then some .round
  else if word.text == "]" then some .square
  else if word.text == closeBrace then some .curly
  else none

end Lexeme

/-- Delimiters that do not balance. The place is a word position in code and a byte offset in a report. -/
inductive BracketFault where
  | unexpectedCloser (place : Nat) (found : Delimiter)
  | mismatched (place : Nat) (expected found : Delimiter)
  | unclosed (place : Nat) (opened : Delimiter)
deriving DecidableEq, Repr

namespace BracketFault

def place : BracketFault → Nat
  | .unexpectedCloser place _ => place
  | .mismatched place _ _ => place
  | .unclosed place _ => place

def relocate (renumber : Nat → Nat) : BracketFault → BracketFault
  | .unexpectedCloser place found => .unexpectedCloser (renumber place) found
  | .mismatched place expected found => .mismatched (renumber place) expected found
  | .unclosed place opened => .unclosed (renumber place) opened

private def quoted (c : Char) : String := "'" ++ String.singleton c ++ "'"

def message : BracketFault → String
  | .unexpectedCloser place found => "unexpected " ++ quoted found.closer ++ " at byte " ++ toString place
  | .mismatched place expected found =>
    "expected " ++ quoted expected.closer ++ " but found " ++ quoted found.closer ++ " at byte " ++ toString place
  | .unclosed place opened => quoted opened.opener ++ " at byte " ++ toString place ++ " is never closed"

end BracketFault

/-- The opener and closer positions of every group, when `pending` holds the groups still open, innermost first. -/
def bracketPairs : Nat → List (Nat × Delimiter) → List Lexeme → Except BracketFault (List (Nat × Nat))
  | _, [], [] => .ok []
  | _, (opener, delimiter) :: _, [] => .error (.unclosed opener delimiter)
  | position, pending, word :: rest =>
    match word.opens?, word.closes? with
    | some delimiter, _ => bracketPairs (position + 1) ((position, delimiter) :: pending) rest
    | none, none => bracketPairs (position + 1) pending rest
    | none, some found =>
      match pending with
      | [] => .error (.unexpectedCloser position found)
      | (opener, expected) :: outer =>
        if expected = found then
          (bracketPairs (position + 1) outer rest).map ((opener, position) :: ·)
        else
          .error (.mismatched position expected found)

structure Code where
  layout : Layout
  partners : Array (Option Nat)
deriving DecidableEq, Repr

namespace Code

def partnerTable (size : Nat) (pairs : List (Nat × Nat)) : Array (Option Nat) :=
  pairs.foldl (fun table (opener, closer) =>
    (table.setIfInBounds opener (some closer)).setIfInBounds closer (some opener)) (Array.replicate size none)

def ofLayout (layout : Layout) : Except BracketFault Code := do
  let pairs ← bracketPairs 0 [] layout.words
  return ⟨layout, partnerTable layout.size pairs⟩

/-- The code of a token list; a fault is placed at the byte offset of its token. -/
def ofTokens (tokens : List Token) : Except BracketFault Code :=
  let layout := Layout.ofTokens tokens
  (ofLayout layout).mapError fun fault => fault.relocate fun position => (layout.span position).start

variable (code : Code)

def size : Nat := code.layout.size

def last : Nat := code.size - 1

def word? (position : Nat) : Option Lexeme := code.layout.word? position

def text (position : Nat) : String := (code.word? position).elim "" (·.text)

def isPunctuation (position : Nat) (text : String) : Bool :=
  (code.word? position).any (·.isPunctuation text)

def isKeyword (position : Nat) (text : String) : Bool :=
  (code.word? position).any (·.isKeyword text)

def isIdentifier (position : Nat) : Bool := (code.word? position).any (·.isIdentifier)

def followsPunctuation : Nat → String → Bool
  | 0, _ => false
  | position + 1, text => code.isPunctuation position text

def followsKeyword : Nat → String → Bool
  | 0, _ => false
  | position + 1, text => code.isKeyword position text

def isOpener (position : Nat) : Bool := (code.word? position).any (·.opens?.isSome)

def isCloser (position : Nat) : Bool := (code.word? position).any (·.closes?.isSome)

def partner? (position : Nat) : Option Nat := (code.partners[position]?).join

def close? (position : Nat) : Option { closer : Nat // position < closer } :=
  match code.partner? position with
  | some closer => if later : position < closer then some ⟨closer, later⟩ else none
  | none => none

def afterGroup? (position : Nat) : Option { next : Nat // position < next } :=
  (code.close? position).map fun ⟨closer, later⟩ => ⟨closer + 1, Nat.lt_succ_of_lt later⟩

end Code

end ScopedRename
