import ScopedRename.Code.Brackets

/-! How far statements and expressions reach, and how bracketed lists split at their commas. -/

namespace ScopedRename.Code

variable (code : Code)

/-- Last position of a plain statement: its semicolon, or the word before the closer of the enclosing group. -/
def semicolonFrom (start position : Nat) : Nat :=
  if position < code.size then
    if code.isPunctuation position ";" then position
    else
      match code.afterGroup? position with
      | some ⟨next, _⟩ => semicolonFrom start next
      | none => if code.isCloser position then max (position - 1) start else semicolonFrom start (position + 1)
  else
    code.last
termination_by code.size - position

def isLoopHead (position : Nat) : Bool :=
  code.isKeyword position "for" || code.isKeyword position "while" || code.isKeyword position "synchronized"

def afterParentheses? (position : Nat) : Option { next : Nat // position < next } :=
  if code.isPunctuation position "(" then code.afterGroup? position else none

mutual

/-- Last position of the statement that starts at a position. A block ends at its closer, a compound statement with
its last part, any other at its semicolon. A part never ends before it starts; `max` records that. -/
def statementEnd (position : Nat) : Nat :=
  if position < code.size then
    if code.isPunctuation position openBrace then
      (code.close? position).elim code.last (·.val)
    else if code.isLoopHead position then
      match code.afterParentheses? (position + 1) with
      | some ⟨body, _⟩ => statementEnd body
      | none => code.semicolonFrom position position
    else if code.isKeyword position "if" then
      match code.afterParentheses? (position + 1) with
      | some ⟨body, _⟩ =>
        let stop := statementEnd body
        if code.isKeyword (stop + 1) "else" then statementEnd (max (position + 1) (stop + 2)) else stop
      | none => code.semicolonFrom position position
    else if code.isKeyword position "do" then
      let next := statementEnd (position + 1) + 1
      code.semicolonFrom next next
    else if code.isKeyword position "try" then
      match code.afterParentheses? (position + 1) with
      | some ⟨block, _⟩ => handlersEnd (max position (statementEnd block))
      | none => handlersEnd (max position (statementEnd (position + 1)))
    else
      code.semicolonFrom position position
  else
    code.last
termination_by 2 * (code.size - position) + 1

def handlersEnd (stop : Nat) : Nat :=
  if stop + 1 < code.size then
    if code.isKeyword (stop + 1) "catch" then
      match code.afterParentheses? (stop + 2) with
      | some ⟨block, _⟩ => handlersEnd (max (stop + 1) (statementEnd block))
      | none => stop
    else if code.isKeyword (stop + 1) "finally" then
      handlersEnd (max (stop + 1) (statementEnd (stop + 2)))
    else
      stop
  else
    stop
termination_by 2 * (code.size - stop)

end

def expressionEndFrom (stop position : Nat) : Nat :=
  if position < code.size then
    if code.isPunctuation position "," || code.isPunctuation position ";" || code.isCloser position then stop
    else
      match code.afterGroup? position with
      | some ⟨next, _⟩ => expressionEndFrom (next - 1) next
      | none => expressionEndFrom position (position + 1)
  else
    stop
termination_by code.size - position

/-- Last position of the expression that starts at a position: it ends before a comma or semicolon of its own level,
or before the closer of the enclosing group. -/
def expressionEnd (position : Nat) : Nat := code.expressionEndFrom (min position code.last) position

/-- First and last positions of the segments from `start` on, up to `close`. With `generics`, a comma inside angle
brackets, of which `angle` are open, does not split. -/
def segmentsFrom (close : Nat) (generics : Bool) (start angle position : Nat) : List (Nat × Nat) :=
  if position < close then
    match code.afterGroup? position with
    | some ⟨next, _⟩ => segmentsFrom close generics start angle next
    | none =>
      if generics && code.isPunctuation position "<" then
        segmentsFrom close generics start (angle + 1) (position + 1)
      else if generics && code.isPunctuation position ">" then
        segmentsFrom close generics start (angle - 1) (position + 1)
      else if angle == 0 && code.isPunctuation position "," then
        (if start < position then [(start, position - 1)] else [])
          ++ segmentsFrom close generics (position + 1) angle (position + 1)
      else
        segmentsFrom close generics start angle (position + 1)
  else if start < close then
    [(start, close - 1)]
  else
    []
termination_by close - position

def segments (opener : Nat) (generics : Bool) : List (Nat × Nat) :=
  match code.close? opener with
  | some ⟨close, _⟩ => code.segmentsFrom close generics (opener + 1) 0 (opener + 1)
  | none => []

def argumentCount (opener : Nat) : Nat := (code.segments opener false).length

end ScopedRename.Code
