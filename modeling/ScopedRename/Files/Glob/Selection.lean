import ScopedRename.Files.Glob.Expression

/-!
Choosing paths by several patterns at once. A pattern that only fixes how a path starts or ends is tested on the text.
One that ends in a fixed extension has an expression of its own; the others are tested together, as one numbered list of
expressions. Expressions nest only so deep.
-/

namespace ScopedRename

inductive GlobTest where
  | byText
  | alone
  | together
deriving DecidableEq, Repr

namespace GlobTest

def spelled? : List GlobToken → Option (List Char)
  | [] => some []
  | .literal c :: rest => (spelled? rest).map (c :: ·)
  | _ :: _ => none

/-- The pattern fixes how a path starts: some text, then nothing or anything. -/
def fixesStart (tokens : List GlobToken) : Bool :=
  match tokens.getLast? with
  | some .anythingBelow => (spelled? tokens.dropLast).isSome
  | some .anyRun => (spelled? tokens.dropLast).any (!·.isEmpty)
  | _ => (spelled? tokens).any (!·.isEmpty)

/-- The pattern fixes how a path ends: anything, then some text that is more than a slash. -/
def fixesEnd : List GlobToken → Bool
  | .leadingDirectories :: .anyRun :: rest => (spelled? rest).any fun text => !text.isEmpty && text != ['/']
  | .leadingDirectories :: rest => (spelled? rest).any (!·.isEmpty)
  | .anyRun :: rest => (spelled? rest).any fun text => !text.isEmpty && text != ['/']
  | _ => false

def startsWithExtension : List GlobToken → Bool
  | .literal c :: rest => c == '.' || (c != '/' && startsWithExtension rest)
  | _ => false

def fixesExtension (tokens : List GlobToken) : Bool := startsWithExtension tokens.reverse

def ofPattern (tokens : List GlobToken) : GlobTest :=
  if fixesStart tokens || fixesEnd tokens then .byText
  else if fixesExtension tokens then .alone
  else .together

end GlobTest

inductive SelectionFault where
  /-- An expression of its own nests too deep. -/
  | alone (expression : String)
  /-- Among the expressions tested together, the one with this number nests too deep. -/
  | together (number : Nat)
deriving DecidableEq, Repr

namespace SelectionFault

def message : SelectionFault → String
  | .alone expression => "error parsing glob '" ++ expression ++ "': error parsing pattern 0"
  | .together number => "error parsing pattern " ++ toString number

end SelectionFault

structure Selection where
  patterns : List (List GlobToken)

namespace Selection

variable (selection : Selection)

def depthLimit : Nat := 250

def isTooDeep (expressions : List PathExpression) : Bool :=
  depthLimit < PathExpression.depthOfPattern expressions

def expressions (test : GlobTest) : List (List PathExpression) :=
  (selection.patterns.filter (GlobTest.ofPattern · == test)).map PathExpression.ofPattern

/-- The first expression that nests too deep, those that stand alone before those tested together. -/
def fault? : Option SelectionFault :=
  match (selection.expressions .alone).find? isTooDeep with
  | some expressions => some (.alone (PathExpression.renderPattern expressions))
  | none => ((selection.expressions .together).findIdx? isTooDeep).map .together

def contains (path : String) : Bool :=
  selection.patterns.any fun pattern => PathExpression.isMatch (PathExpression.ofPattern pattern) path

end Selection

end ScopedRename
