import ScopedRename.Files.Glob.Basic

/-!
The regular expression a pattern stands for. It works on the bytes of a path and is made of single bytes, classes of
bytes, runs of any bytes and groups of alternatives, so one pass over the path with the set of positions reached so far
decides a match.
-/

namespace ScopedRename

inductive PathExpression where
  | byte (value : UInt8)
  | anyByte
  | anyRun
  | optionalSlash
  /-- A byte in, or with `negated` outside, all of the closed ranges. -/
  | oneOf (negated : Bool) (ranges : List (UInt8 × UInt8))
  /-- One of the branches, each a sequence of expressions. -/
  | group (branches : List (List PathExpression))
deriving Inhabited

namespace PathExpression

def slash : PathExpression := .byte '/'.toUInt8

/-! ### From patterns -/

def bytesOf (c : Char) : List UInt8 := (String.singleton c).toUTF8.toList

def single (value : UInt8) : UInt8 × UInt8 := (value, value)

/-- A range of characters, byte by byte: the bytes of both ends, and those between the last byte of the low end and the
first byte of the high end. -/
def byteRanges (range : Char × Char) : List (UInt8 × UInt8) :=
  let low := bytesOf range.1
  let high := bytesOf range.2
  if range.1 == range.2 then low.map single
  else low.dropLast.map single ++ [(low.getLastD 0, high.headD 0)] ++ high.tail.map single

mutual

/-- The sequence of expressions a token stands for. A group without anything in it stands for none. -/
def ofToken : GlobToken → List PathExpression
  | .literal c => (bytesOf c).map .byte
  | .anyByte => [.anyByte]
  | .anyRun => [.anyRun]
  | .leadingDirectories => [.group [[.optionalSlash], [.anyRun, slash]]]
  | .anythingBelow => [slash, .anyRun]
  | .innerDirectories => [.group [[slash], [slash, .anyRun, slash]]]
  | .oneOf negated ranges => [.oneOf negated (ranges.flatMap byteRanges)]
  | .alternatives branches =>
    match ofBranches branches with
    | [] => []
    | written => [.group written]

def ofTokens : List GlobToken → List PathExpression
  | [] => []
  | token :: rest => ofToken token ++ ofTokens rest

def ofBranches : List (List GlobToken) → List (List PathExpression)
  | [] => []
  | branch :: rest =>
    match ofTokens branch with
    | [] => ofBranches rest
    | written => written :: ofBranches rest

end

def ofPattern : List GlobToken → List PathExpression
  | [.leadingDirectories] => [.anyRun]
  | tokens => ofTokens tokens

/-! ### Matching -/

def merge : List Nat → List Nat → List Nat
  | [], right => right
  | left, [] => left
  | first :: left, other :: right =>
    if first < other then first :: merge left (other :: right)
    else if other < first then other :: merge (first :: left) right
    else first :: merge left right
termination_by left right => left.length + right.length

def afterByte (path : Array UInt8) (test : UInt8 → Bool) (starts : List Nat) : List Nat :=
  (starts.filter fun position => path[position]?.any test).map (· + 1)

mutual

/-- The positions a match can end at when it starts at one of the given positions, all in ascending order. -/
def ends (path : Array UInt8) (starts : List Nat) : PathExpression → List Nat
  | .byte value => afterByte path (· == value) starts
  | .anyByte => afterByte path (fun _ => true) starts
  | .anyRun => starts.head?.elim [] fun first => List.range' first (path.size + 1 - first)
  | .optionalSlash => merge starts (afterByte path (· == '/'.toUInt8) starts)
  | .oneOf negated ranges =>
    afterByte path (fun byte => ranges.any (fun (low, high) => low ≤ byte && byte ≤ high) != negated) starts
  | .group branches => endsOfAny path starts branches

def endsOfAll (path : Array UInt8) (starts : List Nat) : List PathExpression → List Nat
  | [] => starts
  | expression :: rest => endsOfAll path (ends path starts expression) rest

def endsOfAny (path : Array UInt8) (starts : List Nat) : List (List PathExpression) → List Nat
  | [] => []
  | branch :: rest => merge (endsOfAll path starts branch) (endsOfAny path starts rest)

end

def isMatch (expressions : List PathExpression) (path : String) : Bool :=
  let bytes := path.toUTF8.data
  (endsOfAll bytes [0] expressions).contains bytes.size

/-! ### Written form -/

def metaCharacters : List Char := "\\.+*?()|[]\x7b\x7d^$#&-~".toList

def renderByte (value : UInt8) : String :=
  if value < 0x80 then
    let c := Char.ofNat value.toNat
    if metaCharacters.contains c then "\\" ++ String.singleton c else String.singleton c
  else
    "\\x" ++ String.ofList (Nat.toDigits 16 value.toNat)

def renderRange (range : UInt8 × UInt8) : String :=
  if range.1 == range.2 then renderByte range.1 else renderByte range.1 ++ "-" ++ renderByte range.2

mutual

def render : PathExpression → String
  | .byte value => renderByte value
  | .anyByte => "."
  | .anyRun => ".*"
  | .optionalSlash => "/?"
  | .oneOf negated ranges =>
    "[" ++ (if negated then "^" else "") ++ String.join (ranges.map renderRange) ++ "]"
  | .group branches => "(?:" ++ "|".intercalate (renderBranches branches) ++ ")"

def renderAll : List PathExpression → String
  | [] => ""
  | expression :: rest => render expression ++ renderAll rest

def renderBranches : List (List PathExpression) → List String
  | [] => []
  | branch :: rest => renderAll branch :: renderBranches rest

end

/-- The expression of a pattern as a text: bytes, not characters, from the start to the end of the path. -/
def renderPattern (expressions : List PathExpression) : String := "(?-u)^" ++ renderAll expressions ++ "$"

/-! ### Nesting -/

def level (count : Nat) : Nat := if count ≤ 1 then 0 else 1

mutual

/-- Levels of an expression: a repetition, a class, a group, and inside them every sequence or choice of several
things. -/
def depth : PathExpression → Nat
  | .byte _ | .anyByte => 0
  | .anyRun | .optionalSlash => 1
  | .oneOf _ ranges => 1 + level ranges.length
  | .group branches => 1 + level branches.length + depthOfBranches branches

def depthOfAll : List PathExpression → Nat
  | [] => 0
  | expression :: rest => max (depth expression) (depthOfAll rest)

def depthOfBranches : List (List PathExpression) → Nat
  | [] => 0
  | branch :: rest => max (level branch.length + depthOfAll branch) (depthOfBranches rest)

end

def depthOfPattern (expressions : List PathExpression) : Nat := 1 + depthOfAll expressions

end PathExpression

end ScopedRename
