/-!
Include patterns as they are written. A star or question mark also matches a slash; two stars between slashes match any
number of directories; brackets list characters and braces list alternatives.
-/

namespace ScopedRename

inductive GlobToken where
  | literal (c : Char)
  | anyByte
  | anyRun
  /-- Any directories in front, as of a leading double star. -/
  | leadingDirectories
  /-- Anything below, as of a trailing double star. -/
  | anythingBelow
  /-- Any directories between, as of a double star between slashes. -/
  | innerDirectories
  | oneOf (negated : Bool) (ranges : List (Char × Char))
  | alternatives (branches : List (List GlobToken))
deriving Inhabited

inductive GlobFault where
  | unclosedClass
  | unclosedAlternatives
  | unopenedAlternatives
  | invalidRange (low high : Char)
  | danglingEscape
deriving DecidableEq, Repr

namespace GlobFault

def message : GlobFault → String
  | .unclosedClass => "unclosed character class; missing ']'"
  | .unclosedAlternatives =>
    "unclosed alternate group; missing '\x7d' (maybe escape '\x7b' with '[\x7b]'?)"
  | .unopenedAlternatives =>
    "unopened alternate group; missing '\x7b' (maybe escape '\x7d' with '[\x7d]'?)"
  | .invalidRange low high =>
    "invalid range; '" ++ String.singleton low ++ "' > '" ++ String.singleton high ++ "'"
  | .danglingEscape => "dangling '\\'"

end GlobFault

namespace Glob

inductive Mode where
  | plain
  | escape
  /-- In a character class: its ranges so far in reverse, whether nothing was read yet, and whether a hyphen waits for
  the end of a range. -/
  | members (negated : Bool) (ranges : List (Char × Char)) (atStart inRange : Bool)

structure Reader where
  /-- The tokens of the current branch, in reverse. -/
  current : List GlobToken := []
  /-- The open groups, innermost first: the tokens in front of each in reverse, and its finished branches. -/
  groups : List (List GlobToken × List (List GlobToken)) := []
  previous : Option Char := none
  mode : Mode := .plain

namespace Reader

variable (reader : Reader)

def push (token : GlobToken) (last : Char) : Reader :=
  { reader with current := token :: reader.current, previous := some last, mode := .plain }

/-- A double star that only counts as two stars. -/
def pushRuns : Reader := (reader.push .anyRun '*').push .anyRun '*'

/-- Replaces the slash in front of a double star by what the two mean together. A double star before already means
it. -/
def pushDirectories (token : GlobToken) (last : Char) : Reader :=
  match reader.current with
  | .leadingDirectories :: _ => { reader with previous := some last }
  | .anythingBelow :: _ => { reader with previous := some last }
  | _ :: rest => { reader with current := token :: rest, previous := some last }
  | [] => { reader with previous := some last }

def nextBranch (c : Char) : Reader :=
  match reader.groups with
  | [] => reader.push (.literal c) c
  | (front, branches) :: outer =>
    { reader with
      current := [], groups := (front, reader.current.reverse :: branches) :: outer, previous := some c }

def openGroup (c : Char) : Reader :=
  { reader with current := [], groups := (reader.current, []) :: reader.groups, previous := some c }

def closeGroup (c : Char) : Except GlobFault Reader :=
  match reader.groups with
  | [] => .error .unopenedAlternatives
  | (front, branches) :: outer =>
    let group := GlobToken.alternatives (reader.current.reverse :: branches).reverse
    .ok { reader with current := group :: front, groups := outer, previous := some c }

def followsBoundary : Bool :=
  reader.previous == some '/'
    || (!reader.groups.isEmpty && (reader.previous == some ',' || reader.previous == some (Char.ofNat 0x7b)))

def member (negated : Bool) (ranges : List (Char × Char)) (atStart inRange : Bool) (c : Char) :
    Except GlobFault Reader :=
  let next (ranges : List (Char × Char)) (inRange : Bool) : Except GlobFault Reader :=
    .ok { reader with mode := .members negated ranges false inRange, previous := some c }
  if c == ']' && !atStart then
    let ranges := if inRange then ('-', '-') :: ranges else ranges
    .ok (reader.push (.oneOf negated ranges.reverse) c)
  else if c == '-' && !atStart && !inRange then
    next ranges true
  else if inRange then
    match ranges with
    | (low, _) :: rest => if c < low then .error (.invalidRange low c) else next ((low, c) :: rest) false
    | [] => next [(c, c)] false
  else
    next ((c, c) :: ranges) false

end Reader

def readFrom (reader : Reader) : List Char → Except GlobFault (List GlobToken)
  | [] =>
    match reader.mode with
    | .escape => .error .danglingEscape
    | .members .. => .error .unclosedClass
    | .plain => if reader.groups.isEmpty then .ok reader.current.reverse else .error .unclosedAlternatives
  | c :: rest =>
    match reader.mode with
    | .escape => readFrom (reader.push (.literal c) c) rest
    | .members negated ranges atStart inRange => do
      readFrom (← reader.member negated ranges atStart inRange c) rest
    | .plain =>
      if c == '?' then readFrom (reader.push .anyByte c) rest
      else if c == '\\' then readFrom { reader with mode := .escape, previous := some c } rest
      else if c == ',' then readFrom (reader.nextBranch c) rest
      else if c == Char.ofNat 0x7b then readFrom (reader.openGroup c) rest
      else if c == Char.ofNat 0x7d then do readFrom (← reader.closeGroup c) rest
      else if c == '[' then
        match rest with
        | [] => .error .unclosedClass
        | sign :: members =>
          if sign == '!' || sign == '^' then
            readFrom { reader with mode := .members true [] true false, previous := some sign } members
          else
            readFrom { reader with mode := .members false [] true false, previous := some c } (sign :: members)
      else if c == '*' then
        match rest with
        | [] => readFrom (reader.push .anyRun c) []
        | star :: further =>
          if star != '*' then readFrom (reader.push .anyRun c) (star :: further)
          else if reader.current.isEmpty then
            match further with
            | [] => readFrom (reader.push .leadingDirectories c) []
            | next :: beyond =>
              if next == '/' then readFrom (reader.push .leadingDirectories next) beyond
              else readFrom reader.pushRuns (next :: beyond)
          else if !reader.followsBoundary then readFrom reader.pushRuns further
          else
            match further with
            | [] => readFrom (reader.pushDirectories .anythingBelow c) []
            | next :: beyond =>
              if next == '/' then readFrom (reader.pushDirectories .innerDirectories next) beyond
              else if !reader.groups.isEmpty && (next == ',' || next == Char.ofNat 0x7d) then
                readFrom (reader.pushDirectories .anythingBelow c) (next :: beyond)
              else readFrom reader.pushRuns (next :: beyond)
      else readFrom (reader.push (.literal c) c) rest

def parse (pattern : String) : Except GlobFault (List GlobToken) := readFrom {} pattern.toList

end Glob

end ScopedRename
