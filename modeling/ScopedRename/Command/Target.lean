import ScopedRename.Failure

/-! How a command's caller points at a declaration, before the text of the file is known. -/

namespace ScopedRename

namespace DeclarationKind

def ofArgument (word : String) : Except Failure DeclarationKind :=
  match ofName? word with
  | some kind => .ok kind
  | none =>
    let known := all.map DeclarationKind.name
    .error (.invalidArguments
      ("unknown declaration kind '" ++ word ++ "', expected one of: " ++ ", ".intercalate known)
      (some (.object [("kind", .string word), ("valid_kinds", .array (known.map .string))])))

end DeclarationKind

inductive Target where
  | position (place : Position)
  | offset (byte : Nat)
  | path (scopes : String) (kind : DeclarationKind) (name : String) (type : Option String)
deriving DecidableEq, Repr

namespace Target

/-- The locator the target stands for in a text. Positions and offsets have to lie in it. -/
def locator (source : String) : Target → Except Failure Locator
  | .position place =>
    match (Lines.ofText source).offset? place with
    | some byte => .ok (.offset byte)
    | none =>
      .error (.invalidArguments
        ("position " ++ toString place.line ++ ":" ++ toString place.column ++ " is outside the file") none)
  | .offset byte =>
    if byte < source.utf8ByteSize then .ok (.offset byte)
    else
      .error (.invalidArguments
        ("offset " ++ toString byte ++ " is past the end of the file (" ++ toString source.utf8ByteSize
          ++ " bytes)") none)
  | .path scopes kind name type => .ok (Locator.ofPath scopes kind name type)

def ofLocation (text : String) : Except Failure (String × Target) :=
  match Location.parse? text with
  | some location => .ok (location.file, .position location.position)
  | none =>
    .error (.invalidArguments ("invalid location format '" ++ text ++ "', expected path:line:col") none)

end Target

end ScopedRename
