/-! Values of the data format in which results are printed, and their indented form. -/

namespace ScopedRename

inductive JsonValue where
  | null
  | bool (value : Bool)
  | number (value : Int)
  | string (value : String)
  | array (items : List JsonValue)
  | object (fields : List (String × JsonValue))
deriving Inhabited

namespace JsonValue

def natural (value : Nat) : JsonValue := .number value

/-- An object without the fields that are absent. -/
def record (fields : List (String × Option JsonValue)) : JsonValue :=
  .object (fields.filterMap fun (key, value) => value.map (key, ·))

def hexDigits (value : Nat) : String :=
  let digits := Nat.toDigits 16 value
  String.ofList (List.replicate (4 - digits.length) '0' ++ digits)

/-- Quotes, backslashes and control characters are escaped, everything else stands for itself. -/
def escape (c : Char) : String :=
  if c == '"' then "\\\""
  else if c == '\\' then "\\\\"
  else if c == '\n' then "\\n"
  else if c == '\r' then "\\r"
  else if c == '\t' then "\\t"
  else if c == Char.ofNat 8 then "\\b"
  else if c == Char.ofNat 12 then "\\f"
  else if c.toNat < 0x20 then "\\u" ++ hexDigits c.toNat
  else String.singleton c

def quote (text : String) : String := "\"" ++ String.join (text.toList.map escape) ++ "\""

def indentation (depth : Nat) : String := String.ofList (List.replicate (2 * depth) ' ')

def bracketed (opener closer : String) (depth : Nat) (items : List String) : String :=
  if items.isEmpty then opener ++ closer
  else
    let lines := items.map (indentation (depth + 1) ++ ·)
    opener ++ "\n" ++ ",\n".intercalate lines ++ "\n" ++ indentation depth ++ closer

mutual

def pretty (depth : Nat) : JsonValue → String
  | .null => "null"
  | .bool value => if value then "true" else "false"
  | .number value => toString value
  | .string value => quote value
  | .array items => bracketed "[" "]" depth (prettyItems (depth + 1) items)
  | .object fields => bracketed "\x7b" "\x7d" depth (prettyFields (depth + 1) fields)

def prettyItems (depth : Nat) : List JsonValue → List String
  | [] => []
  | item :: rest => pretty depth item :: prettyItems depth rest

def prettyFields (depth : Nat) : List (String × JsonValue) → List String
  | [] => []
  | (key, value) :: rest => (quote key ++ ": " ++ pretty depth value) :: prettyFields depth rest

end

def emit (value : JsonValue) : String := value.pretty 0 ++ "\n"

mutual

/-- The value with the keys of every object in order. -/
def canonical : JsonValue → JsonValue
  | .array items => .array (canonicalItems items)
  | .object fields => .object ((canonicalFields fields).mergeSort fun left right => left.1 ≤ right.1)
  | value => value

def canonicalItems : List JsonValue → List JsonValue
  | [] => []
  | item :: rest => item.canonical :: canonicalItems rest

def canonicalFields : List (String × JsonValue) → List (String × JsonValue)
  | [] => []
  | (key, value) :: rest => (key, value.canonical) :: canonicalFields rest

end

end JsonValue

end ScopedRename
