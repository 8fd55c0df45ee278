import PocketKernel.Text.Hex

/-!
# JSON values

A value keeps what its text says: a number is its digits, an object is the list of its members in
order, and a string whose escapes name half of a surrogate pair has no text. Values are written
compactly or with one item a line.
-/
namespace PocketKernel

inductive JsonValue where
  | null
  | bool (b : Bool)
  | number (digits : List Char)
  | string (text : Option (List Char))
  | array (items : List JsonValue)
  | object (members : List (Option (List Char) × JsonValue))
  deriving Inhabited

namespace JsonValue

def ofNat (n : Nat) : JsonValue := .number (Nat.toDigits 10 n)

def ofText (s : List Char) : JsonValue := .string (some s)

/-- A character inside quotes: the quote, the backslash and the controls are escaped. -/
def escape (c : Char) : String :=
  match c with
  | '"' => "\\\""
  | '\\' => "\\\\"
  | '\x08' => "\\b"
  | '\x0c' => "\\f"
  | '\n' => "\\n"
  | '\r' => "\\r"
  | '\t' => "\\t"
  | c => if c.toNat < 0x20 then "\\u" ++ Hex.padded 4 c.toNat else String.singleton c

/-- A string without a text is written as if it were empty. -/
def quote (s : Option (List Char)) : String :=
  "\"" ++ String.join ((s.getD []).map escape) ++ "\""

mutual

/-- The text without blanks. -/
def compact : JsonValue → String
  | .null => "null"
  | .bool b => if b then "true" else "false"
  | .number digits => String.ofList digits
  | .string s => quote s
  | .array items => "[" ++ String.intercalate "," (compactItems items) ++ "]"
  | .object members => "\x7b" ++ String.intercalate "," (compactMembers members) ++ "\x7d"

def compactItems : List JsonValue → List String
  | [] => []
  | v :: rest => v.compact :: compactItems rest

def compactMembers : List (Option (List Char) × JsonValue) → List String
  | [] => []
  | (key, v) :: rest => (quote key ++ ":" ++ v.compact) :: compactMembers rest

end

/-- A new line indented by two blanks a level. -/
def newline (level : Nat) : String := "\n" ++ String.ofList (List.replicate (2 * level) ' ')

/-- Items between brackets, each on a line of its own; none take no line. -/
def block (opening closing : String) (level : Nat) (items : List String) : String :=
  if items.isEmpty then opening ++ closing
  else
    opening ++ newline (level + 1) ++ String.intercalate ("," ++ newline (level + 1)) items ++
      newline level ++ closing

mutual

/-- The text with every item on a line of its own. -/
def pretty (level : Nat) : JsonValue → String
  | .null => "null"
  | .bool b => if b then "true" else "false"
  | .number digits => String.ofList digits
  | .string s => quote s
  | .array items => block "[" "]" level (prettyItems (level + 1) items)
  | .object members => block "\x7b" "\x7d" level (prettyMembers (level + 1) members)

def prettyItems (level : Nat) : List JsonValue → List String
  | [] => []
  | v :: rest => v.pretty level :: prettyItems level rest

def prettyMembers (level : Nat) : List (Option (List Char) × JsonValue) → List String
  | [] => []
  | (key, v) :: rest => (quote key ++ ": " ++ v.pretty level) :: prettyMembers level rest

end

end JsonValue

end PocketKernel
