import PocketKernel.Json.Value

/-!
# Reading JSON

The reader is strict: one value with blanks around it, no comma before a closing bracket, no raw
control characters in strings, and numbers without leading zeros. Every reader takes characters from
the front and returns the rest. Nested values are read with a bound on the number of steps, for
which the length of the text is enough.
-/
namespace PocketKernel.JsonText

abbrev Reader (α : Type) := List Char → Option (α × List Char)

def isBlank (c : Char) : Bool := c == ' ' || c == '\t' || c == '\n' || c == '\r'

def skip (cs : List Char) : List Char := cs.dropWhile isBlank

def isDigit (c : Char) : Bool := '0' ≤ c && c ≤ '9'

def hexDigit (c : Char) : Option Nat :=
  if isDigit c then some (c.toNat - 48)
  else if 'a' ≤ c && c ≤ 'f' then some (c.toNat - 87)
  else if 'A' ≤ c && c ≤ 'F' then some (c.toNat - 55)
  else none

/-- The number of four hexadecimal digits. -/
def hexUnit (a b c d : Char) : Option Nat := do
  let a ← hexDigit a
  let b ← hexDigit b
  let c ← hexDigit c
  let d ← hexDigit d
  pure (((a * 16 + b) * 16 + c) * 16 + d)

/-- The character that an escape letter stands for. -/
def escaped (c : Char) : Option Nat :=
  match c with
  | '"' => some 0x22
  | '\\' => some 0x5c
  | '/' => some 0x2f
  | 'b' => some 0x08
  | 'f' => some 0x0c
  | 'n' => some 0x0a
  | 'r' => some 0x0d
  | 't' => some 0x09
  | _ => none

/-- The code points of a string after its opening quote; a surrogate is one of its own. -/
def codes : Reader (List Nat)
  | [] => none
  | '"' :: rest => some ([], rest)
  | '\\' :: 'u' :: a :: b :: c :: d :: rest => do
    let unit ← hexUnit a b c d
    let (more, rest) ← codes rest
    pure (unit :: more, rest)
  | '\\' :: c :: rest => do
    let code ← escaped c
    let (more, rest) ← codes rest
    pure (code :: more, rest)
  | c :: rest => do
    if c.toNat < 0x20 || c == '\\' then none
    else
      let (more, rest) ← codes rest
      pure (c.toNat :: more, rest)

def isHigh (code : Nat) : Bool := 0xd800 ≤ code && code ≤ 0xdbff
def isLow (code : Nat) : Bool := 0xdc00 ≤ code && code ≤ 0xdfff

/-- The characters of code points in which surrogates come in pairs. -/
def joinPairs : List Nat → Option (List Char)
  | [] => some []
  | high :: low :: rest =>
    if isHigh high then
      if isLow low then
        (joinPairs rest).map
          (Char.ofNat (0x10000 + (high - 0xd800) * 0x400 + (low - 0xdc00)) :: ·)
      else none
    else if isLow high then none
    else (joinPairs (low :: rest)).map (Char.ofNat high :: ·)
  | [code] => if isHigh code || isLow code then none else some [Char.ofNat code]

def quoted : Reader (Option (List Char)) := fun cs => do
  let (found, rest) ← codes cs
  pure (joinPairs found, rest)

/-- One or more digits. -/
def digits : Reader (List Char) := fun cs =>
  let found := cs.takeWhile isDigit
  if found.isEmpty then none else some (found, cs.dropWhile isDigit)

def whole : Reader (List Char)
  | '0' :: rest => if (rest.head?.map isDigit).getD false then none else some (['0'], rest)
  | cs => digits cs

def fraction : Reader (List Char)
  | '.' :: rest => do
    let (found, rest) ← digits rest
    pure ('.' :: found, rest)
  | cs => some ([], cs)

def exponent : Reader (List Char)
  | e :: rest =>
    if e == 'e' || e == 'E' then
      match rest with
      | s :: tail =>
        if s == '+' || s == '-' then do
          let (found, rest) ← digits tail
          pure (e :: s :: found, rest)
        else do
          let (found, rest) ← digits rest
          pure (e :: found, rest)
      | [] => none
    else some ([], e :: rest)
  | [] => some ([], [])

def unsignedNumber : Reader (List Char) := fun cs => do
  let (a, rest) ← whole cs
  let (b, rest) ← fraction rest
  let (c, rest) ← exponent rest
  pure (a ++ b ++ c, rest)

def number : Reader (List Char)
  | '-' :: rest => do
    let (found, rest) ← unsignedNumber rest
    pure ('-' :: found, rest)
  | cs => unsignedNumber cs

mutual

def value : (steps : Nat) → Reader JsonValue
  | 0, _ => none
  | steps + 1, cs =>
    match skip cs with
    | 'n' :: 'u' :: 'l' :: 'l' :: rest => some (.null, rest)
    | 't' :: 'r' :: 'u' :: 'e' :: rest => some (.bool true, rest)
    | 'f' :: 'a' :: 'l' :: 's' :: 'e' :: rest => some (.bool false, rest)
    | '"' :: rest => do
      let (s, rest) ← quoted rest
      pure (.string s, rest)
    | '[' :: rest =>
      match skip rest with
      | ']' :: rest => some (.array [], rest)
      | _ => do
        let (found, rest) ← items steps rest
        pure (.array found, rest)
    | '\x7b' :: rest =>
      match skip rest with
      | '\x7d' :: rest => some (.object [], rest)
      | _ => do
        let (found, rest) ← members steps rest
        pure (.object found, rest)
    | cs => do
      let (found, rest) ← number cs
      pure (.number found, rest)

/-- Items up to the closing bracket. -/
def items : (steps : Nat) → Reader (List JsonValue)
  | 0, _ => none
  | steps + 1, cs => do
    let (v, rest) ← value steps cs
    match skip rest with
    | ']' :: rest => pure ([v], rest)
    | ',' :: rest =>
      let (more, rest) ← items steps rest
      pure (v :: more, rest)
    | _ => none

/-- Members up to the closing brace. -/
def members : (steps : Nat) → Reader (List (Option (List Char) × JsonValue))
  | 0, _ => none
  | steps + 1, cs =>
    match skip cs with
    | '"' :: rest => do
      let (key, rest) ← quoted rest
      match skip rest with
      | ':' :: rest =>
        let (v, rest) ← value steps rest
        match skip rest with
        | '\x7d' :: rest => pure ([(key, v)], rest)
        | ',' :: rest =>
          let (more, rest) ← members steps rest
          pure ((key, v) :: more, rest)
        | _ => none
      | _ => none
    | _ => none

end

/-- The value of a whole text. -/
def read (text : List Char) : Option JsonValue := do
  let (v, rest) ← value (2 * text.length + 2) text
  if (skip rest).isEmpty then some v else none

end PocketKernel.JsonText
