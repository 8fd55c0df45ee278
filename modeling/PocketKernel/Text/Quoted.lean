import PocketKernel.Text.Hex
import PocketKernel.Text.Unprintable

/-!
# Quoted text

Text between double quotes. A quote and a backslash are written behind a backslash, four controls
have letters of their own, and other characters that do not print are written as their number.
-/
namespace PocketKernel.Quoted

def char (c : Char) : String :=
  match c with
  | '"' => "\\\""
  | '\\' => "\\\\"
  | '\t' => "\\t"
  | '\n' => "\\n"
  | '\r' => "\\r"
  | '\x00' => "\\0"
  | c =>
    if Unprintable.contains c then "\\u\x7b" ++ Hex.digits c.toNat ++ "\x7d"
    else String.singleton c

def text (s : List Char) : String := "\"" ++ String.join (s.map char) ++ "\""

end PocketKernel.Quoted
