import PolicyLint.Data.Value
import PolicyLint.Decimal.Shortest

/-!
# Untyped data as JSON text

`Value.json` writes data on one line and without blanks, as messages quote it : strings escape
the quote, the backslash and control characters only, and a floating point number always
shows that it is one.
-/

namespace PolicyLint

/-- The text of a number. -/
def Number.text : Number → String
  | int value => toString value
  | float value => value.text

namespace Json

/-- The digit of a number below 16. -/
def hexDigit (n : Nat) : Char :=
  Char.ofNat (if n < 10 then n + '0'.toNat else n - 10 + 'a'.toNat)

/-- A character as it stands in a JSON string. -/
def escape (c : Char) : List Char :=
  match c with
  | '"' => ['\\', '"']
  | '\\' => ['\\', '\\']
  | '\x08' => ['\\', 'b']
  | '\t' => ['\\', 't']
  | '\n' => ['\\', 'n']
  | '\x0c' => ['\\', 'f']
  | '\r' => ['\\', 'r']
  | c =>
    if c.toNat < 0x20 then
      ['\\', 'u', '0', '0', hexDigit (c.toNat / 16), hexDigit (c.toNat % 16)]
    else [c]

/-- A string in quotes. -/
def quote (text : String) : String :=
  "\"" ++ String.ofList (text.toList.flatMap escape) ++ "\""

end Json

namespace Value

mutual

/-- The JSON text of data. -/
def json : Value → String
  | null => "null"
  | boolean value => if value then "true" else "false"
  | number value => value.text
  | string value => Json.quote value
  | list items => "[" ++ ",".intercalate (jsonItems items) ++ "]"
  | mapping entries => "\x7b" ++ ",".intercalate (jsonEntries entries) ++ "\x7d"

/-- The JSON texts of the items of a list. -/
def jsonItems : List Value → List String
  | [] => []
  | value :: items => value.json :: jsonItems items

/-- The JSON texts of the entries of a mapping. -/
def jsonEntries : List (String × Value) → List String
  | [] => []
  | (key, value) :: entries => (Json.quote key ++ ":" ++ value.json) :: jsonEntries entries

end

end Value

end PolicyLint
