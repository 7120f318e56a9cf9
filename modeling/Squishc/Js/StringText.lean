/-!
# String literals of JavaScript

The text between the quotes of a string literal.  Nine characters are written as
escapes; all others stand for themselves.
-/

namespace Squishc.Js

/-- The written form of one character of a string literal. -/
def escapeChar (c : Char) : List Char :=
  match c with
  | '\\' => ['\\', '\\']
  | '"' => ['\\', '"']
  | '\n' => ['\\', 'n']
  | '\t' => ['\\', 't']
  | '\r' => ['\\', 'r']
  | '\x0c' => ['\\', 'f']
  | '\x0b' => ['\\', 'v']
  | '\x00' => ['\\', 'x', '0', '0']
  | '\x7f' => ['\\', 'u', '0', '0', '7', 'f']
  | c => [c]

/-- The text between the quotes of a string literal. -/
def escape (value : String) : String :=
  String.ofList (value.toList.flatMap escapeChar)

end Squishc.Js
