import Squishc.Diagnostic
import Squishc.Text.Quoted

/-!
# Tokens

A source text is read as a list of tokens.  Each token carries the place where
it begins.  Numerals keep their written form; string tokens hold the text that
the literal stands for.
-/

namespace Squishc

/-- The reserved words. -/
inductive Keyword where
  | and_
  | break_
  | else_
  | fn
  | false_
  | fastfwd
  | for_
  | if_
  | loop
  | or_
  | otherwise
  | pencil
  | return_
  | speak
  | stop
  | true_
  | while_
deriving DecidableEq, Repr, Inhabited

namespace Keyword

/-- The written form of a reserved word. -/
def text : Keyword → String
  | and_ => "and"
  | break_ => "break"
  | else_ => "else"
  | fn => "f"
  | false_ => "false"
  | fastfwd => "fastfwd"
  | for_ => "for"
  | if_ => "if"
  | loop => "loop"
  | or_ => "or"
  | otherwise => "otherwise"
  | pencil => "pencil"
  | return_ => "return"
  | speak => "speak"
  | stop => "stop"
  | true_ => "true"
  | while_ => "while"

/-- All reserved words. -/
def all : List Keyword :=
  [and_, break_, else_, fn, false_, fastfwd, for_, if_, loop, or_, otherwise, pencil, return_,
   speak, stop, true_, while_]

/-- The reserved word with the given written form. -/
def ofText? (s : String) : Option Keyword :=
  all.find? (fun k => k.text == s)

end Keyword

/-- Operators and punctuation. -/
inductive Symbol where
  | pow
  | le
  | ge
  | eq
  | ne
  | plus
  | minus
  | star
  | slash
  | percent
  | bang
  | lt
  | gt
  | assign
  | openParen
  | closeParen
  | openBracket
  | closeBracket
  | comma
  | colon
  | semicolon
  | dot
deriving DecidableEq, Repr, Inhabited

namespace Symbol

/-- The written form of a symbol. -/
def text : Symbol → String
  | pow => "**"
  | le => "<="
  | ge => ">="
  | eq => "=="
  | ne => "!="
  | plus => "+"
  | minus => "-"
  | star => "*"
  | slash => "/"
  | percent => "%"
  | bang => "!"
  | lt => "<"
  | gt => ">"
  | assign => "="
  | openParen => "("
  | closeParen => ")"
  | openBracket => "["
  | closeBracket => "]"
  | comma => ","
  | colon => ":"
  | semicolon => ";"
  | dot => "."

/-- All symbols. -/
def all : List Symbol :=
  [pow, le, ge, eq, ne, plus, minus, star, slash, percent, bang, lt, gt, assign, openParen,
   closeParen, openBracket, closeBracket, comma, colon, semicolon, dot]

/-- The symbol with the given written form. -/
def ofText? (s : String) : Option Symbol :=
  all.find? (fun k => k.text == s)

end Symbol

/-- What a token is, apart from its place. -/
inductive Lexeme where
  | int (digits : String)
  | float (numeral : String)
  | string (value : String)
  | name (text : String)
  | keyword (word : Keyword)
  | symbol (mark : Symbol)
  | eof
deriving DecidableEq, Repr, Inhabited

namespace Lexeme

/-- The class of a lexeme.  A reserved word is a class of its own. -/
def label : Lexeme → String
  | int _ => "INT"
  | float _ => "FLOAT"
  | string _ => "STRING"
  | name _ => "IDENT"
  | keyword word => word.text
  | symbol _ => "OP"
  | eof => "EOF"

/-- The text of a lexeme; for a string literal, the text that it stands for. -/
def text : Lexeme → String
  | int digits => digits
  | float numeral => numeral
  | string value => value
  | name text => text
  | keyword word => word.text
  | symbol mark => mark.text
  | eof => ""

/-- How messages refer to a lexeme. -/
def description : Lexeme → String
  | eof => "end of input"
  | string _ => "string literal"
  | l => "'" ++ l.text ++ "'"

end Lexeme

/-- A lexeme and the place of its first character. -/
structure Token where
  lexeme : Lexeme
  pos : Pos
deriving DecidableEq, Repr, Inhabited

/-- A token on one line, with its text quoted. -/
def Token.display (t : Token) : String :=
  "Token(" ++ t.lexeme.label ++ ", " ++ Text.quoted t.lexeme.text ++ ", " ++
    toString t.pos.line ++ ", " ++ toString t.pos.col ++ ")"

/-- A fixed word or mark that the grammar may ask for.  A text that is neither a
reserved word nor a symbol is only met by a token whose class and text are both
that text. -/
inductive Terminal where
  | keyword (word : Keyword)
  | symbol (mark : Symbol)
  | other (text : String)
deriving DecidableEq, Repr, Inhabited

namespace Terminal

/-- The written form of a terminal. -/
def text : Terminal → String
  | keyword word => word.text
  | symbol mark => mark.text
  | other text => text

/-- The terminal with the given written form. -/
def ofText (s : String) : Terminal :=
  match Keyword.ofText? s, Symbol.ofText? s with
  | some word, _ => keyword word
  | none, some mark => symbol mark
  | none, none => other s

/-- Whether a lexeme is the given terminal. -/
def isMetBy (t : Terminal) (l : Lexeme) : Bool :=
  match t with
  | keyword word => l == .keyword word
  | symbol mark => l == .symbol mark
  | other text => l.label == text && l.text == text

end Terminal

end Squishc
