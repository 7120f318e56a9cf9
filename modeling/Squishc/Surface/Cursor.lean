import Squishc.Number.Basic
import Squishc.Surface
import Squishc.Token

/-!
# Reading from a list of tokens

A cursor stands in front of the tokens that are still to be read.  It also keeps
the header mode: in the header of a statement a colon after a name belongs to
the statement, so the name does not begin a call.
-/

namespace Squishc.Surface

/-- What the grammar asked for. -/
inductive Expected where
  | terminal (t : Terminal)
  | identifier
  | expression
deriving DecidableEq, Repr, Inhabited

/-- How messages refer to what was asked for. -/
def Expected.description : Expected → String
  | terminal t => "'" ++ t.text ++ "'"
  | identifier => "identifier"
  | expression => "expression"

/-- Why tokens cannot be read.  Only the first two arise from tokens that end
with their only end mark. -/
inductive ReadFault where
  | expected (what : Expected) (found : Lexeme) (pos : Pos)
  | digitLimit
  | pastEnd
  | outOfFuel
deriving DecidableEq, Repr, Inhabited

/-- The tokens still to be read and the header mode. -/
structure Cursor where
  rest : List Token
  inHeader : Bool
deriving DecidableEq, Repr, Inhabited

/-- The outcome of reading.  A reader gives the part that was read together with
the cursor behind it. -/
abbrev Reading := Except ReadFault

namespace Cursor

/-- A cursor in front of all tokens. -/
def ofTokens (tokens : List Token) : Cursor := ⟨tokens, false⟩

/-- The token that is next. -/
def current? (c : Cursor) : Option Token := c.rest.head?

/-- The lexeme that is next. -/
def lexeme? (c : Cursor) : Option Lexeme := c.current?.map Token.lexeme

/-- The place of the next token. -/
def pos (c : Cursor) : Pos :=
  match c.current? with
  | some t => t.pos
  | none => .unknown

/-- The token `n` places on, or the last token if there are fewer. -/
def peek? (c : Cursor) (n : Nat) : Option Token :=
  match c.rest[n]? with
  | some t => some t
  | none => c.rest.getLast?

/-- The token at some distance from a cursor over the given tokens, ahead of it or
behind it.  A place beyond the last token means the last one, and a place before
the first is counted from the end. -/
def around? (c : Cursor) (tokens : List Token) (distance : Int) : Option Token :=
  let size : Int := tokens.length
  let place := size - c.rest.length + distance
  if size ≤ place then tokens.getLast?
  else if 0 ≤ place then tokens[place.toNat]?
  else if 0 ≤ size + place then tokens[(size + place).toNat]?
  else none

/-- The cursor behind the next token. -/
def next (c : Cursor) : Cursor := ⟨c.rest.tail, c.inHeader⟩

/-- The cursor with the given header mode. -/
def withHeader (c : Cursor) (mode : Bool) : Cursor := ⟨c.rest, mode⟩

/-- Whether the given terminal is next. -/
def isAt (c : Cursor) (t : Terminal) : Bool :=
  match c.current? with
  | some tok => t.isMetBy tok.lexeme
  | none => false

/-- Whether the given terminal comes after the next token. -/
def secondIs (c : Cursor) (t : Terminal) : Bool :=
  match c.peek? 1 with
  | some tok => t.isMetBy tok.lexeme
  | none => false

/-- Whether a token of the given class is next. -/
def atClass (c : Cursor) (label : String) : Bool :=
  match c.current? with
  | some tok => tok.lexeme.label == label
  | none => false

/-- Whether the end of the input is next. -/
def atEnd (c : Cursor) : Bool :=
  match c.current? with
  | some tok => tok.lexeme == .eof
  | none => false

/-- Whether a name is next. -/
def atName (c : Cursor) : Bool :=
  match c.lexeme? with
  | some (.name _) => true
  | _ => false

/-- Whether the next token can begin an expression. -/
def atExpr (c : Cursor) : Bool :=
  match c.lexeme? with
  | some (.int _) | some (.float _) | some (.string _) | some (.name _) => true
  | some (.keyword .true_) | some (.keyword .false_) => true
  | some (.symbol .openParen) | some (.symbol .openBracket) => true
  | some (.symbol .minus) | some (.symbol .bang) => true
  | _ => false

/-- The fault that something else was asked for than what is next. -/
def missing (c : Cursor) (what : Expected) : ReadFault :=
  match c.current? with
  | some tok => .expected what tok.lexeme tok.pos
  | none => .pastEnd

/-- Takes the next token, whatever it is. -/
def advance (c : Cursor) : Reading (Token × Cursor) :=
  match c.current? with
  | some tok => .ok (tok, c.next)
  | none => .error .pastEnd

/-- Takes the given terminal. -/
def expect (c : Cursor) (t : Terminal) : Reading Cursor :=
  if c.isAt t then .ok c.next else .error (c.missing (.terminal t))

/-- Takes a name. -/
def expectName (c : Cursor) : Reading (String × Cursor) :=
  match c.lexeme? with
  | some (.name text) => .ok (text, c.next)
  | _ => .error (c.missing .identifier)

end Cursor

/-- What the user sees of a fault, if it is one that a source text can have. -/
def ReadFault.diagnostic? : ReadFault → Option Diagnostic
  | expected what found pos =>
    some ⟨.grammatical, "expected " ++ what.description ++ ", got " ++ found.description, pos⟩
  | _ => none

end Squishc.Surface
