import EchoScript.Number.Text
import EchoScript.Text.Escape
import EchoScript.Text.Position

/-!
# EchoScript.Token.Basic

The tokens of a script, the text by which messages name them, and lexemes: tokens with the text they
were read from and the place where it starts.
-/

namespace EchoScript

inductive Token where
  | echo
  | identifier (name : String)
  | number (value : Number)
  | string (text : String)
  | dollar
  | equals
  | openBracket
  | closeBracket
  | comma
  | dot
  | newline
  | blank
  | endOfInput
deriving DecidableEq

namespace Token

/-- How messages and dumps name a token: in printable ASCII, on one line. -/
def describe : Token → String
  | .echo => "'echo'"
  | .identifier name => "identifier '" ++ name ++ "'"
  | .number value => "number " ++ value.full
  | .string text => "string \"" ++ Text.escape text ++ "\""
  | .dollar => "'$'"
  | .equals => "'='"
  | .openBracket => "'['"
  | .closeBracket => "']'"
  | .comma => "','"
  | .dot => "'.'"
  | .newline => "newline"
  | .blank => "whitespace"
  | .endOfInput => "end of input"

end Token

/-- A token with the text it was read from and the place where that text starts. -/
structure Lexeme where
  token : Token
  text : String
  position : Position
deriving DecidableEq

end EchoScript
