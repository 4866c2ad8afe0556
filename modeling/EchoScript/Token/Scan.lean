import EchoScript.Token.Basic
import EchoScript.Text.Comment

/-!
# EchoScript.Token.Scan

Reading a script as lexemes. At each place the longest text that is a token is taken. Spaces, tabs and
carriage returns separate tokens and comments count as spaces; a line break is a token.
-/

namespace EchoScript

/-- Why a text is no sequence of tokens, and where. -/
inductive LexError where
  | unexpectedCharacter (character : Char) (position : Position)
  | unterminatedString (position : Position)
deriving DecidableEq

namespace LexError

def position : LexError → Position
  | .unexpectedCharacter _ p => p
  | .unterminatedString p => p

/-- What is wrong, without the place. -/
def complaint : LexError → String
  | .unexpectedCharacter c _ =>
    "Unexpected character '" ++ String.ofList (Text.escapeChar c) ++ "'."
  | .unterminatedString _ => "Unterminated string literal."

def message (e : LexError) : String :=
  "Lexical error at line " ++ e.position.line.repr ++ ", column " ++ e.position.column.repr ++ ": "
    ++ e.complaint

end LexError

namespace Token

/-- Whether a character only separates tokens. -/
def isBlank (c : Char) : Bool := c = ' ' || c = '\t' || c = '\r'

def isWordStart (c : Char) : Bool := c.isAlpha || c = '_'

def isWordPart (c : Char) : Bool := c.isAlphanum || c = '_'

/-- The token that a word is: the keyword, or else an identifier. -/
def ofWord (cs : List Char) : Token :=
  if cs = ['e', 'c', 'h', 'o'] then .echo else .identifier (String.ofList cs)

/-- The digits at the start of a text that are the fraction of a numeral: a point belongs to it only
if a digit follows. -/
def fractionDigits : List Char → List Char
  | '.' :: cs => cs.takeWhile Char.isDigit
  | _ => []

/-- The decimal fraction at the start of a text and the number of its characters, if the text starts
with a digit. -/
def numeral? (cs : List Char) : Option (Decimal × Nat) :=
  let whole := cs.takeWhile Char.isDigit
  let fraction := fractionDigits (cs.dropWhile Char.isDigit)
  if whole.isEmpty then none
  else if fraction.isEmpty then some (.ofDigits whole [], whole.length)
  else some (.ofDigits whole fraction, whole.length + 1 + fraction.length)

/-- The number at the start of a text and the number of its characters, if there is one. A minus sign
counts only right before a digit. -/
def number? : List Char → Option (Number × Nat)
  | '-' :: cs => (numeral? cs).map fun (d, n) => (Number.ofDecimal true d, n + 1)
  | cs => (numeral? cs).map fun (d, n) => (Number.ofDecimal false d, n)

/-- The character that a backslash and the given one stand for. -/
def unescape (c : Char) : Char :=
  if c = 'n' then '\n' else if c = 'r' then '\r' else if c = 't' then '\t' else c

/-- The string after an opening quote and the number of characters up to and with the closing one;
nothing if there is no closing quote. -/
def literal : List Char → Option (List Char × Nat)
  | [] => none
  | '"' :: _ => some ([], 1)
  | '\\' :: c :: cs => (literal cs).map fun (text, n) => (unescape c :: text, n + 2)
  | c :: cs => (literal cs).map fun (text, n) => (c :: text, n + 1)

def ofChar? (c : Char) : Option Token :=
  if c = '\n' then some .newline
  else if c = '$' then some .dollar
  else if c = '=' then some .equals
  else if c = '[' then some .openBracket
  else if c = ']' then some .closeBracket
  else if c = ',' then some .comma
  else if c = '.' then some .dot
  else none

/-- What a text starts with: a token, made of the first character and so many `more`, or no token. -/
inductive Start where
  | token (token : Token) (more : Nat)
  | unexpected
  | unterminated

/-- What a text starts with that starts with neither a word nor a number. -/
def startMark (c : Char) (cs : List Char) : Start :=
  if c = '"' then
    match literal cs with
    | some (text, n) => .token (.string (String.ofList text)) n
    | none => .unterminated
  else
    match ofChar? c with
    | some t => .token t 0
    | none => .unexpected

/-- What the text `c :: cs` starts with, if `c` is not blank. -/
def start (c : Char) (cs : List Char) : Start :=
  if isWordStart c then
    let tail := cs.takeWhile isWordPart
    .token (ofWord (c :: tail)) tail.length
  else
    match number? (c :: cs) with
    | some (x, n) => .token (.number x) (n - 1)
    | none => startMark c cs

/-- The lexemes of a text without comments whose first character stands at `p`. The last lexeme is the
end of input, after the last character. -/
def scan (p : Position) : List Char → Except LexError (List Lexeme)
  | [] => .ok [⟨.endOfInput, "", p⟩]
  | c :: cs =>
    if isBlank c then scan (p.advance c) cs
    else
      match start c cs with
      | .unexpected => .error (.unexpectedCharacter c p)
      | .unterminated => .error (.unterminatedString (p.after (c :: cs)))
      | .token t more =>
        match scan (p.after (c :: cs.take more)) (cs.drop more) with
        | .error e => .error e
        | .ok rest => .ok (⟨t, String.ofList (c :: cs.take more), p⟩ :: rest)
termination_by cs => cs.length
decreasing_by
  · simp
  · simp only [List.length_drop, List.length_cons]; omega

/-- The lexemes of a script, comments left out. -/
def ofSource (source : String) : Except LexError (List Lexeme) :=
  scan .start (Comment.strip source.toList)

end Token

end EchoScript
