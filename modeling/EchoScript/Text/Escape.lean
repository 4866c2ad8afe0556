import EchoScript.Text.Unprintable

/-!
# EchoScript.Text.Escape

The two ways of writing text on one line. `escape` leaves nothing but printable ASCII; `quote` keeps
every printable character and puts the whole between double quotes.
-/

namespace EchoScript
namespace Text

/-- A character as its code point in braces. -/
def codePoint (c : Char) : List Char :=
  ['\\', 'u', '\x7b'] ++ Nat.toDigits 16 c.toNat ++ ['\x7d']

def isPrintableAscii (c : Char) : Bool := 0x20 ≤ c.toNat && c.toNat ≤ 0x7e

/-- A character in printable ASCII. -/
def escapeChar (c : Char) : List Char :=
  if c = '\t' then ['\\', 't']
  else if c = '\r' then ['\\', 'r']
  else if c = '\n' then ['\\', 'n']
  else if c = '\'' ∨ c = '"' ∨ c = '\\' then ['\\', c]
  else if isPrintableAscii c then [c]
  else codePoint c

def escape (s : String) : String := String.ofList (s.toList.flatMap escapeChar)

def quoteChar (c : Char) : List Char :=
  if c = '\x00' then ['\\', '0']
  else if c = '\t' then ['\\', 't']
  else if c = '\r' then ['\\', 'r']
  else if c = '\n' then ['\\', 'n']
  else if c = '"' ∨ c = '\\' then ['\\', c]
  else if isPrintableAscii c then [c]
  else if isUnprintable c then codePoint c
  else [c]

/-- A text between double quotes, on one line. -/
def quote (s : String) : String :=
  String.ofList ('"' :: s.toList.flatMap quoteChar ++ ['"'])

end Text
end EchoScript
