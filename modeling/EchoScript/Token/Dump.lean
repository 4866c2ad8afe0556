import EchoScript.Token.Basic

/-!
# EchoScript.Token.Dump

Lexemes written out for a reader, one to a line: the place, the token and the text it was read from,
with tabs between them.
-/

namespace EchoScript
namespace Lexeme

def dump (l : Lexeme) : String :=
  l.position.line.repr ++ ":" ++ l.position.column.repr ++ "\t" ++ l.token.describe ++ "\t"
    ++ Text.quote l.text ++ "\n"

def dumpAll (ls : List Lexeme) : String := String.join (ls.map dump)

end Lexeme
end EchoScript
