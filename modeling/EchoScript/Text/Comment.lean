/-!
# EchoScript.Text.Comment

Comments are blanked out before a script is read: each of their characters becomes a space and line
breaks stay, so that what remains keeps its place. A block comment counts only if it is closed, and
comment marks inside a string literal are text.
-/

namespace EchoScript
namespace Comment

/-- Where in a script a character stands. -/
inductive Region where
  | code
  | block
  | line
  | literal
deriving DecidableEq

/-- Whether a block comment opened just before the text is closed in it. -/
def closes : List Char → Bool
  | [] => false
  | '*' :: '/' :: _ => true
  | _ :: cs => closes cs

/-- What a comment character leaves behind. -/
def blank (c : Char) : Char := if c = '\n' then '\n' else ' '

/-- The text with its comments blanked out, for a text whose first character stands in the given
region. -/
def blankFrom : Region → List Char → List Char
  | _, [] => []
  | .code, '/' :: '/' :: cs => ' ' :: ' ' :: blankFrom .line cs
  | .code, '/' :: '*' :: cs =>
    if closes cs then ' ' :: ' ' :: blankFrom .block cs
    else '/' :: '*' :: blankFrom .code cs
  | .code, '"' :: cs => '"' :: blankFrom .literal cs
  | .code, c :: cs => c :: blankFrom .code cs
  | .block, '*' :: '/' :: cs => ' ' :: ' ' :: blankFrom .code cs
  | .block, c :: cs => blank c :: blankFrom .block cs
  | .line, c :: cs =>
    if c = '\n' then '\n' :: blankFrom .code cs else ' ' :: blankFrom .line cs
  | .literal, '\\' :: c :: cs => '\\' :: c :: blankFrom .literal cs
  | .literal, '"' :: cs => '"' :: blankFrom .code cs
  | .literal, c :: cs => c :: blankFrom .literal cs

def strip (cs : List Char) : List Char := blankFrom .code cs

end Comment
end EchoScript
