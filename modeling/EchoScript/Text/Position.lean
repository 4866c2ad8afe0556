/-!
# EchoScript.Text.Position

Places in a source text, counted as an editor shows them.
-/

namespace EchoScript

/-- A place in a text: lines and columns count from one, and a column is one character. -/
structure Position where
  line : Nat
  column : Nat
deriving DecidableEq

namespace Position

def start : Position := ⟨1, 1⟩

/-- The place that no text has: it stands for tokens that ran out. -/
def nowhere : Position := ⟨0, 0⟩

def advance (p : Position) (c : Char) : Position :=
  if c = '\n' then ⟨p.line + 1, 1⟩ else ⟨p.line, p.column + 1⟩

def after (p : Position) (cs : List Char) : Position := cs.foldl advance p

@[simp]
theorem after_nil (p : Position) : p.after [] = p := rfl

@[simp]
theorem after_cons (p : Position) (c : Char) (cs : List Char) :
    p.after (c :: cs) = (p.advance c).after cs := rfl

theorem after_append (p : Position) (cs ds : List Char) :
    p.after (cs ++ ds) = (p.after cs).after ds := by
  simp [after, List.foldl_append]

end Position

end EchoScript
