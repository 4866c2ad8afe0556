import EchoScript.Token.Basic
import EchoScript.Tree.Basic

/-!
# EchoScript.Tree.OfTokens

Reading lexemes as trees. A statement needs no separator after it, and line breaks count only between
statements. Each reader takes the lexemes it needs and hands on the rest; a reader that meets a
lexeme it cannot use says what it expected there. The rest is always shorter than what was given, and
the readers end for that reason.
-/

namespace EchoScript

/-- What a reader expected where it met something else. -/
inductive Expectation where
  | statement
  | expression
  | variableName
  | variableEquals
  | pathDollar
  | keyName
  | keyDollar
  | keyEquals
  | separator
deriving DecidableEq

namespace Expectation

def words : Expectation → String
  | .statement => "expected statement"
  | .expression => "expected expression"
  | .variableName => "expected variable name after $"
  | .variableEquals => "expected '=' after variable name"
  | .pathDollar => "expected $ after ."
  | .keyName => "expected key name after $"
  | .keyDollar => "expected $ before map key"
  | .keyEquals => "expected '=' after map key"
  | .separator => "expected ',' or ']'"

end Expectation

/-- Why lexemes are no tree: what was expected, what was found, and where. -/
structure SyntaxError where
  expected : Expectation
  found : Token
  position : Position
deriving DecidableEq

namespace SyntaxError

/-- An expectation that the first of the lexemes does not meet. Past the last lexeme there is the end
of input, nowhere. -/
def unmet (expected : Expectation) : Option Lexeme → SyntaxError
  | some l => ⟨expected, l.token, l.position⟩
  | none => ⟨expected, .endOfInput, .nowhere⟩

def message (e : SyntaxError) : String :=
  "Syntax error at line " ++ e.position.line.repr ++ ", column " ++ e.position.column.repr ++ ": "
    ++ e.expected.words ++ ", found " ++ e.found.describe ++ "."

end SyntaxError

/-- A failed reading, with the lexemes that were not consumed. -/
structure Failure where
  error : SyntaxError
  rest : List Lexeme

namespace Failure

/-- The failure of an expectation at the first of the lexemes, which is consumed. -/
def consuming (expected : Expectation) (ts : List Lexeme) : Failure :=
  ⟨.unmet expected ts.head?, ts.tail⟩

/-- The failure of an expectation at the first of the lexemes, which is only looked at. -/
def peeking (expected : Expectation) (ts : List Lexeme) : Failure :=
  ⟨.unmet expected ts.head?, ts⟩

end Failure

/-- What a reader gives: something read and fewer than `bound` lexemes after it, or a failure. -/
inductive Reading (bound : Nat) (α : Type) where
  | done (value : α) (rest : List Lexeme) (shorter : rest.length < bound)
  | failed (failure : Failure)

namespace Reading

variable {α β : Type} {bound : Nat}

def outcome : Reading bound α → Except Failure (α × List Lexeme)
  | .done value rest _ => .ok (value, rest)
  | .failed f => .error f

def widen {larger : Nat} (h : bound ≤ larger) : Reading bound α → Reading larger α
  | .done value rest shorter => .done value rest (Nat.lt_of_lt_of_le shorter h)
  | .failed f => .failed f

def map (f : α → β) : Reading bound α → Reading bound β
  | .done value rest shorter => .done (f value) rest shorter
  | .failed e => .failed e

end Reading

def readToken (token : Token) (expected : Expectation) (ts : List Lexeme) :
    Reading ts.length Unit :=
  match ts with
  | [] => .failed (.consuming expected [])
  | t :: rest =>
    if t.token = token then .done () rest (by simp) else .failed (.consuming expected (t :: rest))

def readName (expected : Expectation) (ts : List Lexeme) : Reading ts.length String :=
  match ts with
  | ⟨.identifier name, _, _⟩ :: rest => .done name rest (by simp)
  | ts => .failed (.consuming expected ts)

/-- Reads a name and an equals sign. -/
def readBinder (name equals : Expectation) (ts : List Lexeme) : Reading ts.length String :=
  match readName name ts with
  | .failed f => .failed f
  | .done x rest h => ((readToken .equals equals rest).map fun _ => x).widen (Nat.le_of_lt h)

/-- Reads path suffixes `.$key` after an expression, as many as there are. -/
def readPath (base : Expr) (ts : List Lexeme) : Reading (ts.length + 1) Expr :=
  match ts with
  | ⟨.dot, _, p⟩ :: rest =>
    match readToken .dollar .pathDollar rest with
    | .failed f => .failed f
    | .done _ rest₁ h₁ =>
      match readName .keyName rest₁ with
      | .failed f => .failed f
      | .done key rest₂ h₂ =>
        (readPath (.path base key p.line) rest₂).widen (by simp; omega)
  | ts => .done base ts (by simp)
termination_by ts.length

mutual

/-- No path follows a number. -/
def readExpr (ts : List Lexeme) : Reading ts.length Expr :=
  match ts with
  | ⟨.number value, _, p⟩ :: rest => .done (.number value p.line) rest (by simp)
  | ⟨.string text, _, p⟩ :: rest => readPath (.string text p.line) rest
  | ⟨.dollar, _, p⟩ :: rest =>
    match readName .variableName rest with
    | .failed f => .failed f
    | .done name rest₁ h₁ => (readPath (.var name p.line) rest₁).widen (by simp; omega)
  | ⟨.openBracket, _, p⟩ :: rest =>
    match readMap p.line rest with
    | .failed f => .failed f
    | .done m rest₁ h₁ => (readPath m rest₁).widen (by simp; omega)
  | ts => .failed (.consuming .expression ts)
termination_by (ts.length, 0)

/-- Reads a map literal that was opened on the given line. -/
def readMap (line : Nat) (ts : List Lexeme) : Reading ts.length Expr :=
  match ts with
  | ⟨.closeBracket, _, _⟩ :: rest => .done (.map [] line) rest (by simp)
  | ts => (readEntries ts).map fun entries => .map entries line
termination_by (ts.length, 1)

/-- Reads the entries of a map literal up to and with the closing bracket. -/
def readEntries (ts : List Lexeme) : Reading ts.length (List (String × Expr)) :=
  match readToken .dollar .keyDollar ts with
  | .failed f => .failed f
  | .done _ rest₁ h₁ =>
    match readBinder .keyName .keyEquals rest₁ with
    | .failed f => .failed f
    | .done key rest₂ h₂ =>
      match readExpr rest₂ with
      | .failed f => .failed f
      | .done value rest₃ h₃ =>
        match rest₃, h₃ with
        | ⟨.comma, _, _⟩ :: rest₄, h₄ =>
          have : rest₄.length < ts.length := by simp at h₄; omega
          ((readEntries rest₄).map ((key, value) :: ·)).widen (Nat.le_of_lt this)
        | ⟨.closeBracket, _, _⟩ :: rest₄, h₄ =>
          .done [(key, value)] rest₄ (by simp at h₄; omega)
        | rest₄, _ => .failed (.consuming .separator rest₄)
termination_by (ts.length, 0)

end

def readStatement (ts : List Lexeme) : Reading ts.length Statement :=
  match ts with
  | ⟨.echo, _, p⟩ :: rest =>
    ((readExpr rest).map fun value => .echo value p.line).widen (by simp)
  | ⟨.dollar, _, p⟩ :: rest =>
    match readBinder .variableName .variableEquals rest with
    | .failed f => .failed f
    | .done name rest₁ h₁ =>
      ((readExpr rest₁).map fun value => .assign name value p.line).widen (by simp; omega)
  | ts => .failed (.peeking .statement ts)

/-- The expression at the start of the lexemes, and the lexemes after it. -/
def Expr.ofTokens (ts : List Lexeme) : Except Failure (Expr × List Lexeme) :=
  (readExpr ts).outcome

/-- The map literal, opened on the given line, that the lexemes continue with, and those after it. -/
def Expr.mapOfTokens (line : Nat) (ts : List Lexeme) : Except Failure (Expr × List Lexeme) :=
  (readMap line ts).outcome

/-- The statement at the start of the lexemes, and the lexemes after it. -/
def Statement.ofTokens (ts : List Lexeme) : Except Failure (Statement × List Lexeme) :=
  (readStatement ts).outcome

/-- All statements of the lexemes, up to the end of input. -/
def Statement.listOfTokens (ts : List Lexeme) : Except SyntaxError (List Statement) :=
  match ts with
  | [] => .ok []
  | ⟨.endOfInput, _, _⟩ :: _ => .ok []
  | ⟨.newline, _, _⟩ :: rest => listOfTokens rest
  | t :: rest =>
    match readStatement (t :: rest) with
    | .failed f => .error f.error
    | .done s rest' h =>
      have : rest'.length < rest.length + 1 := h
      match listOfTokens rest' with
      | .error e => .error e
      | .ok ss => .ok (s :: ss)
termination_by ts.length
decreasing_by
  · simp
  · simpa using this

end EchoScript
