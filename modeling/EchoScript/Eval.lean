import EchoScript.Environment
import EchoScript.Sink
import EchoScript.Tree.Basic

/-!
# EchoScript.Eval

What trees mean. An expression has a value in an environment and never fails: an unbound variable and
a missing key are null. A statement changes the environment or writes a line of output, and only
output can fail. A run that fails keeps what it did before.
-/

namespace EchoScript

/-- What can go wrong while a script runs, or in a call to a native function. -/
inductive RuntimeError where
  | output (line : Nat) (refusal : Refusal)
  | unknownFunction (library name : String)
  | argumentCount (name : String) (expected found : Nat)
  | invalidArgument (details : String)
deriving DecidableEq

namespace RuntimeError

def message : RuntimeError → String
  | .output line refusal =>
    "Runtime error on line " ++ line.repr ++ ": Failed to write output: " ++ refusal.words ++ "."
  | .unknownFunction library name =>
    "Runtime error: Unknown native function '" ++ library ++ "." ++ name ++ "'."
  | .argumentCount name expected found =>
    "Runtime error: '" ++ name ++ "' expects " ++ expected.repr ++ " argument(s), but "
      ++ found.repr ++ " were given."
  | .invalidArgument details => "Runtime error: Invalid argument: " ++ details ++ "."

/-- The texts of what caused the error, nearest first. -/
def causes : RuntimeError → List String
  | .output _ refusal => [refusal.words]
  | _ => []

end RuntimeError

namespace Expr

mutual

def eval (env : Environment) : Expr → Value
  | .string text _ => .string text
  | .number value _ => .number value
  | .var name _ => (env.get? name).getD .null
  | .path base key _ => (eval env base).field key
  | .map entries _ => .map (.ofList (evalEntries env entries))

/-- The entries of a map literal with their values, as written. -/
def evalEntries (env : Environment) : List (String × Expr) → List (String × Value)
  | [] => []
  | (key, value) :: rest => (key, eval env value) :: evalEntries env rest

end

end Expr

structure State where
  environment : Environment
  sink : Sink

/-- How a run ended: the state it left, and the error that stopped it if one did. -/
structure Ending (ε : Type) where
  state : State
  error : Option ε

def Value.line (v : Value) : ByteArray := (v.print ++ "\n").toUTF8

def Statement.execute (state : State) : Statement → Ending RuntimeError
  | .echo value line =>
    let (sink, refusal) := state.sink.write (value.eval state.environment).line
    ⟨{ state with sink }, refusal.map (.output line)⟩
  | .assign name value _ =>
    let environment := state.environment.set name (value.eval state.environment)
    ⟨{ state with environment }, none⟩

/-- Executes statements in order, up to the first that fails. -/
def Statement.executeAll (state : State) : List Statement → Ending RuntimeError
  | [] => ⟨state, none⟩
  | s :: rest =>
    match s.execute state with
    | ⟨next, none⟩ => executeAll next rest
    | ⟨next, some e⟩ => ⟨next, some e⟩

end EchoScript
