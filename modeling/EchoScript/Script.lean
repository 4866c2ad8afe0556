import EchoScript.Eval
import EchoScript.Token.Scan
import EchoScript.Tree.OfTokens

/-!
# EchoScript.Script

Running a script from its text. The text is read as a whole before its first statement is executed, so
that a script which cannot be read does nothing.
-/

namespace EchoScript

/-- Why a script failed, by the stage that failed. -/
inductive ScriptError where
  | lexical (error : LexError)
  | syntactic (error : SyntaxError)
  | runtime (error : RuntimeError)
deriving DecidableEq

namespace ScriptError

def message : ScriptError → String
  | .lexical e => e.message
  | .syntactic e => e.message
  | .runtime e => e.message

/-- The texts of what caused the error, nearest first: the stage's own error comes first. -/
def causes : ScriptError → List String
  | .lexical e => [e.message]
  | .syntactic e => [e.message]
  | .runtime e => e.message :: e.causes

end ScriptError

namespace Script

def statements (source : String) : Except ScriptError (List Statement) :=
  match Token.ofSource source with
  | .error e => .error (.lexical e)
  | .ok lexemes =>
    match Statement.listOfTokens lexemes with
    | .error e => .error (.syntactic e)
    | .ok ss => .ok ss

def run (state : State) (source : String) : Ending ScriptError :=
  match statements source with
  | .error e => ⟨state, some e⟩
  | .ok ss =>
    let ending := Statement.executeAll state ss
    ⟨ending.state, ending.error.map .runtime⟩

/-- The output of a script that starts without variables. -/
def output (source : String) : Except ScriptError ByteArray :=
  let ending := run ⟨.empty, .unlimited⟩ source
  match ending.error with
  | some e => .error e
  | none => .ok ending.state.sink.written

def demo : String :=
  "/*\n"
    ++ " * fab demo: variables, maps and paths.\n"
    ++ " */\n"
    ++ "$greeting = \"Hello World\"\n"
    ++ "echo $greeting\n"
    ++ "\n"
    ++ "// Maps keep their insertion order.\n"
    ++ "$user = [$name = \"Sebastian\", $age = 17, $home = [$city = \"Vienna\"]]\n"
    ++ "echo $user\n"
    ++ "echo $user.$name\n"
    ++ "echo $user.$home.$city\n"
    ++ "\n"
    ++ "// Missing variables and keys are null.\n"
    ++ "echo $user.$email\n"
    ++ "echo $nobody\n"
    ++ "\n"
    ++ "$pi = 3.14159265358979\n"
    ++ "echo $pi\n"

end Script

end EchoScript
