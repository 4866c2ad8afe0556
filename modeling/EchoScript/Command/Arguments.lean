/-!
# EchoScript.Command.Arguments

The arguments of the command. Options may stand before or after the file; after `--` every argument is
a file, and so is `-` anywhere. The first argument that cannot stand where it does decides.
-/

namespace EchoScript
namespace Command

/-- A request to run a script: a file, or the built-in script, and what to write out on the way. -/
structure Request where
  file : Option String
  dumpTokens : Bool
  dumpTree : Bool
deriving DecidableEq

/-- What the command can tell about itself instead of running a script. -/
inductive Notice where
  | version
  | help
deriving DecidableEq

inductive Invocation where
  | tell (notice : Notice)
  | run (request : Request)
deriving DecidableEq

inductive UsageError where
  | unknownOption (argument : String)
  | repeatedOption (argument : String)
  | surplusFile (argument : String)
  | emptyFile
deriving DecidableEq

def UsageError.message : UsageError → String
  | .unknownOption a => "unexpected argument '" ++ a ++ "' found"
  | .repeatedOption a => "the argument '" ++ a ++ "' cannot be used multiple times"
  | .surplusFile a => "unexpected argument '" ++ a ++ "' found"
  | .emptyFile => "a file name is required"

namespace Request

def start : Request := ⟨none, false, false⟩

def addFile (r : Request) (a : String) : Except UsageError Request :=
  if r.file.isSome then .error (.surplusFile a)
  else if a.isEmpty then .error .emptyFile
  else .ok { r with file := some a }

/-- The request with an argument that neither ends the options nor asks for a notice. -/
def addArgument (r : Request) (a : String) : Except UsageError Request :=
  if a = "--dump-tokens" then
    if r.dumpTokens then .error (.repeatedOption a) else .ok { r with dumpTokens := true }
  else if a = "--dump-ast" then
    if r.dumpTree then .error (.repeatedOption a) else .ok { r with dumpTree := true }
  else if ['-'].isPrefixOf a.toList ∧ a ≠ "-" then .error (.unknownOption a)
  else r.addFile a

def addFiles (r : Request) : List String → Except UsageError Request
  | [] => .ok r
  | a :: rest =>
    match r.addFile a with
    | .error e => .error e
    | .ok r' => r'.addFiles rest

end Request

namespace Notice

/-- The long option, and the letter of the short one. -/
def option : Notice → String × Char
  | .version => ("--version", 'V')
  | .help => ("--help", 'h')

/-- Whether an argument asks for the notice: the long option does, and so does the short one with
anything after it. -/
def isAsked (n : Notice) (a : String) : Bool :=
  a = n.option.1 || ['-', n.option.2].isPrefixOf a.toList

def ofArgument? (a : String) : Option Notice := [version, help].find? (·.isAsked a)

end Notice

/-- What the arguments after those of a request ask for. -/
def Request.complete (r : Request) : List String → Except UsageError Invocation
  | [] => .ok (.run r)
  | a :: rest =>
    match Notice.ofArgument? a with
    | some notice => .ok (.tell notice)
    | none =>
      if a = "--" then (r.addFiles rest).map .run
      else
        match r.addArgument a with
        | .error e => .error e
        | .ok r' => r'.complete rest

def Invocation.ofArguments (arguments : List String) : Except UsageError Invocation :=
  Request.start.complete arguments

end Command
end EchoScript
