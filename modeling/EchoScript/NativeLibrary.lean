import EchoScript.Eval

/-!
# EchoScript.NativeLibrary

Libraries of functions that a host program supplies. Scripts see a registered library as a map of
placeholders; only the host calls its functions.
-/

namespace EchoScript

/-- A function of the host with its name and number of arguments. -/
structure NativeFunction where
  name : String
  arity : Nat
  apply : List Value → Except RuntimeError Value

/-- What a script sees of a native function. -/
def NativeFunction.placeholder (f : NativeFunction) : String :=
  "<native " ++ f.name ++ "/" ++ f.arity.repr ++ ">"

/-- A named library of native functions, in the order in which their names first came. -/
structure NativeLibrary where
  name : String
  functions : List NativeFunction

namespace NativeLibrary

def empty (name : String) : NativeLibrary := ⟨name, []⟩

/-- The functions with one more: it takes the place of the one with its name, or comes last. -/
def addTo (f : NativeFunction) : List NativeFunction → List NativeFunction
  | [] => [f]
  | g :: rest => if g.name = f.name then f :: rest else g :: addTo f rest

def add (library : NativeLibrary) (f : NativeFunction) : NativeLibrary :=
  { library with functions := addTo f library.functions }

def find? (library : NativeLibrary) (name : String) : Option NativeFunction :=
  library.functions.find? (·.name = name)

def value (library : NativeLibrary) : Value :=
  .map (.ofList (library.functions.map fun f => (f.name, .string f.placeholder)))

/-- The environment with the library's name bound to what scripts see of it. -/
def register (library : NativeLibrary) (env : Environment) : Environment :=
  env.set library.name library.value

/-- Calls a function, which must be there and take so many arguments. -/
def call (library : NativeLibrary) (name : String) (arguments : List Value) :
    Except RuntimeError Value :=
  match library.find? name with
  | none => .error (.unknownFunction library.name name)
  | some f =>
    if f.arity = arguments.length then f.apply arguments
    else .error (.argumentCount f.name f.arity arguments.length)

end NativeLibrary

end EchoScript
