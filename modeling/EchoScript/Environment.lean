import EchoScript.Value.Basic

/-!
# EchoScript.Environment

The variables of a script with their values, in the order in which they were first bound.
-/

namespace EchoScript

structure Environment where
  bindings : OrderedMap Value

namespace Environment

def empty : Environment := ⟨.empty⟩

def get? (env : Environment) (name : String) : Option Value := env.bindings.get? name

def set (env : Environment) (name : String) (value : Value) : Environment :=
  ⟨env.bindings.insert name value⟩

def toList (env : Environment) : List (String × Value) := env.bindings.entries

def names (env : Environment) : List String := env.bindings.keys

def size (env : Environment) : Nat := env.bindings.size

def isEmpty (env : Environment) : Bool := env.bindings.isEmpty

/-- Whether two environments bind equal values to the same names in the same order. -/
def equal (a b : Environment) : Bool := Value.equalEntries a.toList b.toList

/-- Setting binds the name and no other. -/
theorem get?_set (env : Environment) (name other : String) (value : Value) :
    (env.set name value).get? other = if other = name then some value else env.get? other :=
  OrderedMap.get?_insert env.bindings name other value

end Environment

end EchoScript
