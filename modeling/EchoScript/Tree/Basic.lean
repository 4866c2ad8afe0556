import EchoScript.Number.Basic

/-!
# EchoScript.Tree.Basic

The trees of a script. Every node carries the line of the token that marks it: the literal, the `$` of
a variable or assignment, the `.` of a path, the `[` of a map, the keyword of an `echo`.
-/

namespace EchoScript

/-- A map literal keeps its entries as written, repeated keys included. -/
inductive Expr where
  | string (text : String) (line : Nat)
  | number (value : Number) (line : Nat)
  | var (name : String) (line : Nat)
  | path (base : Expr) (key : String) (line : Nat)
  | map (entries : List (String × Expr)) (line : Nat)

inductive Statement where
  | echo (value : Expr) (line : Nat)
  | assign (name : String) (value : Expr) (line : Nat)

end EchoScript
