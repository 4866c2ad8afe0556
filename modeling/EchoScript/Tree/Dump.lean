import EchoScript.Number.Text
import EchoScript.Text.Escape
import EchoScript.Tree.Basic

/-!
# EchoScript.Tree.Dump

Trees written out for a reader, one field to a line, each level indented by four more spaces.
-/

namespace EchoScript

namespace Dump

/-- The start of a line at a depth. -/
def indent (depth : Nat) : String := String.ofList (List.replicate (4 * depth) ' ')

/-- Lines at a depth, each ended by a comma. -/
def lines (depth : Nat) (items : List String) : String :=
  String.join (items.map fun item => indent depth ++ item ++ ",\n")

/-- Items between two marks, one level deeper than the marks. -/
def block (depth : Nat) (opening closing : String) (items : List String) : String :=
  opening ++ "\n" ++ lines (depth + 1) items ++ indent depth ++ closing

def node (depth : Nat) (name : String) (fields : List (String × String)) : String :=
  block depth (name ++ " \x7b") "\x7d" (fields.map fun (label, text) => label ++ ": " ++ text)

end Dump

namespace Expr

open Dump

mutual

def dump (depth : Nat) : Expr → String
  | .string text line =>
    node depth "StringLiteral" [("value", Text.quote text), ("line", line.repr)]
  | .number value line => node depth "NumberLiteral" [("value", value.dump), ("line", line.repr)]
  | .var name line => node depth "Variable" [("name", Text.quote name), ("line", line.repr)]
  | .path base key line =>
    node depth "PathAccess"
      [("base", dump (depth + 1) base), ("key", Text.quote key), ("line", line.repr)]
  | .map [] line => node depth "MapLiteral" [("entries", "[]"), ("line", line.repr)]
  | .map (e :: rest) line =>
    node depth "MapLiteral"
      [("entries", block (depth + 1) "[" "]" (dumpEntries (depth + 2) (e :: rest))),
        ("line", line.repr)]

/-- The entries of a map literal written out at a depth, each as a pair. -/
def dumpEntries (depth : Nat) : List (String × Expr) → List String
  | [] => []
  | (key, value) :: rest =>
    block depth "(" ")" [Text.quote key, dump (depth + 1) value] :: dumpEntries depth rest

end

end Expr

namespace Statement

open Dump

def dump : Statement → String
  | .echo value line => node 0 "Echo" [("expr", value.dump 1), ("line", line.repr)]
  | .assign name value line =>
    node 0 "Assign" [("name", Text.quote name), ("value", value.dump 1), ("line", line.repr)]

def dumpAll (ss : List Statement) : String := String.join (ss.map fun s => s.dump ++ "\n")

end Statement

end EchoScript
