import EchoScript.Number.Text
import EchoScript.OrderedMap

/-!
# EchoScript.Value.Basic

What scripts compute with: null, numbers, strings and ordered maps of values. The print form is what a
script shows of a value.
-/

namespace EchoScript

inductive Value where
  | null
  | number (value : Number)
  | string (text : String)
  | map (entries : OrderedMap Value)

namespace Value

def typeName : Value → String
  | .null => "null"
  | .number _ => "number"
  | .string _ => "string"
  | .map _ => "map"

def isNull : Value → Bool
  | .null => true
  | _ => false

/-- What a path finds under a key: null unless the value is a map that has it. -/
def field (v : Value) (key : String) : Value :=
  match v with
  | .map entries => (entries.get? key).getD .null
  | _ => .null

mutual

def print : Value → String
  | .null => "null"
  | .number value => value.print
  | .string text => text
  | .map ⟨entries⟩ => "[" ++ printEntries entries ++ "]"

/-- The print form of a map's entries, separated by commas. -/
def printEntries : List (String × Value) → String
  | [] => ""
  | [(k, v)] => "$" ++ k ++ " = " ++ print v
  | (k, v) :: e :: rest => "$" ++ k ++ " = " ++ print v ++ ", " ++ printEntries (e :: rest)

end

mutual

/-- Equality as the language compares values: numbers as numbers, maps entry by entry in order. -/
def equal : Value → Value → Bool
  | .null, .null => true
  | .number a, .number b => a.equal b
  | .string a, .string b => a = b
  | .map ⟨a⟩, .map ⟨b⟩ => equalEntries a b
  | _, _ => false

def equalEntries : List (String × Value) → List (String × Value) → Bool
  | [], [] => true
  | (k, v) :: as, (l, w) :: bs => k = l && equal v w && equalEntries as bs
  | _, _ => false

end

end Value

end EchoScript
