import EchoScript.Token.Dump
import EchoScript.Tree.Dump

/-!
# EchoScript.Proofs.Outlines

What is written out of lexemes and trees, line by line.

A tree is written out at a depth, which is handed down to its parts. Its `Outline` has no depth: the
lines of a part are moved to the right as a whole when the part is put into a block. Both come to the
same text (`Expr.dump_eq`), for each depth.
-/

namespace EchoScript

/-- The text of lines, each ended by a line break. -/
def Text.ofLines (lines : List String) : String := String.join (lines.map (· ++ "\n"))

theorem Text.ofLines_append (lines lines' : List String) :
    ofLines (lines ++ lines') = ofLines lines ++ ofLines lines' := by
  rw [ofLines, List.map_append, String.join_append, ofLines, ofLines]

/-! ## Lexemes -/

def Position.text (p : Position) : List Char :=
  [':'].intercalate [Nat.toDigits 10 p.line, Nat.toDigits 10 p.column]

namespace Lexeme

/-- The fields of a line: the place, the token and the text it was read from. -/
def fields (l : Lexeme) : List (List Char) :=
  [l.position.text, l.token.describe.toList, (Text.quote l.text).toList]

/-- The line that a lexeme is written on, without the line break. -/
def line (l : Lexeme) : List Char := ['\t'].intercalate l.fields

theorem line_eq (l : Lexeme) : l.line = l.position.text ++
    '\t' :: (l.token.describe.toList ++ '\t' :: (Text.quote l.text).toList) := by
  simp [line, fields, List.intercalate]

theorem dump_eq (l : Lexeme) : l.dump = String.ofList l.line ++ "\n" := by
  rw [← String.toList_inj]
  simp [dump, line_eq, Position.text, List.intercalate]

theorem dumpAll_eq (ls : List Lexeme) :
    dumpAll ls = Text.ofLines (ls.map fun l => String.ofList l.line) := by
  rw [dumpAll, Text.ofLines, List.map_map]
  exact congrArg String.join (List.map_congr_left fun l _ => dump_eq l)

end Lexeme

/-! ## Outlines -/

/-- Lines of which there is at least one. -/
structure Outline where
  first : String
  rest : List String

namespace Outline

def lines (o : Outline) : List String := o.first :: o.rest

def ofLine (line : String) : Outline := ⟨line, []⟩

/-- A field of a node starts with its label. -/
def labelled (label : String) (o : Outline) : Outline := { o with first := label ++ ": " ++ o.first }

/-- An item of a block ends with a comma. -/
def ended : String → List String → List String
  | line, [] => [line ++ ","]
  | line, next :: rest => line :: ended next rest

/-- The lines of items, four spaces to the right of where they start. -/
def inside (items : List Outline) : List String :=
  items.flatMap fun o => (ended o.first o.rest).map ("    " ++ ·)

def block (opening closing : String) (items : List Outline) : Outline :=
  ⟨opening, inside items ++ [closing]⟩

def node (name : String) (fields : List (String × Outline)) : Outline :=
  block (name ++ " \x7b") "\x7d" (fields.map fun (label, o) => o.labelled label)

/-- What stands before a line that is not the first one. -/
def margin (depth : Nat) : String := "\n" ++ Dump.indent depth

/-- The text of an outline whose first line is already started at a depth. -/
def text (depth : Nat) (o : Outline) : String :=
  o.first ++ String.join (o.rest.map (margin depth ++ ·))

theorem margin_succ (depth : Nat) : margin (depth + 1) = margin depth ++ "    " := by
  have hspaces : List.replicate (4 * (depth + 1)) ' ' =
      List.replicate (4 * depth) ' ' ++ "    ".toList :=
    List.replicate_append_replicate.symm
  rw [margin, margin, Dump.indent, Dump.indent, hspaces, String.ofList_append, String.ofList_toList,
    String.append_assoc]

@[simp]
theorem text_ofLine (depth : Nat) (line : String) : (ofLine line).text depth = line := by
  simp [text, ofLine]

theorem text_labelled (depth : Nat) (label : String) (o : Outline) :
    (o.labelled label).text depth = label ++ ": " ++ o.text depth := by
  simp [text, labelled, String.append_assoc]

theorem join_ended (margin line : String) (rest : List String) :
    String.join ((ended line rest).map (margin ++ ·)) =
      margin ++ line ++ String.join (rest.map (margin ++ ·)) ++ "," := by
  induction rest generalizing line with
  | nil => simp [ended, String.append_assoc]
  | cons next rest ih => simp [ended, ih, String.append_assoc]

/-- The lines of an item, with the margin of its block. -/
theorem join_item (depth : Nat) (o : Outline) :
    String.join (((ended o.first o.rest).map ("    " ++ ·)).map (margin depth ++ ·)) =
      margin (depth + 1) ++ o.text (depth + 1) ++ "," := by
  have hmargin : ((margin depth ++ ·) ∘ ("    " ++ ·)) = (margin (depth + 1) ++ ·) := by
    funext line
    simp [margin_succ, String.append_assoc]
  rw [List.map_map, hmargin, join_ended, text]
  simp only [String.append_assoc]

/-- The line break behind each item stands before the next line of the outline. -/
theorem lines_eq (depth : Nat) (items : List Outline) :
    "\n" ++ Dump.lines (depth + 1) (items.map (text (depth + 1))) =
      String.join ((inside items).map (margin depth ++ ·)) ++ "\n" := by
  induction items with
  | nil => rfl
  | cons o items ih =>
    have hcomma : ",\n" = "," ++ "\n" := rfl
    rw [inside, List.flatMap_cons, ← inside, List.map_append, String.join_append, join_item,
      String.append_assoc, ← ih]
    simp only [Dump.lines, List.map_cons, String.join_cons, margin, hcomma, String.append_assoc]

theorem text_block (depth : Nat) (opening closing : String) (items : List Outline) :
    (block opening closing items).text depth =
      Dump.block depth opening closing (items.map (text (depth + 1))) := by
  calc (block opening closing items).text depth
      = opening ++ (String.join ((inside items).map (margin depth ++ ·)) ++ "\n") ++
          Dump.indent depth ++ closing := by simp [text, block, margin, String.append_assoc]
    _ = opening ++ ("\n" ++ Dump.lines (depth + 1) (items.map (text (depth + 1)))) ++
          Dump.indent depth ++ closing := by rw [lines_eq]
    _ = Dump.block depth opening closing (items.map (text (depth + 1))) := by
      rw [Dump.block, ← String.append_assoc]

theorem text_node (depth : Nat) (name : String) (fields : List (String × Outline)) :
    (node name fields).text depth =
      Dump.node depth name (fields.map fun (label, o) => (label, o.text (depth + 1))) := by
  rw [node, text_block, Dump.node, List.map_map, List.map_map]
  congr 1
  exact List.map_congr_left fun f _ => text_labelled (depth + 1) f.1 f.2

/-- At the start of a line, an outline is its lines. -/
theorem text_zero (o : Outline) : o.text 0 ++ "\n" = Text.ofLines o.lines := by
  obtain ⟨first, rest⟩ := o
  have hmargin : margin 0 = "\n" := rfl
  rw [text, hmargin]
  induction rest generalizing first with
  | nil => simp [Text.ofLines, lines]
  | cons line rest ih =>
    have hrest := ih line
    simp only [Text.ofLines, lines, List.map_cons, String.join_cons, String.append_assoc] at hrest ⊢
    rw [hrest]

end Outline

/-! ## Trees -/

namespace Expr

open Outline Text

mutual

def outline : Expr → Outline
  | .string text line =>
    node "StringLiteral" [("value", ofLine (quote text)), ("line", ofLine line.repr)]
  | .number value line =>
    node "NumberLiteral" [("value", ofLine value.dump), ("line", ofLine line.repr)]
  | .var name line => node "Variable" [("name", ofLine (quote name)), ("line", ofLine line.repr)]
  | .path base key line =>
    node "PathAccess"
      [("base", base.outline), ("key", ofLine (quote key)), ("line", ofLine line.repr)]
  | .map entries line =>
    -- A list without items is written on one line.
    node "MapLiteral"
      [("entries", if entries.isEmpty then ofLine "[]" else block "[" "]" (entriesOutlines entries)),
        ("line", ofLine line.repr)]

def entriesOutlines : List (String × Expr) → List Outline
  | [] => []
  | (key, value) :: rest =>
    block "(" ")" [ofLine (quote key), value.outline] :: entriesOutlines rest

end

mutual

theorem dump_eq (depth : Nat) : (e : Expr) → e.dump depth = e.outline.text depth
  | .string text line => by simp [dump, outline, text_node]
  | .number value line => by simp [dump, outline, text_node]
  | .var name line => by simp [dump, outline, text_node]
  | .path base key line => by simp [dump, outline, text_node, dump_eq (depth + 1) base]
  | .map [] line => by simp [dump, outline, text_node]
  | .map (e :: rest) line => by
    simp [dump, outline, text_node, text_block, dumpEntries_eq (depth + 2) (e :: rest)]

theorem dumpEntries_eq (depth : Nat) : (entries : List (String × Expr)) →
    dumpEntries depth entries = (entriesOutlines entries).map (text depth)
  | [] => rfl
  | (key, value) :: rest => by
    simp [dumpEntries, entriesOutlines, text_block, dump_eq (depth + 1) value,
      dumpEntries_eq depth rest]

end

end Expr

namespace Statement

open Outline Text

def outline : Statement → Outline
  | .echo value line => node "Echo" [("expr", value.outline), ("line", ofLine line.repr)]
  | .assign name value line =>
    node "Assign"
      [("name", ofLine (quote name)), ("value", value.outline), ("line", ofLine line.repr)]

theorem dump_eq (s : Statement) : s.dump = s.outline.text 0 := by
  cases s <;> simp [dump, outline, text_node, Expr.dump_eq]

theorem dumpAll_eq (ss : List Statement) :
    dumpAll ss = ofLines (ss.flatMap fun s => s.outline.lines) := by
  induction ss with
  | nil => rfl
  | cons s ss ih =>
    rw [List.flatMap_cons, ofLines_append, ← ih, ← text_zero, ← dump_eq, dumpAll, dumpAll,
      List.map_cons, String.join_cons]

end Statement
end EchoScript
