import EchoScript.Proofs.CommandLine
import EchoScript.Proofs.Descriptions

/-!
# EchoScript.Proofs.DumpedLexemes

Lexemes that are written out can be read back.

A lexeme is written on a line of three fields. No field has a tab or a line break in it
(`Lexeme.fields_not_divider`). So the whole text is cut at its line breaks into the lines
(`Lexeme.splitOn_dumpAll`), and a line is cut at its tabs into the fields (`Lexeme.splitOn_line`),
which determine the lexeme (`Lexeme.fields_injective`).
-/

namespace EchoScript

open Text

namespace Position

theorem text_printable (p : Position) : ∀ c ∈ p.text, IsPrintable c := by
  intro c hc
  simp only [text, List.intercalate, List.intersperse, List.flatten_cons, List.flatten_nil,
    List.mem_append, List.mem_singleton, List.not_mem_nil, or_false] at hc
  rcases hc with hline | rfl | hcolumn
  · exact (Decimal.toDigits_isDigit _ c hline).printable
  · decide
  · exact (Decimal.toDigits_isDigit _ c hcolumn).printable

theorem splitOn_text (p : Position) :
    p.text.splitOn ':' = [Nat.toDigits 10 p.line, Nat.toDigits 10 p.column] := by
  have hcolon : ∀ n, ':' ∉ Nat.toDigits 10 n := by
    intro n hmem
    exact absurd (Decimal.toDigits_isDigit n ':' hmem) (by decide)
  refine List.splitOn_intercalate ':' ?_ (by simp)
  simp [hcolon]

theorem text_injective : Function.Injective text := by
  have hdigits : Function.Injective (Nat.toDigits 10) := by
    intro m n h
    rw [← @Nat.ofDigitChars_ten_toDigits m, h, Nat.ofDigitChars_ten_toDigits]
  intro p q h
  have hparts := splitOn_text p
  rw [h, splitOn_text q] at hparts
  simp only [List.cons.injEq, and_true] at hparts
  obtain ⟨hline, hcolumn⟩ := hparts
  cases p
  cases q
  rw [mk.injEq]
  exact ⟨hdigits hline.symm, hdigits hcolumn.symm⟩

end Position

namespace Lexeme

/-! ## Fields and lines -/

theorem fields_injective : Function.Injective fields := by
  intro l l' h
  simp only [fields, List.cons.injEq, and_true] at h
  obtain ⟨hposition, htoken, htext⟩ := h
  cases l
  cases l'
  rw [mk.injEq]
  exact ⟨Token.describe_injective (String.toList_inj.1 htoken),
    quote_injective (String.toList_inj.1 htext), Position.text_injective hposition⟩

theorem fields_not_divider {l : Lexeme} (h : Printable l.token.describe) :
    ∀ f ∈ l.fields, ∀ c ∈ f, ¬ IsDivider c := by
  simp only [fields, List.forall_mem_cons]
  refine ⟨?_, ?_, quote_not_divider l.text, by simp⟩
  · intro c hc
    exact (l.position.text_printable c hc).not_divider
  · intro c hc
    exact (h c hc).not_divider

theorem splitOn_line {l : Lexeme} (h : Printable l.token.describe) :
    l.line.splitOn '\t' = l.fields := by
  refine List.splitOn_intercalate '\t' ?_ (by simp [fields])
  intro f hf htab
  exact fields_not_divider h f hf '\t' htab (.inl rfl)

/-- A line has no line break in it, and a tab only between the fields. -/
theorem line_dividers {l : Lexeme} (h : Printable l.token.describe) :
    '\n' ∉ l.line ∧ l.line.count '\t' = 2 := by
  have hfields : ∀ d, IsDivider d → ∀ f ∈ l.fields, d ∉ f := by
    intro d hd f hf hmem
    exact fields_not_divider h f hf d hmem hd
  simp only [fields, List.forall_mem_cons] at hfields
  obtain ⟨hposition, htoken, htext, -⟩ := hfields '\n' (.inr rfl)
  obtain ⟨hposition', htoken', htext', -⟩ := hfields '\t' (.inl rfl)
  rw [line_eq]
  constructor
  · simp [hposition, htoken, htext]
  · rw [← List.count_eq_zero] at hposition' htoken' htext'
    simp [hposition', htoken', htext']

/-! ## The whole text -/

theorem toList_dumpAll (ls : List Lexeme) :
    (dumpAll ls).toList = (ls.map line).flatMap (· ++ ['\n']) := by
  simp [dumpAll_eq, ofLines, String.toList_join, List.flatMap_map]

/-- Behind the last line break there is nothing. -/
theorem splitOn_dumpAll {ls : List Lexeme} (h : ∀ l ∈ ls, Printable l.token.describe) :
    (dumpAll ls).toList.splitOn '\n' = ls.map line ++ [[]] := by
  have hends : ∀ lines : List (List Char),
      lines.flatMap (· ++ ['\n']) = ['\n'].intercalate (lines ++ [[]]) := by
    intro lines
    induction lines with
    | nil => rfl
    | cons line lines ih =>
      rw [List.flatMap_cons, ih]
      cases lines <;> simp [List.intercalate]
  rw [toList_dumpAll, hends]
  refine List.splitOn_intercalate '\n' ?_ (by simp)
  intro line hline
  rcases List.mem_append.1 hline with hline | hline
  · obtain ⟨l, hl, rfl⟩ := List.mem_map.1 hline
    exact (line_dividers (h l hl)).1
  · simp [List.mem_singleton.1 hline]

theorem eq_of_dumpAll_eq {ls ls' : List Lexeme} (h : ∀ l ∈ ls, Printable l.token.describe)
    (h' : ∀ l ∈ ls', Printable l.token.describe) (heq : dumpAll ls = dumpAll ls') : ls = ls' := by
  have hlines : ls.map line = ls'.map line := by
    have hsplit := splitOn_dumpAll h
    rw [heq, splitOn_dumpAll h'] at hsplit
    exact List.append_cancel_right hsplit.symm
  have hfields : ∀ {ls : List Lexeme}, (∀ l ∈ ls, Printable l.token.describe) →
      (ls.map line).map (·.splitOn '\t') = ls.map fields := by
    intro ls h
    rw [List.map_map]
    exact List.map_congr_left fun l hl => splitOn_line (h l hl)
  refine List.map_injective_iff.2 fields_injective ?_
  rw [← hfields h, ← hfields h', hlines]

end Lexeme

namespace Command.Request

/-- What the flag for lexemes adds: they are written out before all else. -/
theorem perform_dumpTokens {source : String} {ts : List Lexeme}
    (h : Token.ofSource source = .ok ts) (r : Request) :
    ({ r with dumpTokens := true }.perform source).stderr =
      Lexeme.dumpAll ts ++ ({ r with dumpTokens := false }.perform source).stderr := by
  simp only [perform_eq, dumps, h, Lexeme.dumpAll_eq]
  cases Script.output source <;> simp [Report.ofResult, String.append_assoc]

end Command.Request

namespace Lexeme

/-- The flag for lexemes makes the command write a text of one line for each lexeme of the script,
with its line break at the end and with two tabs in it. Scripts with the same text have the same
lexemes, whatever their strings hold. -/
theorem dumpAll_unambiguous {source source' : String} {ts ts' : List Lexeme}
    (h : Token.ofSource source = .ok ts) (h' : Token.ofSource source' = .ok ts') :
    (∀ r : Command.Request, ({ r with dumpTokens := true }.perform source).stderr =
      dumpAll ts ++ ({ r with dumpTokens := false }.perform source).stderr) ∧
    (dumpAll ts).toList = (ts.map line).flatMap (· ++ ['\n']) ∧
    (∀ l ∈ ts, '\n' ∉ l.line ∧ l.line.count '\t' = 2) ∧
    (dumpAll ts = dumpAll ts' → ts = ts') := by
  have hprintable := Token.describe_printable h
  refine ⟨Command.Request.perform_dumpTokens h, toList_dumpAll ts, ?_, ?_⟩
  · intro l hl
    exact line_dividers (hprintable l hl)
  · exact eq_of_dumpAll_eq hprintable (Token.describe_printable h')

/-- Two literals of one tab, with a tab behind the backslash and with the letter. -/
theorem dumpAll_unambiguous_tabs :
    let ts : List Lexeme :=
      [⟨.string "\t", "\"\\\t\"", ⟨1, 1⟩⟩, ⟨.endOfInput, "", ⟨1, 5⟩⟩]
    let ts' : List Lexeme :=
      [⟨.string "\t", "\"\\t\"", ⟨1, 1⟩⟩, ⟨.endOfInput, "", ⟨1, 5⟩⟩]
    Token.ofSource "\"\\\t\"" = .ok ts ∧ Token.ofSource "\"\\t\"" = .ok ts' ∧
    dumpAll ts = "1:1\tstring \"\\t\"\t\"\\\"\\\\\\t\\\"\"\n1:5\tend of input\t\"\"\n" ∧
    (∀ l ∈ ts, '\n' ∉ l.line ∧ l.line.count '\t' = 2) ∧ dumpAll ts ≠ dumpAll ts' := by
  intro ts ts'
  have hts : Token.ofSource "\"\\\t\"" = .ok ts := by
    with_unfolding_all rfl
  have hts' : Token.ofSource "\"\\t\"" = .ok ts' := by
    with_unfolding_all rfl
  obtain ⟨-, -, hlines, hsame⟩ := dumpAll_unambiguous hts hts'
  refine ⟨hts, hts', by decide, hlines, ?_⟩
  intro heq
  exact absurd (hsame heq) (by decide)

end Lexeme
end EchoScript
