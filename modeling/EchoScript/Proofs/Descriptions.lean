import EchoScript.Proofs.Concatenation
import EchoScript.Proofs.Escaping
import EchoScript.Proofs.ShortestTexts
import EchoScript.Proofs.ViablePrefix

/-!
# EchoScript.Proofs.Descriptions

The text by which a message names a token tells it from every other token, and it is printable.

The first two characters of a description tell the kind of the token (`take_describe`); what stands
behind them tells the value that the token carries, if it carries one (`describe_injective`).
-/

namespace EchoScript

open Text

/-! ## Printable texts -/

def Text.Printable (s : String) : Prop := ∀ c ∈ s.toList, IsPrintable c

instance (s : String) : Decidable (Printable s) :=
  decidable_of_iff (s.toList.all fun c => decide (IsPrintable c)) (by simp [Printable])

theorem Text.Printable.append {s t : String} (hs : Printable s) (ht : Printable t) :
    Printable (s ++ t) := by
  intro c hc
  rw [String.toList_append, List.mem_append] at hc
  exact hc.elim (hs c) (ht c)

theorem Token.IsDigit.printable {c : Char} (h : Token.IsDigit c) : IsPrintable c :=
  ⟨le_trans (by decide) h.1, le_trans h.2 (by decide)⟩

theorem Token.IsLetter.printable {c : Char} (h : Token.IsLetter c) : IsPrintable c := by
  rcases h with ⟨hlow, hhigh⟩ | ⟨hlow, hhigh⟩ | rfl
  · exact ⟨le_trans (by decide) hlow, le_trans hhigh (by decide)⟩
  · exact ⟨le_trans (by decide) hlow, le_trans hhigh (by decide)⟩
  · decide

theorem Number.full_printable (x : Number) : Printable x.full := by
  cases x with
  | nan => decide
  | infinite negative => cases negative <;> decide
  | finite negative rank =>
    intro c hc
    rcases full_numeric negative rank c hc with hdigit | rfl | rfl
    · exact hdigit.printable
    · decide
    · decide

namespace Token

/-! ## Descriptions -/

/-- The first two characters of the description of a token. -/
def initials : Token → List Char
  | .echo => ['\'', 'e']
  | .identifier _ => ['i', 'd']
  | .number _ => ['n', 'u']
  | .string _ => ['s', 't']
  | .dollar => ['\'', '$']
  | .equals => ['\'', '=']
  | .openBracket => ['\'', '[']
  | .closeBracket => ['\'', ']']
  | .comma => ['\'', ',']
  | .dot => ['\'', '.']
  | .newline => ['n', 'e']
  | .blank => ['w', 'h']
  | .endOfInput => ['e', 'n']

theorem take_describe (t : Token) : t.describe.toList.take 2 = t.initials := by
  cases t <;> simp [describe, initials]

theorem describe_injective : Function.Injective describe := by
  intro t t' h
  have hinitials : t.initials = t'.initials := by rw [← take_describe, ← take_describe, h]
  cases t <;> cases t'
  case identifier.identifier name name' =>
    simp only [describe, String.append_left_inj, String.append_right_inj] at h
    rw [h]
  case number.number x x' =>
    simp only [describe, String.append_right_inj] at h
    rw [Number.full_injective h]
  case string.string s s' =>
    simp only [describe, String.append_left_inj, String.append_right_inj] at h
    rw [escape_injective h]
  -- Left are two tokens of one kind without a value, or two kinds with their own initials.
  all_goals simp [initials] at hinitials ⊢

theorem Spells.describe_printable {cs : List Char} {t : Token} (h : Spells cs t) :
    Printable t.describe := by
  cases h with
  | @identifier c cs hc hcs _ =>
    have hname : Printable (String.ofList (c :: cs)) := by
      intro d hd
      rcases List.mem_cons.1 (String.toList_ofList ▸ hd) with rfl | hd
      · exact hc.printable
      · exact (hcs d hd).elim IsLetter.printable IsDigit.printable
    exact (Printable.append (by decide) hname).append (by decide)
  | number _ => exact Printable.append (by decide) (Number.full_printable _)
  | negative _ => exact Printable.append (by decide) (Number.full_printable _)
  | string _ => exact (Printable.append (by decide) (escape_printable _)).append (by decide)
  | _ => decide

theorem describe_printable {source : String} {ts : List Lexeme} (h : ofSource source = .ok ts) :
    ∀ l ∈ ts, Printable l.token.describe := by
  obtain ⟨ls, p, rfl, hmunch⟩ := ofSource_eq_ok h
  intro l hl
  rcases List.mem_append.1 hl with hl | hl
  · exact (hmunch.spells l hl).describe_printable
  · have hend : l.token = .endOfInput := by rw [List.mem_singleton.1 hl]
    rw [hend]
    decide

/-- A syntax error in a script is at one of its lexemes: they do not run out before the end of
input is met. -/
theorem exists_offending {source : String} {ts : List Lexeme} {e : SyntaxError}
    (hts : ofSource source = .ok ts) (he : Statement.listOfTokens ts = .error e) :
    ∃ l ∈ ts, e.found = l.token ∧ e.position = l.position := by
  obtain ⟨x, us, vs, rfl, ⟨ws, ss, hws⟩, hfails⟩ := Grammar.program_stuck ts e he
  simp only [Grammar.readProgram_eq_ok_iff, Grammar.readProgram_eq_error_iff] at hws hfails
  obtain rfl : .unmet x vs.head? = e := Except.error.inj ((hfails vs rfl).symm.trans he)
  cases vs with
  | cons l vs => exact ⟨l, by simp, rfl, rfl⟩
  | nil =>
    -- All lexemes and more of them would be a program, and then the lexemes are one by themselves.
    rw [List.append_nil] at hts he
    obtain ⟨ls, p, rfl, hmunch⟩ := ofSource_eq_ok hts
    rw [List.append_assoc] at hws
    have hprogram := Grammar.program_before_end hws rfl hmunch.ne_endOfInput
    have hends : Grammar.Ends [⟨.endOfInput, "", p⟩] := by simp [Grammar.Ends]
    rw [hprogram.read hends] at he
    cases he

/-- A description fits one token only: of two that are described alike, both are of one kind and
carry the same value, with the sign of a zero. In a script, descriptions are printable ASCII and so
have no tabs and line breaks. What a syntax error says it found is the token at its place, and no
other one is called that. -/
theorem describe_identifies :
    (∀ t t' : Token, t.describe = t'.describe → t = t') ∧
    (∀ source ts, ofSource source = .ok ts →
      ∀ l ∈ ts, ∀ c ∈ l.token.describe.toList, ' ' ≤ c ∧ c ≤ '~') ∧
    (∀ source ts e, ofSource source = .ok ts → Statement.listOfTokens ts = .error e →
      ∃ l ∈ ts, e.position = l.position ∧ e.found = l.token ∧
        ∀ t : Token, t.describe = e.found.describe → t = l.token) := by
  refine ⟨fun _ _ hsame => describe_injective hsame, fun _ _ h => describe_printable h, ?_⟩
  intro source ts e hts he
  obtain ⟨l, hl, hfound, hposition⟩ := exists_offending hts he
  refine ⟨l, hl, hposition, hfound, ?_⟩
  intro t hsame
  exact (describe_injective hsame).trans hfound

/-- The two zeros, and a character that is escaped against the text of its escape, in a script that
starts with no statement. -/
theorem describe_identifies_zeros_and_escapes :
    let zero := Number.ofDecimal false ⟨0, 0⟩
    let negativeZero := Number.ofDecimal true ⟨0, 0⟩
    let ts : List Lexeme := [⟨.number negativeZero, "-0", ⟨1, 1⟩⟩,
      ⟨.string "\\u\x7be9\x7d", "\"\\\\u\x7be9\x7d\"", ⟨1, 4⟩⟩, ⟨.endOfInput, "", ⟨1, 13⟩⟩]
    let e : SyntaxError := ⟨.statement, .number negativeZero, ⟨1, 1⟩⟩
    ofSource "-0 \"\\\\u\x7be9\x7d\"" = .ok ts ∧ Statement.listOfTokens ts = .error e ∧
    (number zero).describe ≠ (number negativeZero).describe ∧
    (string "é").describe ≠ (string "\\u\x7be9\x7d").describe ∧
    (∀ l ∈ ts, ∀ c ∈ l.token.describe.toList, ' ' ≤ c ∧ c ≤ '~') ∧
    ∃ l ∈ ts, e.position = l.position ∧ e.found = l.token ∧
      ∀ t : Token, t.describe = e.found.describe → t = l.token := by
  intro zero negativeZero ts e
  have hts : ofSource "-0 \"\\\\u\x7be9\x7d\"" = .ok ts := by
    with_unfolding_all rfl
  have he : Statement.listOfTokens ts = .error e := by
    simp [ts, e, Statement.listOfTokens, readStatement, Failure.peeking, SyntaxError.unmet]
  have hsign : ∀ rank, Number.ofRank false rank ≠ Number.ofRank true rank := by
    intro rank
    unfold Number.ofRank
    split <;> simp
  have hzeros : zero ≠ negativeZero := hsign _
  obtain ⟨hinjective, hprintable, hoffending⟩ := describe_identifies
  refine ⟨hts, he, ?_, ?_, hprintable _ ts hts, hoffending _ ts e hts he⟩
  · intro hsame
    exact hzeros (number.inj (hinjective _ _ hsame))
  · intro hsame
    exact absurd (hinjective _ _ hsame) (by decide)

end Token
end EchoScript
