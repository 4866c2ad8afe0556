import EchoScript.Proofs.Concatenation
import EchoScript.Proofs.Numerals
import EchoScript.Proofs.TreeTokens

/-!
# EchoScript.Proofs.Rendering

Writing statements as a script, and reading them back.

`Script.render` writes each statement on a line of its own, its tokens apart by one space. A number
is written out to its last digit, a string with a backslash before quotes and backslashes only. What
can be written is read back as it was, up to lines, and nothing else is ever read
(`statements_render`).
-/

namespace EchoScript

namespace Number

/-! ## Numbers to the last digit -/

/-- A one with so many zeros is past the last finite number. -/
def infiniteZeros : Nat := 400

/-- A decimal fraction that denotes the number: its exact value, or for infinity one that is
too large. -/
def expansion : Number → String
  | .nan => "NaN"
  | .infinite negative => signed negative (Decimal.text ⟨Nat.pow 10 infiniteZeros, 0⟩)
  | .finite negative rank => signed negative (Decimal.text ⟨steps rank, finestPlaces⟩)

theorem ofDecimal_steps (negative : Bool) (rank : Fin ranks) :
    ofDecimal negative ⟨steps rank, finestPlaces⟩ = .finite negative rank := by
  rw [← ofRank_rank, ofDecimal]
  exact congrArg (ofRank negative) (nearestRank_steps rank)

theorem two_pow_le_ten_pow {k n : Nat} (h : k ≤ 3 * n) : 2 ^ k ≤ 10 ^ n :=
  calc 2 ^ k ≤ 2 ^ (3 * n) := Nat.pow_le_pow_right (by decide) h
    _ = (2 ^ 3) ^ n := Nat.pow_mul 2 3 n
    _ ≤ 10 ^ n := Nat.pow_le_pow_left (by decide) n

theorem ofDecimal_overflow (negative : Bool) {n : Nat} (h : 52 + 973 ≤ 3 * n) :
    ofDecimal negative ⟨Nat.pow 10 n, 0⟩ = .infinite negative := by
  obtain ⟨a, ha, hranks⟩ : ∃ a, 52 + a ≤ 3 * n ∧ ranks = (a + finestPlaces) * binade :=
    ⟨973, h, rfl⟩
  have hnum : binade * (10 ^ 0 * 2 ^ (a + finestPlaces)) ≤ 10 ^ n * resolution :=
    calc binade * (10 ^ 0 * 2 ^ (a + finestPlaces)) = 2 ^ (52 + a) * 2 ^ finestPlaces := by
          rw [binade_eq, Nat.pow_zero, Nat.one_mul, ← Nat.pow_add, ← Nat.pow_add, Nat.add_assoc]
      _ ≤ 10 ^ n * 2 ^ finestPlaces := Nat.mul_le_mul_right _ (two_pow_le_ten_pow ha)
      _ = 10 ^ n * resolution := by rw [resolution_eq]
  have hrank : ranks ≤ nearestRank (10 ^ n * resolution) (10 ^ 0) := by
    rw [hranks]
    exact le_nearestRank (by decide) hnum
  exact dif_neg (Nat.not_lt.2 hrank)

theorem spells_expansion {x : Number} (h : x ≠ .nan) :
    Token.Spells x.expansion.toList (.number x) := by
  cases x with
  | nan => exact absurd rfl h
  | infinite negative =>
    have hspells := spells_signed_text negative ⟨Nat.pow 10 infiniteZeros, 0⟩
    rwa [ofDecimal_overflow negative (by decide)] at hspells
  | finite negative rank =>
    have hspells := spells_signed_text negative ⟨steps rank, finestPlaces⟩
    rwa [ofDecimal_steps] at hspells

end Number

namespace Token

/-! ## Tokens apart by spaces -/

/-- A character between quotes. -/
def escape (c : Char) : List Char := if c = '"' ∨ c = '\\' then ['\\', c] else [c]

theorem quoted_escape (cs : List Char) : Quoted (cs.flatMap escape) cs := by
  induction cs with
  | nil => exact .nil
  | cons c cs ih =>
    rw [List.flatMap_cons, escape]
    split
    · rename_i hc
      have hletters : c ≠ 'n' ∧ c ≠ 'r' ∧ c ≠ 't' := by rcases hc with rfl | rfl <;> decide
      exact .other hletters.1 hletters.2.1 hletters.2.2 ih
    · rename_i hc
      exact .plain (fun h => hc (.inl h)) (fun h => hc (.inr h)) ih

def write : Token → List Char
  | .echo => ['e', 'c', 'h', 'o']
  | .identifier name => name.toList
  | .number value => value.expansion.toList
  | .string text => '"' :: (text.toList.flatMap escape ++ ['"'])
  | .dollar => ['$']
  | .equals => ['=']
  | .openBracket => ['[']
  | .closeBracket => [']']
  | .comma => [',']
  | .dot => ['.']
  | .newline => ['\n']
  | .blank => [' ']
  | .endOfInput => []

/-- What is written for the token spells it. -/
def Writable (t : Token) : Prop := Spells t.write t

theorem writable_string (text : String) : Writable (.string text) := by
  have hspells := Spells.string (quoted_escape text.toList)
  rwa [String.ofList_toList] at hspells

def spaced (ts : List Token) : List Char := [' '].intercalate (ts.map write)

theorem Renders.spaced {cs : List Char} {us : List Token} (hseam : Seam cs) (hcs : Renders cs us) :
    ∀ ts : List Token, (∀ t ∈ ts, Writable t) → Renders (spaced ts ++ cs) (ts ++ us)
  | [], _ => hcs
  | [t], hts => by
    rw [Token.spaced, List.map_singleton, List.intercalate_singleton]
    exact hcs.word (hts t (by simp)) hseam
  | t :: u :: ts, hts => by
    have hrest := Renders.spaced hseam hcs (u :: ts) fun v hv => hts v (by simp [hv])
    have hword := (Renders.blank (c := ' ') rfl hrest).word (hts t (by simp)) (seam_space _)
    rwa [Token.spaced, List.map_cons, List.map_cons, List.intercalate_cons_cons, ← List.map_cons,
      List.append_assoc, List.append_assoc]

end Token

/-! ## Statements on lines -/

theorem Token.writable_binding {key : String} (hkey : IsName key) {ts : List Token}
    (hts : ∀ t ∈ ts, t.Writable) :
    ∀ t ∈ .dollar :: .identifier key :: .equals :: ts, t.Writable := by
  simp only [List.mem_cons]
  rintro t (rfl | rfl | rfl | ht)
  · exact .dollar
  · exact hkey.spells
  · exact .equals
  · exact hts t ht

namespace Expr

mutual

theorem tokens_writable : (e : Expr) → e.Renderable → ∀ t ∈ e.tokens, t.Writable
  | .string text _, _ => List.forall_mem_singleton.2 (Token.writable_string text)
  | .number value _, h => List.forall_mem_singleton.2 (Number.spells_expansion h)
  | .var name _, h => by simpa [tokens] using ⟨.dollar, IsName.spells h⟩
  | .path base key _, h => by
    have hbase := tokens_writable base h.1
    simp only [tokens, List.mem_append, List.mem_cons, List.not_mem_nil, or_false]
    rintro t (ht | rfl | rfl | rfl)
    · exact hbase t ht
    · exact .dot
    · exact .dollar
    · exact h.2.2.spells
  | .map entries _, h => by
    have hentries := entriesTokens_writable entries h
    simp only [tokens, List.mem_append, List.mem_cons, List.not_mem_nil, or_false]
    rintro t ((rfl | ht) | rfl)
    · exact .openBracket
    · exact hentries t ht
    · exact .closeBracket

theorem entriesTokens_writable : (entries : List (String × Expr)) → RenderableEntries entries →
    ∀ t ∈ entriesTokens entries, t.Writable
  | [], _ => by simp [entriesTokens]
  | [(key, value)], h => Token.writable_binding h.1 (tokens_writable value h.2.1)
  | (key, value) :: e :: rest, h => by
    have hentry := Token.writable_binding h.1 (tokens_writable value h.2.1)
    have hrest := entriesTokens_writable (e :: rest) h.2.2
    intro t ht
    rcases List.mem_append.1 ht with ht | ht
    · exact hentry t ht
    · rcases List.mem_cons.1 ht with rfl | ht
      · exact .comma
      · exact hrest t ht

end

end Expr

theorem Statement.tokens_writable {s : Statement} (h : s.Renderable) :
    ∀ t ∈ s.tokens, t.Writable := by
  cases s with
  | echo value line =>
    have hvalue := value.tokens_writable h
    simp only [tokens, List.mem_cons]
    rintro t (rfl | ht)
    · exact .echo
    · exact hvalue t ht
  | assign name value line => exact Token.writable_binding h.1 (value.tokens_writable h.2)

namespace Script

/-- Each statement on its own line. -/
def render (ss : List Statement) : String :=
  String.ofList (ss.flatMap fun s => Token.spaced s.tokens ++ ['\n'])

def lineTokens (ss : List Statement) : List Token := ss.flatMap fun s => s.tokens ++ [.newline]

theorem renders_render {ss : List Statement} (h : ∀ s ∈ ss, s.Renderable) :
    Token.Renders (render ss).toList (lineTokens ss) := by
  rw [render, String.toList_ofList]
  induction ss with
  | nil => exact .nil
  | cons s ss ih =>
    have hrest := ih fun s' hs' => h s' (by simp [hs'])
    have hline := (Token.Renders.mark (c := '\n') rfl hrest).spaced (Token.seam_newline _) s.tokens
      (Statement.tokens_writable (h s (by simp)))
    simpa [lineTokens] using hline

theorem exists_lines {ss : List Statement} (h : ∀ s ∈ ss, s.Renderable) {ts : List Lexeme}
    (hts : ts.map Lexeme.token = lineTokens ss) :
    ∃ ss', Grammar.Program ts ss' ∧ ss'.map Statement.unlined = ss.map Statement.unlined := by
  induction ss generalizing ts with
  | nil =>
    obtain rfl := List.map_eq_nil_iff.1 hts
    exact ⟨[], .last (by simp [Grammar.Newlines]), rfl⟩
  | cons s ss ih =>
    rw [lineTokens, List.flatMap_cons, List.append_assoc] at hts
    obtain ⟨us, vs, rfl, hus, hvs⟩ := List.map_eq_append_iff.1 hts
    obtain ⟨n, ws, rfl, hn, hws⟩ := Grammar.map_token_cons hvs
    obtain ⟨s', hs', hsame⟩ := Grammar.exists_sentence (h s (by simp)) hus
    obtain ⟨ss', hss', hsame'⟩ := ih (fun s' hs' => h s' (by simp [hs'])) hws
    have hnone : Grammar.Newlines [] := by simp [Grammar.Newlines]
    exact ⟨s' :: ss', .next hnone hs' (hss'.newline hn), by
      rw [List.map_cons, List.map_cons, hsame, hsame']⟩

/-- A text that spells tokens which derive the statements is read as them. -/
theorem statements_of_renders {source : String} {ts : List Token} {ss : List Statement}
    (h : Token.Renders source.toList ts) (hss : ∀ ls : List Lexeme, ls.map Lexeme.token = ts →
      ∃ ss', Grammar.Program ls ss' ∧ ss'.map Statement.unlined = ss.map Statement.unlined) :
    ∃ ss', statements source = .ok ss' ∧
      ss'.map Statement.unlined = ss.map Statement.unlined := by
  obtain ⟨ls, last, hsource, hlast, hls⟩ := h.ofSource
  obtain ⟨ss', hprogram, hsame⟩ := hss ls hls
  have hend : Grammar.Ends [last] := by simpa [Grammar.Ends] using hlast
  exact ⟨ss', statements_eq_ok.2 ⟨_, hsource, hprogram.read hend⟩, hsame⟩

theorem renderable_of_statements {source : String} {ss : List Statement}
    (h : statements source = .ok ss) : ∀ s ∈ ss, s.Renderable := by
  obtain ⟨ts, hts, hss⟩ := statements_eq_ok.1 h
  obtain ⟨ls, q, -, hprogram, hspells⟩ := exists_program hts hss
  exact hprogram.renderable fun l hl => ⟨_, hspells l hl⟩

/-- What can be written is read back as it was, up to lines, and nothing else is ever read. -/
theorem statements_render :
    (∀ ss : List Statement, (∀ s ∈ ss, s.Renderable) → ∃ ss', statements (render ss) = .ok ss' ∧
      ss'.map Statement.unlined = ss.map Statement.unlined) ∧
    ∀ (source : String) (ss : List Statement), statements source = .ok ss →
      ∀ s ∈ ss, s.Renderable := by
  refine ⟨?_, fun source ss h => renderable_of_statements h⟩
  intro ss h
  exact statements_of_renders (renders_render h) fun ls hls => exists_lines h hls

/-- Signed zero and infinity in a map, a path, and a string of quotes and comment marks. -/
theorem statements_render_marks :
    let ss : List Statement := [
      .assign "m" (.map [("zero", .number (.ofRank true 0) 1), ("_2", .number (.infinite true) 1)] 1) 1,
      .echo (.path (.path (.var "m" 5) "echo2" 5) "_2" 5) 5,
      .echo (.string "\"//\\n\n*/" 3) 3]
    (∀ s ∈ ss, s.Renderable) ∧ ∃ ss', statements (render ss) = .ok ss' ∧
      ss'.map Statement.unlined = ss.map Statement.unlined ∧ ∀ s ∈ ss', s.Renderable := by
  intro ss
  have hm : IsName "m" := isName_of_chars rfl rfl rfl (by simp)
  have hzero : IsName "zero" := isName_of_chars rfl rfl rfl (by simp)
  have hecho : IsName "echo2" := isName_of_chars rfl rfl rfl (by simp)
  have hlow : IsName "_2" := isName_of_chars rfl rfl rfl (by simp)
  have hss : ∀ s ∈ ss, s.Renderable := by
    simp only [ss, List.mem_cons, List.not_mem_nil, or_false]
    rintro s (rfl | rfl | rfl)
    · exact ⟨hm, ⟨hzero, Grammar.ofRank_ne_nan true 0, hlow, nofun, trivial⟩⟩
    · exact ⟨⟨hm, rfl, hecho⟩, rfl, hlow⟩
    · exact trivial
  obtain ⟨ss', hread, hsame⟩ := statements_render.1 ss hss
  exact ⟨hss, ss', hread, hsame, statements_render.2 _ _ hread⟩

end Script
end EchoScript
