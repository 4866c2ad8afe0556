import EchoScript.Proofs.Columns
import EchoScript.Proofs.Seams

/-!
# EchoScript.Proofs.Spacing

What stands between two tokens does not matter, as long as something does.

A separator is made of blanks and of block comments on one line. Blanking out leaves only blanks of
it (`Separator.blankFrom`), whatever stands before and behind it, so that the text behind it is read
from some later column of the same line (`ofSource_separator`). Columns are never looked at.
-/

namespace EchoScript

namespace Comment

/-- At least one blank or block comment, all on one line. -/
inductive Separator : List Char → Prop where
  | blank {c : Char} : c = ' ' ∨ c = '\t' ∨ c = '\r' → Separator [c]
  | comment {body : List Char} : '\n' ∉ body → ¬ ['*', '/'] <:+: body →
      Separator (['/', '*'] ++ body ++ ['*', '/'])
  | append {v w : List Char} : Separator v → Separator w → Separator (v ++ w)

/-- A block comment goes up to the first end mark behind its start mark. -/
theorem blankFrom_body {body : List Char} (h : ¬ ['*', '/'] <:+: body) (cs : List Char) :
    closes (body ++ '*' :: '/' :: cs) = true ∧
      blankFrom .block (body ++ '*' :: '/' :: cs) =
        body.map blank ++ ' ' :: ' ' :: blankFrom .code cs := by
  induction body with
  | nil => exact ⟨by simp [closes], by simp [blankFrom]⟩
  | cons c body ih =>
    have hmark : ∀ x, c = '*' → body ++ '*' :: '/' :: cs ≠ '/' :: x := by
      rintro x rfl heq
      cases body with
      | nil => cases heq
      | cons d body =>
        obtain ⟨rfl, -⟩ := List.cons.inj heq
        exact h ⟨[], body, rfl⟩
    obtain ⟨hcloses, hblank⟩ := ih fun hinfix => h (List.infix_cons hinfix)
    constructor
    · rwa [List.cons_append, closes]
      exact hmark
    · rw [List.cons_append, blankFrom, hblank]
      · rfl
      · exact hmark

theorem blankFrom_comment {body : List Char} (h : ¬ ['*', '/'] <:+: body) (cs : List Char) :
    blankFrom .code (['/', '*'] ++ body ++ ['*', '/'] ++ cs) =
      (['/', '*'] ++ body ++ ['*', '/']).map blank ++ blankFrom .code cs := by
  obtain ⟨hcloses, hblank⟩ := blankFrom_body h cs
  simp [blankFrom, hcloses, hblank, blank]

theorem Separator.blankFrom {w : List Char} (h : Separator w) :
    ∃ gone, gone ≠ [] ∧ (∀ c ∈ gone, Token.isBlank c = true) ∧
      ∀ cs, blankFrom .code (w ++ cs) = gone ++ blankFrom .code cs := by
  induction h with
  | @blank c hc =>
    refine ⟨[c], by simp, ?_, fun cs => blankFrom_code_plain ?_ ?_ cs⟩
    · simpa [Token.isBlank, or_assoc] using hc
    · rintro rfl; revert hc; decide
    · rintro rfl; revert hc; decide
  | @comment body hline hbody =>
    refine ⟨_, by simp, ?_, blankFrom_comment hbody⟩
    intro c hc
    obtain ⟨d, hd, rfl⟩ := List.mem_map.1 hc
    have hne : d ≠ '\n' := by
      rintro rfl
      simp [hline] at hd
    rw [Comment.blank, if_neg hne]
    rfl
  | append _ _ ihv ihw =>
    obtain ⟨gone, hne, hgone, hv⟩ := ihv
    obtain ⟨gone', -, hgone', hw⟩ := ihw
    refine ⟨gone ++ gone', by simp [hne], ?_, fun cs => ?_⟩
    · intro c hc
      exact (List.mem_append.1 hc).elim (hgone c) (hgone' c)
    · rw [List.append_assoc, hv, hw, List.append_assoc]

/-- A text that is read and does not end in a line comment is blanked out by itself. -/
theorem strip_append {a : List Char} {p : Position} {ts : List Lexeme}
    (h : Token.scan p (strip a) = .ok ts) (hopen : strip (a ++ ['x']) = strip a ++ ['x'])
    (cs : List Char) : strip (a ++ cs) = strip a ++ strip cs := by
  obtain ⟨r, rfl | rfl, hmore⟩ := scan_settles h
  · exact hmore cs
  · rw [strip, hmore, strip, List.append_cancel_left_eq] at hopen
    exact absurd hopen (by decide)

end Comment

namespace Token

theorem scan_blanks {gone : List Char} (h : ∀ c ∈ gone, isBlank c = true) (p : Position)
    (cs : List Char) : ∃ q, q.line = p.line ∧ scan p (gone ++ cs) = scan q cs := by
  induction gone generalizing p with
  | nil => exact ⟨p, rfl, rfl⟩
  | cons c gone ih =>
    obtain ⟨hc, hgone⟩ := List.forall_mem_cons.1 h
    obtain ⟨q, hq, hscan⟩ := ih hgone (p.advance c)
    have hne : c ≠ '\n' := by
      rintro rfl
      cases hc
    refine ⟨q, ?_, ?_⟩
    · rw [hq, Position.advance, if_neg hne]
    · rw [List.cons_append, scan_blank hc, hscan]

theorem seam_blanks {gone : List Char} (hne : gone ≠ []) (h : ∀ c ∈ gone, isBlank c = true)
    (cs : List Char) : Seam (gone ++ cs) := by
  obtain ⟨c, gone, rfl⟩ := List.exists_cons_of_ne_nil hne
  have hc : (c = ' ' ∨ c = '\t') ∨ c = '\r' := by simpa [isBlank] using h c (by simp)
  refine seam_cons ?_ ?_ ?_ _ <;> rcases hc with (rfl | rfl) | rfl <;> decide

section

variable {a : String} {ts : List Lexeme} (ha : ofSource a = .ok ts)
  (hopen : Comment.strip (a ++ "x").toList = Comment.strip a.toList ++ ['x'])
include ha hopen

/-- Behind a separator the text is read on the line where the text before it ended. -/
theorem ofSource_separator {w : String} (hw : Comment.Separator w.toList) (b : String) :
    ∃ ls q p, ts = ls ++ [⟨.endOfInput, "", q⟩] ∧ p.line = q.line ∧
      ofSource (a ++ w ++ b) = (scan p (Comment.strip b.toList)).map (ls ++ ·) := by
  obtain ⟨gone, hne, hgone, hblank⟩ := hw.blankFrom
  have hsource : (a ++ w ++ b).toList = a.toList ++ (w.toList ++ b.toList) := by
    simp [List.append_assoc]
  have hstrip : Comment.strip (a ++ w ++ b).toList =
      Comment.strip a.toList ++ (gone ++ Comment.strip b.toList) := by
    rw [String.toList_append] at hopen
    rw [hsource, Comment.strip_append ha hopen]
    exact congrArg _ (hblank b.toList)
  obtain ⟨ls, hts, hscan⟩ := scan_append ha (seam_blanks hne hgone (Comment.strip b.toList))
  obtain ⟨p, hp, hskip⟩ := scan_blanks hgone (Position.start.after (Comment.strip a.toList))
    (Comment.strip b.toList)
  refine ⟨ls, _, p, hts, hp, ?_⟩
  rw [ofSource, hstrip, hscan, hskip]

theorem ofSource_separators {w₁ w₂ : String} (h₁ : Comment.Separator w₁.toList)
    (h₂ : Comment.Separator w₂.toList) (b : String) :
    onLine (ofSource (a ++ w₁ ++ b)) = onLine (ofSource (a ++ w₂ ++ b)) := by
  obtain ⟨ls₁, q₁, p₁, hts₁, hp₁, hread₁⟩ := ofSource_separator ha hopen h₁ b
  obtain ⟨ls₂, q₂, p₂, hts₂, hp₂, hread₂⟩ := ofSource_separator ha hopen h₂ b
  obtain ⟨rfl, hlast⟩ := List.append_inj' (hts₁.symm.trans hts₂) rfl
  have hq : q₁ = q₂ := by simpa using hlast
  have hline : p₁.line = p₂.line := by rw [hp₁, hp₂, hq]
  rw [hread₁, hread₂]
  exact onLine_append (scan_onLine hline _) rfl

end

end Token

namespace Script

open Comment (Separator)

/-- Behind a text that is read and does not end in a line comment, it does not matter which
separator stands before the rest: the lexemes are the same up to columns, or the scanner fails in
the same way up to the column, and so does a run. -/
theorem run_any_separator (a b w₁ w₂ : String) (ha : ∃ ts, Token.ofSource a = .ok ts)
    (hopen : Comment.strip (a ++ "x").toList = Comment.strip a.toList ++ ['x'])
    (h₁ : Separator w₁.toList) (h₂ : Separator w₂.toList) :
    ((∃ ts us, Token.ofSource (a ++ w₁ ++ b) = .ok ts ∧ Token.ofSource (a ++ w₂ ++ b) = .ok us ∧
        ts.map Lexeme.onLine = us.map Lexeme.onLine) ∨
      ∃ e e', Token.ofSource (a ++ w₁ ++ b) = .error e ∧
        Token.ofSource (a ++ w₂ ++ b) = .error e' ∧ e.onLine = e'.onLine) ∧
    ∀ state, (run state (a ++ w₁ ++ b)).state = (run state (a ++ w₂ ++ b)).state ∧
      (run state (a ++ w₁ ++ b)).error.map ScriptError.onLine =
        (run state (a ++ w₂ ++ b)).error.map ScriptError.onLine := by
  obtain ⟨ts, ha⟩ := ha
  have hsame := Token.ofSource_separators ha hopen h₁ h₂ b
  exact ⟨Token.onLine_cases hsame, run_onLine hsame⟩

/-- A space and two comments that hold a quote and a slash, before a point that would otherwise
belong to the number. -/
theorem run_separator_before_point :
    (∃ ts, Token.ofSource "echo 1" = .ok ts) ∧
    Comment.strip ("echo 1" ++ "x").toList = Comment.strip "echo 1".toList ++ ['x'] ∧
    Separator " ".toList ∧ Separator "/*\"*//*/*/\t".toList ∧
    ∀ state,
      (run state ("echo 1" ++ " " ++ ".5")).state =
        (run state ("echo 1" ++ "/*\"*//*/*/\t" ++ ".5")).state ∧
      (run state ("echo 1" ++ " " ++ ".5")).error.map ScriptError.onLine =
        (run state ("echo 1" ++ "/*\"*//*/*/\t" ++ ".5")).error.map ScriptError.onLine := by
  have ha : Token.ofSource "echo 1" = .ok [⟨.echo, "echo", ⟨1, 1⟩⟩,
      ⟨.number (Number.ofDecimal false ⟨1, 0⟩), "1", ⟨1, 6⟩⟩, ⟨.endOfInput, "", ⟨1, 7⟩⟩] := by
    with_unfolding_all rfl
  have hopen : Comment.strip ("echo 1" ++ "x").toList = Comment.strip "echo 1".toList ++ ['x'] := by
    with_unfolding_all rfl
  have hspace : Separator " ".toList := .blank (.inl rfl)
  have htext : "/*\"*//*/*/\t".toList = ['/', '*'] ++ ['"'] ++ ['*', '/'] ++
      (['/', '*'] ++ ['/'] ++ ['*', '/'] ++ ['\t']) := by
    with_unfolding_all rfl
  have hcomments : Separator "/*\"*//*/*/\t".toList := by
    rw [htext]
    refine .append (.comment ?_ ?_) (.append (.comment ?_ ?_) (.blank (.inr (.inl rfl))))
    all_goals decide
  exact ⟨⟨_, ha⟩, hopen, hspace, hcomments,
    (run_any_separator "echo 1" ".5" " " "/*\"*//*/*/\t" ⟨_, ha⟩ hopen hspace hcomments).2⟩

end Script
end EchoScript
