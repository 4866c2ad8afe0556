import EchoScript.Proofs.Relining
import EchoScript.Proofs.Seams
import EchoScript.Script

/-!
# EchoScript.Proofs.Concatenation

Running two scripts one after the other is running the one script that they make on separate lines.

Nothing at the end of a script that can be read takes in what stands behind it: not the comments
(`strip_newline`), not the tokens (`ofSource_newline`), not the statements (`statements_newline`).
The second script is read as it is alone, only on later lines.
-/

namespace EchoScript

namespace Grammar

mutual

theorem Expression.ne_end {ts : List Lexeme} {e : Expr} :
    Expression ts e → ∀ t ∈ ts, t.token ≠ .endOfInput
  | .number h => by simp [h]
  | .chain h => h.ne_end

theorem Chain.ne_end {ts : List Lexeme} {e : Expr} :
    Chain ts e → ∀ t ∈ ts, t.token ≠ .endOfInput
  | .primary h => h.ne_end
  | .path h hd hs hn => by
    have hbase := h.ne_end
    simp only [List.mem_append, List.mem_cons, List.not_mem_nil, or_false]
    rintro t (ht | rfl | rfl | rfl)
    · exact hbase t ht
    · simp [hd]
    · simp [hs]
    · simp [hn]

theorem Primary.ne_end {ts : List Lexeme} {e : Expr} :
    Primary ts e → ∀ t ∈ ts, t.token ≠ .endOfInput
  | .string h => by simp [h]
  | .var hd hn => by simp [hd, hn]
  | .emptyMap ho hc => by simp [ho, hc]
  | .map ho h hc => by
    have hentries := h.ne_end
    simp only [List.mem_append, List.mem_cons, List.not_mem_nil, or_false]
    rintro t ((rfl | ht) | rfl)
    · simp [ho]
    · exact hentries t ht
    · simp [hc]

theorem Entries.ne_end {ts : List Lexeme} {entries : List (String × Expr)} :
    Entries ts entries → ∀ t ∈ ts, t.token ≠ .endOfInput
  | .one h => h.ne_end
  | .more h hc hs => by
    have hentry := h.ne_end
    have hentries := hs.ne_end
    simp only [List.mem_append, List.mem_cons]
    rintro t (ht | rfl | ht)
    · exact hentry t ht
    · simp [hc]
    · exact hentries t ht

theorem Entry.ne_end {ts : List Lexeme} {entry : String × Expr} :
    Entry ts entry → ∀ t ∈ ts, t.token ≠ .endOfInput
  | .mk hd hn hq h => by
    have hvalue := h.ne_end
    simp only [List.mem_cons]
    rintro t (rfl | rfl | rfl | ht)
    · simp [hd]
    · simp [hn]
    · simp [hq]
    · exact hvalue t ht

end

theorem Sentence.ne_end {ts : List Lexeme} {s : Statement} (h : Sentence ts s) :
    ∀ t ∈ ts, t.token ≠ .endOfInput := by
  intro t ht
  cases h with
  | echo he h =>
    rcases List.mem_cons.1 ht with rfl | ht
    · simp [he]
    · exact h.ne_end t ht
  | assign hd hn hq h => exact (Entry.mk hd hn hq h).ne_end t ht

theorem Program.ne_end {ts : List Lexeme} {ss : List Statement} (h : Program ts ss) :
    ∀ t ∈ ts, t.token ≠ .endOfInput := by
  induction h with
  | last hn =>
    intro t ht
    simp [hn t ht]
  | next hn hs _ ih =>
    intro t ht
    rcases List.mem_append.1 ht with ht | ht
    · rcases List.mem_append.1 ht with ht | ht
      · simp [hn t ht]
      · exact hs.ne_end t ht
    · exact ih t ht

/-- The lexemes before the end of input are the program, whatever stands behind it. -/
theorem program_before_end {ls rest : List Lexeme} {last : Lexeme} {ss : List Statement}
    (h : Statement.listOfTokens (ls ++ last :: rest) = .ok ss) (hlast : last.token = .endOfInput)
    (hls : ∀ l ∈ ls, l.token ≠ .endOfInput) : Program ls ss := by
  obtain ⟨ps, qs, hsplit, hq, hp⟩ := listOfTokens_eq_ok_iff.1 h
  obtain ⟨as, rfl, has⟩ | ⟨bs, rfl, rfl⟩ := List.append_eq_append_iff.1 hsplit
  · cases as with
    | nil => rwa [List.append_nil] at hp
    | cons a as =>
      obtain ⟨rfl, -⟩ := List.cons.inj has
      exact absurd hlast (hp.ne_end last (by simp))
  · cases bs with
    | nil => rwa [List.append_nil]
    | cons b bs => exact absurd (hq b rfl) (hls b (by simp))

theorem Program.read_newline {ps rest : List Lexeme} {ss : List Statement} {n : Lexeme}
    (h : Program ps ss) (hn : n.token = .newline) :
    Statement.listOfTokens (ps ++ n :: rest) = (Statement.listOfTokens rest).map (ss ++ ·) := by
  induction h with
  | last hns =>
    rw [listOfTokens_newlines hns, Statement.listOfTokens_newline hn]
    cases Statement.listOfTokens rest <;> rfl
  | @next ns ts us s ss hns hs hp ih =>
    have hhead : ∀ t ∈ (us ++ n :: rest).head?, t.token ≠ .dot := by
      intro t ht
      cases us with
      | nil =>
        obtain rfl : n = t := by simpa using ht
        simp [hn]
      | cons u us => exact (hp.follows.2 t ht).1
    rw [List.append_assoc, List.append_assoc, listOfTokens_newlines hns,
      listOfTokens_sentence hs (Statement.endsBefore_of_head hhead s), ih]
    cases Statement.listOfTokens rest <;> rfl

end Grammar

/-! ## The seam -/

theorem Comment.strip_newline {a : List Char} {p : Position} {ts : List Lexeme}
    (h : Token.scan p (strip a) = .ok ts) (b : List Char) :
    strip (a ++ '\n' :: b) = strip a ++ '\n' :: strip b := by
  obtain ⟨r, hr, hmore⟩ := scan_settles h
  have hnewline : blankFrom r ('\n' :: b) = '\n' :: strip b := by
    rcases hr with rfl | rfl <;> simp [blankFrom, strip]
  rw [strip, hmore, hnewline]
  rfl

/-- So many lines a text takes that stands before another one on a line of its own. -/
def Script.lines (source : String) : Nat := 1 + source.toList.count '\n'

theorem Token.ofSource_newline {s₁ s₂ : String} {ts₁ ts₂ : List Lexeme}
    (h₁ : ofSource s₁ = .ok ts₁) (h₂ : ofSource s₂ = .ok ts₂) :
    ∃ ls q, ts₁ = ls ++ [⟨.endOfInput, "", q⟩] ∧
      ofSource (s₁ ++ "\n" ++ s₂) =
        .ok (ls ++ ⟨.newline, "\n", q⟩ :: ts₂.map (Lexeme.reline (· + Script.lines s₁))) := by
  have hseam : Seam ('\n' :: Comment.strip s₂.toList) :=
    seam_cons (by decide) (by decide) (by decide) _
  obtain ⟨ls, hts, hscan⟩ := scan_append h₁ hseam
  have hplace : (Position.start.after (Comment.strip s₁.toList)).advance '\n' =
      Position.start.reline (· + Script.lines s₁) := by
    rw [Comment.strip, Comment.after_blankFrom, Position.start_after]
    simp [Position.advance, Position.reline, Position.start, Script.lines, Nat.add_comm]
  have hlast : scan (Position.start.reline (· + Script.lines s₁)) (Comment.strip s₂.toList) =
      .ok (ts₂.map (Lexeme.reline (· + Script.lines s₁))) := scan_reline _ h₂
  refine ⟨ls, Position.start.after (Comment.strip s₁.toList), hts, ?_⟩
  have hsource : (s₁ ++ "\n" ++ s₂).toList = s₁.toList ++ '\n' :: s₂.toList := by simp
  rw [ofSource, hsource, Comment.strip_newline h₁, hscan, scan_newline, hplace, hlast]
  rfl

namespace Script

theorem statements_eq_ok {source : String} {ss : List Statement} :
    statements source = .ok ss ↔
      ∃ ts, Token.ofSource source = .ok ts ∧ Statement.listOfTokens ts = .ok ss := by
  unfold statements
  cases hts : Token.ofSource source with
  | error e => simp
  | ok ts =>
    cases hss : Statement.listOfTokens ts <;> simp [hss]

/-- The lexemes of a script that can be read, without the end of input. -/
theorem exists_program {source : String} {ss : List Statement} {ts : List Lexeme}
    (hts : Token.ofSource source = .ok ts) (hss : Statement.listOfTokens ts = .ok ss) :
    ∃ ls q, ts = ls ++ [⟨.endOfInput, "", q⟩] ∧ Grammar.Program ls ss ∧
      ∀ l ∈ ls, Token.Spells l.text.toList l.token := by
  obtain ⟨ls, q, rfl, hmunch⟩ := Token.ofSource_eq_ok hts
  exact ⟨ls, q, rfl, Grammar.program_before_end hss rfl hmunch.ne_endOfInput, hmunch.spells⟩

theorem statements_newline {s₁ s₂ : String} {ss₁ ss₂ : List Statement}
    (h₁ : statements s₁ = .ok ss₁) (h₂ : statements s₂ = .ok ss₂) :
    statements (s₁ ++ "\n" ++ s₂) = .ok (ss₁ ++ ss₂.map (Statement.reline (· + lines s₁))) := by
  obtain ⟨ts₁, hts₁, hss₁⟩ := statements_eq_ok.1 h₁
  obtain ⟨ts₂, hts₂, hss₂⟩ := statements_eq_ok.1 h₂
  obtain ⟨ls, q, rfl, hsource⟩ := Token.ofSource_newline hts₁ hts₂
  obtain ⟨ls', q', heq, hprogram, -⟩ := exists_program hts₁ hss₁
  obtain ⟨rfl, -⟩ := List.append_inj' heq rfl
  refine statements_eq_ok.2 ⟨_, hsource, ?_⟩
  rw [hprogram.read_newline rfl, Grammar.listOfTokens_reline _ hss₂]
  rfl

end Script

/-! ## Runs one after the other -/

/-- The ending of a run that goes on with another one unless it failed. -/
def Ending.andThen {ε : Type} (e : Ending ε) (next : State → Ending ε) : Ending ε :=
  match e with
  | ⟨state, none⟩ => next state
  | ⟨state, some error⟩ => ⟨state, some error⟩

namespace Statement

theorem executeAll_append (state : State) (ss us : List Statement) :
    executeAll state (ss ++ us) = (executeAll state ss).andThen (executeAll · us) := by
  induction ss generalizing state with
  | nil => rfl
  | cons s ss ih =>
    simp only [List.cons_append, executeAll]
    cases s.execute state with
    | mk next error =>
      cases error with
      | none => exact ih next
      | some e => rfl

/-- Only output fails. -/
theorem executeAll_error {state : State} {ss : List Statement} {e : RuntimeError}
    (h : (executeAll state ss).error = some e) : ∃ line refusal, e = .output line refusal := by
  induction ss generalizing state with
  | nil => cases h
  | cons s ss ih =>
    rw [executeAll] at h
    cases s with
    | assign name value line => exact ih h
    | echo value line =>
      cases hwrite : state.sink.write (value.eval state.environment).line with
      | mk sink refusal =>
        simp only [execute, hwrite] at h
        cases refusal with
        | none => exact ih h
        | some r => exact ⟨line, r, (Option.some.inj h).symm⟩

end Statement

namespace Script

theorem run_of_statements {source : String} {ss : List Statement} (h : statements source = .ok ss)
    (state : State) : run state source =
      ⟨(Statement.executeAll state ss).state,
        (Statement.executeAll state ss).error.map .runtime⟩ := by
  simp only [run, h]

/-- Two scripts on separate lines do what they do one after the other, if both can be read. The
second is only run if the first succeeded; an error of the first is its own, and one of the second
stands as many lines further down as the first takes. -/
theorem run_lines_apart (s₁ s₂ : String) (h₁ : ∃ ss, statements s₁ = .ok ss)
    (h₂ : ∃ ss, statements s₂ = .ok ss) (state : State) :
    let first := run state s₁
    let second := run first.state s₂
    let whole := run state (s₁ ++ "\n" ++ s₂)
    (∀ e, first.error = some e →
      whole = first ∧ ∃ line refusal, e = .runtime (.output line refusal)) ∧
    (first.error = none → whole.state = second.state ∧
      (second.error = none → whole.error = none) ∧
      ∀ e, second.error = some e → ∃ line refusal, e = .runtime (.output line refusal) ∧
        whole.error =
          some (.runtime (.output (line + (1 + s₁.toList.count '\n')) refusal))) ∧
    (whole.error = none ↔ first.error = none ∧ second.error = none) := by
  obtain ⟨ss₁, h₁⟩ := h₁
  obtain ⟨ss₂, h₂⟩ := h₂
  intro first second whole
  have hfirst : first = _ := run_of_statements h₁ state
  have hwhole : whole = _ := run_of_statements (statements_newline h₁ h₂) state
  have hsecond : second = _ := run_of_statements h₂ first.state
  have houtput := @Statement.executeAll_error state ss₁
  rw [Statement.executeAll_append] at hwhole
  -- The second script only matters where the first has left no error.
  generalize Statement.executeAll state ss₁ = middle at hfirst hwhole houtput
  obtain ⟨next, error⟩ := middle
  cases error with
  | some e =>
    obtain ⟨line, refusal, rfl⟩ := houtput rfl
    simp only [Ending.andThen, Option.map_some] at hfirst hwhole
    rw [hfirst, hwhole]
    simp
  | none =>
    simp only [Ending.andThen, Option.map_none, Statement.executeAll_reline] at hfirst hwhole
    rw [hfirst] at hsecond
    have houtput := @Statement.executeAll_error next ss₂
    generalize Statement.executeAll next ss₂ = last at hsecond hwhole houtput
    obtain ⟨end', error⟩ := last
    cases error with
    | none => simp [hfirst, hsecond, hwhole, Ending.reline]
    | some e =>
      obtain ⟨line, refusal, rfl⟩ := houtput rfl
      simp [hfirst, hsecond, hwhole, Ending.reline, RuntimeError.reline, lines]

/-- A script that ends in a line comment, and one whose second line does not fit. -/
theorem run_apart_after_comment :
    (∃ ss, statements "$a = \"é\" // \"/*" = .ok ss) ∧
    (∃ ss, statements "echo $a\necho $a" = .ok ss) ∧
    (run ⟨.empty, .limited 4 .closed⟩ ("$a = \"é\" // \"/*" ++ "\n" ++ "echo $a\necho $a")).error =
      some (.runtime (.output 3 .closed)) := by
  have hts₁ : Token.ofSource "$a = \"é\" // \"/*" = .ok [⟨.dollar, "$", ⟨1, 1⟩⟩,
      ⟨.identifier "a", "a", ⟨1, 2⟩⟩, ⟨.equals, "=", ⟨1, 4⟩⟩, ⟨.string "é", "\"é\"", ⟨1, 6⟩⟩,
      ⟨.endOfInput, "", ⟨1, 16⟩⟩] := by
    with_unfolding_all rfl
  have h₁ : statements "$a = \"é\" // \"/*" = .ok [.assign "a" (.string "é" 1) 1] := by
    refine statements_eq_ok.2 ⟨_, hts₁, ?_⟩
    simp [Statement.listOfTokens, readStatement, readBinder, readName, readToken, readExpr,
      readPath, Reading.map, Reading.widen]
  have hts₂ : Token.ofSource "echo $a\necho $a" = .ok [⟨.echo, "echo", ⟨1, 1⟩⟩,
      ⟨.dollar, "$", ⟨1, 6⟩⟩, ⟨.identifier "a", "a", ⟨1, 7⟩⟩, ⟨.newline, "\n", ⟨1, 8⟩⟩,
      ⟨.echo, "echo", ⟨2, 1⟩⟩, ⟨.dollar, "$", ⟨2, 6⟩⟩, ⟨.identifier "a", "a", ⟨2, 7⟩⟩,
      ⟨.endOfInput, "", ⟨2, 8⟩⟩] := by
    with_unfolding_all rfl
  have h₂ : statements "echo $a\necho $a" = .ok [.echo (.var "a" 1) 1, .echo (.var "a" 2) 2] := by
    refine statements_eq_ok.2 ⟨_, hts₂, ?_⟩
    simp [Statement.listOfTokens, readStatement, readName, readExpr, readPath, Reading.map,
      Reading.widen]
  have hfirst : run ⟨.empty, .limited 4 .closed⟩ "$a = \"é\" // \"/*" =
      ⟨⟨Environment.empty.set "a" (.string "é"), .limited 4 .closed⟩, none⟩ :=
    run_of_statements h₁ _
  have hsecond : (run ⟨Environment.empty.set "a" (.string "é"), .limited 4 .closed⟩
      "echo $a\necho $a").error = some (.runtime (.output 2 .closed)) := by
    rw [run_of_statements h₂]
    decide
  have hseam := (run_lines_apart _ _ ⟨_, h₁⟩ ⟨_, h₂⟩ ⟨.empty, .limited 4 .closed⟩).2.1
  rw [hfirst] at hseam
  obtain ⟨line, refusal, heq, hwhole⟩ := (hseam rfl).2.2 _ hsecond
  cases heq
  exact ⟨⟨_, h₁⟩, ⟨_, h₂⟩, hwhole⟩

end Script
end EchoScript
