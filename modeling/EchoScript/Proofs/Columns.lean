import EchoScript.Proofs.MaximalMunch
import EchoScript.Proofs.Readers
import EchoScript.Script

/-!
# EchoScript.Proofs.Columns

Columns are carried along and never looked at.

`onLine` keeps only the line of a place: in lexemes, in failures and in errors. Two answers that
agree under it are the same up to columns.

* `Token.scan_onLine` — scanning does not see in which column of its line a text starts.
* `Statement.listOfTokens_onLine` — every reader commutes with `onLine`, also where it fails.
* `Script.run_onLine` — so a run is fixed, up to columns, by its lexemes up to columns.
-/

namespace EchoScript

def Position.onLine (p : Position) : Position := ⟨p.line, 0⟩

def Lexeme.onLine (l : Lexeme) : Lexeme := { l with position := l.position.onLine }

def LexError.onLine : LexError → LexError
  | .unexpectedCharacter c p => .unexpectedCharacter c p.onLine
  | .unterminatedString p => .unterminatedString p.onLine

def SyntaxError.onLine (e : SyntaxError) : SyntaxError :=
  { e with position := e.position.onLine }

/-- Errors of a run carry no column. -/
def ScriptError.onLine : ScriptError → ScriptError
  | .lexical e => .lexical e.onLine
  | .syntactic e => .syntactic e.onLine
  | .runtime e => .runtime e

def Failure.onLine (f : Failure) : Failure := ⟨f.error.onLine, f.rest.map Lexeme.onLine⟩

/-! ## Scanning -/

theorem Position.advance_line {p q : Position} (h : p.line = q.line) (c : Char) :
    (p.advance c).line = (q.advance c).line := by
  unfold advance
  split <;> simp only [h]

theorem Position.after_line {p q : Position} (h : p.line = q.line) (cs : List Char) :
    (p.after cs).line = (q.after cs).line := by
  induction cs generalizing p q with
  | nil => exact h
  | cons c cs ih => exact ih (advance_line h c)

theorem Position.onLine_eq {p q : Position} (h : p.line = q.line) : p.onLine = q.onLine := by
  rw [onLine, onLine, h]

namespace Token

def onLine : Except LexError (List Lexeme) → Except LexError (List Lexeme)
  | .ok ts => .ok (ts.map Lexeme.onLine)
  | .error e => .error e.onLine

theorem onLine_cases {r r' : Except LexError (List Lexeme)} (h : onLine r = onLine r') :
    (∃ ts us, r = .ok ts ∧ r' = .ok us ∧ ts.map Lexeme.onLine = us.map Lexeme.onLine) ∨
      ∃ e e', r = .error e ∧ r' = .error e' ∧ e.onLine = e'.onLine := by
  cases r with
  | error e =>
    cases r' with
    | error e' => exact .inr ⟨e, e', rfl, rfl, Except.error.inj h⟩
    | ok us => cases h
  | ok ts =>
    cases r' with
    | error e' => cases h
    | ok us => exact .inl ⟨ts, us, rfl, rfl, Except.ok.inj h⟩

theorem onLine_append {r r' : Except LexError (List Lexeme)} (h : onLine r = onLine r')
    {ls ls' : List Lexeme} (hls : ls.map Lexeme.onLine = ls'.map Lexeme.onLine) :
    onLine (r.map (ls ++ ·)) = onLine (r'.map (ls' ++ ·)) := by
  obtain ⟨ts, us, rfl, rfl, hts⟩ | ⟨e, e', rfl, rfl, -⟩ := onLine_cases h
  · simp only [Except.map, onLine, List.map_append, hls, hts]
  · exact h

/-- A text is read the same way in every column of its line. -/
theorem scan_onLine {p q : Position} (h : p.line = q.line) (cs : List Char) :
    onLine (scan p cs) = onLine (scan q cs) := by
  -- A token takes several characters at once, so the induction is on the length.
  induction hn : cs.length using Nat.strong_induction_on generalizing p q cs with
  | _ n ih =>
  cases cs with
  | nil => simp only [scan_nil, onLine, List.map, Lexeme.onLine, Position.onLine_eq h]
  | cons c cs =>
    cases hc : isBlank c with
    | true =>
      rw [scan_blank hc, scan_blank hc]
      exact ih cs.length (by simp [← hn]) (Position.advance_line h c) cs rfl
    | false =>
      obtain ⟨t, text, rest, rfl, hstart, -, -⟩ | ⟨hstart, -, -⟩ | ⟨hstart, -, -⟩ :=
        start_cases c cs
      · have hlen : rest.length < n := by
          simp only [← hn, List.length_cons, List.length_append]
          omega
        have hrest := ih rest.length hlen (Position.after_line h (c :: text)) rest rfl
        rw [scan_token hc hstart, scan_token hc hstart]
        refine @onLine_append _ _ hrest [_] [_] ?_
        simp only [List.map, Lexeme.onLine, Position.onLine_eq h]
      · rw [scan_unexpected hc hstart, scan_unexpected hc hstart]
        simp only [onLine, LexError.onLine, Position.onLine_eq h]
      · rw [scan_unterminated hc hstart, scan_unterminated hc hstart]
        simp only [onLine, LexError.onLine, Position.onLine_eq (Position.after_line h (c :: cs))]

end Token

/-! ## Reading -/

/-- The outcome of a reader without the columns of what it left. -/
def Reading.onLine {α : Type} :
    Except Failure (α × List Lexeme) → Except Failure (α × List Lexeme)
  | .ok (a, rest) => .ok (a, rest.map Lexeme.onLine)
  | .error f => .error f.onLine

theorem Reading.onLine_map {α β : Type} (f : α → β) (r : Except Failure (α × List Lexeme)) :
    onLine (r.map fun (a, rest) => (f a, rest)) =
      (onLine r).map fun (a, rest) => (f a, rest) := by
  cases r <;> rfl

theorem Failure.consuming_onLine (x : Expectation) (ts : List Lexeme) :
    consuming x (ts.map Lexeme.onLine) = (consuming x ts).onLine := by
  cases ts <;> rfl

theorem Failure.peeking_onLine (x : Expectation) (ts : List Lexeme) :
    peeking x (ts.map Lexeme.onLine) = (peeking x ts).onLine := by
  cases ts <;> rfl

theorem head_onLine {P : Lexeme → Prop} {ts : List Lexeme} (h : ∀ t ∈ ts.head?, P t)
    (hP : ∀ t, P t → P t.onLine) : ∀ t ∈ (ts.map Lexeme.onLine).head?, P t := by
  cases ts with
  | nil => simp
  | cons t ts =>
    have ht : P t.onLine := hP t (h t rfl)
    simpa using ht

namespace Expr

theorem pathOfTokens_onLine (base : Expr) (ts : List Lexeme) :
    pathOfTokens base (ts.map Lexeme.onLine) = Reading.onLine (pathOfTokens base ts) := by
  refine path_induction (P := fun base ts =>
    pathOfTokens base (ts.map Lexeme.onLine) = Reading.onLine (pathOfTokens base ts))
    ?stop ?noDollar ?noName ?suffix base ts
  case stop =>
    intro base ts h
    rw [pathOfTokens_stop h, pathOfTokens_stop (head_onLine h fun _ ht => ht)]
    rfl
  case noDollar =>
    intro base dot ts hd h
    have hd' : dot.onLine.token = .dot := hd
    rw [List.map_cons, pathOfTokens_dollar_unmet hd h,
      pathOfTokens_dollar_unmet hd' (head_onLine h fun _ ht => ht), Failure.consuming_onLine]
    rfl
  case noName =>
    intro base dot dollar ts hd hs h
    have hd' : dot.onLine.token = .dot := hd
    have hs' : dollar.onLine.token = .dollar := hs
    rw [List.map_cons, List.map_cons, pathOfTokens_name_unmet hd hs h,
      pathOfTokens_name_unmet hd' hs' (head_onLine h fun _ ht => ht), Failure.consuming_onLine]
    rfl
  case suffix =>
    intro base dot dollar name key ts hd hs hn ih
    have hd' : dot.onLine.token = .dot := hd
    have hs' : dollar.onLine.token = .dollar := hs
    have hn' : name.onLine.token = .identifier key := hn
    rw [List.map_cons, List.map_cons, List.map_cons, pathOfTokens_suffix hd hs hn,
      pathOfTokens_suffix hd' hs' hn']
    exact ih

theorem readers_onLine :
    (∀ ts : List Lexeme, ofTokens (ts.map Lexeme.onLine) = Reading.onLine (ofTokens ts)) ∧
      ∀ ts : List Lexeme,
        entriesOfTokens (ts.map Lexeme.onLine) = Reading.onLine (entriesOfTokens ts) := by
  apply readers_induction
  case number =>
    intro t value ts ht
    have ht' : t.onLine.token = .number value := ht
    rw [List.map_cons, ofTokens_number ht, ofTokens_number ht']
    rfl
  case string =>
    intro t text ts ht
    have ht' : t.onLine.token = .string text := ht
    rw [List.map_cons, ofTokens_string ht, ofTokens_string ht', pathOfTokens_onLine]
    rfl
  case noName =>
    intro dollar ts hd h
    have hd' : dollar.onLine.token = .dollar := hd
    rw [List.map_cons, ofTokens_name_unmet hd h,
      ofTokens_name_unmet hd' (head_onLine h fun _ ht => ht), Failure.consuming_onLine]
    rfl
  case var =>
    intro dollar name x ts hd hn
    have hd' : dollar.onLine.token = .dollar := hd
    have hn' : name.onLine.token = .identifier x := hn
    rw [List.map_cons, List.map_cons, ofTokens_var hd hn, ofTokens_var hd' hn',
      pathOfTokens_onLine]
    rfl
  case emptyMap =>
    intro opening closing ts ho hc
    have ho' : opening.onLine.token = .openBracket := ho
    have hc' : closing.onLine.token = .closeBracket := hc
    rw [List.map_cons, List.map_cons, ofTokens_map ho, ofTokens_map ho', mapOfTokens_close hc,
      mapOfTokens_close hc']
    exact pathOfTokens_onLine _ ts
  case map =>
    intro opening ts ho hc ih
    have ho' : opening.onLine.token = .openBracket := ho
    rw [List.map_cons, ofTokens_map ho, ofTokens_map ho', mapOfTokens_entries hc,
      mapOfTokens_entries (head_onLine hc fun _ ht => ht), ih]
    cases entriesOfTokens ts with
    | error f => rfl
    | ok read =>
      obtain ⟨entries, rest⟩ := read
      exact pathOfTokens_onLine _ rest
  case noExpr =>
    intro ts h
    rw [ofTokens_unmet h, ofTokens_unmet (head_onLine h fun _ ht => ht),
      Failure.consuming_onLine]
    rfl
  case noDollar =>
    intro ts h
    rw [entriesOfTokens_dollar_unmet h,
      entriesOfTokens_dollar_unmet (head_onLine h fun _ ht => ht), Failure.consuming_onLine]
    rfl
  case noKey =>
    intro dollar ts hd h
    have hd' : dollar.onLine.token = .dollar := hd
    rw [List.map_cons, entriesOfTokens_name_unmet hd h,
      entriesOfTokens_name_unmet hd' (head_onLine h fun _ ht => ht), Failure.consuming_onLine]
    rfl
  case noEquals =>
    intro dollar name key ts hd hn h
    have hd' : dollar.onLine.token = .dollar := hd
    have hn' : name.onLine.token = .identifier key := hn
    rw [List.map_cons, List.map_cons, entriesOfTokens_equals_unmet hd hn h,
      entriesOfTokens_equals_unmet hd' hn' (head_onLine h fun _ ht => ht),
      Failure.consuming_onLine]
    rfl
  case entry =>
    intro dollar name equals key ts hd hn hq ih ihmore
    have hd' : dollar.onLine.token = .dollar := hd
    have hn' : name.onLine.token = .identifier key := hn
    have hq' : equals.onLine.token = .equals := hq
    rw [List.map_cons, List.map_cons, List.map_cons]
    cases he : ofTokens ts with
    | error f =>
      rw [he] at ih
      rw [entriesOfTokens_expr_failed hd hn hq he, entriesOfTokens_expr_failed hd' hn' hq' ih]
      rfl
    | ok read =>
      obtain ⟨e, rest⟩ := read
      rw [he] at ih
      -- What stands behind the value decides: a comma, the closing bracket, or neither.
      obtain ⟨comma, rest, rfl, hc⟩ | hcomma := head_token_or .comma rest
      · have hc' : comma.onLine.token = .comma := hc
        rw [entriesOfTokens_comma hd hn hq he hc, entriesOfTokens_comma hd' hn' hq' ih hc',
          ihmore e comma rest he]
        exact (Reading.onLine_map _ _).symm
      obtain ⟨closing, rest, rfl, hc⟩ | hclose := head_token_or .closeBracket rest
      · have hc' : closing.onLine.token = .closeBracket := hc
        rw [entriesOfTokens_close hd hn hq he hc, entriesOfTokens_close hd' hn' hq' ih hc']
        rfl
      · have h : ∀ t ∈ rest.head?, t.token ≠ .comma ∧ t.token ≠ .closeBracket :=
          fun t ht => ⟨hcomma t ht, hclose t ht⟩
        rw [entriesOfTokens_separator_unmet hd hn hq he h,
          entriesOfTokens_separator_unmet hd' hn' hq' ih (head_onLine h fun _ ht => ht),
          Failure.consuming_onLine]
        rfl

end Expr

namespace Statement

theorem ofTokens_onLine (ts : List Lexeme) :
    ofTokens (ts.map Lexeme.onLine) = Reading.onLine (ofTokens ts) := by
  obtain ⟨echo, ts, rfl, he⟩ | hecho := head_token_or .echo ts
  · have he' : echo.onLine.token = .echo := he
    rw [List.map_cons, ofTokens_echo he, ofTokens_echo he', Expr.readers_onLine.1]
    exact (Reading.onLine_map (Statement.echo · echo.position.line) _).symm
  obtain ⟨dollar, ts, rfl, hd⟩ | hdollar := head_token_or .dollar ts
  · have hd' : dollar.onLine.token = .dollar := hd
    rw [List.map_cons]
    obtain ⟨name, x, ts, rfl, hn⟩ | hname := head_name_or ts
    · have hn' : name.onLine.token = .identifier x := hn
      rw [List.map_cons]
      obtain ⟨equals, ts, rfl, hq⟩ | hequals := head_token_or .equals ts
      · have hq' : equals.onLine.token = .equals := hq
        rw [List.map_cons, ofTokens_assign hd hn hq, ofTokens_assign hd' hn' hq',
          Expr.readers_onLine.1]
        exact (Reading.onLine_map (Statement.assign x · dollar.position.line) _).symm
      · rw [ofTokens_equals_unmet hd hn hequals,
          ofTokens_equals_unmet hd' hn' (head_onLine hequals fun _ ht => ht),
          Failure.consuming_onLine]
        rfl
    · rw [ofTokens_name_unmet hd hname,
        ofTokens_name_unmet hd' (head_onLine hname fun _ ht => ht), Failure.consuming_onLine]
      rfl
  · have h : ∀ t ∈ ts.head?, t.token ≠ .echo ∧ t.token ≠ .dollar :=
      fun t ht => ⟨hecho t ht, hdollar t ht⟩
    rw [ofTokens_unmet h, ofTokens_unmet (head_onLine h fun _ ht => ht),
      Failure.peeking_onLine]
    rfl

/-- Without columns, lexemes are read as the same statements or fail with the same error, which has
then no column either. -/
theorem listOfTokens_onLine (ts : List Lexeme) :
    listOfTokens (ts.map Lexeme.onLine) = (listOfTokens ts).mapError SyntaxError.onLine := by
  refine program_induction (P := fun ts =>
    listOfTokens (ts.map Lexeme.onLine) = (listOfTokens ts).mapError SyntaxError.onLine)
    ?finish ?newline ?statement ts
  case finish =>
    intro ts h
    rw [listOfTokens_end h, listOfTokens_end (head_onLine h fun _ ht => ht)]
    rfl
  case newline =>
    intro n ts hn ih
    have hn' : n.onLine.token = .newline := hn
    rw [List.map_cons, listOfTokens_newline hn, listOfTokens_newline hn', ih]
  case statement =>
    intro t ts hend hnew ih
    have hend' : t.onLine.token ≠ .endOfInput := hend
    have hnew' : t.onLine.token ≠ .newline := hnew
    rw [List.map_cons, listOfTokens_statement hend hnew, listOfTokens_statement hend' hnew',
      ← List.map_cons, ofTokens_onLine]
    cases hs : ofTokens (t :: ts) with
    | error f => rfl
    | ok read =>
      obtain ⟨s, rest⟩ := read
      have hrest := ih s rest hs
      simp only [Reading.onLine, hrest]
      cases listOfTokens rest <;> rfl

end Statement

/-! ## Running -/

theorem mapError_cases {ε φ α : Type} {f : ε → φ} {r r' : Except ε α}
    (h : r.mapError f = r'.mapError f) :
    (∃ a, r = .ok a ∧ r' = .ok a) ∨ ∃ e e', r = .error e ∧ r' = .error e' ∧ f e = f e' := by
  cases r with
  | error e =>
    cases r' with
    | error e' => exact .inr ⟨e, e', rfl, rfl, Except.error.inj h⟩
    | ok a => cases h
  | ok a =>
    cases r' with
    | error e' => cases h
    | ok b => exact .inl ⟨a, rfl, congrArg Except.ok (Except.ok.inj h).symm⟩

namespace Script

theorem statements_onLine {s₁ s₂ : String}
    (h : Token.onLine (Token.ofSource s₁) = Token.onLine (Token.ofSource s₂)) :
    (statements s₁).mapError ScriptError.onLine = (statements s₂).mapError ScriptError.onLine := by
  unfold statements
  obtain ⟨ts, us, hts, hus, hsame⟩ | ⟨e, e', he, he', hsame⟩ := Token.onLine_cases h
  · have hread : (Statement.listOfTokens ts).mapError SyntaxError.onLine =
        (Statement.listOfTokens us).mapError SyntaxError.onLine := by
      rw [← Statement.listOfTokens_onLine, ← Statement.listOfTokens_onLine, hsame]
    rw [hts, hus]
    obtain ⟨ss, hss, hss'⟩ | ⟨e, e', he, he', hsame⟩ := mapError_cases hread
    · simp only [hss, hss']
    · simp only [he, he', Except.mapError, ScriptError.onLine, hsame]
  · simp only [he, he', Except.mapError, ScriptError.onLine, hsame]

theorem run_onLine {s₁ s₂ : String}
    (h : Token.onLine (Token.ofSource s₁) = Token.onLine (Token.ofSource s₂)) (state : State) :
    (run state s₁).state = (run state s₂).state ∧
      (run state s₁).error.map ScriptError.onLine =
        (run state s₂).error.map ScriptError.onLine := by
  unfold run
  obtain ⟨ss, hss, hss'⟩ | ⟨e, e', he, he', hsame⟩ := mapError_cases (statements_onLine h)
  · simp only [hss, hss', and_self]
  · simp only [he, he', Option.map_some, hsame, and_self]

end Script
end EchoScript
