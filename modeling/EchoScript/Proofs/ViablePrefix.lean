import EchoScript.Proofs.Parsing

/-!
# EchoScript.Proofs.ViablePrefix

A syntax error names the first lexeme that cannot be part of a program.

`Stuck` is the invariant: the lexemes before some place can be completed, and at that place the
reader fails because of the one lexeme that stands there. It is shown where a reader itself fails,
and `Stuck.under` carries it outwards, from what a reader calls to the reader. The completion of a
part is completed by the shortest end of the whole: a name, a bracket, a string.
-/

namespace EchoScript
namespace Grammar

/-- Somewhere in `ts` the reading gets stuck. What stands before that place can be completed, and
with the lexeme that stands there the reading fails in the given way, whatever comes after it. -/
def Stuck {φ α : Type} (read : List Lexeme → Except φ (α × List Lexeme))
    (failure : List Lexeme → φ) (ts : List Lexeme) : Prop :=
  ∃ us vs, ts = us ++ vs ∧ (∃ ws a, read (us ++ ws) = .ok (a, [])) ∧
    ∀ vs', vs'.head? = vs.head? → read (us ++ vs') = .error (failure vs')

/-- A reading that hands its lexemes behind `ps` to another one gets stuck where that one does. -/
theorem Stuck.under {φ ψ α β : Type} {inner : List Lexeme → Except ψ (α × List Lexeme)}
    {read : List Lexeme → Except φ (β × List Lexeme)} {failure : List Lexeme → ψ}
    {ts : List Lexeme} (g : ψ → φ) (ps : List Lexeme) (h : Stuck inner failure ts)
    (hok : ∀ us a, inner us = .ok (a, []) → ∃ ws b, read (ps ++ us ++ ws) = .ok (b, []))
    (herr : ∀ us f, us.head? = ts.head? → inner us = .error f →
      read (ps ++ us) = .error (g f)) :
    Stuck read (fun vs => g (failure vs)) (ps ++ ts) := by
  obtain ⟨us, vs, rfl, ⟨ws, a, hviable⟩, hfails⟩ := h
  refine ⟨ps ++ us, vs, by simp, ?_, ?_⟩
  · obtain ⟨ws', b, hb⟩ := hok _ _ hviable
    exact ⟨ws ++ ws', b, by simpa using hb⟩
  · intro vs' hhead
    rw [List.append_assoc]
    refine herr _ _ ?_ (hfails vs' hhead)
    cases us with
    | nil => exact hhead
    | cons u us => rfl

/-- The reading gets stuck on an expectation that consumes the offending lexeme. -/
def Stops {α : Type} (read : List Lexeme → Except Failure (α × List Lexeme))
    (ts : List Lexeme) : Prop :=
  ∃ x, x ≠ .statement ∧ Stuck read (.consuming x) ts

theorem Stops.under {α β : Type} {inner : List Lexeme → Except Failure (α × List Lexeme)}
    {read : List Lexeme → Except Failure (β × List Lexeme)} {ts : List Lexeme}
    (ps : List Lexeme) (h : Stops inner ts)
    (hok : ∀ us a, inner us = .ok (a, []) → ∃ ws b, read (ps ++ us ++ ws) = .ok (b, []))
    (herr : ∀ us f, us.head? = ts.head? → inner us = .error f → read (ps ++ us) = .error f) :
    Stops read (ps ++ ts) := by
  obtain ⟨x, hx, hstuck⟩ := h
  exact ⟨x, hx, hstuck.under id ps hok herr⟩

/-- A lexeme with the given token, to complete a prefix with. -/
def bare (token : Token) : Lexeme := ⟨token, "", .nowhere⟩

theorem bare_closes : (bare .closeBracket).token = .closeBracket := rfl

theorem bare_expression : Expression [bare (.string "")] (.string "" 0) :=
  .chain (.primary (.string rfl))

theorem endsBefore_congr {rest rest' : List Lexeme} {e : Expr} (h : e.EndsBefore rest)
    (hhead : rest'.head? = rest.head?) : e.EndsBefore rest' := by
  cases e with
  | number => trivial
  | _ => intro t ht; exact h t (hhead ▸ ht)

theorem statement_endsBefore_congr {rest rest' : List Lexeme} {s : Statement}
    (h : s.EndsBefore rest) (hhead : rest'.head? = rest.head?) : s.EndsBefore rest' := by
  cases s <;> exact endsBefore_congr h hhead

/-! ## Expressions -/

theorem pathOfTokens_stops : ∀ (base : Expr) (ts : List Lexeme) (f : Failure),
    Expr.pathOfTokens base ts = .error f → Stops (Expr.pathOfTokens base) ts := by
  refine path_induction ?stop ?noDollar ?noName ?suffix
  case stop =>
    intro base ts hstop f h
    rw [Expr.pathOfTokens_stop hstop] at h
    cases h
  case noDollar =>
    intro base dot ts hd hs f _
    refine ⟨.pathDollar, by simp, [dot], ts, rfl, ?_, ?_⟩
    · refine ⟨[bare .dollar, bare (.identifier "")], .path base "" dot.position.line, ?_⟩
      exact (Expr.pathOfTokens_suffix hd rfl rfl).trans (Expr.pathOfTokens_stop (by simp))
    · intro vs hhead
      exact Expr.pathOfTokens_dollar_unmet hd (hhead ▸ hs)
  case noName =>
    intro base dot dollar ts hd hs hn f _
    refine ⟨.keyName, by simp, [dot, dollar], ts, rfl, ?_, ?_⟩
    · refine ⟨[bare (.identifier "")], .path base "" dot.position.line, ?_⟩
      exact (Expr.pathOfTokens_suffix hd hs rfl).trans (Expr.pathOfTokens_stop (by simp))
    · intro vs hhead
      exact Expr.pathOfTokens_name_unmet hd hs (hhead ▸ hn)
  case suffix =>
    intro base dot dollar name key ts hd hs hn ih f h
    rw [Expr.pathOfTokens_suffix hd hs hn] at h
    refine (ih f h).under [dot, dollar, name] ?_ ?_
    · intro us e he
      exact ⟨[], e, by rw [List.append_nil]; exact (Expr.pathOfTokens_suffix hd hs hn).trans he⟩
    · intro us f _ hf
      exact (Expr.pathOfTokens_suffix hd hs hn).trans hf

/-- A reading that is a primary and then a path gets stuck where the path does. -/
theorem Primary.path_stops {ps ts : List Lexeme} {base : Expr} {f : Failure} (hb : Primary ps base)
    (h : Expr.pathOfTokens base ts = .error f) : Stops Expr.ofTokens (ps ++ ts) := by
  refine (pathOfTokens_stops base ts f h).under ps ?_ ?_
  · intro us e he
    exact ⟨[], e, by rw [List.append_nil, hb.read, he]⟩
  · intro us f _ hf
    rw [hb.read, hf]

/-- Entries get stuck where those behind a comma do. -/
theorem Entry.more_stops {ps ts : List Lexeme} {comma : Lexeme} {entry : String × Expr}
    (h : Entry ps entry) (hc : comma.token = .comma) (hs : Stops Expr.entriesOfTokens ts) :
    Stops Expr.entriesOfTokens (ps ++ [comma] ++ ts) := by
  refine hs.under _ ?_ ?_
  · intro us entries hus
    refine ⟨[], entry :: entries, ?_⟩
    rw [List.append_nil, List.append_assoc, List.singleton_append, h.read_more us hc, hus]
    rfl
  · intro us g _ hg
    rw [List.append_assoc, List.singleton_append, h.read_more us hc, hg]
    rfl

theorem readers_stop :
    (∀ (ts : List Lexeme) (f : Failure), Expr.ofTokens ts = .error f →
      Stops Expr.ofTokens ts) ∧
    (∀ (ts : List Lexeme) (f : Failure), Expr.entriesOfTokens ts = .error f →
      Stops Expr.entriesOfTokens ts) := by
  refine readers_induction ?number ?string ?noName ?var ?emptyMap ?map ?noExpr ?noDollar ?noKey
    ?noEquals ?entry
  case number =>
    intro t value ts ht f h
    rw [Expr.ofTokens_number ht] at h
    cases h
  case string =>
    intro t text ts ht f h
    rw [Expr.ofTokens_string ht] at h
    exact (Primary.string ht).path_stops h
  case noName =>
    intro dollar ts hs hn f _
    refine ⟨.variableName, by simp, [dollar], ts, rfl, ?_, ?_⟩
    · refine ⟨[bare (.identifier "")], .var "" dollar.position.line, ?_⟩
      exact (Expr.ofTokens_var hs rfl).trans (Expr.pathOfTokens_stop (by simp))
    · intro vs hhead
      exact Expr.ofTokens_name_unmet hs (hhead ▸ hn)
  case var =>
    intro dollar name x ts hs hn f h
    rw [Expr.ofTokens_var hs hn] at h
    exact (Primary.var hs hn).path_stops h
  case emptyMap =>
    intro opening closing ts ho hc f h
    rw [Expr.ofTokens_map ho, Expr.mapOfTokens_close hc] at h
    exact (Primary.emptyMap ho hc).path_stops h
  case map =>
    intro opening ts ho hc ih f h
    rw [Expr.ofTokens_map ho, Expr.mapOfTokens_entries hc] at h
    cases hr : Expr.entriesOfTokens ts with
    | error g =>
      refine (ih g hr).under [opening] ?_ ?_
      · intro us entries he
        obtain ⟨ps, closing, rfl, hclose, hentries⟩ := readers_sound.2 us entries [] he
        refine ⟨[], .map entries opening.position.line, ?_⟩
        exact ((Primary.map ho hentries hclose).read []).trans (Expr.pathOfTokens_stop (by simp))
      · intro us g hhead hg
        rw [List.singleton_append, Expr.ofTokens_map ho, Expr.mapOfTokens_entries (hhead ▸ hc), hg]
        rfl
    | ok r =>
      rw [hr] at h
      obtain ⟨ps, closing, rfl, hclose, hentries⟩ := readers_sound.2 ts r.1 r.2 hr
      simpa using (Primary.map ho hentries hclose).path_stops h
  case noExpr =>
    intro ts hne f _
    refine ⟨.expression, by simp, [], ts, rfl, ?_, ?_⟩
    · exact ⟨[bare (.string "")], .string "" 0, bare_expression.read [] (by simp [Expr.EndsBefore])⟩
    · intro vs hhead
      exact Expr.ofTokens_unmet (hhead ▸ hne)
  case noDollar =>
    intro ts hs f _
    refine ⟨.keyDollar, by simp, [], ts, rfl, ?_, ?_⟩
    · have hentry : Entry [bare .dollar, bare (.identifier ""), bare .equals, bare (.string "")]
          ("", .string "" 0) := .mk rfl rfl rfl bare_expression
      exact ⟨_, _, hentry.read_last [] bare_closes⟩
    · intro vs hhead
      exact Expr.entriesOfTokens_dollar_unmet (hhead ▸ hs)
  case noKey =>
    intro dollar ts hs hn f _
    refine ⟨.keyName, by simp, [dollar], ts, rfl, ?_, ?_⟩
    · have hentry : Entry ([dollar] ++ [bare (.identifier ""), bare .equals, bare (.string "")])
          ("", .string "" 0) := .mk hs rfl rfl bare_expression
      exact ⟨_, _, hentry.read_last [] bare_closes⟩
    · intro vs hhead
      exact Expr.entriesOfTokens_name_unmet hs (hhead ▸ hn)
  case noEquals =>
    intro dollar name key ts hs hn hq f _
    refine ⟨.keyEquals, by simp, [dollar, name], ts, rfl, ?_, ?_⟩
    · have hentry : Entry ([dollar, name] ++ [bare .equals, bare (.string "")])
          (key, .string "" 0) := .mk hs hn rfl bare_expression
      exact ⟨_, _, hentry.read_last [] bare_closes⟩
    · intro vs hhead
      exact Expr.entriesOfTokens_equals_unmet hs hn (hhead ▸ hq)
  case entry =>
    intro dollar name equals key ts hs hn hq ihe ihs f h
    cases he : Expr.ofTokens ts with
    | error g =>
      refine (ihe g he).under [dollar, name, equals] ?_ ?_
      · intro us e hus
        obtain ⟨ps, rfl, hps, -⟩ := ofTokens_eq_ok_iff.mp hus
        have hentry : Entry (dollar :: name :: equals :: ps) (key, e) := .mk hs hn hq hps
        refine ⟨[bare .closeBracket], [(key, e)], ?_⟩
        simpa using hentry.read_last [] bare_closes
      · intro us g _ hg
        exact Expr.entriesOfTokens_expr_failed hs hn hq hg
    | ok r =>
      obtain ⟨e, rest⟩ := r
      obtain ⟨ps, rfl, hps, hend⟩ := ofTokens_eq_ok_iff.mp he
      have hentry : Entry (dollar :: name :: equals :: ps) (key, e) := .mk hs hn hq hps
      obtain ⟨comma, us, rfl, hc⟩ | hcomma := head_token_or .comma rest
      · rw [Expr.entriesOfTokens_comma hs hn hq he hc] at h
        cases hr : Expr.entriesOfTokens us with
        | ok r => rw [hr] at h; cases h
        | error g => simpa using hentry.more_stops hc (ihs e comma us he g hr)
      · obtain ⟨closing, us, rfl, hc⟩ | hclose := head_token_or .closeBracket rest
        · rw [Expr.entriesOfTokens_close hs hn hq he hc] at h
          cases h
        · refine ⟨.separator, by simp, dollar :: name :: equals :: ps, rest, rfl, ?_, ?_⟩
          · exact ⟨_, _, hentry.read_last [] bare_closes⟩
          · -- Only the next lexeme decides whether the expression goes on.
            intro vs hhead
            have hvs : Expr.ofTokens (ps ++ vs) = .ok (e, vs) :=
              hps.read vs (endsBefore_congr hend hhead)
            refine Expr.entriesOfTokens_separator_unmet hs hn hq hvs ?_
            rw [hhead]
            exact fun t ht => ⟨hcomma t ht, hclose t ht⟩

theorem mapOfTokens_stops {line : Nat} {ts : List Lexeme} {f : Failure}
    (h : Expr.mapOfTokens line ts = .error f) : Stops (Expr.mapOfTokens line) ts := by
  obtain ⟨closing, us, rfl, hc⟩ | hc := head_token_or .closeBracket ts
  · rw [Expr.mapOfTokens_close hc] at h
    cases h
  · rw [Expr.mapOfTokens_entries hc] at h
    cases hr : Expr.entriesOfTokens ts with
    | ok r => rw [hr] at h; cases h
    | error g =>
      refine (readers_stop.2 ts g hr).under [] ?_ ?_
      · intro us entries hus
        obtain ⟨ps, closing, rfl, hclose, hentries⟩ := readers_sound.2 us entries [] hus
        refine ⟨[], .map entries line, ?_⟩
        rw [List.nil_append, List.append_nil,
          Expr.mapOfTokens_entries fun t ht => by simp [hentries.head _ t ht], hus]
        rfl
      · intro us g hhead hg
        rw [List.nil_append, Expr.mapOfTokens_entries (hhead ▸ hc), hg]
        rfl

/-! ## Statements -/

theorem Sentence.read_all {ts : List Lexeme} {s : Statement} (h : Sentence ts s) :
    Statement.ofTokens ts = .ok (s, []) := by
  have hend : s.EndsBefore [] := Statement.endsBefore_of_head (by simp) s
  simpa using h.read hend

/-- A statement gets stuck inside, or its first lexeme is none that begins a statement. -/
theorem statement_stuck {ts : List Lexeme} {f : Failure} (h : Statement.ofTokens ts = .error f) :
    Stops Statement.ofTokens ts ∨
      ((∀ t ∈ ts.head?, t.token ≠ .echo ∧ t.token ≠ .dollar) ∧
        Stuck Statement.ofTokens (.peeking .statement) ts) := by
  obtain ⟨echo, ts, rfl, he⟩ | he := head_token_or .echo ts
  · rw [Statement.ofTokens_echo he] at h
    cases hx : Expr.ofTokens ts with
    | ok r => rw [hx] at h; cases h
    | error g =>
      refine .inl ((readers_stop.1 ts g hx).under [echo] ?_ ?_)
      · intro us e hus
        refine ⟨[], .echo e echo.position.line, ?_⟩
        rw [List.append_nil, List.singleton_append, Statement.ofTokens_echo he, hus]
        rfl
      · intro us g _ hg
        rw [List.singleton_append, Statement.ofTokens_echo he, hg]
        rfl
  obtain ⟨dollar, ts, rfl, hd⟩ | hd := head_token_or .dollar ts
  · left
    obtain ⟨name, x, ts, rfl, hn⟩ | hn := head_name_or ts
    · obtain ⟨equals, ts, rfl, hq⟩ | hq := head_token_or .equals ts
      · rw [Statement.ofTokens_assign hd hn hq] at h
        cases hx : Expr.ofTokens ts with
        | ok r => rw [hx] at h; cases h
        | error g =>
          refine (readers_stop.1 ts g hx).under [dollar, name, equals] ?_ ?_
          · intro us e hus
            refine ⟨[], .assign x e dollar.position.line, ?_⟩
            rw [List.append_nil, List.cons_append, List.cons_append, List.singleton_append,
              Statement.ofTokens_assign hd hn hq, hus]
            rfl
          · intro us g _ hg
            rw [List.cons_append, List.cons_append, List.singleton_append,
              Statement.ofTokens_assign hd hn hq, hg]
            rfl
      · refine ⟨.variableEquals, by simp, [dollar, name], ts, rfl, ?_, ?_⟩
        · have hs : Sentence ([dollar, name] ++ [bare .equals, bare (.string "")])
              (.assign x (.string "" 0) dollar.position.line) := .assign hd hn rfl bare_expression
          exact ⟨_, _, hs.read_all⟩
        · intro vs hhead
          exact Statement.ofTokens_equals_unmet hd hn (hhead ▸ hq)
    · refine ⟨.variableName, by simp, [dollar], ts, rfl, ?_, ?_⟩
      · have hs : Sentence ([dollar] ++ [bare (.identifier ""), bare .equals, bare (.string "")])
            (.assign "" (.string "" 0) dollar.position.line) := .assign hd rfl rfl bare_expression
        exact ⟨_, _, hs.read_all⟩
      · intro vs hhead
        exact Statement.ofTokens_name_unmet hd (hhead ▸ hn)
  · have hne : ∀ t ∈ ts.head?, t.token ≠ .echo ∧ t.token ≠ .dollar :=
      fun t ht => ⟨he t ht, hd t ht⟩
    refine .inr ⟨hne, [], ts, rfl, ?_, ?_⟩
    · have hs : Sentence [bare .echo, bare (.string "")] (.echo (.string "" 0) 0) := .echo rfl bare_expression
      exact ⟨_, _, hs.read_all⟩
    · intro vs hhead
      exact Statement.ofTokens_unmet (hhead ▸ hne)

/-! ## Programs -/

/-- Reading a whole program, which leaves nothing. -/
def readProgram (ts : List Lexeme) : Except SyntaxError (List Statement × List Lexeme) :=
  (Statement.listOfTokens ts).map fun ss => (ss, [])

theorem readProgram_eq_ok_iff {ts : List Lexeme} {ss : List Statement} :
    readProgram ts = .ok (ss, []) ↔ Statement.listOfTokens ts = .ok ss := by
  rw [readProgram]
  cases Statement.listOfTokens ts <;> simp [Except.map]

theorem readProgram_eq_error_iff {ts : List Lexeme} {e : SyntaxError} :
    readProgram ts = .error e ↔ Statement.listOfTokens ts = .error e := by
  rw [readProgram]
  cases Statement.listOfTokens ts <;> simp [Except.map]

/-- A program gets stuck where its first statement does. -/
theorem Stuck.program {t : Lexeme} {ts : List Lexeme} {failure : List Lexeme → Failure}
    (he : t.token ≠ .endOfInput) (hn : t.token ≠ .newline)
    (h : Stuck Statement.ofTokens failure (t :: ts)) :
    Stuck readProgram (fun vs => (failure vs).error) (t :: ts) := by
  refine h.under Failure.error [] ?_ ?_
  · intro us s hus
    obtain ⟨ps, rfl, hsent, hend⟩ := statement_sound hus
    refine ⟨[], [s], ?_⟩
    rw [List.nil_append, List.append_nil, readProgram_eq_ok_iff,
      listOfTokens_sentence hsent hend, Statement.listOfTokens_end (by simp)]
    rfl
  · intro us f hhead hf
    obtain ⟨vs, rfl⟩ := List.head?_eq_some_iff.mp hhead
    rw [List.nil_append, readProgram_eq_error_iff, Statement.listOfTokens_statement he hn, hf]

theorem program_stuck : ∀ (ts : List Lexeme) (e : SyntaxError),
    Statement.listOfTokens ts = .error e →
    ∃ x, Stuck readProgram (fun vs => .unmet x vs.head?) ts := by
  refine program_induction ?finish ?newline ?statement
  case finish =>
    intro ts hend e h
    rw [Statement.listOfTokens_end hend] at h
    cases h
  case newline =>
    intro n ts hn ih e h
    rw [Statement.listOfTokens_newline hn] at h
    obtain ⟨x, hstuck⟩ := ih e h
    refine ⟨x, hstuck.under id [n] ?_ ?_⟩
    · intro us ss hus
      refine ⟨[], ss, ?_⟩
      rw [List.append_nil, List.singleton_append, readProgram, Statement.listOfTokens_newline hn]
      exact hus
    · intro us f _ hf
      rw [List.singleton_append, readProgram, Statement.listOfTokens_newline hn]
      exact hf
  case statement =>
    intro t ts hend hn ih e h
    rw [Statement.listOfTokens_statement hend hn] at h
    cases hs : Statement.ofTokens (t :: ts) with
    | error f =>
      obtain ⟨x, -, hstuck⟩ | ⟨-, hstuck⟩ := statement_stuck hs
      · exact ⟨x, hstuck.program hend hn⟩
      · exact ⟨.statement, hstuck.program hend hn⟩
    | ok r =>
      obtain ⟨s, rest⟩ := r
      cases hr : Statement.listOfTokens rest with
      | ok ss => rw [hs] at h; dsimp only at h; rw [hr] at h; cases h
      | error g =>
        obtain ⟨ps, heq, hsent, hbefore⟩ := statement_sound hs
        obtain ⟨x, hstuck⟩ := ih s rest hs g hr
        rw [heq]
        refine ⟨x, hstuck.under id ps ?_ ?_⟩
        · intro us ss hus
          refine ⟨[], s :: ss, ?_⟩
          rw [readProgram_eq_ok_iff] at hus
          obtain ⟨qs, rs, rfl, hq, hp⟩ := listOfTokens_eq_ok_iff.mp hus
          rw [List.append_nil, readProgram_eq_ok_iff, listOfTokens_sentence hsent
            (Statement.endsBefore_of_head (hp.head_ne_dot hq) s), hus]
          rfl
        · intro us f hhead hf
          rw [readProgram_eq_error_iff] at hf
          rw [readProgram_eq_error_iff,
            listOfTokens_sentence hsent (statement_endsBefore_congr hbefore hhead), hf]
          rfl

/-! ## What errors say -/

/-- The error and the rest of a failed reading fit its lexemes. Either there is a lexeme `t` to
blame: the error names it, what stands before it can be completed, nothing behind it matters, and it
was consumed unless a statement was expected. Or the lexemes ran out: they can be completed, and
none is left. -/
def Accounts {α : Type} (read : List Lexeme → Except Failure (α × List Lexeme))
    (ts : List Lexeme) (f : Failure) : Prop :=
  (∃ us t vs, ts = us ++ t :: vs ∧ f.error.found = t.token ∧ f.error.position = t.position ∧
    f.rest = (if f.error.expected = .statement then t :: vs else vs) ∧
    (∃ ws a, read (us ++ ws) = .ok (a, [])) ∧
    ∀ ws, ∃ g, read (us ++ t :: ws) = .error g ∧ g.error = f.error) ∨
  (f.error.found.describe = "end of input" ∧ f.error.position = ⟨0, 0⟩ ∧ f.rest = [] ∧
    ∃ ws a, read (ts ++ ws) = .ok (a, []))

theorem Stuck.accounts {α : Type} {read : List Lexeme → Except Failure (α × List Lexeme)}
    {failure : List Lexeme → Failure} {x : Expectation} {ts : List Lexeme} {f : Failure}
    (h : Stuck read failure ts) (hf : read ts = .error f)
    (herror : ∀ vs, (failure vs).error = .unmet x vs.head?)
    (hrest : ∀ vs, (failure vs).rest = if x = .statement then vs else vs.tail) :
    Accounts read ts f := by
  obtain ⟨us, vs, rfl, hviable, hfails⟩ := h
  obtain rfl : failure vs = f := Except.error.inj ((hfails vs rfl).symm.trans hf)
  have herr := herror vs
  cases vs with
  | nil =>
    refine .inr ⟨by rw [herr]; rfl, by rw [herr]; rfl, by simp [hrest], ?_⟩
    simpa using hviable
  | cons t vs =>
    refine .inl ⟨us, t, vs, rfl, by rw [herr]; rfl, by rw [herr]; rfl, ?_, hviable, ?_⟩
    · rw [hrest, herr]; rfl
    · intro ws
      exact ⟨_, hfails (t :: ws) rfl, by rw [herror, herr]; rfl⟩

theorem Stops.accounts {α : Type} {read : List Lexeme → Except Failure (α × List Lexeme)}
    {ts : List Lexeme} {f : Failure} (h : Stops read ts) (hf : read ts = .error f) :
    Accounts read ts f := by
  obtain ⟨x, hx, hstuck⟩ := h
  exact hstuck.accounts hf (fun vs => rfl) (fun vs => (if_neg hx).symm)

theorem mapOfTokens_suffix {line : Nat} {ts rest : List Lexeme} {m : Expr}
    (h : Expr.mapOfTokens line ts = .ok (m, rest)) : rest <:+ ts := by
  obtain ⟨closing, us, rfl, hc⟩ | hc := head_token_or .closeBracket ts
  · rw [Expr.mapOfTokens_close hc] at h
    cases h
    exact List.suffix_cons closing _
  · rw [Expr.mapOfTokens_entries hc] at h
    obtain ⟨⟨entries, rest'⟩, hr, heq⟩ := map_eq_ok h
    cases heq
    obtain ⟨ps, closing, rfl, -, -⟩ := readers_sound.2 ts entries rest hr
    exact ⟨ps ++ [closing], by simp⟩

/-- A reading takes at least one lexeme. -/
theorem ne_of_outcome {α : Type} {ts rest : List Lexeme} {r : Reading ts.length α} {a : α}
    (h : r.outcome = .ok (a, rest)) : rest ≠ ts := by
  have hlt := Reading.shorter_of_outcome h
  rintro rfl
  exact Nat.lt_irrefl _ hlt

/-- A syntax error names the first lexeme that cannot be part of a program, and the lexemes left
over are accounted for exactly; a reading that succeeds leaves a proper suffix. -/
theorem syntax_error_names_first_bad_lexeme :
    (∀ ts e, Statement.listOfTokens ts = .error e →
      (∃ us t vs, ts = us ++ t :: vs ∧ e.found = t.token ∧ e.position = t.position ∧
        (∃ ws ss, Statement.listOfTokens (us ++ ws) = .ok ss) ∧
        ∀ ws, Statement.listOfTokens (us ++ t :: ws) = .error e) ∨
      (e.found.describe = "end of input" ∧ e.position = ⟨0, 0⟩ ∧
        ∃ ws ss, Statement.listOfTokens (ts ++ ws) = .ok ss)) ∧
    (∀ ts f, Expr.ofTokens ts = .error f → Accounts Expr.ofTokens ts f) ∧
    (∀ line ts f, Expr.mapOfTokens line ts = .error f → Accounts (Expr.mapOfTokens line) ts f) ∧
    (∀ ts f, Statement.ofTokens ts = .error f → Accounts Statement.ofTokens ts f) ∧
    (∀ ts e rest, Expr.ofTokens ts = .ok (e, rest) → rest <:+ ts ∧ rest ≠ ts) ∧
    (∀ line ts e rest, Expr.mapOfTokens line ts = .ok (e, rest) → rest <:+ ts ∧ rest ≠ ts) ∧
    (∀ ts s rest, Statement.ofTokens ts = .ok (s, rest) → rest <:+ ts ∧ rest ≠ ts) := by
  refine ⟨?_, ?_, ?_, ?_, ?_, ?_, ?_⟩
  · intro ts e h
    obtain ⟨x, us, vs, rfl, ⟨ws, ss, hws⟩, hfails⟩ := program_stuck ts e h
    simp only [readProgram_eq_ok_iff, readProgram_eq_error_iff] at hws hfails
    obtain rfl : .unmet x vs.head? = e := Except.error.inj ((hfails vs rfl).symm.trans h)
    cases vs with
    | nil => exact .inr ⟨rfl, rfl, ws, ss, by simpa using hws⟩
    | cons t vs =>
      exact .inl ⟨us, t, vs, rfl, rfl, rfl, ⟨ws, ss, hws⟩, fun ws => hfails (t :: ws) rfl⟩
  · intro ts f h
    exact (readers_stop.1 ts f h).accounts h
  · intro line ts f h
    exact (mapOfTokens_stops h).accounts h
  · intro ts f h
    obtain hstops | ⟨-, hstuck⟩ := statement_stuck h
    · exact hstops.accounts h
    · exact hstuck.accounts h (fun vs => rfl) (fun vs => rfl)
  · intro ts e rest h
    obtain ⟨ps, heq, -⟩ := ofTokens_eq_ok_iff.mp h
    exact ⟨⟨ps, heq.symm⟩, ne_of_outcome h⟩
  · intro line ts e rest h
    exact ⟨mapOfTokens_suffix h, ne_of_outcome h⟩
  · intro ts s rest h
    obtain ⟨ps, heq, -⟩ := statement_sound h
    exact ⟨⟨ps, heq.symm⟩, ne_of_outcome h⟩

/-- In `[$a = 1,]` the bracket is named and consumed, and the line break behind it is left. -/
theorem trailing_comma_names_bracket :
    Expr.ofTokens
      [⟨.openBracket, "[", ⟨1, 1⟩⟩, ⟨.dollar, "$", ⟨1, 2⟩⟩, ⟨.identifier "a", "a", ⟨1, 3⟩⟩,
        ⟨.equals, "=", ⟨1, 5⟩⟩, ⟨.number (.ofNat 1), "1", ⟨1, 7⟩⟩, ⟨.comma, ",", ⟨1, 8⟩⟩,
        ⟨.closeBracket, "]", ⟨1, 9⟩⟩, ⟨.newline, "\n", ⟨1, 10⟩⟩] =
      .error ⟨⟨.keyDollar, .closeBracket, ⟨1, 9⟩⟩, [⟨.newline, "\n", ⟨1, 10⟩⟩]⟩ ∧
    Accounts Expr.ofTokens
      [⟨.openBracket, "[", ⟨1, 1⟩⟩, ⟨.dollar, "$", ⟨1, 2⟩⟩, ⟨.identifier "a", "a", ⟨1, 3⟩⟩,
        ⟨.equals, "=", ⟨1, 5⟩⟩, ⟨.number (.ofNat 1), "1", ⟨1, 7⟩⟩, ⟨.comma, ",", ⟨1, 8⟩⟩,
        ⟨.closeBracket, "]", ⟨1, 9⟩⟩, ⟨.newline, "\n", ⟨1, 10⟩⟩]
      ⟨⟨.keyDollar, .closeBracket, ⟨1, 9⟩⟩, [⟨.newline, "\n", ⟨1, 10⟩⟩]⟩ := by
  refine (fun h => ⟨h, syntax_error_names_first_bad_lexeme.2.1 _ _ h⟩) ?_
  rw [Expr.ofTokens_map rfl, Expr.mapOfTokens_entries (by simp),
    Expr.entriesOfTokens_comma rfl rfl rfl (Expr.ofTokens_number rfl) rfl,
    Expr.entriesOfTokens_dollar_unmet (by simp)]
  rfl

end Grammar
end EchoScript
