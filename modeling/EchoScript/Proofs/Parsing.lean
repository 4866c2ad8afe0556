import EchoScript.Proofs.Grammar
import EchoScript.Proofs.Readers

/-!
# EchoScript.Proofs.Parsing

Reading is exactly deriving.

* `Expression.read`, `Chain.read`: a reader that is given a derived stretch and more takes the
  stretch. For a chain this holds whatever follows; for a whole expression what follows must not go
  on with it.
* `readers_sound`: what a reader gave was derived from the lexemes it took.
* `listOfTokens_exact`: for whole programs the two directions together.
-/

namespace EchoScript

/-- The expression is complete before `rest`: every point goes on with a path, except that a number
takes none. -/
def Expr.EndsBefore (rest : List Lexeme) : Expr → Prop
  | .number _ _ => True
  | _ => ∀ t ∈ rest.head?, t.token ≠ .dot

/-- The statement is complete before `rest`. -/
def Statement.EndsBefore (rest : List Lexeme) : Statement → Prop
  | .echo e _ => e.EndsBefore rest
  | .assign _ e _ => e.EndsBefore rest

theorem Expr.endsBefore_of_head {rest : List Lexeme} (h : ∀ t ∈ rest.head?, t.token ≠ .dot)
    (e : Expr) : e.EndsBefore rest := by
  cases e with
  | number => trivial
  | _ => exact h

theorem Statement.endsBefore_of_head {rest : List Lexeme} (h : ∀ t ∈ rest.head?, t.token ≠ .dot)
    (s : Statement) : s.EndsBefore rest := by
  cases s <;> exact Expr.endsBefore_of_head h _

namespace Grammar

/-! ## Derived stretches are read -/

theorem Primary.endsBefore {ts rest : List Lexeme} {e : Expr} (h : Primary ts e)
    (he : e.EndsBefore rest) : ∀ t ∈ rest.head?, t.token ≠ .dot := by
  cases h <;> exact he

theorem Chain.endsBefore {ts rest : List Lexeme} {e : Expr} (h : Chain ts e)
    (he : e.EndsBefore rest) : ∀ t ∈ rest.head?, t.token ≠ .dot := by
  cases h with
  | primary hp => exact hp.endsBefore he
  | path => exact he

theorem Entry.head {ts : List Lexeme} {entry : String × Expr} (h : Entry ts entry)
    (rest : List Lexeme) : ∀ t ∈ (ts ++ rest).head?, t.token = .dollar := by
  cases h with
  | mk hd => simpa using hd

theorem Entries.head {ts : List Lexeme} {entries : List (String × Expr)} (h : Entries ts entries)
    (rest : List Lexeme) : ∀ t ∈ (ts ++ rest).head?, t.token = .dollar := by
  cases h with
  | one h => exact h.head rest
  | more h => rw [List.append_assoc]; exact h.head _

mutual

theorem Expression.read {ts : List Lexeme} {e : Expr} :
    Expression ts e → ∀ rest, e.EndsBefore rest → Expr.ofTokens (ts ++ rest) = .ok (e, rest)
  | .number h, _, _ => Expr.ofTokens_number h
  | .chain h, rest, he => by rw [h.read rest, Expr.pathOfTokens_stop (h.endsBefore he)]

/-- A chain leaves it open whether a path suffix follows. -/
theorem Chain.read {ts : List Lexeme} {e : Expr} :
    Chain ts e → ∀ rest, Expr.ofTokens (ts ++ rest) = Expr.pathOfTokens e rest
  | .primary h, rest => h.read rest
  | .path h hd hs hn, rest => by
    rw [List.append_assoc, h.read]
    exact Expr.pathOfTokens_suffix hd hs hn

theorem Primary.read {ts : List Lexeme} {e : Expr} :
    Primary ts e → ∀ rest, Expr.ofTokens (ts ++ rest) = Expr.pathOfTokens e rest
  | .string h, _ => Expr.ofTokens_string h
  | .var hd hn, _ => Expr.ofTokens_var hd hn
  | .emptyMap ho hc, rest => by
    rw [List.cons_append, Expr.ofTokens_map ho, List.singleton_append, Expr.mapOfTokens_close hc]
  | .map ho h hc, rest => by
    rw [List.cons_append, List.cons_append, Expr.ofTokens_map ho, List.append_assoc,
      List.singleton_append, Expr.mapOfTokens_entries fun t ht => by simp [h.head _ t ht],
      h.read rest hc]
    rfl

theorem Entries.read {ts : List Lexeme} {entries : List (String × Expr)} :
    Entries ts entries → ∀ {closing} rest, closing.token = .closeBracket →
      Expr.entriesOfTokens (ts ++ closing :: rest) = .ok (entries, rest)
  | .one h, _, rest, hc => h.read_last rest hc
  | .more h hk hs, _, rest, hc => by
    rw [List.append_assoc, List.cons_append, h.read_more _ hk, hs.read rest hc]
    rfl

theorem Entry.read_last {ts : List Lexeme} {entry : String × Expr} :
    Entry ts entry → ∀ {closing} rest, closing.token = .closeBracket →
      Expr.entriesOfTokens (ts ++ closing :: rest) = .ok ([entry], rest)
  | .mk hd hn hq h, _, _, hc =>
    Expr.entriesOfTokens_close hd hn hq (h.read _ (Expr.endsBefore_of_head (by simp [hc]) _)) hc

theorem Entry.read_more {ts : List Lexeme} {entry : String × Expr} :
    Entry ts entry → ∀ {comma} rest, comma.token = .comma →
      Expr.entriesOfTokens (ts ++ comma :: rest) =
        (Expr.entriesOfTokens rest).map fun (entries, rest) => (entry :: entries, rest)
  | .mk hd hn hq h, _, _, hc =>
    Expr.entriesOfTokens_comma hd hn hq (h.read _ (Expr.endsBefore_of_head (by simp [hc]) _)) hc

end

/-! ## What is read was derived -/

theorem pathOfTokens_sound : ∀ (base : Expr) (ts : List Lexeme) {e : Expr} {rest : List Lexeme},
    Expr.pathOfTokens base ts = .ok (e, rest) →
    ∃ qs, ts = qs ++ rest ∧ (∀ ps, Chain ps base → Chain (ps ++ qs) e) ∧
      ∀ t ∈ rest.head?, t.token ≠ .dot := by
  refine path_induction ?stop ?noDollar ?noName ?suffix
  case stop =>
    intro base ts hstop e rest h
    rw [Expr.pathOfTokens_stop hstop] at h
    cases h
    exact ⟨[], rfl, by simp, hstop⟩
  case noDollar =>
    intro base dot ts hd hs e rest h
    rw [Expr.pathOfTokens_dollar_unmet hd hs] at h
    cases h
  case noName =>
    intro base dot dollar ts hd hs hn e rest h
    rw [Expr.pathOfTokens_name_unmet hd hs hn] at h
    cases h
  case suffix =>
    intro base dot dollar name key ts hd hs hn ih e rest h
    rw [Expr.pathOfTokens_suffix hd hs hn] at h
    obtain ⟨qs, rfl, hchain, hstop⟩ := ih h
    refine ⟨dot :: dollar :: name :: qs, rfl, ?_, hstop⟩
    intro ps hb
    simpa using hchain _ (.path hb hd hs hn)

/-- A primary and the path that was read behind it are an expression. -/
theorem Primary.path_sound {ps ts rest : List Lexeme} {base e : Expr} (hb : Primary ps base)
    (h : Expr.pathOfTokens base ts = .ok (e, rest)) :
    ∃ qs, ps ++ ts = qs ++ rest ∧ Expression qs e ∧ e.EndsBefore rest := by
  obtain ⟨qs, rfl, hchain, hstop⟩ := pathOfTokens_sound base ts h
  exact ⟨ps ++ qs, by simp, .chain (hchain ps (.primary hb)), Expr.endsBefore_of_head hstop e⟩

theorem readers_sound :
    (∀ (ts : List Lexeme) (e : Expr) (rest : List Lexeme), Expr.ofTokens ts = .ok (e, rest) →
      ∃ ps, ts = ps ++ rest ∧ Expression ps e ∧ e.EndsBefore rest) ∧
    (∀ (ts : List Lexeme) (entries : List (String × Expr)) (rest : List Lexeme),
      Expr.entriesOfTokens ts = .ok (entries, rest) →
      ∃ ps closing, ts = ps ++ closing :: rest ∧ closing.token = .closeBracket ∧
        Entries ps entries) := by
  refine readers_induction ?number ?string ?noName ?var ?emptyMap ?map ?noExpr ?noDollar ?noKey
    ?noEquals ?entry
  case number =>
    intro t value ts ht e rest h
    rw [Expr.ofTokens_number ht] at h
    cases h
    exact ⟨[t], rfl, .number ht, trivial⟩
  case string =>
    intro t text ts ht e rest h
    rw [Expr.ofTokens_string ht] at h
    exact (Primary.string ht).path_sound h
  case noName =>
    intro dollar ts hs hn e rest h
    rw [Expr.ofTokens_name_unmet hs hn] at h
    cases h
  case var =>
    intro dollar name x ts hs hn e rest h
    rw [Expr.ofTokens_var hs hn] at h
    exact (Primary.var hs hn).path_sound h
  case emptyMap =>
    intro opening closing ts ho hc e rest h
    rw [Expr.ofTokens_map ho, Expr.mapOfTokens_close hc] at h
    exact (Primary.emptyMap ho hc).path_sound h
  case map =>
    intro opening ts ho hc ih e rest h
    rw [Expr.ofTokens_map ho, Expr.mapOfTokens_entries hc] at h
    cases hr : Expr.entriesOfTokens ts with
    | error f => rw [hr] at h; cases h
    | ok r =>
      rw [hr] at h
      obtain ⟨ps, closing, rfl, hc, hentries⟩ := ih r.1 r.2 hr
      simpa using (Primary.map ho hentries hc).path_sound h
  case noExpr =>
    intro ts hne e rest h
    rw [Expr.ofTokens_unmet hne] at h
    cases h
  case noDollar =>
    intro ts hs entries rest h
    rw [Expr.entriesOfTokens_dollar_unmet hs] at h
    cases h
  case noKey =>
    intro dollar ts hs hn entries rest h
    rw [Expr.entriesOfTokens_name_unmet hs hn] at h
    cases h
  case noEquals =>
    intro dollar name key ts hs hn hq entries rest h
    rw [Expr.entriesOfTokens_equals_unmet hs hn hq] at h
    cases h
  case entry =>
    intro dollar name equals key ts hs hn hq ihe ihs entries rest h
    cases he : Expr.ofTokens ts with
    | error f =>
      rw [Expr.entriesOfTokens_expr_failed hs hn hq he] at h
      cases h
    | ok r =>
      obtain ⟨e, rest₁⟩ := r
      obtain ⟨ps, rfl, hexpr, -⟩ := ihe e rest₁ he
      have hentry : Entry (dollar :: name :: equals :: ps) (key, e) := .mk hs hn hq hexpr
      obtain ⟨comma, us, rfl, hc⟩ | hcomma := head_token_or .comma rest₁
      · rw [Expr.entriesOfTokens_comma hs hn hq he hc] at h
        obtain ⟨⟨more, rest₂⟩, hr, heq⟩ := map_eq_ok h
        cases heq
        obtain ⟨qs, closing, rfl, hclose, hmore⟩ := ihs e comma us he more rest hr
        exact ⟨_, closing, by simp, hclose, .more hentry hc hmore⟩
      · obtain ⟨closing, us, rfl, hc⟩ | hclose := head_token_or .closeBracket rest₁
        · rw [Expr.entriesOfTokens_close hs hn hq he hc] at h
          cases h
          exact ⟨_, closing, rfl, hc, .one hentry⟩
        · rw [Expr.entriesOfTokens_separator_unmet hs hn hq he
            fun t ht => ⟨hcomma t ht, hclose t ht⟩] at h
          cases h

/-- An expression was read: the lexemes taken derive it, and no more of them could be taken. -/
theorem ofTokens_eq_ok_iff {ts rest : List Lexeme} {e : Expr} :
    Expr.ofTokens ts = .ok (e, rest) ↔
      ∃ ps, ts = ps ++ rest ∧ Expression ps e ∧ e.EndsBefore rest := by
  constructor
  · exact readers_sound.1 ts e rest
  · rintro ⟨ps, rfl, h, he⟩
    exact h.read rest he

/-! ## Statements and programs -/

theorem Sentence.head {ts : List Lexeme} {s : Statement} (h : Sentence ts s) (rest : List Lexeme) :
    ∃ t us, ts ++ rest = t :: us ∧ (t.token = .echo ∨ t.token = .dollar) := by
  cases h with
  | echo he => exact ⟨_, _, rfl, .inl he⟩
  | assign hd => exact ⟨_, _, rfl, .inr hd⟩

theorem Sentence.read {ts rest : List Lexeme} {s : Statement} (h : Sentence ts s)
    (hs : s.EndsBefore rest) : Statement.ofTokens (ts ++ rest) = .ok (s, rest) := by
  cases h with
  | echo he h =>
    rw [List.cons_append, Statement.ofTokens_echo he, h.read rest hs]
    rfl
  | assign hd hn hq h =>
    rw [List.cons_append, List.cons_append, List.cons_append, Statement.ofTokens_assign hd hn hq,
      h.read rest hs]
    rfl

theorem statement_sound {ts rest : List Lexeme} {s : Statement}
    (h : Statement.ofTokens ts = .ok (s, rest)) :
    ∃ ps, ts = ps ++ rest ∧ Sentence ps s ∧ s.EndsBefore rest := by
  obtain ⟨echo, ts, rfl, he⟩ | he := head_token_or .echo ts
  · rw [Statement.ofTokens_echo he] at h
    obtain ⟨⟨e, rest₁⟩, hx, heq⟩ := map_eq_ok h
    cases heq
    obtain ⟨ps, rfl, hexpr, hend⟩ := ofTokens_eq_ok_iff.mp hx
    exact ⟨echo :: ps, rfl, .echo he hexpr, hend⟩
  obtain ⟨dollar, ts, rfl, hd⟩ | hd := head_token_or .dollar ts
  · obtain ⟨name, x, ts, rfl, hn⟩ | hn := head_name_or ts
    · obtain ⟨equals, ts, rfl, hq⟩ | hq := head_token_or .equals ts
      · rw [Statement.ofTokens_assign hd hn hq] at h
        obtain ⟨⟨e, rest₁⟩, hx, heq⟩ := map_eq_ok h
        cases heq
        obtain ⟨ps, rfl, hexpr, hend⟩ := ofTokens_eq_ok_iff.mp hx
        exact ⟨dollar :: name :: equals :: ps, rfl, .assign hd hn hq hexpr, hend⟩
      · rw [Statement.ofTokens_equals_unmet hd hn hq] at h
        cases h
    · rw [Statement.ofTokens_name_unmet hd hn] at h
      cases h
  · rw [Statement.ofTokens_unmet fun t ht => ⟨he t ht, hd t ht⟩] at h
    cases h

theorem listOfTokens_newlines {ns : List Lexeme} (h : Newlines ns) (ts : List Lexeme) :
    Statement.listOfTokens (ns ++ ts) = Statement.listOfTokens ts := by
  induction ns with
  | nil => rfl
  | cons n ns ih =>
    rw [List.cons_append, Statement.listOfTokens_newline (h n (by simp)),
      ih fun t ht => h t (by simp [ht])]

theorem listOfTokens_sentence {ts rest : List Lexeme} {s : Statement} (h : Sentence ts s)
    (hs : s.EndsBefore rest) :
    Statement.listOfTokens (ts ++ rest) = (Statement.listOfTokens rest).map (s :: ·) := by
  have hread := h.read hs
  obtain ⟨t, us, heq, ht⟩ := h.head rest
  rw [heq] at hread ⊢
  rw [Statement.listOfTokens_statement, hread]
  · obtain ht | ht := ht <;> simp [ht]
  · obtain ht | ht := ht <;> simp [ht]

/-- What may follow a statement never goes on with it. -/
theorem Program.head_ne_dot {ps qs : List Lexeme} {ss : List Statement} (h : Program ps ss)
    (hq : Ends qs) : ∀ t ∈ (ps ++ qs).head?, t.token ≠ .dot := by
  cases ps with
  | nil => intro t ht; simp [hq t ht]
  | cons p ps => intro t ht; exact (h.follows.2 t ht).1

theorem Program.read {ps qs : List Lexeme} {ss : List Statement} (h : Program ps ss)
    (hq : Ends qs) : Statement.listOfTokens (ps ++ qs) = .ok ss := by
  induction h with
  | last hn => rw [listOfTokens_newlines hn, Statement.listOfTokens_end hq]
  | next hn hs hp ih =>
    rw [List.append_assoc, List.append_assoc, listOfTokens_newlines hn,
      listOfTokens_sentence hs (Statement.endsBefore_of_head (hp.head_ne_dot hq) _), ih]
    rfl

theorem Program.newline {ps : List Lexeme} {ss : List Statement} {n : Lexeme}
    (hn : n.token = .newline) (h : Program ps ss) : Program (n :: ps) ss := by
  cases h with
  | last h => exact .last (by simpa [Newlines, hn] using h)
  | @next ns ts us s ss h hs hp =>
    have hns : Newlines (n :: ns) := by simpa [Newlines, hn] using h
    exact .next hns hs hp

theorem program_sound : ∀ (ts : List Lexeme) {ss : List Statement},
    Statement.listOfTokens ts = .ok ss → ∃ ps qs, ts = ps ++ qs ∧ Ends qs ∧ Program ps ss := by
  have hnil : Newlines [] := by simp [Newlines]
  refine program_induction ?finish ?newline ?statement
  case finish =>
    intro ts hend ss h
    rw [Statement.listOfTokens_end hend] at h
    cases h
    exact ⟨[], ts, rfl, hend, .last hnil⟩
  case newline =>
    intro n ts hn ih ss h
    rw [Statement.listOfTokens_newline hn] at h
    obtain ⟨ps, qs, rfl, hq, hp⟩ := ih h
    exact ⟨n :: ps, qs, rfl, hq, hp.newline hn⟩
  case statement =>
    intro t ts hend hn ih ss h
    rw [Statement.listOfTokens_statement hend hn] at h
    cases hs : Statement.ofTokens (t :: ts) with
    | error f => rw [hs] at h; cases h
    | ok r =>
      obtain ⟨s, rest⟩ := r
      rw [hs] at h
      obtain ⟨ss, hrest, rfl⟩ := map_eq_ok h
      obtain ⟨ps, heq, hsent, -⟩ := statement_sound hs
      obtain ⟨us, qs, rfl, hq, hp⟩ := ih s rest hs hrest
      exact ⟨ps ++ us, qs, by simp [heq], hq, .next hnil hsent hp⟩

/-- The lexemes of a whole script: a program, and then nothing or the end of input. -/
def Derives (ts : List Lexeme) (ss : List Statement) : Prop :=
  ∃ ps qs, ts = ps ++ qs ∧ Ends qs ∧ Program ps ss

theorem listOfTokens_eq_ok_iff {ts : List Lexeme} {ss : List Statement} :
    Statement.listOfTokens ts = .ok ss ↔ Derives ts ss := by
  constructor
  · exact program_sound ts
  · rintro ⟨ps, qs, rfl, hq, hp⟩
    exact hp.read hq

/-- Reading accepts exactly the grammar and builds exactly its trees. The trees are unique, a
statement has no line break inside, and in a program no comma stands before a closing bracket and no
point behind a number. -/
theorem listOfTokens_exact :
    (∀ ts ss, Statement.listOfTokens ts = .ok ss ↔
      ∃ ps qs, ts = ps ++ qs ∧ Ends qs ∧ Program ps ss) ∧
    (∀ ts ss ss', Derives ts ss → Derives ts ss' → ss = ss') ∧
    (∀ ts s, Sentence ts s → ∀ t ∈ ts, t.token ≠ .newline) ∧
    (∀ ts ss, Program ts ss → ∀ us a b vs, ts = us ++ a :: b :: vs →
      ¬ (a.token = .comma ∧ b.token = .closeBracket) ∧
      ∀ value, ¬ (a.token = .number value ∧ b.token = .dot)) := by
  refine ⟨fun ts ss => listOfTokens_eq_ok_iff, ?_, ?_, ?_⟩
  · intro ts ss ss' h h'
    have heq := (listOfTokens_eq_ok_iff.mpr h).symm.trans (listOfTokens_eq_ok_iff.mpr h')
    exact Except.ok.inj heq
  · intro ts s h
    exact h.tidy.noNewline
  · rintro ts ss h us a b vs rfl
    exact (List.isChain_append_cons_cons.mp h.follows.1).2.1

/-- The line `echo [$a = 1].$a` after an empty one, with the end of input and more behind it. -/
theorem listOfTokens_exact_at_line :
    Sentence
      [⟨.echo, "echo", ⟨2, 1⟩⟩, ⟨.openBracket, "[", ⟨2, 6⟩⟩, ⟨.dollar, "$", ⟨2, 7⟩⟩,
        ⟨.identifier "a", "a", ⟨2, 8⟩⟩, ⟨.equals, "=", ⟨2, 10⟩⟩,
        ⟨.number (.ofNat 1), "1", ⟨2, 12⟩⟩, ⟨.closeBracket, "]", ⟨2, 13⟩⟩, ⟨.dot, ".", ⟨2, 14⟩⟩,
        ⟨.dollar, "$", ⟨2, 15⟩⟩, ⟨.identifier "a", "a", ⟨2, 16⟩⟩]
      (.echo (.path (.map [("a", .number (.ofNat 1) 2)] 2) "a" 2) 2) ∧
    Statement.listOfTokens
      [⟨.newline, "\n", ⟨1, 1⟩⟩, ⟨.echo, "echo", ⟨2, 1⟩⟩, ⟨.openBracket, "[", ⟨2, 6⟩⟩,
        ⟨.dollar, "$", ⟨2, 7⟩⟩, ⟨.identifier "a", "a", ⟨2, 8⟩⟩, ⟨.equals, "=", ⟨2, 10⟩⟩,
        ⟨.number (.ofNat 1), "1", ⟨2, 12⟩⟩, ⟨.closeBracket, "]", ⟨2, 13⟩⟩, ⟨.dot, ".", ⟨2, 14⟩⟩,
        ⟨.dollar, "$", ⟨2, 15⟩⟩, ⟨.identifier "a", "a", ⟨2, 16⟩⟩, ⟨.endOfInput, "", ⟨2, 17⟩⟩,
        ⟨.comma, ",", ⟨3, 1⟩⟩] =
      .ok [.echo (.path (.map [("a", .number (.ofNat 1) 2)] 2) "a" 2) 2] := by
  have hentry : Entry
      [⟨.dollar, "$", ⟨2, 7⟩⟩, ⟨.identifier "a", "a", ⟨2, 8⟩⟩, ⟨.equals, "=", ⟨2, 10⟩⟩,
        ⟨.number (.ofNat 1), "1", ⟨2, 12⟩⟩] ("a", .number (.ofNat 1) 2) :=
    .mk rfl rfl rfl (.number rfl)
  have hmap := @Primary.map ⟨.openBracket, "[", ⟨2, 6⟩⟩ ⟨.closeBracket, "]", ⟨2, 13⟩⟩ _ _ rfl
    (.one hentry) rfl
  have hpath := @Chain.path _ _ ⟨.dot, ".", ⟨2, 14⟩⟩ ⟨.dollar, "$", ⟨2, 15⟩⟩
    ⟨.identifier "a", "a", ⟨2, 16⟩⟩ _ (.primary hmap) rfl rfl rfl
  have hecho := @Sentence.echo ⟨.echo, "echo", ⟨2, 1⟩⟩ _ _ rfl (.chain hpath)
  have hbefore : Newlines [⟨.newline, "\n", ⟨1, 1⟩⟩] := by simp [Newlines]
  have hbehind : Newlines [] := by simp [Newlines]
  refine ⟨hecho, (listOfTokens_exact.1 _ _).mpr ⟨_, [⟨.endOfInput, "", ⟨2, 17⟩⟩,
    ⟨.comma, ",", ⟨3, 1⟩⟩], rfl, by simp [Ends], .next hbefore hecho (.last hbehind)⟩⟩

end Grammar
end EchoScript
