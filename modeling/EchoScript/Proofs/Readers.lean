import EchoScript.Tree.OfTokens

/-!
# EchoScript.Proofs.Readers

What each reader gives, branch by branch, with the bound of its reading left out.

Every equation names a lexeme by its token and leaves its text and place open. A branch that fails
depends on the first lexeme it cannot use and on nothing after it, which is why its condition speaks
of `ts.head?` only. The proofs about whole readings use these equations and never open a reader.
-/

namespace EchoScript

namespace Reading

variable {α β : Type} {bound larger : Nat}

@[simp] theorem outcome_done (a : α) (rest : List Lexeme) (h : rest.length < bound) :
    (Reading.done a rest h).outcome = .ok (a, rest) := rfl

@[simp] theorem outcome_failed (f : Failure) :
    (Reading.failed f : Reading bound α).outcome = .error f := rfl

@[simp] theorem outcome_widen (h : bound ≤ larger) (r : Reading bound α) :
    (r.widen h).outcome = r.outcome := by
  cases r <;> rfl

@[simp] theorem outcome_map (f : α → β) (r : Reading bound α) :
    (r.map f).outcome = r.outcome.map fun (a, rest) => (f a, rest) := by
  cases r <;> rfl

theorem shorter_of_outcome {r : Reading bound α} {a : α} {rest : List Lexeme}
    (h : r.outcome = .ok (a, rest)) : rest.length < bound := by
  cases r with
  | failed f => cases h
  | done b us hlt => cases h; exact hlt

end Reading

theorem map_eq_ok {ε α β : Type} {f : α → β} {r : Except ε α} {b : β} (h : r.map f = .ok b) :
    ∃ a, r = .ok a ∧ f a = b := by
  cases r with
  | error e => cases h
  | ok a => cases h; exact ⟨a, rfl, rfl⟩

/-! ## One lexeme -/

theorem head_token_or (token : Token) (ts : List Lexeme) :
    (∃ t rest, ts = t :: rest ∧ t.token = token) ∨ ∀ t ∈ ts.head?, t.token ≠ token := by
  cases ts with
  | nil => simp
  | cons t rest =>
    by_cases h : t.token = token
    · exact .inl ⟨t, rest, rfl, h⟩
    · exact .inr (by simpa using h)

theorem head_name_or (ts : List Lexeme) :
    (∃ t name rest, ts = t :: rest ∧ t.token = .identifier name) ∨
      ∀ t ∈ ts.head?, ∀ name, t.token ≠ .identifier name := by
  cases ts with
  | nil => simp
  | cons t rest =>
    by_cases h : ∃ name, t.token = .identifier name
    · obtain ⟨name, hn⟩ := h
      exact .inl ⟨t, name, rest, rfl, hn⟩
    · exact .inr (by simpa using h)

section Lexemes

variable {token : Token} {x y : Expectation} {ts : List Lexeme} {t u : Lexeme} {name : String}

theorem readToken_cons (h : t.token = token) :
    readToken token x (t :: ts) = .done () ts (Nat.lt_succ_self ts.length) := by
  simp [readToken, h]

theorem readToken_unmet (h : ∀ t ∈ ts.head?, t.token ≠ token) :
    readToken token x ts = .failed (.consuming x ts) := by
  cases ts with
  | nil => rfl
  | cons t ts =>
    have hne : t.token ≠ token := h t rfl
    simp [readToken, hne]

theorem readName_cons (h : t.token = .identifier name) :
    readName x (t :: ts) = .done name ts (Nat.lt_succ_self ts.length) := by
  obtain ⟨_, _, _⟩ := t
  cases h
  simp [readName]

theorem readName_unmet (h : ∀ t ∈ ts.head?, ∀ name, t.token ≠ .identifier name) :
    readName x ts = .failed (.consuming x ts) := by
  unfold readName
  split
  · exact absurd rfl (h _ rfl _)
  · rfl

theorem readBinder_cons (ht : t.token = .identifier name) (hu : u.token = .equals) :
    readBinder x y (t :: u :: ts) = .done name ts (by simp only [List.length_cons]; omega) := by
  simp only [readBinder, readName_cons ht, readToken_cons hu]
  rfl

theorem readBinder_name_unmet (h : ∀ t ∈ ts.head?, ∀ name, t.token ≠ .identifier name) :
    readBinder x y ts = .failed (.consuming x ts) := by
  simp only [readBinder, readName_unmet h]

theorem readBinder_equals_unmet (ht : t.token = .identifier name)
    (h : ∀ u ∈ ts.head?, u.token ≠ .equals) :
    readBinder x y (t :: ts) = .failed (.consuming y ts) := by
  simp only [readBinder, readName_cons ht, readToken_unmet h]
  rfl

end Lexemes

/-! ## Paths -/

namespace Expr

/-- The expression that `base` makes with the path suffixes at the start of the lexemes, and the
lexemes after them. -/
def pathOfTokens (base : Expr) (ts : List Lexeme) : Except Failure (Expr × List Lexeme) :=
  (readPath base ts).outcome

section Paths

variable {base : Expr} {ts : List Lexeme} {dot dollar name : Lexeme} {key : String}

theorem pathOfTokens_suffix (hd : dot.token = .dot) (hs : dollar.token = .dollar)
    (hn : name.token = .identifier key) :
    pathOfTokens base (dot :: dollar :: name :: ts) =
      pathOfTokens (.path base key dot.position.line) ts := by
  obtain ⟨_, _, _⟩ := dot
  cases hd
  rw [pathOfTokens, readPath]
  simp only [readToken_cons hs, readName_cons hn, Reading.outcome_widen, pathOfTokens]

theorem pathOfTokens_stop (h : ∀ t ∈ ts.head?, t.token ≠ .dot) :
    pathOfTokens base ts = .ok (base, ts) := by
  rw [pathOfTokens, readPath.eq_def]
  split
  · exact absurd rfl (h _ rfl)
  · rfl

theorem pathOfTokens_dollar_unmet (hd : dot.token = .dot) (h : ∀ t ∈ ts.head?, t.token ≠ .dollar) :
    pathOfTokens base (dot :: ts) = .error (.consuming .pathDollar ts) := by
  obtain ⟨_, _, _⟩ := dot
  cases hd
  rw [pathOfTokens, readPath]
  simp only [readToken_unmet h, Reading.outcome_failed]

theorem pathOfTokens_name_unmet (hd : dot.token = .dot) (hs : dollar.token = .dollar)
    (h : ∀ t ∈ ts.head?, ∀ name, t.token ≠ .identifier name) :
    pathOfTokens base (dot :: dollar :: ts) = .error (.consuming .keyName ts) := by
  obtain ⟨_, _, _⟩ := dot
  cases hd
  rw [pathOfTokens, readPath]
  simp only [readToken_cons hs, readName_unmet h, Reading.outcome_failed]

end Paths

end Expr

/-- Induction over the path suffixes that stand at the start of the lexemes. -/
theorem path_induction {P : Expr → List Lexeme → Prop}
    (stop : ∀ base ts, (∀ t ∈ ts.head?, t.token ≠ .dot) → P base ts)
    (noDollar : ∀ base dot ts, dot.token = .dot → (∀ t ∈ ts.head?, t.token ≠ .dollar) →
      P base (dot :: ts))
    (noName : ∀ base dot dollar ts, dot.token = .dot → dollar.token = .dollar →
      (∀ t ∈ ts.head?, ∀ name, t.token ≠ .identifier name) → P base (dot :: dollar :: ts))
    (suffix : ∀ base dot dollar name key ts, dot.token = .dot → dollar.token = .dollar →
      name.token = .identifier key → P (.path base key dot.position.line) ts →
      P base (dot :: dollar :: name :: ts)) :
    ∀ base ts, P base ts := by
  intro base ts
  induction hn : ts.length using Nat.strongRecOn generalizing base ts with
  | ind n ih =>
    obtain ⟨dot, ts, rfl, hd⟩ | hd := head_token_or .dot ts
    · obtain ⟨dollar, ts, rfl, hs⟩ | hs := head_token_or .dollar ts
      · obtain ⟨name, key, ts, rfl, hk⟩ | hk := head_name_or ts
        · have hlt : ts.length < n := by simp at hn; omega
          exact suffix base dot dollar name key ts hd hs hk (ih _ hlt _ ts rfl)
        · exact noName base dot dollar ts hd hs hk
      · exact noDollar base dot ts hd hs
    · exact stop base ts hd

/-! ## Expressions and map literals -/

namespace Expr

/-- The entries at the start of the lexemes, up to and with the closing bracket, and the lexemes
after it. -/
def entriesOfTokens (ts : List Lexeme) : Except Failure (List (String × Expr) × List Lexeme) :=
  (readEntries ts).outcome

section Expressions

variable {ts : List Lexeme} {t dollar name opening closing equals : Lexeme} {x key text : String}
  {value : Number} {line : Nat}

theorem ofTokens_number (h : t.token = .number value) :
    ofTokens (t :: ts) = .ok (.number value t.position.line, ts) := by
  obtain ⟨_, _, _⟩ := t
  cases h
  rw [ofTokens, readExpr]; rfl

theorem ofTokens_string (h : t.token = .string text) :
    ofTokens (t :: ts) = pathOfTokens (.string text t.position.line) ts := by
  obtain ⟨_, _, _⟩ := t
  cases h
  rw [ofTokens, readExpr, pathOfTokens]

theorem ofTokens_var (hd : dollar.token = .dollar) (hn : name.token = .identifier x) :
    ofTokens (dollar :: name :: ts) = pathOfTokens (.var x dollar.position.line) ts := by
  obtain ⟨_, _, _⟩ := dollar
  cases hd
  rw [ofTokens, readExpr]
  simp only [readName_cons hn, Reading.outcome_widen, pathOfTokens]

theorem ofTokens_name_unmet (hd : dollar.token = .dollar)
    (h : ∀ t ∈ ts.head?, ∀ name, t.token ≠ .identifier name) :
    ofTokens (dollar :: ts) = .error (.consuming .variableName ts) := by
  obtain ⟨_, _, _⟩ := dollar
  cases hd
  rw [ofTokens, readExpr]
  simp only [readName_unmet h, Reading.outcome_failed]

theorem ofTokens_map (ho : opening.token = .openBracket) :
    ofTokens (opening :: ts) =
      match mapOfTokens opening.position.line ts with
      | .error f => .error f
      | .ok (m, rest) => pathOfTokens m rest := by
  obtain ⟨_, _, p⟩ := opening
  cases ho
  rw [ofTokens, readExpr, mapOfTokens]
  cases readMap p.line ts with
  | done m rest h => simp only [Reading.outcome_widen, Reading.outcome_done, pathOfTokens]
  | failed f => rfl

theorem ofTokens_unmet (h : ∀ t ∈ ts.head?, (∀ value, t.token ≠ .number value) ∧
      (∀ text, t.token ≠ .string text) ∧ t.token ≠ .dollar ∧ t.token ≠ .openBracket) :
    ofTokens ts = .error (.consuming .expression ts) := by
  rw [ofTokens, readExpr.eq_def]
  split
  · exact absurd rfl ((h _ rfl).1 _)
  · exact absurd rfl ((h _ rfl).2.1 _)
  · exact absurd rfl (h _ rfl).2.2.1
  · exact absurd rfl (h _ rfl).2.2.2
  · rfl

theorem mapOfTokens_close (hc : closing.token = .closeBracket) :
    mapOfTokens line (closing :: ts) = .ok (.map [] line, ts) := by
  obtain ⟨_, _, _⟩ := closing
  cases hc
  rw [mapOfTokens, readMap]; rfl

theorem mapOfTokens_entries (h : ∀ t ∈ ts.head?, t.token ≠ .closeBracket) :
    mapOfTokens line ts =
      (entriesOfTokens ts).map fun (entries, rest) => (.map entries line, rest) := by
  rw [mapOfTokens, readMap.eq_def]
  split
  · exact absurd rfl (h _ rfl)
  · simp only [Reading.outcome_map, entriesOfTokens]

theorem entriesOfTokens_dollar_unmet (h : ∀ t ∈ ts.head?, t.token ≠ .dollar) :
    entriesOfTokens ts = .error (.consuming .keyDollar ts) := by
  rw [entriesOfTokens, readEntries]
  simp only [readToken_unmet h, Reading.outcome_failed]

theorem entriesOfTokens_name_unmet (hd : dollar.token = .dollar)
    (h : ∀ t ∈ ts.head?, ∀ name, t.token ≠ .identifier name) :
    entriesOfTokens (dollar :: ts) = .error (.consuming .keyName ts) := by
  rw [entriesOfTokens, readEntries]
  simp only [readToken_cons hd, readBinder_name_unmet h, Reading.outcome_failed]

theorem entriesOfTokens_equals_unmet (hd : dollar.token = .dollar)
    (hn : name.token = .identifier key) (h : ∀ t ∈ ts.head?, t.token ≠ .equals) :
    entriesOfTokens (dollar :: name :: ts) = .error (.consuming .keyEquals ts) := by
  rw [entriesOfTokens, readEntries]
  simp only [readToken_cons hd, readBinder_equals_unmet hn h, Reading.outcome_failed]

section Entry

variable {f : Failure} {e : Expr} {rest : List Lexeme} {comma : Lexeme}

theorem entriesOfTokens_expr_failed (hd : dollar.token = .dollar)
    (hn : name.token = .identifier key) (hq : equals.token = .equals)
    (he : ofTokens ts = .error f) : entriesOfTokens (dollar :: name :: equals :: ts) = .error f := by
  rw [entriesOfTokens, readEntries]
  simp only [readToken_cons hd, readBinder_cons hn hq]
  rw [ofTokens] at he
  cases hr : readExpr ts with
  | failed g => rw [hr] at he; cases he; rfl
  | done e rest h => rw [hr] at he; cases he

theorem entriesOfTokens_comma (hd : dollar.token = .dollar) (hn : name.token = .identifier key)
    (hq : equals.token = .equals) (he : ofTokens ts = .ok (e, comma :: rest))
    (hc : comma.token = .comma) :
    entriesOfTokens (dollar :: name :: equals :: ts) =
      (entriesOfTokens rest).map fun (entries, rest) => ((key, e) :: entries, rest) := by
  rw [entriesOfTokens, readEntries]
  simp only [readToken_cons hd, readBinder_cons hn hq]
  obtain ⟨_, _, _⟩ := comma
  cases hc
  rw [ofTokens] at he
  cases hr : readExpr ts with
  | failed g => rw [hr] at he; cases he
  | done e rest h =>
    rw [hr] at he; cases he
    simp only [Reading.outcome_widen, Reading.outcome_map, entriesOfTokens]

theorem entriesOfTokens_close (hd : dollar.token = .dollar) (hn : name.token = .identifier key)
    (hq : equals.token = .equals) (he : ofTokens ts = .ok (e, closing :: rest))
    (hc : closing.token = .closeBracket) :
    entriesOfTokens (dollar :: name :: equals :: ts) = .ok ([(key, e)], rest) := by
  rw [entriesOfTokens, readEntries]
  simp only [readToken_cons hd, readBinder_cons hn hq]
  obtain ⟨_, _, _⟩ := closing
  cases hc
  rw [ofTokens] at he
  cases hr : readExpr ts with
  | failed g => rw [hr] at he; cases he
  | done e rest h => rw [hr] at he; cases he; rfl

theorem entriesOfTokens_separator_unmet (hd : dollar.token = .dollar)
    (hn : name.token = .identifier key) (hq : equals.token = .equals)
    (he : ofTokens ts = .ok (e, rest))
    (h : ∀ t ∈ rest.head?, t.token ≠ .comma ∧ t.token ≠ .closeBracket) :
    entriesOfTokens (dollar :: name :: equals :: ts) =
      .error (.consuming .separator rest) := by
  rw [entriesOfTokens, readEntries]
  simp only [readToken_cons hd, readBinder_cons hn hq]
  rw [ofTokens] at he
  cases hr : readExpr ts with
  | failed g => rw [hr] at he; cases he
  | done e rest h =>
    rw [hr] at he; cases he
    dsimp only
    split
    · exact absurd rfl (h _ rfl).1
    · exact absurd rfl (h _ rfl).2
    · rfl

end Entry

end Expressions

end Expr

/-- Induction over what stands at the start of the lexemes: `P` for an expression, `Q` for the
entries of a map literal. Behind an entry's comma come entries again. -/
theorem readers_induction {P Q : List Lexeme → Prop}
    (number : ∀ (t : Lexeme) value ts, t.token = .number value → P (t :: ts))
    (string : ∀ (t : Lexeme) text ts, t.token = .string text → P (t :: ts))
    (noName : ∀ (dollar : Lexeme) ts, dollar.token = .dollar →
      (∀ t ∈ ts.head?, ∀ name, t.token ≠ .identifier name) → P (dollar :: ts))
    (var : ∀ (dollar name : Lexeme) x ts, dollar.token = .dollar → name.token = .identifier x →
      P (dollar :: name :: ts))
    (emptyMap : ∀ (opening closing : Lexeme) ts, opening.token = .openBracket →
      closing.token = .closeBracket → P (opening :: closing :: ts))
    (map : ∀ (opening : Lexeme) ts, opening.token = .openBracket →
      (∀ t ∈ ts.head?, t.token ≠ .closeBracket) → Q ts → P (opening :: ts))
    (noExpr : ∀ ts : List Lexeme, (∀ t ∈ ts.head?, (∀ value, t.token ≠ .number value) ∧
      (∀ text, t.token ≠ .string text) ∧ t.token ≠ .dollar ∧ t.token ≠ .openBracket) → P ts)
    (noDollar : ∀ ts : List Lexeme, (∀ t ∈ ts.head?, t.token ≠ .dollar) → Q ts)
    (noKey : ∀ (dollar : Lexeme) ts, dollar.token = .dollar →
      (∀ t ∈ ts.head?, ∀ name, t.token ≠ .identifier name) → Q (dollar :: ts))
    (noEquals : ∀ (dollar name : Lexeme) key ts, dollar.token = .dollar →
      name.token = .identifier key → (∀ t ∈ ts.head?, t.token ≠ .equals) →
      Q (dollar :: name :: ts))
    (entry : ∀ (dollar name equals : Lexeme) key ts, dollar.token = .dollar →
      name.token = .identifier key → equals.token = .equals → P ts →
      (∀ e comma rest, Expr.ofTokens ts = .ok (e, comma :: rest) → Q rest) →
      Q (dollar :: name :: equals :: ts)) :
    (∀ ts, P ts) ∧ ∀ ts, Q ts := by
  suffices h : ∀ ts, P ts ∧ Q ts from ⟨fun ts => (h ts).1, fun ts => (h ts).2⟩
  intro ts
  induction hn : ts.length using Nat.strongRecOn generalizing ts with
  | ind n ih =>
    constructor
    · cases ts with
      | nil => exact noExpr [] (by simp)
      | cons t ts =>
        have hlt : ts.length < n := by simp at hn; omega
        cases ht : t.token with
        | number value => exact number t value ts ht
        | string text => exact string t text ts ht
        | dollar =>
          obtain ⟨name, x, ts, rfl, hx⟩ | hx := head_name_or ts
          · exact var t name x ts ht hx
          · exact noName t ts ht hx
        | openBracket =>
          obtain ⟨closing, ts, rfl, hc⟩ | hc := head_token_or .closeBracket ts
          · exact emptyMap t closing ts ht hc
          · exact map t ts ht hc (ih _ hlt ts rfl).2
        | _ => exact noExpr _ (by simp [ht])
    · obtain ⟨dollar, ts, rfl, hs⟩ | hs := head_token_or .dollar ts
      · obtain ⟨name, key, ts, rfl, hk⟩ | hk := head_name_or ts
        · obtain ⟨equals, ts, rfl, hq⟩ | hq := head_token_or .equals ts
          · have hlt : ts.length < n := by simp at hn; omega
            refine entry dollar name equals key ts hs hk hq (ih _ hlt ts rfl).1 ?_
            intro e comma rest he
            have hshort := Reading.shorter_of_outcome he
            exact (ih _ (by simp at hshort; omega) rest rfl).2
          · exact noEquals dollar name key ts hs hk hq
        · exact noKey dollar ts hs hk
      · exact noDollar ts hs

/-! ## Statements and programs -/

section Statements

variable {ts : List Lexeme} {t echo dollar name equals newline : Lexeme} {x : String}

namespace Statement

theorem ofTokens_echo (h : echo.token = .echo) :
    ofTokens (echo :: ts) =
      (Expr.ofTokens ts).map fun (e, rest) => (.echo e echo.position.line, rest) := by
  obtain ⟨_, _, _⟩ := echo
  cases h
  simp only [ofTokens, readStatement, Reading.outcome_widen, Reading.outcome_map, Expr.ofTokens]

theorem ofTokens_assign (hd : dollar.token = .dollar) (hn : name.token = .identifier x)
    (he : equals.token = .equals) :
    ofTokens (dollar :: name :: equals :: ts) =
      (Expr.ofTokens ts).map fun (e, rest) => (.assign x e dollar.position.line, rest) := by
  obtain ⟨_, _, _⟩ := dollar
  cases hd
  simp only [ofTokens, readStatement, readBinder_cons hn he, Reading.outcome_widen,
    Reading.outcome_map, Expr.ofTokens]

theorem ofTokens_name_unmet (hd : dollar.token = .dollar)
    (h : ∀ t ∈ ts.head?, ∀ name, t.token ≠ .identifier name) :
    ofTokens (dollar :: ts) = .error (.consuming .variableName ts) := by
  obtain ⟨_, _, _⟩ := dollar
  cases hd
  simp only [ofTokens, readStatement, readBinder_name_unmet h, Reading.outcome_failed]

theorem ofTokens_equals_unmet (hd : dollar.token = .dollar) (hn : name.token = .identifier x)
    (h : ∀ t ∈ ts.head?, t.token ≠ .equals) :
    ofTokens (dollar :: name :: ts) = .error (.consuming .variableEquals ts) := by
  obtain ⟨_, _, _⟩ := dollar
  cases hd
  simp only [ofTokens, readStatement, readBinder_equals_unmet hn h, Reading.outcome_failed]

theorem ofTokens_unmet (h : ∀ t ∈ ts.head?, t.token ≠ .echo ∧ t.token ≠ .dollar) :
    ofTokens ts = .error (.peeking .statement ts) := by
  rw [ofTokens, readStatement.eq_def]
  split
  · exact absurd rfl (h _ rfl).1
  · exact absurd rfl (h _ rfl).2
  · rfl

theorem listOfTokens_end (h : ∀ t ∈ ts.head?, t.token = .endOfInput) :
    listOfTokens ts = .ok [] := by
  cases ts with
  | nil => rw [listOfTokens]
  | cons t ts =>
    obtain ⟨_, _, _⟩ := t
    cases h _ rfl
    rw [listOfTokens]

theorem listOfTokens_newline (h : newline.token = .newline) :
    listOfTokens (newline :: ts) = listOfTokens ts := by
  obtain ⟨_, _, _⟩ := newline
  cases h
  rw [listOfTokens]

theorem listOfTokens_statement (he : t.token ≠ .endOfInput) (hn : t.token ≠ .newline) :
    listOfTokens (t :: ts) =
      match ofTokens (t :: ts) with
      | .error f => .error f.error
      | .ok (s, rest) => (listOfTokens rest).map (s :: ·) := by
  rw [listOfTokens, ofTokens]
  · cases readStatement (t :: ts) with
    | failed f => rfl
    | done s rest h =>
      dsimp only [Reading.outcome_done]
      cases listOfTokens rest <;> rfl
  · rintro _ _ rfl; exact he rfl
  · rintro _ _ rfl; exact hn rfl

end Statement

end Statements

/-- Induction over a program: line by line break and statement by statement. -/
theorem program_induction {P : List Lexeme → Prop}
    (finish : ∀ ts : List Lexeme, (∀ t ∈ ts.head?, t.token = .endOfInput) → P ts)
    (newline : ∀ (n : Lexeme) ts, n.token = .newline → P ts → P (n :: ts))
    (statement : ∀ (t : Lexeme) ts, t.token ≠ .endOfInput → t.token ≠ .newline →
      (∀ s rest, Statement.ofTokens (t :: ts) = .ok (s, rest) → P rest) → P (t :: ts)) :
    ∀ ts, P ts := by
  intro ts
  induction hn : ts.length using Nat.strongRecOn generalizing ts with
  | ind n ih =>
    cases ts with
    | nil => exact finish [] (by simp)
    | cons t ts =>
      by_cases hend : t.token = .endOfInput
      · exact finish _ (by simpa using hend)
      by_cases hnew : t.token = .newline
      · exact newline t ts hnew (ih _ (by simp at hn; omega) ts rfl)
      · refine statement t ts hend hnew ?_
        intro s rest hs
        have hshort := Reading.shorter_of_outcome hs
        exact ih _ (by omega) rest rfl

end EchoScript
