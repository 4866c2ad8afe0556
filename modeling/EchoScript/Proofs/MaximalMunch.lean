import EchoScript.Proofs.Spelling

/-!
# EchoScript.Proofs.MaximalMunch

A script without its comments is read from left to right, always the longest token next.

* `Munch cs ls rest` — reading `cs` that way gives the lexemes `ls` and leaves `rest`.
* `scan_outcome`     — what `scan` answers is such a reading, to the end or to where no token fits.
* `Munch.scan_eq`    — `scan` follows every such reading.
-/

namespace EchoScript

namespace Token

/-- Blanks are passed over, and each lexeme is the longest token that stands at its place. -/
inductive Munch : List Char → List Lexeme → List Char → Prop where
  | done {cs : List Char} : Munch cs [] cs
  | blank {c : Char} {cs rest : List Char} {ls : List Lexeme} :
      isBlank c = true → Munch cs ls rest → Munch (c :: cs) ls rest
  | token {l : Lexeme} {cs rest : List Char} {ls : List Lexeme} :
      Spells l.text.toList l.token → Longest l.text.toList cs → Munch cs ls rest →
      Munch (l.text.toList ++ cs) (l :: ls) rest

/-- The error is about the character `c`: a quote opens a string that does not end, and no token
starts with any other character. -/
def Blames (c : Char) : LexError → Prop
  | .unexpectedCharacter d _ => d = c ∧ c ≠ '"'
  | .unterminatedString _ => c = '"'

/-! ## Steps of the scanner -/

theorem scan_nil (p : Position) : scan p [] = .ok [⟨.endOfInput, "", p⟩] := by
  rw [scan]

theorem scan_blank {c : Char} (hc : isBlank c = true) (p : Position) (cs : List Char) :
    scan p (c :: cs) = scan (p.advance c) cs := by
  rw [scan, if_pos hc]

theorem scan_token {c : Char} {text rest : List Char} {t : Token} (hc : isBlank c = false)
    (h : start c (text ++ rest) = .token t text.length) (p : Position) :
    scan p (c :: (text ++ rest)) =
      (scan (p.after (c :: text)) rest).map (⟨t, String.ofList (c :: text), p⟩ :: ·) := by
  rw [scan, if_neg (by simp [hc])]
  simp only [h, List.take_left, List.drop_left]
  cases scan (p.after (c :: text)) rest <;> rfl

theorem scan_unexpected {c : Char} {cs : List Char} (hc : isBlank c = false)
    (h : start c cs = .unexpected) (p : Position) :
    scan p (c :: cs) = .error (.unexpectedCharacter c p) := by
  rw [scan, if_neg (by simp [hc]), h]

theorem scan_unterminated {c : Char} {cs : List Char} (hc : isBlank c = false)
    (h : start c cs = .unterminated) (p : Position) :
    scan p (c :: cs) = .error (.unterminatedString (p.after (c :: cs))) := by
  rw [scan, if_neg (by simp [hc]), h]

/-- What holds of every text that is read to its end: the step over a blank, the step over a token,
and the end. -/
theorem scan_ok_induction {motive : Position → List Char → List Lexeme → Prop}
    (nil : ∀ p, motive p [] [⟨.endOfInput, "", p⟩])
    (blank : ∀ p c cs ts, isBlank c = true → motive (p.advance c) cs ts → motive p (c :: cs) ts)
    (token : ∀ p c text rest t ts, isBlank c = false → Spells (c :: text) t →
      Longest (c :: text) rest → start c (text ++ rest) = .token t text.length →
      motive (p.after (c :: text)) rest ts →
      motive p (c :: (text ++ rest)) (⟨t, String.ofList (c :: text), p⟩ :: ts))
    {p : Position} {cs : List Char} {ts : List Lexeme} (h : scan p cs = .ok ts) :
    motive p cs ts := by
  -- A token takes several characters at once, so the induction is on the length.
  induction hn : cs.length using Nat.strong_induction_on generalizing p cs ts with
  | _ n ih =>
  cases cs with
  | nil =>
    rw [scan_nil] at h
    cases h
    exact nil p
  | cons c cs =>
    cases hc : isBlank c with
    | true =>
      rw [scan_blank hc] at h
      exact blank p c cs ts hc (ih cs.length (by simp [← hn]) h rfl)
    | false =>
      obtain ⟨t, text, rest, rfl, hstart, hspells, hlong⟩ | ⟨hstart, -, -⟩ | ⟨hstart, -, -⟩ :=
        start_cases c cs
      · rw [scan_token hc hstart] at h
        cases hrest : scan (p.after (c :: text)) rest with
        | error e => rw [hrest] at h; cases h
        | ok us =>
          rw [hrest] at h
          cases h
          have hlen : rest.length < n := by
            simp only [← hn, List.length_cons, List.length_append]
            omega
          exact token p c text rest t us hc hspells hlong hstart (ih rest.length hlen hrest rfl)
      · rw [scan_unexpected hc hstart] at h
        cases h
      · rw [scan_unterminated hc hstart] at h
        cases h

/-! ## Soundness -/

/-- What an answer says about the text: it was read to its end, or to where no token fits. -/
def Outcome (cs : List Char) : Except LexError (List Lexeme) → Prop
  | .ok ts => ∃ ls p, ts = ls ++ [⟨.endOfInput, "", p⟩] ∧ Munch cs ls []
  | .error e => ∃ ls c rest, Munch cs ls (c :: rest) ∧ isBlank c = false ∧ NoToken (c :: rest) ∧
      Blames c e

theorem Outcome.blank {c : Char} {cs : List Char} {r : Except LexError (List Lexeme)}
    (hc : isBlank c = true) (h : Outcome cs r) : Outcome (c :: cs) r := by
  cases r with
  | ok ts =>
    obtain ⟨ls, p, hts, hread⟩ := h
    exact ⟨ls, p, hts, .blank hc hread⟩
  | error e =>
    obtain ⟨ls, d, rest, hread, hstuck⟩ := h
    exact ⟨ls, d, rest, .blank hc hread, hstuck⟩

theorem Outcome.token {l : Lexeme} {cs : List Char} {r : Except LexError (List Lexeme)}
    (hl : Spells l.text.toList l.token) (hlong : Longest l.text.toList cs) (h : Outcome cs r) :
    Outcome (l.text.toList ++ cs) (r.map (l :: ·)) := by
  cases r with
  | ok ts =>
    obtain ⟨ls, p, rfl, hread⟩ := h
    exact ⟨l :: ls, p, rfl, .token hl hlong hread⟩
  | error e =>
    obtain ⟨ls, d, rest, hread, hstuck⟩ := h
    exact ⟨l :: ls, d, rest, .token hl hlong hread, hstuck⟩

theorem scan_outcome (p : Position) (cs : List Char) : Outcome cs (scan p cs) := by
  -- A token takes several characters at once, so the induction is on the length.
  induction hn : cs.length using Nat.strong_induction_on generalizing p cs with
  | _ n ih =>
  cases cs with
  | nil =>
    rw [scan_nil]
    exact ⟨[], p, rfl, .done⟩
  | cons c cs =>
    cases hc : isBlank c with
    | true =>
      rw [scan_blank hc]
      exact (ih cs.length (by simp [← hn]) _ cs rfl).blank hc
    | false =>
      obtain ⟨t, text, rest, rfl, hstart, hspells, hlong⟩ | ⟨hstart, hquote, hnone⟩ |
        ⟨hstart, hquote, hnone⟩ := start_cases c cs
      · rw [scan_token hc hstart]
        have htext : (String.ofList (c :: text)).toList = c :: text := String.toList_ofList
        have hlen : rest.length < n := by
          simp only [← hn, List.length_cons, List.length_append]
          omega
        have hrest := ih rest.length hlen (p.after (c :: text)) rest rfl
        have hstep := hrest.token (l := ⟨t, String.ofList (c :: text), p⟩)
          (by rw [htext]; exact hspells) (by rw [htext]; exact hlong)
        rwa [htext] at hstep
      · rw [scan_unexpected hc hstart]
        exact ⟨[], c, cs, .done, hc, hnone, rfl, hquote⟩
      · rw [scan_unterminated hc hstart]
        exact ⟨[], c, cs, .done, hc, hnone, hquote⟩

theorem ofSource_eq_ok {source : String} {ts : List Lexeme} (h : ofSource source = .ok ts) :
    ∃ ls p, ts = ls ++ [⟨.endOfInput, "", p⟩] ∧ Munch (Comment.strip source.toList) ls [] := by
  have houtcome := scan_outcome .start (Comment.strip source.toList)
  rw [← ofSource, h] at houtcome
  exact houtcome

/-! ## Completeness -/

/-- A lexeme without its place. -/
def writing (l : Lexeme) : Token × String := (l.token, l.text)

/-- The longest spelling at a place is what `start` finds there. -/
theorem Spells.start_eq {c : Char} {text rest : List Char} {t : Token} (h : Spells (c :: text) t)
    (hlong : Longest (c :: text) rest) : start c (text ++ rest) = .token t text.length := by
  obtain ⟨t', text', rest', hsplit, hstart, hspells, hlong'⟩ | ⟨-, -, hnone⟩ | ⟨-, -, hnone⟩ :=
    start_cases c (text ++ rest)
  · have hle : (c :: text').length ≤ (c :: text).length :=
      hlong _ _ hspells ⟨rest', by rw [List.cons_append, List.cons_append, ← hsplit]⟩
    have hge : (c :: text).length ≤ (c :: text').length :=
      hlong' _ _ h ⟨rest, by rw [List.cons_append, List.cons_append, hsplit]⟩
    simp only [List.length_cons, Nat.add_le_add_iff_right] at hle hge
    obtain ⟨rfl, rfl⟩ := List.append_inj hsplit (Nat.le_antisymm hge hle)
    rw [hstart, h.unique hspells]
  · exact absurd ⟨rest, rfl⟩ (hnone _ _ h)
  · exact absurd ⟨rest, rfl⟩ (hnone _ _ h)

/-- The scanner follows every reading, up to places. -/
theorem Munch.scan_eq {cs rest : List Char} {ls : List Lexeme} (h : Munch cs ls rest)
    (p : Position) : ∃ ls' q, scan p cs = (scan q rest).map (ls' ++ ·) ∧
      ls'.map writing = ls.map writing := by
  induction h generalizing p with
  | @done cs =>
    refine ⟨[], p, ?_, rfl⟩
    cases scan p cs <;> rfl
  | @blank c cs rest ls hc _ ih =>
    rw [scan_blank hc]
    exact ih (p.advance c)
  | @token l cs rest ls hspells hlong _ ih =>
    cases htext : l.text.toList with
    | nil => exact absurd htext hspells.ne_nil
    | cons c text =>
      rw [htext] at hspells hlong
      obtain ⟨ls', q, hscan, hsame⟩ := ih (p.after (c :: text))
      refine ⟨⟨l.token, l.text, p⟩ :: ls', q, ?_, congrArg (writing l :: ·) hsame⟩
      rw [List.cons_append, scan_token hspells.not_blank (hspells.start_eq hlong), hscan, ← htext,
        String.ofList_toList]
      cases scan q rest <;> rfl

theorem Munch.spells {cs rest : List Char} {ls : List Lexeme} (h : Munch cs ls rest) :
    ∀ l ∈ ls, Spells l.text.toList l.token := by
  induction h with
  | done => simp
  | blank _ _ ih => exact ih
  | @token l cs rest ls hspells _ _ ih =>
    intro l' hl'
    cases hl' with
    | head => exact hspells
    | tail _ hmem => exact ih l' hmem

theorem Munch.ne_endOfInput {cs rest : List Char} {ls : List Lexeme} (h : Munch cs ls rest) :
    ∀ l ∈ ls, l.token ≠ .endOfInput := by
  intro l hl
  exact (h.spells l hl).ne_endOfInput

theorem scan_stuck {c : Char} {cs : List Char} (hc : isBlank c = false) (h : NoToken (c :: cs))
    (p : Position) : ∃ e, scan p (c :: cs) = .error e ∧ Blames c e := by
  obtain ⟨t, text, rest, rfl, -, hspells, -⟩ | ⟨hstart, hquote, -⟩ | ⟨hstart, hquote, -⟩ :=
    start_cases c cs
  · exact absurd ⟨rest, rfl⟩ (h _ _ hspells)
  · exact ⟨_, scan_unexpected hc hstart p, rfl, hquote⟩
  · exact ⟨_, scan_unterminated hc hstart p, hquote⟩

/-- The lexemes of a script are its longest tokens from left to right, and a script has none exactly
if that reading comes to a place where no token fits. -/
theorem ofSource_maximal_munch (source : String) :
    (∀ ts, ofSource source = .ok ts →
      ∃ ls p, ts = ls ++ [⟨.endOfInput, "", p⟩] ∧ (∀ l ∈ ls, l.token ≠ .endOfInput) ∧
        Munch (Comment.strip source.toList) ls []) ∧
    (∀ e, ofSource source = .error e →
      ∃ ls c rest, Munch (Comment.strip source.toList) ls (c :: rest) ∧ isBlank c = false ∧
        NoToken (c :: rest) ∧ Blames c e) ∧
    (∀ ls, Munch (Comment.strip source.toList) ls [] →
      ∃ ts, ofSource source = .ok ts ∧ ts.map writing = ls.map writing ++ [(.endOfInput, "")]) ∧
    (∀ ls c rest, Munch (Comment.strip source.toList) ls (c :: rest) → isBlank c = false →
      NoToken (c :: rest) → ∃ e, ofSource source = .error e ∧ Blames c e) := by
  have houtcome := scan_outcome .start (Comment.strip source.toList)
  refine ⟨?_, ?_, ?_, ?_⟩
  · intro ts hts
    rw [← ofSource, hts] at houtcome
    obtain ⟨ls, p, rfl, hread⟩ := houtcome
    exact ⟨ls, p, rfl, hread.ne_endOfInput, hread⟩
  · intro e he
    rw [← ofSource, he] at houtcome
    exact houtcome
  · intro ls hread
    obtain ⟨ls', q, hscan, hsame⟩ := hread.scan_eq .start
    rw [scan_nil] at hscan
    exact ⟨_, hscan, by simp [hsame, writing]⟩
  · intro ls c rest hread hc hnone
    obtain ⟨ls', q, hscan, -⟩ := hread.scan_eq .start
    obtain ⟨e, he, hblames⟩ := scan_stuck hc hnone q
    rw [he] at hscan
    exact ⟨e, hscan, hblames⟩

/-- A point without a digit after it is not part of the number, and a minus sign without one is no
token. -/
theorem munch_point_and_minus :
    (ofSource "1.x" = .ok [⟨.number (Number.ofDecimal false ⟨1, 0⟩), "1", ⟨1, 1⟩⟩,
        ⟨.dot, ".", ⟨1, 2⟩⟩, ⟨.identifier "x", "x", ⟨1, 3⟩⟩, ⟨.endOfInput, "", ⟨1, 4⟩⟩] ∧
      ∃ ls, Munch (Comment.strip "1.x".toList) ls []) ∧
    (ofSource "x -y" = .error (.unexpectedCharacter '-' ⟨1, 3⟩) ∧
      ∃ ls c rest, Munch (Comment.strip "x -y".toList) ls (c :: rest) ∧ isBlank c = false ∧
        NoToken (c :: rest) ∧ Blames c (.unexpectedCharacter '-' ⟨1, 3⟩)) := by
  have hpoint : ofSource "1.x" = .ok [⟨.number (Number.ofDecimal false ⟨1, 0⟩), "1", ⟨1, 1⟩⟩,
      ⟨.dot, ".", ⟨1, 2⟩⟩, ⟨.identifier "x", "x", ⟨1, 3⟩⟩, ⟨.endOfInput, "", ⟨1, 4⟩⟩] := by
    with_unfolding_all rfl
  have hminus : ofSource "x -y" = .error (.unexpectedCharacter '-' ⟨1, 3⟩) := by
    with_unfolding_all rfl
  obtain ⟨ls, -, -, -, hread⟩ := (ofSource_maximal_munch "1.x").1 _ hpoint
  exact ⟨⟨hpoint, ls, hread⟩, hminus, (ofSource_maximal_munch "x -y").2.1 _ hminus⟩

end Token

end EchoScript
