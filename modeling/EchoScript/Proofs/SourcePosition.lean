import EchoScript.Proofs.Blanking
import EchoScript.Proofs.MaximalMunch
import Mathlib.Data.List.Induction

/-!
# EchoScript.Proofs.SourcePosition

Lexemes and errors stand where they say in the script as it was written, comments included.

The scanner runs over the blanked text. `Sited` lays its answer over the text before blanking, one
skipped character or one lexeme at a time; `scan_sited` shows that every answer of the scanner can
be laid so, and `Sited.placed` turns such a layout into offsets.
-/

namespace EchoScript

namespace Position

/-- The place of the character at an offset: the line breaks before it are counted for the line, and
the characters after the last of them for the column. -/
def ofOffset (cs : List Char) (o : Nat) : Position where
  line := 1 + (cs.take o).count '\n'
  column := 1 + ((cs.take o).reverse.takeWhile (· ≠ '\n')).length

theorem start_after (cs : List Char) : start.after cs =
    ⟨1 + cs.count '\n', 1 + (cs.reverse.takeWhile (· ≠ '\n')).length⟩ := by
  induction cs using List.reverseRecOn with
  | nil => rfl
  | append_singleton cs c ih =>
    rw [after_append, ih]
    by_cases hc : c = '\n'
    · simp [advance, hc, Nat.add_assoc]
    · simp [advance, hc, Nat.add_assoc]

theorem ofOffset_append (pre cs : List Char) :
    ofOffset (pre ++ cs) pre.length = start.after pre := by
  rw [ofOffset, start_after, List.take_left]

theorem ofOffset_length (cs : List Char) : ofOffset cs cs.length = start.after cs := by
  rw [ofOffset, start_after, List.take_length]

theorem advance_of_ne {c : Char} (h : c ≠ '\n') (p : Position) : p.advance c = p.advance ' ' := by
  simp [advance, h]

end Position

namespace Token

/-! ## Layouts -/

/-- `Sited p cs ms a`: the answer `a` laid over the text `cs`, whose first character stands at `p`
and whose blanked-out characters are marked in `ms`. A lexeme covers no marked character. -/
inductive Sited : Position → List Char → List Bool → Except LexError (List Lexeme) → Prop where
  | ends {p : Position} : Sited p [] [] (.ok [⟨.endOfInput, "", p⟩])
  | unexpected {p : Position} {c : Char} {cs : List Char} {ms : List Bool} :
      Sited p (c :: cs) ms (.error (.unexpectedCharacter c p))
  | unterminated {p : Position} {cs : List Char} {ms : List Bool} :
      Sited p cs ms (.error (.unterminatedString (p.after cs)))
  | skip {p : Position} {c : Char} {cs : List Char} {m : Bool} {ms : List Bool}
      {a : Except LexError (List Lexeme)} :
      Sited (p.advance c) cs ms a → Sited p (c :: cs) (m :: ms) a
  | token {p : Position} {t : Token} (text : List Char) {cs : List Char} {ms : List Bool}
      {a : Except LexError (List Lexeme)} : text ≠ [] → Sited (p.after text) cs ms a →
      Sited p (text ++ cs) (List.replicate text.length false ++ ms)
        (a.map (⟨t, String.ofList text, p⟩ :: ·))

/-- Where a lexeme stands in a text with the given characters blanked out. -/
structure StandsAt (cs : List Char) (ms : List Bool) (l : Lexeme) (o : Nat) : Prop where
  position : l.position = .ofOffset cs o
  text : l.text.toList <+: cs.drop o
  unblanked : List.replicate l.text.length false <+: ms.drop o

/-- One lexeme ends before the next one starts. -/
def Before (s s' : Lexeme × Nat) : Prop := s.2 < s'.2 ∧ s.2 + s.1.text.length ≤ s'.2

/-- The answer has offsets in the text, from `o` on. -/
def Placed (cs : List Char) (ms : List Bool) (o : Nat) : Except LexError (List Lexeme) → Prop
  | .ok ts => ∃ sites : List (Lexeme × Nat), sites.map Prod.fst = ts ∧
      (∀ s ∈ sites, o ≤ s.2 ∧ StandsAt cs ms s.1 s.2) ∧ sites.Pairwise Before ∧
      ∃ l, l.token = .endOfInput ∧ sites.getLast? = some (l, cs.length)
  | .error (.unexpectedCharacter c p) => ∃ o', cs[o']? = some c ∧ p = .ofOffset cs o'
  | .error (.unterminatedString p) => p = .ofOffset cs cs.length

theorem Placed.skip {cs : List Char} {ms : List Bool} {o : Nat}
    {a : Except LexError (List Lexeme)} (h : Placed cs ms (o + 1) a) : Placed cs ms o a := by
  match a, h with
  | .ok ts, ⟨sites, hts, hsites, hlast⟩ =>
    exact ⟨sites, hts, fun s hs => ⟨Nat.le_of_succ_le (hsites s hs).1, (hsites s hs).2⟩, hlast⟩
  | .error (.unexpectedCharacter _ _), h => exact h
  | .error (.unterminatedString _), h => exact h

theorem Placed.token {cs : List Char} {ms : List Bool} {l : Lexeme} {o : Nat}
    {a : Except LexError (List Lexeme)} (hl : StandsAt cs ms l o) (hne : 0 < l.text.length)
    (h : Placed cs ms (o + l.text.length) a) : Placed cs ms o (a.map (l :: ·)) := by
  match a, h with
  | .ok ts, ⟨sites, hts, hsites, hbefore, e, he, hlast⟩ =>
    refine ⟨(l, o) :: sites, by simp [hts], ?_, ?_, e, he, ?_⟩
    · intro s hs
      cases hs with
      | head => exact ⟨Nat.le_refl o, hl⟩
      | tail _ hs => exact ⟨Nat.le_of_add_right_le (hsites s hs).1, (hsites s hs).2⟩
    · refine .cons ?_ hbefore
      intro s hs
      have hle := (hsites s hs).1
      exact ⟨by omega, hle⟩
    · rw [List.getLast?_cons, hlast]
      rfl
  | .error (.unexpectedCharacter _ _), h => exact h
  | .error (.unterminatedString _), h => exact h

/-- A layout over the rest of a text gives offsets in the whole of it. -/
theorem Sited.placed {p : Position} {cs : List Char} {ms : List Bool}
    {a : Except LexError (List Lexeme)} (h : Sited p cs ms a) (pre : List Char)
    (mpre : List Bool) (hp : p = Position.start.after pre) (hlen : mpre.length = pre.length) :
    Placed (pre ++ cs) (mpre ++ ms) pre.length a := by
  induction h generalizing pre mpre with
  | @ends p =>
    subst hp
    refine ⟨[(⟨.endOfInput, "", Position.start.after pre⟩, pre.length)], rfl, ?_,
      .cons (by simp) .nil, ⟨.endOfInput, "", Position.start.after pre⟩, rfl, by simp⟩
    intro s hs
    cases List.mem_singleton.1 hs
    exact ⟨Nat.le_refl _, (Position.ofOffset_append pre []).symm, List.nil_prefix, List.nil_prefix⟩
  | @unexpected p c cs ms =>
    exact ⟨pre.length, by simp, by rw [hp, Position.ofOffset_append]⟩
  | @unterminated p cs ms =>
    show _ = _
    rw [hp, ← Position.after_append, Position.ofOffset_length]
  | @skip p c cs m ms a _ ih =>
    have hstep := ih (pre ++ [c]) (mpre ++ [m]) (by simp [hp, Position.after_append])
      (by simp [hlen])
    simp only [List.append_assoc, List.singleton_append, List.length_append,
      List.length_singleton] at hstep
    exact hstep.skip
  | @token p t text cs ms a hne _ ih =>
    have hstep := ih (pre ++ text) (mpre ++ List.replicate text.length false)
      (by simp [hp, Position.after_append]) (by simp [hlen])
    simp only [List.append_assoc, List.length_append] at hstep
    have hwidth : (String.ofList text).length = text.length := String.length_ofList
    refine Placed.token ⟨?_, ?_, ?_⟩ ?_ ?_
    · rw [Position.ofOffset_append]
      exact hp
    · simp
    · rw [← hlen, List.drop_left]
      simp only [hwidth]
      exact List.prefix_append _ _
    · simpa only [hwidth] using List.length_pos_iff.2 hne
    · simpa only [hwidth] using hstep

/-! ## The scanner's answers -/

theorem scan_spaces (n : Nat) (p : Position) (cs : List Char) :
    scan p (List.replicate n ' ' ++ cs) = scan (p.after (List.replicate n ' ')) cs := by
  induction n generalizing p with
  | zero => rfl
  | succ n ih =>
    rw [List.replicate_succ, List.cons_append, scan_blank rfl, ih]
    rfl

theorem scan_newline (p : Position) (cs : List Char) : scan p ('\n' :: cs) =
    (scan (p.advance '\n') cs).map (⟨.newline, "\n", p⟩ :: ·) :=
  @scan_token '\n' [] cs .newline rfl rfl p

theorem after_spaces {gone : List Char} (h : '\n' ∉ gone) (p : Position) :
    p.after (List.replicate gone.length ' ') = p.after gone := by
  induction gone generalizing p with
  | nil => rfl
  | cons c gone ih =>
    obtain ⟨hc, hgone⟩ := List.ne_and_not_mem_of_not_mem_cons h
    rw [List.length_cons, List.replicate_succ, Position.after_cons, Position.after_cons,
      ih hgone, Position.advance_of_ne (Ne.symm hc)]

theorem Sited.skips {gone cs : List Char} {ms : List Bool} {a : Except LexError (List Lexeme)}
    {p : Position} (m : Bool) (h : Sited (p.after gone) cs ms a) :
    Sited p (gone ++ cs) (List.replicate gone.length m ++ ms) a := by
  induction gone generalizing p with
  | nil => exact h
  | cons c gone ih => exact .skip (ih h)

section

variable {cs : List Char}
  (ih : ∀ rest p, rest.length ≤ cs.length →
    Sited p rest (Comment.blanksFrom .code rest) (scan p (Comment.blankFrom .code rest)))
include ih

/-- A string is laid over its own text, if what follows it can be laid. -/
theorem scan_quote_sited (p : Position) :
    Sited p ('"' :: cs) (false :: Comment.blanksFrom .literal cs)
      (scan p ('"' :: Comment.blankFrom .literal cs)) := by
  have hstart := start_string (Comment.blankFrom .literal cs)
  cases hread : literal (Comment.blankFrom .literal cs) with
  | none =>
    rw [hread] at hstart
    rw [scan_unterminated rfl hstart, Position.after_cons, Comment.after_blankFrom]
    exact .unterminated
  | some read =>
    obtain ⟨ds, n⟩ := read
    obtain ⟨text, rest, rfl, rfl, hblank, hblanks⟩ := literal_blankFrom hread
    rw [hread, hblank] at hstart
    rw [hblank, hblanks, scan_token rfl hstart]
    exact .token ('"' :: text) (by simp) (ih rest _ (by simp))

/-- Any other token is laid over its own text, and so is what stands there instead of a token. -/
theorem scan_plain_sited {c : Char} (hquote : c ≠ '"') (p : Position) :
    Sited p (c :: cs) (false :: Comment.blanksFrom .code cs)
      (scan p (c :: Comment.blankFrom .code cs)) := by
  cases hc : isBlank c with
  | true =>
    rw [scan_blank hc]
    exact .skip (ih cs _ (Nat.le_refl _))
  | false =>
    obtain ⟨t, text, rest, hsplit, hstart, hspells, -⟩ | ⟨hstart, -, -⟩ | ⟨-, hc', -⟩ :=
      start_cases c (Comment.blankFrom .code cs)
    · obtain ⟨cs', rfl, rfl, hmask⟩ := Comment.blankFrom_plain (hspells.plain hquote) hsplit
      rw [hsplit] at hstart ⊢
      rw [hmask, scan_token hc hstart]
      exact .token (c :: text) (by simp) (ih cs' _ (by simp))
    · rw [scan_unexpected hc hstart]
      exact .unexpected
    · exact absurd hc' hquote

end

theorem scan_sited {r : Comment.Region} (hr : r ≠ .literal) (p : Position) (cs : List Char) :
    Sited p cs (Comment.blanksFrom r cs) (scan p (Comment.blankFrom r cs)) := by
  -- The two scanners take different strides; what they share is that less text is left.
  induction hn : cs.length using Nat.strong_induction_on generalizing r p cs with
  | _ n ih =>
  cases cs with
  | nil =>
    rw [Comment.blanksFrom, Comment.blankFrom, scan_nil]
    exact .ends
  | cons c cs =>
    have hcode : ∀ rest p, rest.length ≤ cs.length → Sited p rest
        (Comment.blanksFrom .code rest) (scan p (Comment.blankFrom .code rest)) := by
      intro rest p hle
      have hlt : rest.length < n := by
        simp only [← hn, List.length_cons]
        omega
      exact ih rest.length hlt (by simp) p rest rfl
    have hstep := Comment.blankFrom_step hr c cs
    generalize hsource : c :: cs = source at hn hstep ⊢
    cases hstep with
    | comment gone rest r' hr' hgone hnewline hblank hblanks =>
      rw [hblank, hblanks, scan_spaces, after_spaces hnewline]
      have hlt : rest.length < n := by
        have hpos := List.length_pos_iff.2 hgone
        simp only [← hn, List.length_append]
        omega
      exact .skips true (ih rest.length hlt hr' _ rest rfl)
    | newline cs r' _ hr' hblank hblanks =>
      rw [hblank, hblanks, scan_newline]
      exact .token ['\n'] (by simp) (ih cs.length (by simp [← hn]) hr' _ cs rfl)
    | quote cs hblank hblanks =>
      cases hsource
      rw [hblank, hblanks]
      exact scan_quote_sited hcode p
    | slash cs out hblank =>
      rw [hblank, scan_unexpected rfl rfl]
      exact .unexpected
    | plain c cs hquote hblank hblanks =>
      cases hsource
      rw [hblank, hblanks]
      exact scan_plain_sited hcode hquote p

/-- The places that lexemes and errors name are those of the script as it was written. Each lexeme
has its own offset there, where its text stands and no character of it is blanked out; the offsets
leave room for the texts, and the end of input is after the last character. -/
theorem ofSource_positions (source : String) :
    Comment.strip source.toList = List.zipWith (fun gone c => if gone then ' ' else c)
      (Comment.blanks source.toList) source.toList ∧
    (∀ ts, ofSource source = .ok ts → ∃ sites : List (Lexeme × Nat), sites.map Prod.fst = ts ∧
      (∀ s ∈ sites, StandsAt source.toList (Comment.blanks source.toList) s.1 s.2) ∧
      sites.Pairwise Before ∧
      ∃ l, l.token = .endOfInput ∧ sites.getLast? = some (l, source.length)) ∧
    (∀ c p, ofSource source = .error (.unexpectedCharacter c p) →
      ∃ o, source.toList[o]? = some c ∧ p = .ofOffset source.toList o) ∧
    (∀ p, ofSource source = .error (.unterminatedString p) →
      p = .ofOffset source.toList source.length) := by
  have hplaced : Placed source.toList (Comment.blanks source.toList) 0 (ofSource source) :=
    (scan_sited (r := .code) (by simp) .start source.toList).placed [] [] rfl rfl
  refine ⟨Comment.blankFrom_eq_zipWith .code source.toList, ?_, ?_, ?_⟩
  · intro ts hts
    rw [hts] at hplaced
    obtain ⟨sites, hmap, hsites, hbefore, l, hl, hlast⟩ := hplaced
    rw [String.length_toList] at hlast
    exact ⟨sites, hmap, fun s hs => (hsites s hs).2, hbefore, l, hl, hlast⟩
  · intro c p herror
    rw [herror] at hplaced
    exact hplaced
  · intro p herror
    rw [herror] at hplaced
    rw [← String.length_toList]
    exact hplaced

/-- A comment and a string that each go over two lines, and errors after them. -/
theorem positions_past_comment_and_string :
    let source := "/*\"\n*/\"//\n\" x"
    let sites : List (Lexeme × Nat) := [(⟨.newline, "\n", ⟨1, 4⟩⟩, 3),
      (⟨.string "//\n", "\"//\n\"", ⟨2, 3⟩⟩, 6), (⟨.identifier "x", "x", ⟨3, 3⟩⟩, 12),
      (⟨.endOfInput, "", ⟨3, 4⟩⟩, 13)]
    (ofSource source = .ok (sites.map Prod.fst) ∧
      (∀ s ∈ sites, StandsAt source.toList (Comment.blanks source.toList) s.1 s.2) ∧
      sites.Pairwise Before) ∧
    (ofSource "/*\n*/\"//\n\" !" = .error (.unexpectedCharacter '!' ⟨3, 3⟩) ∧
      ∃ o, "/*\n*/\"//\n\" !".toList[o]? = some '!' ∧
        ⟨3, 3⟩ = Position.ofOffset "/*\n*/\"//\n\" !".toList o) ∧
    (ofSource "/*\n*/\"//\n" = .error (.unterminatedString ⟨3, 1⟩) ∧
      ⟨3, 1⟩ = Position.ofOffset "/*\n*/\"//\n".toList "/*\n*/\"//\n".length) := by
  intro source sites
  have hread : ofSource "/*\"\n*/\"//\n\" x" = .ok [⟨.newline, "\n", ⟨1, 4⟩⟩,
      ⟨.string "//\n", "\"//\n\"", ⟨2, 3⟩⟩, ⟨.identifier "x", "x", ⟨3, 3⟩⟩,
      ⟨.endOfInput, "", ⟨3, 4⟩⟩] := by
    with_unfolding_all rfl
  have hmark : ofSource "/*\n*/\"//\n\" !" = .error (.unexpectedCharacter '!' ⟨3, 3⟩) := by
    with_unfolding_all rfl
  have hopen : ofSource "/*\n*/\"//\n" = .error (.unterminatedString ⟨3, 1⟩) := by
    with_unfolding_all rfl
  refine ⟨⟨hread, ?_⟩, ⟨hmark, (ofSource_positions _).2.2.1 _ _ hmark⟩,
    hopen, (ofSource_positions _).2.2.2 _ hopen⟩
  obtain ⟨found, hmap, hstands, hbefore, l, -, hlast⟩ := (ofSource_positions _).2.1 _ hread
  -- The last offset is known, it bounds the others, and their places leave one choice for each.
  have hoffset : ∀ o < 13, (⟨1, 4⟩ = Position.ofOffset source.toList o → o = 3) ∧
      (⟨2, 3⟩ = Position.ofOffset source.toList o → o = 6) ∧
      (⟨3, 3⟩ = Position.ofOffset source.toList o → o = 12) := by
    decide
  obtain ⟨⟨_, o₀⟩, _, rfl, rfl, hmap₁⟩ := List.map_eq_cons_iff.1 hmap
  obtain ⟨⟨_, o₁⟩, _, rfl, rfl, hmap₂⟩ := List.map_eq_cons_iff.1 hmap₁
  obtain ⟨⟨_, o₂⟩, _, rfl, rfl, hmap₃⟩ := List.map_eq_cons_iff.1 hmap₂
  obtain ⟨⟨_, o₃⟩, _, rfl, rfl, hmap₄⟩ := List.map_eq_cons_iff.1 hmap₃
  obtain rfl := List.map_eq_nil_iff.1 hmap₄
  have hend : o₃ = 13 := congrArg Prod.snd (Option.some.inj hlast)
  subst hend
  have hordered := hbefore
  have hplaces := hstands
  simp only [List.pairwise_cons, List.forall_mem_cons] at hordered hplaces
  obtain ⟨⟨-, -, ⟨h₀, -⟩, -⟩, ⟨-, ⟨h₁, -⟩, -⟩, ⟨⟨h₂, -⟩, -⟩, -⟩ := hordered
  obtain ⟨hs₀, hs₁, hs₂, -⟩ := hplaces
  obtain rfl := (hoffset o₀ h₀).1 hs₀.position
  obtain rfl := (hoffset o₁ h₁).2.1 hs₁.position
  obtain rfl := (hoffset o₂ h₂).2.2 hs₂.position
  exact ⟨hstands, hbefore⟩

end Token
end EchoScript
