import EchoScript.Proofs.SourcePosition

/-!
# EchoScript.Proofs.Seams

What happens where one text ends and another begins.

* `Longest.append`  — a token that was the longest stays so, if what is put behind the text does not
  go on with words and numbers.
* `scan_append`     — a text that was read to its end is read the same way before such a text.
* `scan_settles`    — a text that was read to its end leaves the reader outside strings and block
  comments, so that blanking out goes on from there.
-/

namespace EchoScript

namespace Token

/-- No word or number goes on into the text. -/
def Seam (cs : List Char) : Prop := ∀ c ∈ cs.head?, ¬ IsLetter c ∧ ¬ IsDigit c ∧ c ≠ '.'

theorem seam_cons {c : Char} (hl : ¬ IsLetter c) (hd : ¬ IsDigit c) (hp : c ≠ '.')
    (cs : List Char) : Seam (c :: cs) := by
  intro d hd'
  obtain rfl : c = d := by simpa using hd'
  exact ⟨hl, hd, hp⟩

theorem seam_space (cs : List Char) : Seam (' ' :: cs) :=
  seam_cons (by decide) (by decide) (by decide) cs

theorem seam_newline (cs : List Char) : Seam ('\n' :: cs) :=
  seam_cons (by decide) (by decide) (by decide) cs

theorem Spells.quoted {text : List Char} {t : Token} (h : Spells ('"' :: text) t) :
    ∃ body ds, text = body ++ ['"'] ∧ Quoted body ds := by
  generalize hcs : '"' :: text = cs at h
  cases h with
  | string hbody =>
    cases hcs
    exact ⟨_, _, rfl, hbody⟩
  | echo | dollar | equals | openBracket | closeBracket | comma | dot | newline => cases hcs
  | identifier hc =>
    cases hcs
    exact absurd hc (by decide)
  | number hnum =>
    subst hcs
    exact absurd hnum.head (by decide)
  | negative => cases hcs

/-- A string ends at its closing quote, whatever follows. -/
theorem Spells.longest_string {text : List Char} {t : Token} (h : Spells ('"' :: text) t)
    (rest : List Char) : Longest ('"' :: text) rest := by
  obtain ⟨body, ds, rfl, hbody⟩ := h.quoted
  rintro pre t' hpre ⟨tail, htail⟩
  cases pre with
  | nil => exact Nat.zero_le _
  | cons c pre =>
    obtain ⟨rfl, hsame⟩ : c = '"' ∧ pre ++ tail = body ++ '"' :: rest := by simpa using htail
    obtain ⟨body', ds', rfl, hbody'⟩ := hpre.quoted
    rw [List.append_assoc, List.singleton_append] at hsame
    have hread := hbody.literal_eq rest
    have hread' := hbody'.literal_eq tail
    rw [hsame, hread] at hread'
    have hlen : body.length = body'.length := by
      simpa using congrArg (Option.map Prod.snd) hread'
    simp [hlen]

/-- The longest token of a text stays the longest before a seam. -/
theorem Longest.append {text rest more : List Char} {t : Token} (hlong : Longest text rest)
    (h : Spells text t) (hseam : Seam more) : Longest text (rest ++ more) := by
  obtain ⟨c, text, rfl⟩ := List.exists_cons_of_ne_nil h.ne_nil
  by_cases hc : c = '"'
  · subst hc
    exact h.longest_string _
  · intro pre t' hpre hprefix
    by_cases hle : pre.length ≤ (c :: text ++ rest).length
    · refine hlong pre t' hpre (List.prefix_of_prefix_length_le hprefix ?_ hle)
      rw [← List.append_assoc]
      exact List.prefix_append _ _
    · -- A longer token would take the first character behind the seam.
      obtain ⟨tail, rfl⟩ : c :: text ++ rest <+: pre := by
        refine List.prefix_of_prefix_length_le ?_ hprefix (by omega)
        rw [← List.append_assoc]
        exact List.prefix_append _ _
      rw [← List.append_assoc, List.prefix_append_right_inj] at hprefix
      cases tail with
      | nil => simp at hle
      | cons d tail =>
        obtain ⟨behind, rfl⟩ := hprefix
        have hd := hpre.tail_chars hc d (by simp)
        obtain ⟨hl, hg, hp⟩ := hseam d (by simp)
        tauto

theorem Spells.longest {text more : List Char} {t : Token} (h : Spells text t)
    (hseam : Seam more) : Longest text more := by
  have hself : Longest text [] := by
    intro pre t' _ hpre
    simpa using hpre.length_le
  simpa using hself.append h hseam

/-- A text that was read to its end is read the same way before a seam. -/
theorem scan_append {p : Position} {cs more : List Char} {ts : List Lexeme}
    (h : scan p cs = .ok ts) (hseam : Seam more) :
    ∃ ls, ts = ls ++ [⟨.endOfInput, "", p.after cs⟩] ∧
      scan p (cs ++ more) = (scan (p.after cs) more).map (ls ++ ·) := by
  refine scan_ok_induction (motive := fun p cs ts =>
    ∃ ls, ts = ls ++ [⟨.endOfInput, "", p.after cs⟩] ∧
      scan p (cs ++ more) = (scan (p.after cs) more).map (ls ++ ·)) ?nil ?blank ?token h
  case nil =>
    intro p
    refine ⟨[], rfl, ?_⟩
    rw [List.nil_append, Position.after_nil]
    cases scan p more <;> rfl
  case blank =>
    rintro p c cs ts hc ⟨ls, rfl, hscan⟩
    exact ⟨ls, rfl, by rw [List.cons_append, scan_blank hc, hscan, Position.after_cons]⟩
  case token =>
    rintro p c text rest t ts hc hspells hlong - ⟨ls, rfl, hscan⟩
    have hstart := hspells.start_eq (hlong.append hspells hseam)
    have hafter : p.after (c :: (text ++ rest)) = (p.after (c :: text)).after rest := by
      rw [← List.cons_append, Position.after_append]
    refine ⟨⟨t, String.ofList (c :: text), p⟩ :: ls, by rw [hafter]; rfl, ?_⟩
    rw [List.cons_append, List.append_assoc, scan_token hc hstart, hscan, hafter]
    cases scan ((p.after (c :: text)).after rest) more <;> rfl

end Token

namespace Comment

/-! ## Blanking out over a seam -/

theorem blankFrom_code_plain {c : Char} (hs : c ≠ '/') (hq : c ≠ '"') (cs : List Char) :
    blankFrom .code (c :: cs) = c :: blankFrom .code cs := by
  simp [blankFrom, hs]

theorem blankFrom_code_plains {text : List Char} (h : ∀ c ∈ text, c ≠ '/' ∧ c ≠ '"')
    (cs : List Char) : blankFrom .code (text ++ cs) = text ++ blankFrom .code cs := by
  induction text with
  | nil => rfl
  | cons c text ih =>
    obtain ⟨⟨hs, hq⟩, htext⟩ := List.forall_mem_cons.1 h
    rw [List.cons_append, blankFrom_code_plain hs hq, ih htext, List.cons_append]

theorem blankFrom_quoted {body ds : List Char} (h : Token.Quoted body ds) (cs : List Char) :
    blankFrom .literal (body ++ '"' :: cs) = body ++ '"' :: blankFrom .code cs := by
  induction h with
  | nil => simp [blankFrom]
  | plain hq hb _ ih => simp [blankFrom, hb, ih]
  | newline _ ih | carriageReturn _ ih | tab _ ih | other _ _ _ _ ih => simp [blankFrom, ih]

/-- The comment `gone` is blanked out, and behind it stands code. -/
def Skips (r : Region) (gone rest : List Char) : Prop :=
  ∀ more, blankFrom r (gone ++ (rest ++ more)) = gone.map blank ++ blankFrom .code (rest ++ more)

/-- A block comment that is closed ends at its first end mark. -/
theorem blankFrom_block {cs : List Char} (h : closes cs = true) :
    ∃ gone rest, cs = gone ++ rest ∧ gone ≠ [] ∧ Skips .block gone rest ∧
      ∀ more, closes (cs ++ more) = true := by
  induction cs using closes.induct with
  | case1 => cases h
  | case2 rest =>
    refine ⟨['*', '/'], rest, rfl, by simp, ?_, fun more => by simp [closes]⟩
    intro more
    simp [blankFrom, blank]
  | case3 c cs hopen ih =>
    rw [closes] at h
    · obtain ⟨gone, rest, rfl, hne, hskips, hcloses⟩ := ih h
      have hmark : ∀ more x, c = '*' → gone ++ more ≠ '/' :: x := by
        rintro more x rfl heq
        cases gone with
        | nil => exact hne rfl
        | cons g gone =>
          obtain ⟨rfl, -⟩ := List.cons.inj heq
          exact hopen _ rfl rfl
      refine ⟨c :: gone, rest, rfl, by simp, fun more => ?_, fun more => ?_⟩
      · rw [List.cons_append, blankFrom]
        · rw [hskips]; rfl
        · exact hmark _
      · rw [List.cons_append, closes]
        · exact hcloses more
        · rw [List.append_assoc]; exact hmark _
    · exact hopen

/-- A line comment goes on behind the text, or ends with its line. -/
theorem blankFrom_line (cs : List Char) :
    (∀ more, blankFrom .line (cs ++ more) = blankFrom .line cs ++ blankFrom .line more) ∨
    ∃ gone rest, cs = gone ++ rest ∧ Skips .line gone rest := by
  induction cs with
  | nil => exact .inl fun more => by simp [blankFrom]
  | cons c cs ih =>
    by_cases hc : c = '\n'
    · subst hc
      exact .inr ⟨['\n'], cs, rfl, fun more => by simp [blankFrom, blank]⟩
    · obtain hopen | ⟨gone, rest, rfl, hskips⟩ := ih
      · exact .inl fun more => by simp [blankFrom, hc, hopen]
      · refine .inr ⟨c :: gone, rest, rfl, fun more => ?_⟩
        rw [List.cons_append, blankFrom, if_neg hc, hskips]
        simp [blank, hc]

/-- What a slash starts: nothing, a line comment that goes on behind the text, or a comment. -/
theorem blankFrom_slash (cs : List Char) :
    (∃ out, blankFrom .code ('/' :: cs) = '/' :: out) ∨
    (∀ more, blankFrom .code ('/' :: cs ++ more) =
      blankFrom .code ('/' :: cs) ++ blankFrom .line more) ∨
    ∃ gone rest, cs = gone ++ rest ∧ Skips .code ('/' :: gone) rest := by
  match cs with
  | [] => exact .inl ⟨[], rfl⟩
  | c :: cs =>
    by_cases hline : c = '/'
    · subst hline
      obtain hopen | ⟨gone, rest, rfl, hskips⟩ := blankFrom_line cs
      · exact .inr (.inl fun more => by simp [blankFrom, hopen])
      · refine .inr (.inr ⟨'/' :: gone, rest, rfl, fun more => ?_⟩)
        simp [blankFrom, blank, hskips more]
    · by_cases hblock : c = '*'
      · subst hblock
        cases hclosed : closes cs with
        | true =>
          obtain ⟨gone, rest, rfl, -, hskips, hcloses⟩ := blankFrom_block hclosed
          refine .inr (.inr ⟨'*' :: gone, rest, rfl, fun more => ?_⟩)
          have hmore := hcloses more
          rw [List.append_assoc] at hmore
          simp [blankFrom, blank, hskips more, hmore]
        | false => exact .inl ⟨_, by rw [blankFrom, if_neg (by simp [hclosed])]⟩
      · exact .inl ⟨blankFrom .code (c :: cs), by rw [blankFrom] <;> simp_all⟩

/-- Behind the text stands code, or what is left of a line comment: blanking out goes on there,
whatever it is. -/
def Settles (cs : List Char) : Prop :=
  ∃ r, (r = .code ∨ r = .line) ∧
    ∀ more, blankFrom .code (cs ++ more) = blankFrom .code cs ++ blankFrom r more

theorem Settles.prepend {pre cs out : List Char}
    (hpre : ∀ more, blankFrom .code (pre ++ (cs ++ more)) = out ++ blankFrom .code (cs ++ more))
    (h : Settles cs) : Settles (pre ++ cs) := by
  obtain ⟨r, hr, hcs⟩ := h
  refine ⟨r, hr, fun more => ?_⟩
  have hnone := hpre []
  rw [List.append_nil] at hnone
  rw [List.append_assoc, hpre, hcs, hnone, List.append_assoc]

theorem literal_quoted {cs ds : List Char} {n : Nat}
    (h : Token.literal (blankFrom .literal cs) = some (ds, n)) :
    ∃ body rest, cs = body ++ '"' :: rest ∧ n = (body ++ ['"']).length ∧ Token.Quoted body ds := by
  obtain ⟨text, rest, rfl, hn, hblank, -⟩ := Token.literal_blankFrom h
  obtain ⟨body, tail, hbody, hn', hquoted⟩ := Token.literal_sound h
  have hsame : text ++ blankFrom .code rest = (body ++ ['"']) ++ tail := by
    rw [← hblank, hbody, List.append_assoc, List.singleton_append]
  obtain ⟨rfl, -⟩ := List.append_inj hsame (by simp [← hn, hn'])
  exact ⟨body, rest, by simp, hn, hquoted⟩

open Token (scan)

theorem scan_past_comment {gone cs : List Char} {p : Position} {ts : List Lexeme}
    (h : scan p (gone.map blank ++ cs) = .ok ts) : ∃ q us, scan q cs = .ok us := by
  induction gone generalizing p ts with
  | nil => exact ⟨p, ts, h⟩
  | cons c gone ih =>
    by_cases hc : c = '\n'
    · subst hc
      rw [List.map_cons, List.cons_append, blank, if_pos rfl, Token.scan_newline] at h
      cases hscan : scan (p.advance '\n') (gone.map blank ++ cs) with
      | error e => rw [hscan] at h; cases h
      | ok us => exact ih hscan
    · rw [List.map_cons, List.cons_append, blank, if_neg hc, Token.scan_blank rfl] at h
      exact ih h

theorem scan_past_token {c : Char} {text rest : List Char} {t : Token} {p : Position}
    {ts : List Lexeme} (hc : Token.isBlank c = false)
    (hstart : Token.start c (text ++ rest) = .token t text.length)
    (h : scan p (c :: (text ++ rest)) = .ok ts) : ∃ q us, scan q rest = .ok us := by
  rw [Token.scan_token hc hstart] at h
  cases hscan : scan (p.after (c :: text)) rest with
  | error e => rw [hscan] at h; cases h
  | ok us => exact ⟨_, us, hscan⟩

/-- A text that is read starts with a string, if it starts with a quote. -/
theorem scan_quote_piece {cs : List Char} {p : Position} {ts : List Lexeme}
    (h : scan p (blankFrom .code ('"' :: cs)) = .ok ts) :
    ∃ text rest, cs = text ++ rest ∧
      (∀ x, blankFrom .code ('"' :: text ++ x) = '"' :: text ++ blankFrom .code x) ∧
      ∃ q us, scan q (blankFrom .code rest) = .ok us := by
  rw [blankFrom] at h
  have hstart := Token.start_string (blankFrom .literal cs)
  cases hread : Token.literal (blankFrom .literal cs) with
  | none =>
    rw [hread] at hstart
    rw [Token.scan_unterminated rfl hstart] at h
    cases h
  | some read =>
    obtain ⟨ds, n⟩ := read
    obtain ⟨body, rest, rfl, rfl, hquoted⟩ := literal_quoted hread
    have hcut : ∀ x, blankFrom .literal (body ++ '"' :: x) = (body ++ ['"']) ++ blankFrom .code x := by
      intro x
      rw [blankFrom_quoted hquoted, List.append_assoc, List.singleton_append]
    rw [hread, hcut] at hstart
    rw [hcut] at h
    refine ⟨body ++ ['"'], rest, by simp, fun x => ?_, scan_past_token rfl hstart h⟩
    rw [List.cons_append, blankFrom, List.append_assoc, List.singleton_append, hcut,
      List.cons_append]

/-- A text that is read starts with a blank or a token without quotes and slashes, if it starts with
neither of these. -/
theorem scan_plain_piece {c : Char} {cs : List Char} {p : Position} {ts : List Lexeme}
    (hslash : c ≠ '/') (hquote : c ≠ '"') (h : scan p (blankFrom .code (c :: cs)) = .ok ts) :
    ∃ text rest, cs = text ++ rest ∧
      (∀ x, blankFrom .code (c :: text ++ x) = c :: text ++ blankFrom .code x) ∧
      ∃ q us, scan q (blankFrom .code rest) = .ok us := by
  rw [blankFrom_code_plain hslash hquote] at h
  cases hc : Token.isBlank c with
  | true =>
    rw [Token.scan_blank hc] at h
    exact ⟨[], cs, rfl, blankFrom_code_plain hslash hquote, _, ts, h⟩
  | false =>
    obtain ⟨t, text, rest, hsplit, hstart, hspells, -⟩ | ⟨hstart, -, -⟩ | ⟨-, hc', -⟩ :=
      Token.start_cases c (blankFrom .code cs)
    · have hplain := hspells.plain hquote
      obtain ⟨cs', rfl, rfl, -⟩ := blankFrom_plain hplain hsplit
      rw [hsplit] at hstart h
      refine ⟨text, cs', rfl, fun x => ?_, scan_past_token hc hstart h⟩
      refine blankFrom_code_plains ?_ x
      intro d hd
      obtain rfl | hd := List.mem_cons.1 hd
      · exact ⟨hslash, hquote⟩
      · exact (hplain d hd).2
    · rw [Token.scan_unexpected hc hstart] at h
      cases h
    · exact absurd hc' hquote

/-- A text that was read to its end settles: no string and no block comment is left open. -/
theorem scan_settles {p : Position} {cs : List Char} {ts : List Lexeme}
    (h : scan p (blankFrom .code cs) = .ok ts) : Settles cs := by
  -- Each piece at the start of the text is blanked out the same way whatever follows it.
  induction hn : cs.length using Nat.strong_induction_on generalizing p cs ts with
  | _ n ih =>
  cases cs with
  | nil => exact ⟨.code, .inl rfl, fun more => by simp [blankFrom]⟩
  | cons c cs =>
    have hrest : ∀ {rest q us}, rest.length ≤ cs.length →
        scan q (blankFrom .code rest) = .ok us → Settles rest := by
      intro rest q us hle hscan
      rw [List.length_cons] at hn
      exact ih rest.length (by omega) hscan rfl
    by_cases hslash : c = '/'
    · subst hslash
      obtain ⟨out, hout⟩ | hopen | ⟨gone, rest, rfl, hskips⟩ := blankFrom_slash cs
      · rw [hout, Token.scan_unexpected rfl rfl] at h
        cases h
      · exact ⟨.line, .inr rfl, hopen⟩
      · have hblank := hskips []
        rw [List.append_nil, List.cons_append] at hblank
        rw [hblank] at h
        obtain ⟨q, us, hscan⟩ := scan_past_comment h
        exact (hrest (by simp) hscan).prepend hskips
    · obtain ⟨text, rest, rfl, hpiece, q, us, hscan⟩ : ∃ text rest, cs = text ++ rest ∧
          (∀ x, blankFrom .code (c :: text ++ x) = c :: text ++ blankFrom .code x) ∧
          ∃ q us, scan q (blankFrom .code rest) = .ok us := by
        by_cases hquote : c = '"'
        · subst hquote
          exact scan_quote_piece h
        · exact scan_plain_piece hslash hquote h
      exact (hrest (by simp) hscan).prepend fun more => hpiece (rest ++ more)

end Comment
end EchoScript
