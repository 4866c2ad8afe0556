import EchoScript.Proofs.Seams

/-!
# EchoScript.Proofs.Layout

Texts that are written token by token. `Renders cs ts` holds of a text without comments that spells
the tokens `ts` one after the other, with blanks between them or without, so that each spelling is
the longest at its place. Such a text is read as these tokens (`Renders.ofSource`).
-/

namespace EchoScript
namespace Token

/-! ## Spellings at their place -/

theorem start_mark {c : Char} {t : Token} (h : ofChar? c = some t) (cs : List Char) :
    start c cs = .token t 0 := by
  unfold ofChar? at h
  repeat' split at h
  all_goals cases h
  all_goals subst c; rfl

/-- A mark is one character, whatever follows. -/
theorem longest_mark {c : Char} {t : Token} (h : ofChar? c = some t) (rest : List Char) :
    Longest [c] rest := by
  intro pre t' hpre hprefix
  obtain ⟨u, n, hstart, hle⟩ := hpre.start_of_isPrefix hprefix
  rw [start_mark h] at hstart
  cases hstart
  exact hle

theorem Spells.ne_slash {c : Char} {text : List Char} {t : Token} (h : Spells (c :: text) t) :
    c ≠ '/' := by
  rintro rfl
  obtain ⟨u, n, hstart, -, -⟩ := h.start_le []
  cases hstart

/-- No token but a string holds comment marks, and in a string they are text. -/
theorem Spells.blankFrom {text : List Char} {t : Token} (h : Spells text t) (cs : List Char) :
    Comment.blankFrom .code (text ++ cs) = text ++ Comment.blankFrom .code cs := by
  obtain ⟨c, text, rfl⟩ := List.exists_cons_of_ne_nil h.ne_nil
  by_cases hquote : c = '"'
  · subst hquote
    obtain ⟨body, ds, rfl, hbody⟩ := h.quoted
    rw [List.cons_append, List.append_assoc, List.singleton_append, Comment.blankFrom,
      Comment.blankFrom_quoted hbody]
    simp
  · refine Comment.blankFrom_code_plains ?_ cs
    intro d hd
    rcases List.mem_cons.1 hd with rfl | hd
    · exact ⟨h.ne_slash, hquote⟩
    · exact (h.plain hquote d hd).2

theorem Munch.strip {cs rest : List Char} {ls : List Lexeme} (h : Munch cs ls rest)
    (hrest : rest = []) : Comment.strip cs = cs := by
  unfold Comment.strip
  induction h with
  | done => rw [hrest, Comment.blankFrom]
  | @blank c cs rest ls hc _ ih =>
    have hplain : c ≠ '/' ∧ c ≠ '"' := by
      constructor <;> rintro rfl <;> cases hc
    rw [Comment.blankFrom_code_plain hplain.1 hplain.2, ih hrest]
  | token hspells _ _ ih => rw [hspells.blankFrom, ih hrest]

/-! ## Texts that spell tokens -/

/-- The text spells the tokens from its start to its end. -/
def Renders (cs : List Char) (ts : List Token) : Prop :=
  ∃ ls, Munch cs ls [] ∧ ls.map Lexeme.token = ts

theorem Renders.nil : Renders [] [] := ⟨[], .done, rfl⟩

theorem Renders.blank {c : Char} {cs : List Char} {ts : List Token} (hc : isBlank c = true)
    (h : Renders cs ts) : Renders (c :: cs) ts := by
  obtain ⟨ls, hread, hts⟩ := h
  exact ⟨ls, .blank hc hread, hts⟩

theorem Renders.token {text cs : List Char} {t : Token} {ts : List Token} (ht : Spells text t)
    (hlong : Longest text cs) (h : Renders cs ts) : Renders (text ++ cs) (t :: ts) := by
  obtain ⟨ls, hread, rfl⟩ := h
  have htext : (String.ofList text).toList = text := String.toList_ofList
  refine ⟨⟨t, String.ofList text, .start⟩ :: ls, ?_, rfl⟩
  have hstep := @Munch.token ⟨t, String.ofList text, .start⟩ cs [] ls (by rwa [htext])
    (by rwa [htext]) hread
  rwa [htext] at hstep

theorem Renders.mark {c : Char} {cs : List Char} {t : Token} {ts : List Token}
    (hc : ofChar? c = some t) (h : Renders cs ts) : Renders (c :: cs) (t :: ts) :=
  h.token (ofChar?_spells hc) (longest_mark hc cs)

/-- A word or a number needs a seam behind it. -/
theorem Renders.word {text cs : List Char} {t : Token} {ts : List Token} (ht : Spells text t)
    (hseam : Seam cs) (h : Renders cs ts) : Renders (text ++ cs) (t :: ts) :=
  h.token ht (ht.longest hseam)

/-- A text that spells tokens is read as these tokens. -/
theorem Renders.ofSource {source : String} {ts : List Token} (h : Renders source.toList ts) :
    ∃ ls last, ofSource source = .ok (ls ++ [last]) ∧ last.token = .endOfInput ∧
      ls.map Lexeme.token = ts := by
  obtain ⟨ls, hread, rfl⟩ := h
  obtain ⟨ls', q, hscan, hsame⟩ := hread.scan_eq .start
  have htokens := congrArg (List.map Prod.fst) hsame
  simp only [List.map_map] at htokens
  refine ⟨ls', ⟨.endOfInput, "", q⟩, ?_, rfl, htokens⟩
  rw [Token.ofSource, hread.strip rfl, hscan, scan_nil]
  rfl

end Token
end EchoScript
