import EchoScript.Proofs.Spelling

/-!
# EchoScript.Proofs.Blanking

How blanking out comments and scanning tokens keep step.

* `blanksFrom`        — which characters of a text are blanked out.
* `blankFrom_step`    — what blanking does to the start of a text outside a string.
* `blankFrom_plain`   — a token without spaces, slashes and quotes was not touched.
* `literal_blankFrom` — blanking and scanning agree on where a string ends.
-/

namespace EchoScript

namespace Comment

/-- Which characters of a text are blanked out, for a text whose first character stands in the given
region. The line breaks of a comment are not. -/
def blanksFrom : Region → List Char → List Bool
  | _, [] => []
  | .code, '/' :: '/' :: cs => true :: true :: blanksFrom .line cs
  | .code, '/' :: '*' :: cs =>
    if closes cs then true :: true :: blanksFrom .block cs
    else false :: false :: blanksFrom .code cs
  | .code, '"' :: cs => false :: blanksFrom .literal cs
  | .code, _ :: cs => false :: blanksFrom .code cs
  | .block, '*' :: '/' :: cs => true :: true :: blanksFrom .code cs
  | .block, c :: cs => (c != '\n') :: blanksFrom .block cs
  | .line, c :: cs =>
    if c = '\n' then false :: blanksFrom .code cs else true :: blanksFrom .line cs
  | .literal, '\\' :: _ :: cs => false :: false :: blanksFrom .literal cs
  | .literal, '"' :: cs => false :: blanksFrom .code cs
  | .literal, _ :: cs => false :: blanksFrom .literal cs

def blanks (cs : List Char) : List Bool := blanksFrom .code cs

theorem blankFrom_eq_zipWith (r : Region) (cs : List Char) :
    blankFrom r cs = List.zipWith (fun gone c => if gone then ' ' else c) (blanksFrom r cs) cs := by
  induction r, cs using blankFrom.induct with
  | _ => simp_all [blankFrom, blanksFrom, blank]

/-- What blanking does to the start of a text outside a string. -/
inductive Step (r : Region) : List Char → Prop where
  | comment (gone rest : List Char) (r' : Region) : r' ≠ .literal → gone ≠ [] → '\n' ∉ gone →
      blankFrom r (gone ++ rest) = List.replicate gone.length ' ' ++ blankFrom r' rest →
      blanksFrom r (gone ++ rest) = List.replicate gone.length true ++ blanksFrom r' rest →
      Step r (gone ++ rest)
  | newline (cs : List Char) (r' : Region) : r ≠ .code → r' ≠ .literal →
      blankFrom r ('\n' :: cs) = '\n' :: blankFrom r' cs →
      blanksFrom r ('\n' :: cs) = false :: blanksFrom r' cs → Step r ('\n' :: cs)
  | quote (cs : List Char) : blankFrom r ('"' :: cs) = '"' :: blankFrom .literal cs →
      blanksFrom r ('"' :: cs) = false :: blanksFrom .literal cs → Step r ('"' :: cs)
  | slash (cs out : List Char) : blankFrom r ('/' :: cs) = '/' :: out → Step r ('/' :: cs)
  | plain (c : Char) (cs : List Char) : c ≠ '"' → blankFrom r (c :: cs) = c :: blankFrom .code cs →
      blanksFrom r (c :: cs) = false :: blanksFrom .code cs → Step r (c :: cs)

theorem blankFrom_step {r : Region} (hr : r ≠ .literal) (c : Char) (cs : List Char) :
    Step r (c :: cs) := by
  generalize htext : c :: cs = text
  induction r, text using blankFrom.fun_cases with
  | case1 => cases htext
  | case2 cs =>
    refine .comment ['/', '/'] cs .line (by simp) (by simp) (by simp) ?_ ?_
    · simp [blankFrom]
    · simp [blanksFrom]
  | case3 cs hclosed =>
    refine .comment ['/', '*'] cs .block (by simp) (by simp) (by simp) ?_ ?_
    · simp [blankFrom, hclosed]
    · simp [blanksFrom, hclosed]
  | case4 cs hopen =>
    exact .slash _ ('*' :: blankFrom .code cs) (by simp [blankFrom, hopen])
  | case5 cs => exact .quote cs (by simp [blankFrom]) (by simp [blanksFrom])
  | case6 c cs hline hblock hquote =>
    by_cases hslash : c = '/'
    · subst hslash
      exact .slash cs (blankFrom .code cs) (by simp_all [blankFrom])
    · exact .plain c cs hquote (by simp [blankFrom]) (by simp [blanksFrom])
  | case7 cs =>
    refine .comment ['*', '/'] cs .code (by simp) (by simp) (by simp) ?_ ?_
    · simp [blankFrom]
    · simp [blanksFrom]
  | case8 c cs hopen =>
    by_cases hnewline : c = '\n'
    · subst hnewline
      exact .newline cs .block (by simp) (by simp) (by simp [blankFrom, blank])
        (by simp [blanksFrom])
    · refine .comment [c] cs .block (by simp) (by simp) (by simp [Ne.symm hnewline]) ?_ ?_
      · simp_all [blankFrom, blank]
      · simp_all [blanksFrom]
  | case9 cs =>
    exact .newline cs .code (by simp) (by simp) (by simp [blankFrom]) (by simp [blanksFrom])
  | case10 c cs hnewline =>
    refine .comment [c] cs .line (by simp) (by simp) (by simp [Ne.symm hnewline]) ?_ ?_
    · simp [blankFrom, hnewline]
    · simp [blanksFrom, hnewline]
  | case11 | case12 | case13 => exact absurd rfl hr

theorem after_blankFrom (p : Position) (r : Region) (cs : List Char) :
    p.after (blankFrom r cs) = p.after cs := by
  induction r, cs using blankFrom.induct generalizing p with
  | _ => simp_all [blankFrom, blank, Position.advance]

/-- A stretch of the blanked text that has no space, slash or quote was not touched. -/
theorem blankFrom_plain {text rest cs : List Char}
    (htext : ∀ c ∈ text, c ≠ ' ' ∧ c ≠ '/' ∧ c ≠ '"') (h : blankFrom .code cs = text ++ rest) :
    ∃ cs', cs = text ++ cs' ∧ rest = blankFrom .code cs' ∧
      blanksFrom .code cs = List.replicate text.length false ++ blanksFrom .code cs' := by
  induction text generalizing cs with
  | nil => exact ⟨cs, rfl, h.symm, rfl⟩
  | cons c text ih =>
    obtain ⟨⟨hspace, hslash, hquote⟩, htail⟩ := List.forall_mem_cons.1 htext
    cases cs with
    | nil => cases h
    | cons d cs =>
      have hstep := blankFrom_step (r := .code) (by simp) d cs
      generalize d :: cs = source at h hstep ⊢
      cases hstep with
      | comment gone rest' r' _ hgone _ hblank _ =>
        cases gone with
        | nil => exact absurd rfl hgone
        | cons g gone =>
          rw [hblank] at h
          exact absurd (List.cons.inj h).1.symm hspace
      | newline cs r' hcode _ _ _ => exact absurd rfl hcode
      | quote cs hblank _ =>
        rw [hblank] at h
        exact absurd (List.cons.inj h).1.symm hquote
      | slash cs out hblank =>
        rw [hblank] at h
        exact absurd (List.cons.inj h).1.symm hslash
      | plain c cs _ hblank hblanks =>
        rw [hblank, List.cons_append] at h
        obtain ⟨rfl, hrest⟩ := List.cons.inj h
        obtain ⟨cs', rfl, hrest, hmask⟩ := ih htail hrest
        exact ⟨cs', rfl, hrest, by rw [hblanks, hmask]; rfl⟩

end Comment

namespace Token

/-- Blanking and scanning agree on where a string ends. -/
theorem literal_blankFrom {cs ds : List Char} {n : Nat}
    (h : literal (Comment.blankFrom .literal cs) = some (ds, n)) :
    ∃ text rest, cs = text ++ rest ∧ n = text.length ∧
      Comment.blankFrom .literal cs = text ++ Comment.blankFrom .code rest ∧
      Comment.blanksFrom .literal cs =
        List.replicate text.length false ++ Comment.blanksFrom .code rest := by
  induction cs using literal_induction generalizing ds n with
  | nil => cases h
  | quote cs =>
    rw [Comment.blankFrom, literal] at h
    cases h
    exact ⟨['"'], cs, rfl, rfl, by simp [Comment.blankFrom], by simp [Comment.blanksFrom]⟩
  | escape c cs ih =>
    rw [Comment.blankFrom, literal] at h
    obtain ⟨⟨ds', m⟩, hds, heq⟩ := Option.map_eq_some_iff.1 h
    obtain ⟨text, rest, rfl, rfl, hblank, hblanks⟩ := ih hds
    cases heq
    exact ⟨'\\' :: c :: text, rest, rfl, rfl, by simp [Comment.blankFrom, hblank],
      by simp [Comment.blanksFrom, hblanks, List.replicate_succ]⟩
  | backslash => cases h
  | plain c cs hq hb ih =>
    have hstep : Comment.blankFrom .literal (c :: cs) = c :: Comment.blankFrom .literal cs := by
      simp [Comment.blankFrom, hb]
    rw [hstep, literal_plain hq hb] at h
    obtain ⟨⟨ds', m⟩, hds, heq⟩ := Option.map_eq_some_iff.1 h
    obtain ⟨text, rest, rfl, rfl, hblank, hblanks⟩ := ih hds
    cases heq
    exact ⟨c :: text, rest, rfl, rfl, by simp [hstep, hblank],
      by simp [Comment.blanksFrom, hb, hblanks, List.replicate_succ]⟩

end Token
end EchoScript
