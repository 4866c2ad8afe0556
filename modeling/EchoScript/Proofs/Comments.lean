import EchoScript.Proofs.Spacing
import Mathlib.Data.List.Forall2

/-!
# EchoScript.Proofs.Comments

What blanking out leaves of comments: nothing but blanks, each in its place.

* `blankFrom_keeps`      — a character stays, or it becomes a space and was no line break.
* `blanksFrom_blankFrom` — a blanked text has nothing left to blank out, so that blanking it out
  again changes nothing.
* `strip_block`, `strip_line` — a comment may be replaced by the spaces and line breaks that it
  leaves.
-/

namespace EchoScript

namespace Comment

/-! ## Character by character -/

/-- What may become of a character. -/
def Keeps (c d : Char) : Prop := d = c ∨ (c ≠ '\n' ∧ d = ' ')

@[simp]
theorem keeps_self (c : Char) : Keeps c c := .inl rfl

@[simp]
theorem keeps_space {c : Char} (h : c ≠ '\n') : Keeps c ' ' := .inr ⟨h, rfl⟩

theorem Keeps.eq {c d : Char} (h : Keeps c d) (hd : d ≠ ' ') : c = d := by
  obtain h | h := h
  · exact h.symm
  · exact absurd h.2 hd

theorem keeps_blank (c : Char) : Keeps c (blank c) := by
  unfold blank
  by_cases hc : c = '\n' <;> simp [hc]

theorem blankFrom_keeps (r : Region) (cs : List Char) : List.Forall₂ Keeps cs (blankFrom r cs) := by
  induction r, cs using blankFrom.induct with
  | _ => simp_all [blankFrom, keeps_blank]

theorem closes_cons {cs : List Char} (c : Char) (h : closes cs = true) :
    closes (c :: cs) = true := by
  rw [closes.eq_def]
  split
  · contradiction
  · rfl
  · simp_all

theorem keeps_getElem? {cs ds : List Char} (h : List.Forall₂ Keeps cs ds) (i : Nat) :
    ds[i]? = cs[i]? ∨ ∃ c, cs[i]? = some c ∧ c ≠ '\n' ∧ ds[i]? = some ' ' := by
  induction h generalizing i with
  | nil => exact .inl rfl
  | @cons c d cs ds hc _ ih =>
    cases i with
    | zero =>
      obtain rfl | ⟨hne, rfl⟩ := hc
      · exact .inl rfl
      · exact .inr ⟨c, rfl, hne, rfl⟩
    | succ i => simpa using ih i

/-- Blanking out makes no end mark. -/
theorem closes_of_keeps {cs ds : List Char} (h : List.Forall₂ Keeps cs ds)
    (hcloses : closes ds = true) : closes cs = true := by
  induction ds using closes.induct generalizing cs with
  | case1 => cases hcloses
  | case2 ds =>
    obtain ⟨c, cs, hc, hcs, rfl⟩ := List.forall₂_cons_right_iff.1 h
    obtain ⟨c', cs, hc', hcs, rfl⟩ := List.forall₂_cons_right_iff.1 hcs
    rw [hc.eq (by decide), hc'.eq (by decide), closes]
  | case3 d ds hopen ih =>
    obtain ⟨c, cs, -, hcs, rfl⟩ := List.forall₂_cons_right_iff.1 h
    rw [closes] at hcloses
    · exact closes_cons c (ih hcs hcloses)
    · exact hopen

/-- A mark at the start of a blanked text stood there before. -/
theorem eq_cons_of_blankFrom {r : Region} {cs ds : List Char} {d : Char} (hd : d ≠ ' ')
    (h : blankFrom r cs = d :: ds) : ∃ x, cs = d :: x := by
  have hkeeps := blankFrom_keeps r cs
  rw [h] at hkeeps
  obtain ⟨c, cs, hc, -, rfl⟩ := List.forall₂_cons_right_iff.1 hkeeps
  exact ⟨cs, by rw [hc.eq hd]⟩

/-! ## Blanking out twice -/

/-- Where a character stands once comments are blanked out. -/
@[simp]
def Region.blanked : Region → Region
  | .literal => .literal
  | _ => .code

theorem blanksFrom_blank (c : Char) (cs : List Char) :
    blanksFrom .code (blank c :: cs) = false :: blanksFrom .code cs := by
  unfold blank
  split <;> simp [blanksFrom]

/-- A blanked text has nothing left to blank out. -/
theorem blanksFrom_blankFrom (r : Region) (cs : List Char) :
    true ∉ blanksFrom r.blanked (blankFrom r cs) := by
  induction r, cs using blankFrom.induct with
  | case4 cs hopen ih =>
    -- A block comment that is not closed stays open: the rest of the text gains no end mark.
    have hstill : closes (blankFrom .code cs) ≠ true := fun h =>
      hopen (closes_of_keeps (blankFrom_keeps .code cs) h)
    simpa [blankFrom, blanksFrom, hopen, hstill] using ih
  | case6 c cs hline hblock hquote ih =>
    -- A single slash stays single.
    have hnext : ∀ d ds, d ≠ ' ' → (∀ x, c = '/' → cs ≠ d :: x) → c = '/' →
        blankFrom .code cs ≠ d :: ds := by
      intro d ds hd hcs hc hblank
      obtain ⟨x, hx⟩ := eq_cons_of_blankFrom hd hblank
      exact hcs x hc hx
    have hkept : blankFrom .code (c :: cs) = c :: blankFrom .code cs := by simp [blankFrom]
    rw [hkept, Region.blanked, blanksFrom]
    · simpa using ih
    · exact fun x => hnext '/' x (by decide) hline
    · exact fun x => hnext '*' x (by decide) hblock
    · exact hquote
    · simp
  | case8 c cs hopen ih =>
    rw [blankFrom, Region.blanked, blanksFrom_blank]
    · simpa using ih
    · simp
    · exact hopen
  | case13 c cs hescape hquote ih =>
    have hkept : blankFrom .literal (c :: cs) = c :: blankFrom .literal cs := by
      simp [blankFrom]
    rw [hkept, Region.blanked, blanksFrom]
    · simpa using ih
    · rintro d ds rfl hblank
      cases cs with
      | nil => cases hblank
      | cons e es => exact hescape e es rfl rfl
    · exact hquote
  | _ => simp_all [blankFrom, blanksFrom]

theorem blankFrom_eq_self {r : Region} {cs : List Char} (h : true ∉ blanksFrom r cs) :
    blankFrom r cs = cs := by
  induction r, cs using blankFrom.induct with
  | _ => simp_all [blankFrom, blanksFrom, blank]

/-- Blanking out keeps every character in its place or puts a space there, but not for a line break.
It leaves no comment, so that blanking out again changes nothing. -/
theorem strip_blanks_in_place (cs : List Char) :
    (strip cs).length = cs.length ∧
    (∀ i : Nat, (strip cs)[i]? = cs[i]? ∨
      ∃ c, cs[i]? = some c ∧ c ≠ '\n' ∧ (strip cs)[i]? = some ' ') ∧
    (∀ i : Nat, (strip cs)[i]? = some '\n' ↔ cs[i]? = some '\n') ∧
    true ∉ blanks (strip cs) ∧ strip (strip cs) = strip cs := by
  have hkeeps := blankFrom_keeps .code cs
  have hplain := blanksFrom_blankFrom .code cs
  refine ⟨hkeeps.length_eq.symm, keeps_getElem? hkeeps, ?_, hplain, blankFrom_eq_self hplain⟩
  intro i
  obtain hsame | ⟨c, hc, hne, hspace⟩ := keeps_getElem? hkeeps i
  · rw [strip, hsame]
  · simp [strip, hc, hne, hspace]

/-! ## Comments and their blanks -/

theorem strip_blanks {gone : List Char} (h : ∀ c ∈ gone, c = ' ' ∨ c = '\n') (cs : List Char) :
    strip (gone ++ cs) = gone ++ strip cs := by
  refine blankFrom_code_plains ?_ cs
  intro c hc
  obtain rfl | rfl := h c hc <;> decide

/-- A line comment goes up to the end of its line. -/
theorem blankFrom_line_end {body : List Char} (h : '\n' ∉ body) (cs : List Char) :
    blankFrom .line (body ++ '\n' :: cs) =
      List.replicate body.length ' ' ++ '\n' :: blankFrom .code cs := by
  induction body with
  | nil => simp [blankFrom]
  | cons c body ih =>
    obtain ⟨hc, hbody⟩ : '\n' ≠ c ∧ '\n' ∉ body := by simpa using h
    rw [List.cons_append, blankFrom, if_neg hc.symm, ih hbody]
    rfl

theorem strip_block {body : List Char} (h : ¬ ['*', '/'] <:+: body) (cs : List Char) :
    strip (['/', '*'] ++ body ++ ['*', '/'] ++ cs) =
      strip ((['/', '*'] ++ body ++ ['*', '/']).map blank ++ cs) := by
  have hblanks : ∀ c ∈ (['/', '*'] ++ body ++ ['*', '/']).map blank, c = ' ' ∨ c = '\n' := by
    intro c hc
    obtain ⟨d, -, rfl⟩ := List.mem_map.1 hc
    unfold blank
    split <;> simp
  rw [strip_blanks hblanks, strip, blankFrom_comment h, strip]

theorem strip_line {body : List Char} (h : '\n' ∉ body) (cs : List Char) :
    strip (['/', '/'] ++ body ++ '\n' :: cs) =
      strip (List.replicate (body.length + 2) ' ' ++ '\n' :: cs) := by
  have hblanks : ∀ c ∈ List.replicate (body.length + 2) ' ' ++ ['\n'], c = ' ' ∨ c = '\n' := by
    simp
  have hskip := strip_blanks hblanks cs
  rw [List.append_assoc, List.singleton_append] at hskip
  rw [hskip]
  simp [strip, blankFrom, blankFrom_line_end h, List.replicate_succ]

end Comment

namespace Token

/-- Behind a text that is read and does not end in a line comment, a comment is read as the spaces
and line breaks that it leaves: the lexemes, their places and the errors are the same. -/
theorem ofSource_comment_as_blanks (a b : String) (ha : ∃ ts, ofSource a = .ok ts)
    (hopen : Comment.strip (a ++ "x").toList = Comment.strip a.toList ++ ['x']) :
    (∀ c : String, ¬ ['*', '/'] <:+: c.toList →
      ofSource (a ++ "/*" ++ c ++ "*/" ++ b) =
        ofSource (a ++ ("/*" ++ c ++ "*/").map (fun x => if x = '\n' then '\n' else ' ') ++ b)) ∧
    (∀ d : String, '\n' ∉ d.toList →
      ofSource (a ++ "//" ++ d ++ "\n" ++ b) =
        ofSource (a ++ String.ofList (List.replicate (d.length + 2) ' ') ++ "\n" ++ b)) := by
  obtain ⟨ts, ha⟩ := ha
  rw [String.toList_append] at hopen
  have hbehind : ∀ {v w : String}, Comment.strip v.toList = Comment.strip w.toList →
      ofSource (a ++ v) = ofSource (a ++ w) := by
    intro v w h
    have happend := Comment.strip_append ha hopen
    rw [ofSource, ofSource, String.toList_append, String.toList_append, happend, happend, h]
  constructor
  · intro c hc
    have hblank : (fun x => if x = '\n' then '\n' else ' ') = Comment.blank := rfl
    have hstrip := Comment.strip_block hc b.toList
    rw [hblank]
    simp only [String.append_assoc]
    refine hbehind ?_
    simpa [String.toList_map] using hstrip
  · intro d hd
    have hstrip := Comment.strip_line hd b.toList
    simp only [String.append_assoc]
    refine hbehind ?_
    simpa [String.length_toList] using hstrip

/-- Comments with quotes, stars and comment marks in them, before a string that is not closed. -/
theorem ofSource_comment_before_open_string :
    (∃ ts, ofSource "echo 1" = .ok ts) ∧
    Comment.strip ("echo 1" ++ "x").toList = Comment.strip "echo 1".toList ++ ['x'] ∧
    ¬ ['*', '/'] <:+: "/\"\n**".toList ∧ '\n' ∉ "/*\"".toList ∧
    ofSource ("echo 1" ++ "/*" ++ "/\"\n**" ++ "*/" ++ "\"") =
      ofSource ("echo 1" ++
        ("/*" ++ "/\"\n**" ++ "*/").map (fun x => if x = '\n' then '\n' else ' ') ++ "\"") ∧
    ofSource ("echo 1" ++ "//" ++ "/*\"" ++ "\n" ++ "\"") =
      ofSource ("echo 1" ++ String.ofList (List.replicate ("/*\"".length + 2) ' ') ++ "\n" ++
        "\"") := by
  have ha : ∃ ts, ofSource "echo 1" = .ok ts := by
    refine ⟨[⟨.echo, "echo", ⟨1, 1⟩⟩, ⟨.number (Number.ofDecimal false ⟨1, 0⟩), "1", ⟨1, 6⟩⟩,
      ⟨.endOfInput, "", ⟨1, 7⟩⟩], ?_⟩
    with_unfolding_all rfl
  have hopen : Comment.strip ("echo 1" ++ "x").toList = Comment.strip "echo 1".toList ++ ['x'] := by
    with_unfolding_all rfl
  have hblock : ¬ ['*', '/'] <:+: "/\"\n**".toList := by decide
  have hline : '\n' ∉ "/*\"".toList := by decide
  obtain ⟨hcomment, hend⟩ := ofSource_comment_as_blanks "echo 1" "\"" ha hopen
  exact ⟨ha, hopen, hblock, hline, hcomment _ hblock, hend _ hline⟩

end Token
end EchoScript
