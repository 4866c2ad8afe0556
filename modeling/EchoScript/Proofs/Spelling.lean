import EchoScript.Token.Scan
import Mathlib.Data.List.TakeWhile
import Mathlib.Tactic.Tauto

/-!
# EchoScript.Proofs.Spelling

The token languages: which texts spell which token. `Token.start` is tied to them from both sides:

* `start_spells`   — a token that `start` finds is spelled by the characters that `start` takes;
* `Spells.start_le` — where a spelling stands, `start` finds a token at least as long.

The second is what makes `start` greedy: no spelling is longer than what it takes, and where it
takes nothing there is no spelling at all.
-/

namespace EchoScript

namespace Token

/-! ## The languages -/

def IsLetter (c : Char) : Prop := ('a' ≤ c ∧ c ≤ 'z') ∨ ('A' ≤ c ∧ c ≤ 'Z') ∨ c = '_'

def IsDigit (c : Char) : Prop := '0' ≤ c ∧ c ≤ '9'

instance (c : Char) : Decidable (IsLetter c) := inferInstanceAs (Decidable (_ ∨ _))

instance (c : Char) : Decidable (IsDigit c) := inferInstanceAs (Decidable (_ ∧ _))

/-- `Numeral cs d`: the text `cs` is a numeral without a sign, of value `d`. -/
inductive Numeral : List Char → Decimal → Prop where
  | whole {ds : List Char} : ds ≠ [] → (∀ d ∈ ds, IsDigit d) → Numeral ds (.ofDigits ds [])
  | fraction {ds es : List Char} : ds ≠ [] → (∀ d ∈ ds, IsDigit d) → es ≠ [] →
      (∀ e ∈ es, IsDigit e) → Numeral (ds ++ '.' :: es) (.ofDigits ds es)

/-- `Quoted cs ds`: written between quotes, `cs` stands for the text `ds`. -/
inductive Quoted : List Char → List Char → Prop where
  | nil : Quoted [] []
  | plain {c : Char} {cs ds : List Char} :
      c ≠ '"' → c ≠ '\\' → Quoted cs ds → Quoted (c :: cs) (c :: ds)
  | newline {cs ds : List Char} : Quoted cs ds → Quoted ('\\' :: 'n' :: cs) ('\n' :: ds)
  | carriageReturn {cs ds : List Char} : Quoted cs ds → Quoted ('\\' :: 'r' :: cs) ('\r' :: ds)
  | tab {cs ds : List Char} : Quoted cs ds → Quoted ('\\' :: 't' :: cs) ('\t' :: ds)
  | other {c : Char} {cs ds : List Char} :
      c ≠ 'n' → c ≠ 'r' → c ≠ 't' → Quoted cs ds → Quoted ('\\' :: c :: cs) (c :: ds)

/-- `Spells cs t`: the text `cs` is in the language of the kind of `t`, and `t` is what it stands
for. No text spells the end of input. -/
inductive Spells : List Char → Token → Prop where
  | echo : Spells ['e', 'c', 'h', 'o'] .echo
  | identifier {c : Char} {cs : List Char} : IsLetter c → (∀ d ∈ cs, IsLetter d ∨ IsDigit d) →
      c :: cs ≠ ['e', 'c', 'h', 'o'] → Spells (c :: cs) (.identifier (String.ofList (c :: cs)))
  | number {cs : List Char} {d : Decimal} :
      Numeral cs d → Spells cs (.number (Number.ofDecimal false d))
  | negative {cs : List Char} {d : Decimal} :
      Numeral cs d → Spells ('-' :: cs) (.number (Number.ofDecimal true d))
  | string {cs ds : List Char} :
      Quoted cs ds → Spells ('"' :: (cs ++ ['"'])) (.string (String.ofList ds))
  | dollar : Spells ['$'] .dollar
  | equals : Spells ['='] .equals
  | openBracket : Spells ['['] .openBracket
  | closeBracket : Spells [']'] .closeBracket
  | comma : Spells [','] .comma
  | dot : Spells ['.'] .dot
  | newline : Spells ['\n'] .newline

theorem Numeral.ne_nil {cs : List Char} {d : Decimal} (h : Numeral cs d) : cs ≠ [] := by
  cases h with
  | whole hne _ => exact hne
  | fraction hne _ _ _ => simp

theorem Spells.ne_nil {cs : List Char} {t : Token} (h : Spells cs t) : cs ≠ [] := by
  cases h with
  | number hd => exact hd.ne_nil
  | _ => simp

theorem Spells.ne_endOfInput {cs : List Char} {t : Token} (h : Spells cs t) :
    t ≠ .endOfInput := by
  cases h <;> simp

/-! ## Character classes -/

theorem isDigit_iff {c : Char} : c.isDigit = true ↔ IsDigit c := by
  simp [Char.isDigit, IsDigit, Char.le_def]

theorem isWordStart_iff {c : Char} : isWordStart c = true ↔ IsLetter c := by
  have hupper : c.isUpper = decide ('A'.val ≤ c.val ∧ c.val ≤ 'Z'.val) := rfl
  have hlower : c.isLower = (decide ('a'.val ≤ c.val) && decide (c.val ≤ 'z'.val)) := rfl
  have halpha : c.isAlpha = (c.isUpper || c.isLower) := rfl
  simp only [isWordStart, halpha, hupper, hlower, IsLetter, Char.le_def, Bool.or_eq_true,
    Bool.and_eq_true, decide_eq_true_eq]
  tauto

theorem isWordPart_iff {c : Char} : isWordPart c = true ↔ IsLetter c ∨ IsDigit c := by
  rw [← isWordStart_iff, ← isDigit_iff]
  simp only [isWordPart, isWordStart, Char.isAlphanum, Bool.or_eq_true]
  tauto

theorem IsDigit.not_letter {c : Char} (h : IsDigit c) : ¬ IsLetter c := by
  simp only [IsDigit, IsLetter, Char.le_def, UInt32.le_iff_toNat_le] at h ⊢
  rintro (⟨h', -⟩ | ⟨h', -⟩ | rfl)
  · exact absurd (h'.trans h.2) (by decide)
  · exact absurd (h'.trans h.2) (by decide)
  · exact absurd h.2 (by decide)

theorem IsDigit.ne_minus {c : Char} (h : IsDigit c) : c ≠ '-' := by
  rintro rfl
  exact absurd h.1 (by decide)

theorem echo_letters : IsLetter 'e' ∧ ∀ d ∈ ['c', 'h', 'o'], IsLetter d ∨ IsDigit d := by
  refine ⟨by decide, ?_⟩
  intro d hd
  simp only [List.mem_cons, List.not_mem_nil, or_false] at hd
  obtain rfl | rfl | rfl := hd
  all_goals decide

theorem Numeral.chars {cs : List Char} {d : Decimal} (h : Numeral cs d) :
    ∀ c ∈ cs, IsDigit c ∨ c = '.' := by
  intro c hc
  cases h with
  | whole _ hds => exact .inl (hds c hc)
  | fraction _ hds _ hes =>
    obtain hc | hc := List.mem_append.1 hc
    · exact .inl (hds c hc)
    · obtain rfl | hc := List.mem_cons.1 hc
      · exact .inr rfl
      · exact .inl (hes c hc)

/-- A token other than a string has only letters, digits and points after its first character. -/
theorem Spells.tail_chars {c : Char} {text : List Char} {t : Token} (h : Spells (c :: text) t)
    (hc : c ≠ '"') : ∀ d ∈ text, IsLetter d ∨ IsDigit d ∨ d = '.' := by
  intro d hd
  generalize htext : c :: text = cs at h
  cases h with
  | echo =>
    cases htext
    exact (echo_letters.2 d hd).imp_right .inl
  | identifier _ hcs _ =>
    cases htext
    exact (hcs d hd).imp_right .inl
  | number hnum => exact .inr (hnum.chars d (htext ▸ List.mem_cons_of_mem c hd))
  | negative hnum =>
    cases htext
    exact .inr (hnum.chars d hd)
  | string =>
    cases htext
    exact absurd rfl hc
  | dollar | equals | openBracket | closeBracket | comma | dot | newline =>
    cases htext
    cases hd

/-- A token other than a string has no space, slash or quote after its first character. -/
theorem Spells.plain {c : Char} {text : List Char} {t : Token} (h : Spells (c :: text) t)
    (hc : c ≠ '"') : ∀ d ∈ text, d ≠ ' ' ∧ d ≠ '/' ∧ d ≠ '"' := by
  intro d hd
  have hchar := h.tail_chars hc d hd
  refine ⟨?_, ?_, ?_⟩
  all_goals rintro rfl; revert hchar; decide

/-! ## Numbers -/

theorem takeWhile_isDigit (cs : List Char) : ∀ d ∈ cs.takeWhile Char.isDigit, IsDigit d :=
  fun _ hd => isDigit_iff.1 (List.mem_takeWhile_imp hd)

theorem takeWhile_digits {ds : List Char} (h : ∀ d ∈ ds, IsDigit d) (rest : List Char) :
    (ds ++ rest).takeWhile Char.isDigit = ds ++ rest.takeWhile Char.isDigit :=
  List.takeWhile_append_of_pos fun d hd => isDigit_iff.2 (h d hd)

theorem dropWhile_digits {ds : List Char} (h : ∀ d ∈ ds, IsDigit d) (rest : List Char) :
    (ds ++ rest).dropWhile Char.isDigit = rest.dropWhile Char.isDigit :=
  List.dropWhile_append_of_pos fun d hd => isDigit_iff.2 (h d hd)

theorem fractionDigits_cases (cs : List Char) : fractionDigits cs = [] ∨
    ∃ rest, cs = '.' :: (fractionDigits cs ++ rest) ∧ ∀ d ∈ fractionDigits cs, IsDigit d := by
  unfold fractionDigits
  split
  · rename_i cs
    exact .inr ⟨cs.dropWhile Char.isDigit, by rw [List.takeWhile_append_dropWhile],
      takeWhile_isDigit cs⟩
  · exact .inl rfl

theorem numeral?_sound {cs : List Char} {d : Decimal} {n : Nat} (h : numeral? cs = some (d, n)) :
    ∃ text rest, cs = text ++ rest ∧ n = text.length ∧ Numeral text d := by
  have hcs : cs.takeWhile Char.isDigit ++ cs.dropWhile Char.isDigit = cs :=
    List.takeWhile_append_dropWhile
  have hwhole := takeWhile_isDigit cs
  unfold numeral? at h
  simp only [List.isEmpty_iff] at h
  split at h
  · cases h
  · rename_i hne
    split at h
    · cases h
      exact ⟨_, _, hcs.symm, rfl, .whole hne hwhole⟩
    · rename_i hfrac
      cases h
      obtain hnil | ⟨rest, hrest, hdigits⟩ := fractionDigits_cases (cs.dropWhile Char.isDigit)
      · exact absurd hnil hfrac
      · refine ⟨_, rest, ?_, ?_, .fraction hne hwhole hfrac hdigits⟩
        · rw [List.append_assoc, List.cons_append, ← hrest, hcs]
        · simp only [List.length_append, List.length_cons]; omega

/-- Where a numeral stands, a numeral at least as long is read. -/
theorem Numeral.numeral?_le {cs : List Char} {d : Decimal} (h : Numeral cs d) (rest : List Char) :
    ∃ d' n, numeral? (cs ++ rest) = some (d', n) ∧ cs.length ≤ n ∧
      (rest = [] → d' = d ∧ n = cs.length) := by
  cases h with
  | whole hne hds =>
    unfold numeral?
    simp only [takeWhile_digits hds, dropWhile_digits hds, List.isEmpty_iff,
      List.append_eq_nil_iff, hne, false_and, if_false]
    split
    · refine ⟨_, _, rfl, by simp, ?_⟩
      rintro rfl
      simp
    · rename_i hfrac
      refine ⟨_, _, rfl, by simp only [List.length_append]; omega, ?_⟩
      rintro rfl
      exact absurd rfl hfrac
  | @fraction ds es hne hds hne' hes =>
    have hpoint : ('.' :: (es ++ rest)).takeWhile Char.isDigit = [] := rfl
    have hpoint' : ('.' :: (es ++ rest)).dropWhile Char.isDigit = '.' :: (es ++ rest) := rfl
    unfold numeral?
    simp only [List.append_assoc, List.cons_append, takeWhile_digits hds, dropWhile_digits hds,
      hpoint, hpoint', fractionDigits, takeWhile_digits hes, List.isEmpty_iff,
      List.append_eq_nil_iff, hne, hne', false_and, if_false]
    refine ⟨_, _, rfl, by simp only [List.length_append, List.length_cons]; omega, ?_⟩
    rintro rfl
    refine ⟨by simp, ?_⟩
    simp only [List.takeWhile_nil, List.append_nil, List.length_append, List.length_cons]
    omega

theorem Numeral.head {c : Char} {cs : List Char} {d : Decimal} (h : Numeral (c :: cs) d) :
    IsDigit c := by
  generalize htext : c :: cs = text at h
  cases h with
  | whole hne hds => exact hds c (htext ▸ List.mem_cons_self)
  | @fraction ds es hne hds _ _ =>
    cases ds with
    | nil => exact absurd rfl hne
    | cons c' ds =>
      cases htext
      exact hds c List.mem_cons_self

theorem number?_of_ne {c : Char} (hc : c ≠ '-') (cs : List Char) :
    number? (c :: cs) = (numeral? (c :: cs)).map fun (d, n) => (Number.ofDecimal false d, n) := by
  unfold number?
  split
  · rename_i heq
    cases heq
    exact absurd rfl hc
  · rfl

theorem number?_sound {cs : List Char} {x : Number} {n : Nat} (h : number? cs = some (x, n)) :
    ∃ text rest, cs = text ++ rest ∧ n = text.length ∧ Spells text (.number x) := by
  unfold number? at h
  split at h
  · obtain ⟨⟨d, m⟩, hd, heq⟩ := Option.map_eq_some_iff.1 h
    obtain ⟨text, rest, rfl, rfl, htext⟩ := numeral?_sound hd
    cases heq
    exact ⟨'-' :: text, rest, rfl, rfl, .negative htext⟩
  · obtain ⟨⟨d, m⟩, hd, heq⟩ := Option.map_eq_some_iff.1 h
    obtain ⟨text, rest, rfl, rfl, htext⟩ := numeral?_sound hd
    cases heq
    exact ⟨text, rest, rfl, rfl, .number htext⟩

/-! ## Strings -/

theorem Quoted.escape {cs ds : List Char} (c : Char) (h : Quoted cs ds) :
    Quoted ('\\' :: c :: cs) (unescape c :: ds) := by
  unfold unescape
  split
  · subst c; exact .newline h
  · split
    · subst c; exact .carriageReturn h
    · split
      · subst c; exact .tab h
      · exact .other ‹_› ‹_› ‹_› h

theorem literal_plain {c : Char} (hq : c ≠ '"') (hb : c ≠ '\\') (cs : List Char) :
    literal (c :: cs) = (literal cs).map fun (text, n) => (c :: text, n + 1) := by
  rw [literal]
  · exact hq
  · rintro _ _ rfl
    exact absurd rfl hb

/-- A string is read up to its closing quote, whatever follows. -/
theorem Quoted.literal_eq {cs ds : List Char} (h : Quoted cs ds) (rest : List Char) :
    literal (cs ++ '"' :: rest) = some (ds, cs.length + 1) := by
  induction h with
  | nil => rfl
  | plain hq hb _ ih => simp [literal_plain hq hb, ih]
  | newline _ ih => simp [literal, ih, unescape]
  | carriageReturn _ ih => simp [literal, ih, unescape]
  | tab _ ih => simp [literal, ih, unescape]
  | other hn hr ht _ ih => simp [literal, ih, unescape, hn, hr, ht]

/-- The cases of `literal`; a backslash that is the last character escapes nothing. -/
theorem literal_induction {motive : List Char → Prop} (nil : motive [])
    (quote : ∀ cs, motive ('"' :: cs))
    (escape : ∀ c cs, motive cs → motive ('\\' :: c :: cs)) (backslash : motive ['\\'])
    (plain : ∀ c cs, c ≠ '"' → c ≠ '\\' → motive cs → motive (c :: cs)) (cs : List Char) :
    motive cs := by
  induction cs using literal.induct with
  | case1 => exact nil
  | case2 cs => exact quote cs
  | case3 c cs ih => exact escape c cs ih
  | case4 c cs hq hb ih =>
    by_cases hc : c = '\\'
    · subst hc
      cases cs with
      | nil => exact backslash
      | cons c' cs => exact (hb c' cs rfl rfl).elim
    · exact plain c cs hq hc ih

theorem literal_sound {cs ds : List Char} {n : Nat} (h : literal cs = some (ds, n)) :
    ∃ body rest, cs = body ++ '"' :: rest ∧ n = body.length + 1 ∧ Quoted body ds := by
  induction cs using literal_induction generalizing ds n with
  | nil => cases h
  | quote rest =>
    cases h
    exact ⟨[], rest, rfl, rfl, .nil⟩
  | escape c cs ih =>
    rw [literal] at h
    obtain ⟨⟨ds', m⟩, hds, heq⟩ := Option.map_eq_some_iff.1 h
    obtain ⟨body, rest, rfl, rfl, hbody⟩ := ih hds
    cases heq
    exact ⟨'\\' :: c :: body, rest, rfl, rfl, hbody.escape c⟩
  | backslash => cases h
  | plain c cs hq hb ih =>
    rw [literal_plain hq hb] at h
    obtain ⟨⟨ds', m⟩, hds, heq⟩ := Option.map_eq_some_iff.1 h
    obtain ⟨body, rest, rfl, rfl, hbody⟩ := ih hds
    cases heq
    exact ⟨c :: body, rest, rfl, rfl, .plain hq hb hbody⟩

/-! ## The first token -/

theorem ofWord_spells {c : Char} {cs : List Char} (hc : IsLetter c)
    (hcs : ∀ d ∈ cs, IsLetter d ∨ IsDigit d) : Spells (c :: cs) (ofWord (c :: cs)) := by
  unfold ofWord
  split
  · rename_i h
    rw [h]
    exact .echo
  · exact .identifier hc hcs ‹_›

theorem ofChar?_spells {c : Char} {t : Token} (h : ofChar? c = some t) : Spells [c] t := by
  unfold ofChar? at h
  repeat' split at h
  all_goals cases h
  all_goals subst c; constructor

/-- A token that is found is spelled by the characters that are taken for it. -/
theorem start_spells {c : Char} {cs : List Char} {t : Token} {n : Nat}
    (h : start c cs = .token t n) :
    ∃ text rest, cs = text ++ rest ∧ n = text.length ∧ Spells (c :: text) t := by
  unfold start at h
  split at h
  · rename_i hc
    cases h
    exact ⟨_, _, List.takeWhile_append_dropWhile.symm, rfl, ofWord_spells (isWordStart_iff.1 hc)
      fun d hd => isWordPart_iff.1 (List.mem_takeWhile_imp hd)⟩
  · split at h
    · rename_i x m hx
      cases h
      obtain ⟨text, rest, htext, rfl, hspells⟩ := number?_sound hx
      cases text with
      | nil => exact absurd rfl hspells.ne_nil
      | cons c' text =>
        cases htext
        exact ⟨text, rest, rfl, rfl, hspells⟩
    · unfold startMark at h
      split at h
      · subst c
        split at h
        · rename_i ds m hds
          cases h
          obtain ⟨body, rest, rfl, rfl, hbody⟩ := literal_sound hds
          exact ⟨body ++ ['"'], rest, by simp, by simp, .string hbody⟩
        · cases h
      · split at h
        · rename_i t' ht
          cases h
          exact ⟨[], cs, rfl, rfl, ofChar?_spells ht⟩
        · cases h

/-- Where a word stands, a word at least as long is found. -/
theorem start_word_le {c : Char} {cs : List Char} (hc : IsLetter c)
    (hcs : ∀ d ∈ cs, IsLetter d ∨ IsDigit d) (rest : List Char) :
    ∃ t n, start c (cs ++ rest) = .token t n ∧ cs.length ≤ n ∧
      (rest = [] → t = ofWord (c :: cs) ∧ n = cs.length) := by
  have htake : (cs ++ rest).takeWhile isWordPart = cs ++ rest.takeWhile isWordPart :=
    List.takeWhile_append_of_pos fun d hd => isWordPart_iff.2 (hcs d hd)
  simp only [start, isWordStart_iff.2 hc, if_true, htake]
  refine ⟨_, _, rfl, by simp, ?_⟩
  rintro rfl
  simp

theorem start_number {c : Char} {cs : List Char} {x : Number} {n : Nat} (hc : ¬ IsLetter c)
    (h : number? (c :: cs) = some (x, n)) : start c cs = .token (.number x) (n - 1) := by
  simp [start, isWordStart_iff, hc, h]

theorem start_string (cs : List Char) : start '"' cs =
    match literal cs with
    | some (ds, n) => .token (.string (String.ofList ds)) n
    | none => .unterminated := by
  have hletter : isWordStart '"' = false := rfl
  have hnumber : number? ('"' :: cs) = none := rfl
  simp only [start, hletter, hnumber, startMark]
  rfl

/-- Where a spelling stands, a token at least as long is found. -/
theorem Spells.start_le {c : Char} {cs : List Char} {t : Token} (h : Spells (c :: cs) t)
    (rest : List Char) : ∃ t' n, start c (cs ++ rest) = .token t' n ∧ cs.length ≤ n ∧
      (rest = [] → t' = t ∧ n = cs.length) := by
  generalize htext : c :: cs = text at h
  cases h with
  | echo =>
    cases htext
    exact start_word_le echo_letters.1 echo_letters.2 rest
  | identifier hc hcs hne =>
    cases htext
    have := start_word_le hc hcs rest
    rwa [ofWord, if_neg hne] at this
  | @number _ d hd =>
    cases htext
    obtain ⟨d', n, hread, hle, hall⟩ := hd.numeral?_le rest
    have hnumber : number? (c :: (cs ++ rest)) = some (Number.ofDecimal false d', n) := by
      rw [number?_of_ne hd.head.ne_minus, ← List.cons_append, hread]
      rfl
    simp only [List.length_cons] at hle hall
    refine ⟨_, _, start_number hd.head.not_letter hnumber, by omega, ?_⟩
    intro hrest
    obtain ⟨rfl, rfl⟩ := hall hrest
    exact ⟨rfl, rfl⟩
  | @negative _ d hd =>
    cases htext
    obtain ⟨d', n, hread, hle, hall⟩ := hd.numeral?_le rest
    have hnumber : number? ('-' :: (cs ++ rest)) = some (Number.ofDecimal true d', n + 1) := by
      rw [number?, hread]
      rfl
    refine ⟨_, _, start_number (by decide) hnumber, hle, ?_⟩
    intro hrest
    obtain ⟨rfl, rfl⟩ := hall hrest
    exact ⟨rfl, rfl⟩
  | string hbody =>
    cases htext
    have hread := hbody.literal_eq rest
    rw [List.append_assoc, List.singleton_append, start_string, hread]
    exact ⟨_, _, rfl, by simp, fun _ => ⟨rfl, by simp⟩⟩
  | dollar | equals | openBracket | closeBracket | comma | dot | newline =>
    cases htext
    exact ⟨_, 0, rfl, Nat.le_refl 0, fun _ => ⟨rfl, rfl⟩⟩

/-! ## Greed -/

/-- No prefix of `text ++ rest` that is longer than `text` spells a token. -/
def Longest (text rest : List Char) : Prop :=
  ∀ pre t, Spells pre t → pre <+: text ++ rest → pre.length ≤ text.length

/-- No prefix of the text spells a token. -/
def NoToken (cs : List Char) : Prop := ∀ pre t, Spells pre t → ¬ pre <+: cs

/-- A spelling at the start of a text gives its first character and what `start` finds there. -/
theorem Spells.start_of_isPrefix {c : Char} {cs pre : List Char} {t : Token} (h : Spells pre t)
    (hpre : pre <+: c :: cs) : ∃ t' n, start c cs = .token t' n ∧ pre.length ≤ n + 1 := by
  obtain ⟨rest, hrest⟩ := hpre
  cases pre with
  | nil => exact absurd rfl h.ne_nil
  | cons c' pre =>
    cases hrest
    obtain ⟨t', n, hstart, hle, -⟩ := h.start_le rest
    exact ⟨t', n, hstart, Nat.succ_le_succ hle⟩

theorem noToken_of_start {c : Char} {cs : List Char} (h : ∀ t n, start c cs ≠ .token t n) :
    NoToken (c :: cs) := by
  intro pre t hspells hpre
  obtain ⟨t', n, hstart, -⟩ := hspells.start_of_isPrefix hpre
  exact h t' n hstart

theorem start_quote {c : Char} {cs : List Char} :
    (start c cs = .unexpected → c ≠ '"') ∧ (start c cs = .unterminated → c = '"') := by
  unfold start startMark
  split
  · simp
  · split
    · simp
    · split
      · split <;> simp [*]
      · split <;> simp [*]

/-- All that can stand at the start of a text. -/
theorem start_cases (c : Char) (cs : List Char) :
    (∃ t text rest, cs = text ++ rest ∧ start c cs = .token t text.length ∧
      Spells (c :: text) t ∧ Longest (c :: text) rest) ∨
    (start c cs = .unexpected ∧ c ≠ '"' ∧ NoToken (c :: cs)) ∨
    (start c cs = .unterminated ∧ c = '"' ∧ NoToken (c :: cs)) := by
  cases hstart : start c cs with
  | token t n =>
    obtain ⟨text, rest, rfl, rfl, hspells⟩ := start_spells hstart
    refine .inl ⟨t, text, rest, rfl, rfl, hspells, ?_⟩
    intro pre t' hpre hprefix
    obtain ⟨t'', n, hstart', hle⟩ := hpre.start_of_isPrefix hprefix
    cases hstart.symm.trans hstart'
    exact hle
  | unexpected =>
    exact .inr (.inl ⟨rfl, start_quote.1 hstart, noToken_of_start (by simp [hstart])⟩)
  | unterminated =>
    exact .inr (.inr ⟨rfl, start_quote.2 hstart, noToken_of_start (by simp [hstart])⟩)

/-- A text spells at most one token. -/
theorem Spells.unique {cs : List Char} {t t' : Token} (h : Spells cs t) (h' : Spells cs t') :
    t = t' := by
  cases cs with
  | nil => exact absurd rfl h.ne_nil
  | cons c cs =>
    obtain ⟨u, n, hstart, -, heq⟩ := h.start_le []
    obtain ⟨u', n', hstart', -, heq'⟩ := h'.start_le []
    cases hstart.symm.trans hstart'
    exact (heq rfl).1.symm.trans (heq' rfl).1

theorem Spells.not_blank {c : Char} {cs : List Char} {t : Token} (h : Spells (c :: cs) t) :
    isBlank c = false := by
  obtain ⟨t', n, hstart, -, -⟩ := h.start_le []
  cases hblank : isBlank c with
  | false => rfl
  | true =>
    simp only [isBlank, Bool.or_eq_true, decide_eq_true_eq] at hblank
    obtain (rfl | rfl) | rfl := hblank <;> cases hstart

end Token

end EchoScript
