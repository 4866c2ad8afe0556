import EchoScript.Proofs.Numerals
import Mathlib.Algebra.Order.Field.Basic
import Mathlib.Algebra.Order.Ring.Rat
import Mathlib.Data.List.DropRight
import Mathlib.Tactic.FieldSimp
import Mathlib.Tactic.Linarith

/-!
# EchoScript.Proofs.DecimalTexts

Decimal texts and the rational numbers that they denote.

Many texts denote one number, and one of them is canonical (`IsCanonical.eq_of_value`). It is the
one that a decimal fraction is written as (`ofDecimal`), and the one that is left of any other when
its superfluous characters are taken away (`tidy`).
-/

namespace EchoScript

namespace Decimal

/-! ## Digits -/

theorem digit_bounds {c : Char} (h : Token.IsDigit c) :
    '0'.toNat ≤ c.toNat ∧ c.toNat - '0'.toNat < 10 := by
  have hbounds : 48 ≤ c.toNat ∧ c.toNat ≤ 57 := by
    simpa [Token.IsDigit, Char.le_def, UInt32.le_iff_toNat_le] using h
  have hzero : '0'.toNat = 48 := rfl
  omega

theorem digit_inj {c d : Char} (hc : Token.IsDigit c) (hd : Token.IsDigit d)
    (h : c.toNat - '0'.toNat = d.toNat - '0'.toNat) : c = d := by
  have hc' := digit_bounds hc
  have hd' := digit_bounds hd
  exact Char.toNat_inj.1 (by omega)

theorem digit_eq_zero_iff {c : Char} (h : Token.IsDigit c) :
    c.toNat - '0'.toNat = 0 ↔ c = '0' := by
  constructor
  · exact @digit_inj c '0' h (by decide)
  · rintro rfl
    rfl

theorem ofDigitChars_cons (c : Char) (cs : List Char) :
    Nat.ofDigitChars 10 (c :: cs) 0 =
      (c.toNat - '0'.toNat) * 10 ^ cs.length + Nat.ofDigitChars 10 cs 0 := by
  rw [Nat.ofDigitChars_cons, Nat.ofDigitChars_eq_ofDigitChars_zero]
  ring

theorem ofDigitChars_lt {cs : List Char} (h : ∀ c ∈ cs, Token.IsDigit c) :
    Nat.ofDigitChars 10 cs 0 < 10 ^ cs.length := by
  induction cs with
  | nil => simp
  | cons c cs ih =>
    obtain ⟨hc, hcs⟩ := List.forall_mem_cons.1 h
    have hrest := ih hcs
    have hstep := Nat.mul_le_mul_right (10 ^ cs.length) (digit_bounds hc).2
    rw [Nat.succ_mul] at hstep
    rw [ofDigitChars_cons, List.length_cons, Nat.pow_succ']
    omega

/-- Digits are told from those behind them by division. -/
theorem ofDigitChars_append_inj {cs ds cs' ds' : List Char} (hds : ∀ c ∈ ds, Token.IsDigit c)
    (hds' : ∀ c ∈ ds', Token.IsDigit c) (hlength : ds.length = ds'.length)
    (h : Nat.ofDigitChars 10 (cs ++ ds) 0 = Nat.ofDigitChars 10 (cs' ++ ds') 0) :
    Nat.ofDigitChars 10 cs 0 = Nat.ofDigitChars 10 cs' 0 ∧
      Nat.ofDigitChars 10 ds 0 = Nat.ofDigitChars 10 ds' 0 := by
  have hpos : 0 < 10 ^ ds.length := Nat.pow_pos (by decide)
  have hlt := ofDigitChars_lt hds
  have hlt' := ofDigitChars_lt hds'
  rw [ofDigitChars_append, ofDigitChars_append, ← hlength, Nat.mul_comm,
    Nat.mul_comm _ (10 ^ _)] at h
  rw [← hlength] at hlt'
  have hdiv := congrArg (· / 10 ^ ds.length) h
  have hmod := congrArg (· % 10 ^ ds.length) h
  simp only [Nat.mul_add_div hpos, Nat.mul_add_mod, Nat.div_eq_of_lt, Nat.mod_eq_of_lt, hlt,
    hlt', Nat.add_zero] at hdiv hmod
  exact ⟨hdiv, hmod⟩

/-- Texts of equally many digits differ in value. -/
theorem ofDigitChars_inj {cs ds : List Char} (hcs : ∀ c ∈ cs, Token.IsDigit c)
    (hds : ∀ c ∈ ds, Token.IsDigit c) (hlength : cs.length = ds.length)
    (h : Nat.ofDigitChars 10 cs 0 = Nat.ofDigitChars 10 ds 0) : cs = ds := by
  induction cs generalizing ds with
  | nil => exact (List.length_eq_zero_iff.1 hlength.symm).symm
  | cons c cs ih =>
    cases ds with
    | nil => cases hlength
    | cons d ds =>
      obtain ⟨hc, hcs⟩ := List.forall_mem_cons.1 hcs
      obtain ⟨hd, hds⟩ := List.forall_mem_cons.1 hds
      have hlength' : cs.length = ds.length := Nat.succ.inj hlength
      obtain ⟨hfirst, hrest⟩ := @ofDigitChars_append_inj [c] cs [d] ds hcs hds hlength' h
      simp only [ofDigitChars_cons, List.length_nil, Nat.pow_zero, Nat.mul_one,
        Nat.ofDigitChars_nil, Nat.add_zero] at hfirst
      rw [digit_inj hc hd hfirst, ih hcs hds hlength' hrest]

/-- No superfluous zero in front. -/
def Trimmed (cs : List Char) : Prop := cs.head? = some '0' → cs = ['0']

theorem Trimmed.length_le {cs ds : List Char} (h : Trimmed cs) (hcs : ∀ c ∈ cs, Token.IsDigit c)
    (hds : ∀ c ∈ ds, Token.IsDigit c) (hne : ds ≠ [])
    (hvalue : Nat.ofDigitChars 10 cs 0 = Nat.ofDigitChars 10 ds 0) : cs.length ≤ ds.length := by
  cases cs with
  | nil => simp
  | cons c cs =>
    by_cases hzero : c = '0'
    · rw [h (by simp [hzero])]
      exact List.length_pos_iff.2 hne
    · -- The first digit counts at least once.
      have hpos : 1 ≤ c.toNat - '0'.toNat := by
        rwa [Nat.one_le_iff_ne_zero, ne_eq, digit_eq_zero_iff (hcs c (by simp))]
      have hlow := Nat.mul_le_mul_right (10 ^ cs.length) hpos
      have hhigh := ofDigitChars_lt hds
      rw [ofDigitChars_cons] at hvalue
      have hlt : 10 ^ cs.length < 10 ^ ds.length := by omega
      exact (Nat.pow_lt_pow_iff_right (by decide)).1 hlt

/-- Without superfluous zeros a number is written in one way. -/
theorem Trimmed.inj {cs ds : List Char} (hcs : Trimmed cs) (hds : Trimmed ds) (hne : cs ≠ [])
    (hne' : ds ≠ []) (hdigits : ∀ c ∈ cs, Token.IsDigit c) (hdigits' : ∀ c ∈ ds, Token.IsDigit c)
    (h : Nat.ofDigitChars 10 cs 0 = Nat.ofDigitChars 10 ds 0) : cs = ds := by
  have hle := hcs.length_le hdigits hdigits' hne' h
  have hge := hds.length_le hdigits' hdigits hne h.symm
  exact ofDigitChars_inj hdigits hdigits' (Nat.le_antisymm hle hge) h

theorem toDigits_trimmed (n : Nat) : Trimmed (Nat.toDigits 10 n) := by
  intro h
  obtain ⟨cs, hcs⟩ := List.head?_eq_some_iff.1 h
  rw [hcs]
  by_contra hne
  have hpos : 0 < cs.length := by
    rw [List.length_pos_iff]
    rintro rfl
    exact hne rfl
  have hdigits : ∀ c ∈ cs, Token.IsDigit c := by
    intro c hc
    exact toDigits_isDigit n c (by simp [hcs, hc])
  -- A zero in front would leave fewer digits than the number needs.
  have hvalue : n = Nat.ofDigitChars 10 cs 0 := by
    rw [← @Nat.ofDigitChars_ten_toDigits n, hcs, ofDigitChars_cons]
    simp
  have hlt := ofDigitChars_lt hdigits
  rw [← hvalue, ← Nat.length_toDigits_le_iff (by decide) hpos, hcs, List.length_cons] at hlt
  omega

/-! ## Values -/

def value (d : Decimal) : ℚ := d.coefficient / 10 ^ d.places

theorem value_nonneg (d : Decimal) : 0 ≤ d.value := by
  unfold value
  positivity

theorem value_eq_zero_iff {d : Decimal} : d.value = 0 ↔ d.coefficient = 0 := by
  simp [value]

theorem value_eq_value_iff {d d' : Decimal} :
    d.value = d'.value ↔ d.coefficient * 10 ^ d'.places = d'.coefficient * 10 ^ d.places := by
  unfold value
  rw [div_eq_div_iff (by positivity) (by positivity)]
  norm_cast

theorem value_trim (d : Decimal) : d.trim.value = d.value :=
  value_eq_value_iff.2 d.trim_value

/-- As few places as the value allows. -/
def Reduced (d : Decimal) : Prop := d.places = 0 ∨ d.coefficient % 10 ≠ 0

theorem reduce_reduced (c p : Nat) : (reduce c p).Reduced := by
  induction p generalizing c with
  | zero => exact .inl rfl
  | succ p ih =>
    rw [reduce]
    split
    · exact ih (c / 10)
    · rename_i hlast
      exact .inr hlast

theorem reduce_places_le (c p : Nat) : (reduce c p).places ≤ p := by
  induction p generalizing c with
  | zero => exact Nat.le_refl 0
  | succ p ih =>
    rw [reduce]
    split
    · exact Nat.le_succ_of_le (ih (c / 10))
    · exact Nat.le_refl _

theorem trim_reduced (d : Decimal) : d.trim.Reduced := reduce_reduced d.coefficient d.places

theorem Reduced.places_le {d d' : Decimal} (h : d.Reduced) (hvalue : d.value = d'.value) :
    d.places ≤ d'.places := by
  rw [value_eq_value_iff] at hvalue
  by_contra hlt
  -- The finer fraction would end in a zero.
  obtain ⟨k, hk⟩ : ∃ k, d.places = d'.places + (k + 1) := ⟨d.places - d'.places - 1, by omega⟩
  have hcoefficient : d.coefficient = d'.coefficient * 10 ^ k * 10 := by
    have hpos : 0 < 10 ^ d'.places := Nat.pow_pos (by decide)
    refine Nat.eq_of_mul_eq_mul_right hpos (hvalue.trans ?_)
    rw [hk]
    ring
  rcases h with hnone | hlast
  · omega
  · exact hlast (by rw [hcoefficient, Nat.mul_mod_left])

theorem Reduced.eq_of_value {d d' : Decimal} (h : d.Reduced) (h' : d'.Reduced)
    (hvalue : d.value = d'.value) : d = d' := by
  have hplaces := Nat.le_antisymm (h.places_le hvalue) (h'.places_le hvalue.symm)
  rw [value_eq_value_iff, hplaces] at hvalue
  have hcoefficient := Nat.eq_of_mul_eq_mul_right (Nat.pow_pos (by decide)) hvalue
  cases d
  cases d'
  simp_all

theorem coefficient_concat (whole fraction : List Char) (c : Char) :
    (ofDigits whole (fraction ++ [c])).coefficient =
      (ofDigits whole fraction).coefficient * 10 + (c.toNat - '0'.toNat) := by
  simp only [ofDigits, ← List.append_assoc]
  rw [ofDigitChars_append, ofDigitChars_cons]
  simp

theorem reduced_ofDigits {fraction : List Char} (h : ∀ c ∈ fraction, Token.IsDigit c)
    (whole : List Char) :
    (ofDigits whole fraction).Reduced ↔ fraction.getLast? ≠ some '0' := by
  induction fraction using List.reverseRecOn with
  | nil => simp [Reduced, ofDigits]
  | append_singleton fraction c _ =>
    have hc := h c (by simp)
    have hplaces : (ofDigits whole (fraction ++ [c])).places ≠ 0 := by simp [ofDigits]
    rw [Reduced, or_iff_right hplaces, coefficient_concat, Nat.mul_add_mod',
      Nat.mod_eq_of_lt (digit_bounds hc).2, ne_eq, digit_eq_zero_iff hc]
    simp

end Decimal

/-- A decimal text: digits, a fraction behind a point if there is one, and a minus sign or none. -/
@[ext]
structure DecimalText where
  negative : Bool
  whole : List Char
  fraction : List Char
  whole_ne_nil : whole ≠ []
  whole_digits : ∀ c ∈ whole, Token.IsDigit c
  fraction_digits : ∀ c ∈ fraction, Token.IsDigit c

namespace DecimalText

def unsigned (t : DecimalText) : List Char :=
  if t.fraction = [] then t.whole else t.whole ++ '.' :: t.fraction

def text (t : DecimalText) : String := Number.signed t.negative (String.ofList t.unsigned)

/-- The fraction that the text denotes, without its sign. -/
def magnitude (t : DecimalText) : Decimal := .ofDigits t.whole t.fraction

def sign (negative : Bool) : ℚ := if negative then -1 else 1

@[simp]
theorem sign_false : sign false = 1 := rfl

@[simp]
theorem sign_true : sign true = -1 := rfl

def value (t : DecimalText) : ℚ := sign t.negative * t.magnitude.value

/-- No superfluous zero on either side, and no sign before a zero. -/
structure IsCanonical (t : DecimalText) : Prop where
  whole : t.whole.head? = some '0' → t.whole = ['0']
  fraction : t.fraction.getLast? ≠ some '0'
  sign : t.negative = true → t.value ≠ 0

theorem abs_sign_mul (negative : Bool) (x : ℚ) : |sign negative * x| = |x| := by
  cases negative <;> simp

theorem abs_value (t : DecimalText) : |t.value| = t.magnitude.value := by
  rw [value, abs_sign_mul, abs_of_nonneg t.magnitude.value_nonneg]

theorem value_eq_zero_iff {t : DecimalText} : t.value = 0 ↔ t.magnitude.coefficient = 0 := by
  rw [← abs_eq_zero, abs_value, Decimal.value_eq_zero_iff]

theorem IsCanonical.negative_iff {t : DecimalText} (h : t.IsCanonical) :
    t.negative = true ↔ t.value < 0 := by
  have hnonneg := t.magnitude.value_nonneg
  constructor
  · intro hnegative
    have hle : t.value ≤ 0 := by
      simpa [value, hnegative] using hnonneg
    exact lt_of_le_of_ne hle (h.sign hnegative)
  · intro hlt
    by_contra hpositive
    have hvalue : t.value = t.magnitude.value := by
      rw [value, Bool.eq_false_of_not_eq_true hpositive, sign_false, one_mul]
    linarith

/-- A number has one canonical text. -/
theorem IsCanonical.eq_of_value {t u : DecimalText} (ht : t.IsCanonical) (hu : u.IsCanonical)
    (h : t.value = u.value) : t = u := by
  have hmagnitude : t.magnitude = u.magnitude := by
    refine Decimal.Reduced.eq_of_value ?_ ?_ ?_
    · exact (Decimal.reduced_ofDigits t.fraction_digits t.whole).2 ht.fraction
    · exact (Decimal.reduced_ofDigits u.fraction_digits u.whole).2 hu.fraction
    · rw [← abs_value, ← abs_value, h]
  have hlength : t.fraction.length = u.fraction.length := congrArg Decimal.places hmagnitude
  obtain ⟨hwhole, hfraction⟩ := Decimal.ofDigitChars_append_inj t.fraction_digits u.fraction_digits
    hlength (congrArg Decimal.coefficient hmagnitude)
  have hnegative : t.negative = u.negative := by
    rw [Bool.eq_iff_iff, ht.negative_iff, hu.negative_iff, h]
  ext1
  · exact hnegative
  · exact Decimal.Trimmed.inj ht.whole hu.whole t.whole_ne_nil u.whole_ne_nil t.whole_digits
      u.whole_digits hwhole
  · exact Decimal.ofDigitChars_inj t.fraction_digits u.fraction_digits hlength hfraction

theorem sign_mul_value (negative : Bool) (d : Decimal) :
    sign (negative && d.coefficient ≠ 0) * d.value = sign negative * d.value := by
  by_cases hzero : d.coefficient = 0
  · rw [Decimal.value_eq_zero_iff.2 hzero, mul_zero, mul_zero]
  · simp [hzero]

/-! ## Writing a fraction -/

/-- The text of a decimal fraction with a sign. -/
def ofDecimal (negative : Bool) (d : Decimal) : DecimalText where
  negative := negative && d.coefficient ≠ 0
  whole := d.trim.wholeDigits
  fraction := d.trim.fractionDigits
  whole_ne_nil := Nat.toDigits_ne_nil
  whole_digits := Decimal.toDigits_isDigit _
  fraction_digits := d.trim.fractionDigits_isDigit

theorem text_ofDecimal (negative : Bool) (d : Decimal) :
    (ofDecimal negative d).text = Number.signed (negative && d.coefficient ≠ 0) d.text := by
  have hnone : d.trim.fractionDigits = [] ↔ d.trim.places = 0 := by
    rw [← List.length_eq_zero_iff, Decimal.length_fractionDigits]
  simp only [text, unsigned, ofDecimal, Decimal.text, Decimal.positional, hnone]

theorem magnitude_ofDecimal (negative : Bool) (d : Decimal) :
    (ofDecimal negative d).magnitude = d.trim :=
  d.trim.ofDigits_positional

theorem value_ofDecimal (negative : Bool) (d : Decimal) :
    (ofDecimal negative d).value = sign negative * d.value := by
  rw [value, magnitude_ofDecimal, Decimal.value_trim]
  exact sign_mul_value negative d

theorem isCanonical_ofDecimal (negative : Bool) (d : Decimal) :
    (ofDecimal negative d).IsCanonical where
  whole := Decimal.toDigits_trimmed _
  fraction := by
    rw [← Decimal.reduced_ofDigits (ofDecimal negative d).fraction_digits
      (ofDecimal negative d).whole]
    have hreduced := d.trim_reduced
    rwa [← magnitude_ofDecimal negative d] at hreduced
  sign := by
    intro hnegative
    have hne : d.coefficient ≠ 0 := of_decide_eq_true (Bool.and_eq_true_iff.1 hnegative).2
    rwa [ne_eq, ← abs_eq_zero, abs_value, magnitude_ofDecimal, Decimal.value_trim,
      Decimal.value_eq_zero_iff]

theorem length_fraction_ofDecimal (negative : Bool) (d : Decimal) :
    (ofDecimal negative d).fraction.length ≤ d.places := by
  rw [ofDecimal, Decimal.length_fractionDigits]
  exact Decimal.reduce_places_le d.coefficient d.places

def ofInt (k : ℤ) : DecimalText := ofDecimal (k < 0) ⟨k.natAbs, 0⟩

theorem text_ofInt (k : ℤ) : (ofInt k).text = k.repr := by
  have hdigits : ∀ n : Nat, Decimal.text ⟨n, 0⟩ = n.repr := by
    intro n
    simp [Decimal.text, Decimal.trim, Decimal.reduce, Decimal.positional, Decimal.wholeDigits,
      Nat.repr_eq_ofList_toDigits]
  rw [ofInt, text_ofDecimal, hdigits]
  cases k with
  | ofNat n => simp [Number.signed, Int.repr]
  | negSucc n => simp [Number.signed, Int.repr]

theorem value_ofInt (k : ℤ) : (ofInt k).value = k := by
  rw [ofInt, value_ofDecimal]
  cases k with
  | ofNat n => simp [sign, Decimal.value]
  | negSucc n => simp [Decimal.value, Int.negSucc_lt_zero, Int.cast_negSucc]

/-! ## Taking superfluous characters away -/

/-- The digits without the zeros in front; one stays if there is nothing else. -/
def withoutZeros : List Char → List Char
  | [] => ['0']
  | c :: cs => if c = '0' then withoutZeros cs else c :: cs

theorem withoutZeros_ne_nil (cs : List Char) : withoutZeros cs ≠ [] := by
  induction cs with
  | nil => simp [withoutZeros]
  | cons c cs ih =>
    rw [withoutZeros]
    split
    · exact ih
    · simp

theorem withoutZeros_trimmed (cs : List Char) : Decimal.Trimmed (withoutZeros cs) := by
  induction cs with
  | nil => exact fun _ => rfl
  | cons c cs ih =>
    rw [withoutZeros]
    split
    · exact ih
    · rename_i hc
      intro hhead
      exact absurd (by simpa using hhead) hc

theorem withoutZeros_isDigit {cs : List Char} (h : ∀ c ∈ cs, Token.IsDigit c) :
    ∀ c ∈ withoutZeros cs, Token.IsDigit c := by
  induction cs with
  | nil => simp [withoutZeros, Token.IsDigit]
  | cons c cs ih =>
    rw [withoutZeros]
    split
    · exact ih (List.forall_mem_cons.1 h).2
    · exact h

theorem ofDigitChars_withoutZeros (cs : List Char) :
    Nat.ofDigitChars 10 (withoutZeros cs) 0 = Nat.ofDigitChars 10 cs 0 := by
  induction cs with
  | nil => rfl
  | cons c cs ih =>
    rw [withoutZeros]
    split
    · rename_i hc
      rw [ih, hc, Decimal.ofDigitChars_cons]
      simp
    · rfl

/-- Zeros at the end of a fraction do not count. -/
theorem value_rdropWhile (whole fraction : List Char) :
    (Decimal.ofDigits whole (fraction.rdropWhile (· = '0'))).value =
      (Decimal.ofDigits whole fraction).value := by
  induction fraction using List.reverseRecOn with
  | nil => simp
  | append_singleton fraction c ih =>
    by_cases hc : c = '0'
    · have hplaces : (Decimal.ofDigits whole (fraction ++ [c])).places =
          (Decimal.ofDigits whole fraction).places + 1 := by simp [Decimal.ofDigits]
      rw [List.rdropWhile_concat_pos _ _ _ (by simpa using hc), ih, Decimal.value_eq_value_iff,
        hplaces, Decimal.coefficient_concat, hc, Nat.sub_self]
      ring
    · rw [List.rdropWhile_concat_neg _ _ _ (by simpa using hc)]

/-- The text without superfluous zeros on either side, without a point if no digit is left behind
it, and without the sign of a zero. -/
def tidy (t : DecimalText) : DecimalText where
  negative := t.negative && t.magnitude.coefficient ≠ 0
  whole := withoutZeros t.whole
  fraction := t.fraction.rdropWhile (· = '0')
  whole_ne_nil := withoutZeros_ne_nil t.whole
  whole_digits := withoutZeros_isDigit t.whole_digits
  fraction_digits := fun c hc => t.fraction_digits c ((List.rdropWhile_prefix _ _).subset hc)

theorem value_tidy (t : DecimalText) : t.tidy.value = t.value := by
  have hwhole : ∀ fraction, Decimal.ofDigits (withoutZeros t.whole) fraction =
      Decimal.ofDigits t.whole fraction := by
    intro fraction
    simp only [Decimal.ofDigits, Decimal.ofDigitChars_append, ofDigitChars_withoutZeros]
  have hmagnitude : t.tidy.magnitude.value = t.magnitude.value := by
    rw [magnitude, tidy, hwhole, value_rdropWhile, magnitude]
  rw [value, hmagnitude, tidy, sign_mul_value, value]

theorem isCanonical_tidy (t : DecimalText) : t.tidy.IsCanonical where
  whole := withoutZeros_trimmed t.whole
  fraction := by
    intro hlast
    obtain ⟨hne, heq⟩ := List.mem_getLast?_eq_getLast hlast
    exact List.rdropWhile_last_not _ _ hne (decide_eq_true heq.symm)
  sign := by
    intro hnegative
    have hne : t.magnitude.coefficient ≠ 0 :=
      of_decide_eq_true (Bool.and_eq_true_iff.1 hnegative).2
    rwa [value_tidy, ne_eq, value_eq_zero_iff]

end DecimalText
end EchoScript
