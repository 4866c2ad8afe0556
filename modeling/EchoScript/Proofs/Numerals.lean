import EchoScript.Number.Text
import EchoScript.Proofs.Rounding
import EchoScript.Proofs.Spelling

/-!
# EchoScript.Proofs.Numerals

The text of a decimal fraction is a numeral, and it is read as the number nearest to the fraction.

Dropping superfluous places keeps the value (`trim_value`), and reading depends on nothing else
(`ofDecimal_congr`).
-/

namespace EchoScript

namespace Decimal

/-- Digits behind others count less by a power of ten. -/
theorem ofDigitChars_append (cs ds : List Char) :
    Nat.ofDigitChars 10 (cs ++ ds) 0 =
      Nat.ofDigitChars 10 cs 0 * 10 ^ ds.length + Nat.ofDigitChars 10 ds 0 := by
  rw [Nat.ofDigitChars_append, Nat.ofDigitChars_eq_ofDigitChars_zero, Nat.mul_comm]

theorem reduce_value (c p : Nat) :
    (reduce c p).coefficient * 10 ^ p = c * 10 ^ (reduce c p).places := by
  induction p generalizing c with
  | zero => rfl
  | succ p ih =>
    rw [reduce]
    split
    · rename_i hzero
      have hc : c = c / 10 * 10 := by omega
      calc (reduce (c / 10) p).coefficient * 10 ^ (p + 1)
          = (reduce (c / 10) p).coefficient * 10 ^ p * 10 := by ring
        _ = c / 10 * 10 ^ (reduce (c / 10) p).places * 10 := by rw [ih]
        _ = c / 10 * 10 * 10 ^ (reduce (c / 10) p).places := by ring
        _ = c * 10 ^ (reduce (c / 10) p).places := by rw [← hc]
    · rfl

theorem trim_value (d : Decimal) :
    d.trim.coefficient * 10 ^ d.places = d.coefficient * 10 ^ d.trim.places :=
  reduce_value d.coefficient d.places

/-! ## Digits -/

theorem toDigits_isDigit (n : Nat) : ∀ c ∈ Nat.toDigits 10 n, Token.IsDigit c := by
  intro c hc
  exact Token.isDigit_iff.1 (Nat.isDigit_of_mem_toDigits (by decide) (by decide) hc)

theorem fractionDigits_eq {d : Decimal} (h : d.places ≠ 0) :
    ∃ zeros, d.fractionDigits =
      List.replicate zeros '0' ++ Nat.toDigits 10 (d.coefficient % 10 ^ d.places) ∧
      d.fractionDigits.length = d.places := by
  have hlt : d.coefficient % 10 ^ d.places < 10 ^ d.places := Nat.mod_lt _ (Nat.pow_pos (by decide))
  have hle := (Nat.length_toDigits_le_iff (b := 10) (by decide) (Nat.pos_of_ne_zero h)).2 hlt
  refine ⟨d.places - (Nat.toDigits 10 (d.coefficient % 10 ^ d.places)).length, ?_, ?_⟩
  · simp [fractionDigits, h, List.leftpad]
  · simp only [fractionDigits, h, if_false, List.length_leftpad, Nat.pow_eq]
    omega

theorem length_fractionDigits (d : Decimal) : d.fractionDigits.length = d.places := by
  by_cases h : d.places = 0
  · simp [fractionDigits, h]
  · obtain ⟨zeros, -, hlength⟩ := fractionDigits_eq h
    exact hlength

theorem fractionDigits_isDigit (d : Decimal) : ∀ c ∈ d.fractionDigits, Token.IsDigit c := by
  intro c hc
  by_cases h : d.places = 0
  · simp [fractionDigits, h] at hc
  · obtain ⟨zeros, hdigits, -⟩ := fractionDigits_eq h
    rw [hdigits] at hc
    rcases List.mem_append.1 hc with hc | hc
    · rw [List.eq_of_mem_replicate hc]
      decide
    · exact toDigits_isDigit _ c hc

theorem ofDigits_positional (d : Decimal) : ofDigits d.wholeDigits d.fractionDigits = d := by
  have hwhole : Nat.ofDigitChars 10 d.wholeDigits 0 = d.coefficient / 10 ^ d.places :=
    Nat.ofDigitChars_ten_toDigits
  by_cases h : d.places = 0
  · have hnone : d.fractionDigits = [] := by simp [fractionDigits, h]
    obtain ⟨c, p⟩ := d
    cases h
    simp [ofDigits, hnone, hwhole]
  · obtain ⟨zeros, hdigits, hlength⟩ := fractionDigits_eq h
    have hfraction : Nat.ofDigitChars 10 d.fractionDigits 0 = d.coefficient % 10 ^ d.places := by
      rw [hdigits, ofDigitChars_append, Nat.ofDigitChars_replicate_zero,
        Nat.ofDigitChars_ten_toDigits]
      simp
    have hvalue := Nat.div_add_mod' d.coefficient (10 ^ d.places)
    simp only [ofDigits, ofDigitChars_append, hwhole, hfraction, hlength, hvalue]

theorem positional_numeral (d : Decimal) : Token.Numeral d.positional d := by
  have hne : d.wholeDigits ≠ [] := Nat.toDigits_ne_nil
  have hwhole : ∀ c ∈ d.wholeDigits, Token.IsDigit c := toDigits_isDigit _
  by_cases h : d.places = 0
  · have hnone : d.fractionDigits = [] := by simp [fractionDigits, h]
    have hnum := Token.Numeral.whole hne hwhole
    rwa [← hnone, ofDigits_positional, show d.wholeDigits = d.positional by simp [positional, h]]
      at hnum
  · have hne' : d.fractionDigits ≠ [] := by
      rwa [← List.length_pos_iff, length_fractionDigits, Nat.pos_iff_ne_zero]
    have hnum := Token.Numeral.fraction hne hwhole hne' d.fractionDigits_isDigit
    rwa [ofDigits_positional, show d.wholeDigits ++ '.' :: d.fractionDigits = d.positional by
      simp [positional, h]] at hnum

end Decimal

namespace Number

theorem resolution_eq : resolution = 2 ^ finestPlaces := by
  -- The exponent stays a name, so that nothing evaluates the power.
  generalize h : finestPlaces = n
  unfold finestPlaces at h
  unfold resolution
  rw [h]
  rfl

/-- The exact magnitude reads back. -/
theorem nearestRank_steps (rank : Nat) :
    nearestRank (steps rank * resolution) (10 ^ finestPlaces) = rank := by
  have hexact : steps rank * resolution = units rank * 10 ^ finestPlaces := by
    rw [steps, Nat.pow_eq, resolution_eq, Nat.mul_assoc, ← Nat.mul_pow]
  rw [hexact, nearestRank_units (Nat.pow_pos (by decide))]

theorem ofRank_rank (negative : Bool) (rank : Fin ranks) :
    ofRank negative rank = .finite negative rank := by
  simp [ofRank, rank.isLt]

/-- Reading depends on the value of a fraction alone. -/
theorem ofDecimal_congr {d d' : Decimal}
    (h : d.coefficient * 10 ^ d'.places = d'.coefficient * 10 ^ d.places) (negative : Bool) :
    ofDecimal negative d = ofDecimal negative d' := by
  have hpos : ∀ p, 0 < 10 ^ p := fun p => Nat.pow_pos (by decide)
  have hrank : nearestRank (d.coefficient * resolution) (10 ^ d.places) =
      nearestRank (d'.coefficient * resolution) (10 ^ d'.places) := by
    rw [← nearestRank_mul (hpos d'.places), ← nearestRank_mul (hpos d.places) (_ * resolution),
      Nat.mul_right_comm, h, Nat.mul_right_comm, Nat.mul_comm (10 ^ d.places)]
  exact congrArg (ofRank negative) hrank

theorem ofDecimal_trim (negative : Bool) (d : Decimal) :
    ofDecimal negative d.trim = ofDecimal negative d :=
  ofDecimal_congr d.trim_value negative

/-- A numeral, with a sign or without, spells the number nearest to its value. -/
theorem spells_signed {cs : List Char} {d : Decimal} (h : Token.Numeral cs d) (negative : Bool) :
    Token.Spells (signed negative (String.ofList cs)).toList (.number (ofDecimal negative d)) := by
  cases negative with
  | false =>
    have hplain : (signed false (String.ofList cs)).toList = cs := by simp [signed]
    rw [hplain]
    exact .number h
  | true =>
    have hsigned : (signed true (String.ofList cs)).toList = '-' :: cs := by simp [signed]
    rw [hsigned]
    exact .negative h

theorem spells_signed_text (negative : Bool) (d : Decimal) :
    Token.Spells (signed negative d.text).toList (.number (ofDecimal negative d)) := by
  rw [← ofDecimal_trim]
  exact spells_signed d.trim.positional_numeral negative

end Number
end EchoScript
