import EchoScript.Number.OfDecimal
import Mathlib.Algebra.Order.Ring.Nat
import Mathlib.Tactic.Ring

/-!
# EchoScript.Proofs.Rounding

The two roundings of the language, from a quotient to a whole number and from a quotient to a rank.

A magnitude is written `m * 2 ^ e` with a mantissa `m` below `2 * binade`, and with `e` at zero or
`m` at least `binade`; its rank is then `e * binade + m`. `Within num den e` says that a quotient
lies in the binade with the distance `2 ^ e`, so that `nearestRank` rounds to a multiple of it.
-/

namespace EchoScript

/-! ## To a whole number -/

theorem roundHalfEven_cases (num den : Nat) :
    (roundHalfEven num den = num / den ∧ 2 * (num % den) ≤ den ∧
      (2 * (num % den) = den → num / den % 2 = 0)) ∨
    (roundHalfEven num den = num / den + 1 ∧ den ≤ 2 * (num % den) ∧
      (2 * (num % den) = den → num / den % 2 = 1)) := by
  unfold roundHalfEven
  dsimp only
  split
  · exact .inl ⟨rfl, by omega, by omega⟩
  · split
    · exact .inl ⟨rfl, by omega, by omega⟩
    · exact .inr ⟨rfl, by omega, by omega⟩

/-- The rounded quotient is at most one half away. -/
theorem roundHalfEven_near {den : Nat} (hden : 0 < den) (num : Nat) :
    2 * num ≤ 2 * (roundHalfEven num den * den) + den ∧
      2 * (roundHalfEven num den * den) ≤ 2 * num + den := by
  have hdiv := Nat.div_add_mod' num den
  have hlt := Nat.mod_lt num hden
  rcases roundHalfEven_cases num den with ⟨heq, hle, -⟩ | ⟨heq, hle, -⟩
  · rw [heq]
    omega
  · rw [heq, Nat.succ_mul (num / den) den]
    omega

/-- What is less than one half away is the rounded quotient. -/
theorem roundHalfEven_eq {num den m : Nat} (hlow : 2 * (m * den) < 2 * num + den)
    (hhigh : 2 * num < 2 * (m * den) + den) : roundHalfEven num den = m := by
  have hden : 0 < den := by omega
  obtain ⟨hlow', hhigh'⟩ := roundHalfEven_near hden num
  generalize roundHalfEven num den = k at hlow' hhigh' ⊢
  -- Two multiples that are both so near differ by less than one step.
  have hlt : k * den < (m + 1) * den := by rw [Nat.succ_mul m den]; omega
  have hgt : m * den < (k + 1) * den := by rw [Nat.succ_mul k den]; omega
  have hle := Nat.lt_of_mul_lt_mul_right hlt
  have hge := Nat.lt_of_mul_lt_mul_right hgt
  omega

/-- Of two whole numbers that are one half away, the even one is taken. -/
theorem roundHalfEven_tie {num den : Nat} (hden : 0 < den)
    (h : 2 * num = 2 * (roundHalfEven num den * den) + den ∨
      2 * (roundHalfEven num den * den) = 2 * num + den) : roundHalfEven num den % 2 = 0 := by
  have hdiv := Nat.div_add_mod' num den
  have hlt := Nat.mod_lt num hden
  rcases roundHalfEven_cases num den with ⟨heq, -, heven⟩ | ⟨heq, -, hodd⟩
  · rw [heq] at h ⊢
    omega
  · rw [heq, Nat.succ_mul (num / den) den] at h
    omega

theorem roundHalfEven_le {num den m : Nat} (hden : 0 < den) (h : num ≤ m * den) :
    roundHalfEven num den ≤ m := by
  have hnear := (roundHalfEven_near hden num).2
  have hlt : roundHalfEven num den * den < (m + 1) * den := by
    rw [Nat.succ_mul m den]
    omega
  exact Nat.le_of_lt_succ (Nat.lt_of_mul_lt_mul_right hlt)

theorem le_roundHalfEven {num den m : Nat} (hden : 0 < den) (h : m * den ≤ num) :
    m ≤ roundHalfEven num den := by
  have hnear := (roundHalfEven_near hden num).1
  have hlt : m * den < (roundHalfEven num den + 1) * den := by
    rw [Nat.succ_mul (roundHalfEven num den) den]
    omega
  exact Nat.le_of_lt_succ (Nat.lt_of_mul_lt_mul_right hlt)

theorem roundHalfEven_exact {den : Nat} (hden : 0 < den) (m : Nat) :
    roundHalfEven (m * den) den = m :=
  roundHalfEven_eq (by omega) (by omega)

theorem roundHalfEven_zero (den : Nat) : roundHalfEven 0 den = 0 := by
  have hcases := roundHalfEven_cases 0 den
  rw [Nat.zero_div, Nat.zero_mod] at hcases
  omega

theorem roundHalfEven_mul {k : Nat} (hk : 0 < k) (num den : Nat) :
    roundHalfEven (num * k) (den * k) = roundHalfEven num den := by
  have hmod : 2 * (num % den * k) = 2 * (num % den) * k := (Nat.mul_assoc _ _ _).symm
  have hlt : 2 * (num % den) * k < den * k ↔ 2 * (num % den) < den := Nat.mul_lt_mul_right hk
  have heq : 2 * (num % den) * k = den * k ↔ 2 * (num % den) = den := Nat.mul_left_inj hk.ne'
  simp only [roundHalfEven, Nat.mul_div_mul_right _ _ hk, Nat.mul_mod_mul_right, hmod, hlt, heq]

namespace Number

/-! ## Mantissas -/

/-- The mantissa and the distance of a magnitude, as ranks count them. -/
structure Scaled (m e : Nat) : Prop where
  le : m ≤ 2 * binade
  normal : e = 0 ∨ binade ≤ m

theorem binade_eq : binade = 2 ^ 52 := rfl

theorem units_scaled {m e : Nat} (h : Scaled m e) : units (e * binade + m) = m * 2 ^ e := by
  obtain ⟨hle, hnormal⟩ := h
  have hpos : 0 < binade := by decide
  unfold units
  by_cases hsmall : m < binade
  · obtain rfl : e = 0 := by omega
    simp [Nat.div_eq_of_lt hsmall]
  · -- Past the first binade the rank keeps the mantissa without its leading digit.
    obtain ⟨k, rfl⟩ : ∃ k, m = binade + k := ⟨m - binade, by omega⟩
    have hrank : e * binade + (binade + k) = binade * (e + 1) + k := by ring
    rw [hrank, Nat.mul_add_div hpos, Nat.mul_add_mod, Nat.pow_eq]
    rcases Nat.lt_or_ge k binade with hk | hk
    · simp [Nat.div_eq_of_lt hk, Nat.mod_eq_of_lt hk]
    · obtain rfl : k = binade := by omega
      simp [Nat.div_self hpos]
      ring

theorem exists_scaled (rank : Nat) :
    ∃ m e, Scaled m e ∧ m < 2 * binade ∧ rank = e * binade + m := by
  have hpos : 0 < binade := by decide
  have hdiv := Nat.div_add_mod' rank binade
  have hlt := Nat.mod_lt rank hpos
  by_cases hsmall : rank < binade
  · exact ⟨rank, 0, ⟨by omega, .inl rfl⟩, by omega, by simp⟩
  · have hge : 1 ≤ rank / binade := (Nat.one_le_div_iff hpos).2 (by omega)
    refine ⟨binade + rank % binade, rank / binade - 1, ⟨by omega, .inr (by omega)⟩, by omega, ?_⟩
    rw [Nat.sub_mul, Nat.one_mul]
    have hle := Nat.mul_le_mul_right binade hge
    omega

/-! ## To a rank -/

/-- The quotient lies in the binade whose magnitudes are `2 ^ e` apart. -/
def Within (num den e : Nat) : Prop :=
  num < 2 * binade * (den * 2 ^ e) ∧ (e = 0 ∨ binade * (den * 2 ^ e) ≤ num)

theorem within_excess {den : Nat} (hden : 0 < den) (num : Nat) :
    Within num den ((num / den).log2 - 52) := by
  have hhigh := @Nat.lt_log2_self (num / den)
  have hlow := @Nat.log2_self_le (num / den)
  generalize hlog : (num / den).log2 = k at hhigh hlow ⊢
  rw [Nat.div_lt_iff_lt_mul hden, Nat.mul_comm] at hhigh
  constructor
  · have hpow : 2 ^ (k + 1) ≤ 2 ^ (k - 52 + 53) := Nat.pow_le_pow_right (by decide) (by omega)
    calc num < den * 2 ^ (k + 1) := hhigh
      _ ≤ den * 2 ^ (k - 52 + 53) := Nat.mul_le_mul_left den hpow
      _ = 2 * binade * (den * 2 ^ (k - 52)) := by rw [binade_eq]; ring
  · by_cases hzero : k - 52 = 0
    · exact .inl hzero
    · have hne : num / den ≠ 0 := by
        rintro h
        simp [h] at hlog
        omega
      right
      calc binade * (den * 2 ^ (k - 52)) = den * 2 ^ (k - 52 + 52) := by rw [binade_eq]; ring
        _ = den * 2 ^ k := by rw [Nat.sub_add_cancel (by omega)]
        _ ≤ den * (num / den) := Nat.mul_le_mul_left den (hlow hne)
        _ ≤ num := Nat.mul_div_le num den

theorem Within.le_of_le {num den d e : Nat} (he : Within num den e)
    (hlow : binade * (den * 2 ^ d) ≤ num) : d ≤ e := by
  by_contra hlt
  have hpow : 2 ^ (e + 1) ≤ 2 ^ d := Nat.pow_le_pow_right (by decide) (by omega)
  have hstep := Nat.mul_le_mul_left (binade * den) hpow
  have hhigh := he.1
  rw [show 2 * binade * (den * 2 ^ e) = binade * den * 2 ^ (e + 1) by ring] at hhigh
  rw [← Nat.mul_assoc] at hlow
  omega

theorem Within.le {num den d e : Nat} (hd : Within num den d) (he : Within num den e) : d ≤ e := by
  rcases hd.2 with rfl | hlow
  · exact Nat.zero_le e
  · exact he.le_of_le hlow

theorem nearestRank_within {num den e : Nat} (hden : 0 < den) (h : Within num den e) :
    nearestRank num den = e * binade + roundHalfEven num (den * 2 ^ e) := by
  have hexcess := within_excess hden num
  obtain rfl : (num / den).log2 - 52 = e := Nat.le_antisymm (hexcess.le h) (h.le hexcess)
  rfl

theorem le_nearestRank {num den e : Nat} (hden : 0 < den) (h : binade * (den * 2 ^ e) ≤ num) :
    e * binade ≤ nearestRank num den := by
  have hwithin := within_excess hden num
  have hle := Nat.mul_le_mul_right binade (hwithin.le_of_le h)
  rw [nearestRank_within hden hwithin]
  omega

theorem Within.scaled {num den e : Nat} (hden : 0 < den) (h : Within num den e) :
    Scaled (roundHalfEven num (den * 2 ^ e)) e := by
  have hstep : 0 < den * 2 ^ e := Nat.mul_pos hden (Nat.two_pow_pos e)
  exact ⟨roundHalfEven_le hstep (Nat.le_of_lt h.1), h.2.imp_right (le_roundHalfEven hstep)⟩

theorem units_nearestRank {num den e : Nat} (hden : 0 < den) (h : Within num den e) :
    units (nearestRank num den) = roundHalfEven num (den * 2 ^ e) * 2 ^ e := by
  rw [nearestRank_within hden h, units_scaled (h.scaled hden)]

/-- The nearest magnitude is at most half of the distance between neighbours away. -/
theorem units_nearestRank_near {num den e : Nat} (hden : 0 < den) (h : Within num den e) :
    2 * num ≤ 2 * (units (nearestRank num den) * den) + den * 2 ^ e ∧
      2 * (units (nearestRank num den) * den) ≤ 2 * num + den * 2 ^ e := by
  have hstep : 0 < den * 2 ^ e := Nat.mul_pos hden (Nat.two_pow_pos e)
  have hnear := roundHalfEven_near hstep num
  rw [units_nearestRank hden h]
  rwa [show ∀ m : Nat, m * 2 ^ e * den = m * (den * 2 ^ e) from fun m => by ring]

/-- The nearest rank depends on the quotient alone. -/
theorem nearestRank_mul {k : Nat} (hk : 0 < k) (num den : Nat) :
    nearestRank (num * k) (den * k) = nearestRank num den := by
  unfold nearestRank
  dsimp only
  rw [Nat.mul_div_mul_right _ _ hk, Nat.mul_right_comm, roundHalfEven_mul hk]

/-- A mantissa that is less than half a distance away, and no power of two, gives the nearest
rank. -/
theorem nearestRank_eq {num den m e : Nat} (hnormal : binade < m) (hm : m < 2 * binade)
    (hlow : 2 * (m * 2 ^ e * den) < 2 * num + den * 2 ^ e)
    (hhigh : 2 * num < 2 * (m * 2 ^ e * den) + den * 2 ^ e) :
    nearestRank num den = e * binade + m := by
  have hden : 0 < den := by
    by_contra h
    simp only [Nat.not_lt, Nat.le_zero] at h
    subst h
    omega
  rw [show m * 2 ^ e * den = m * (den * 2 ^ e) by ring] at hlow hhigh
  have hwithin : Within num den e := by
    have hup := Nat.mul_le_mul_right (den * 2 ^ e) (show m + 1 ≤ 2 * binade by omega)
    have hdown := Nat.mul_le_mul_right (den * 2 ^ e) (show binade + 1 ≤ m by omega)
    rw [Nat.succ_mul] at hup hdown
    exact ⟨by omega, .inr (by omega)⟩
  rw [nearestRank_within hden hwithin, roundHalfEven_eq hlow hhigh]

/-- A magnitude is its own nearest. -/
theorem nearestRank_units {den : Nat} (hden : 0 < den) (rank : Nat) :
    nearestRank (units rank * den) den = rank := by
  obtain ⟨m, e, hscaled, hm, rfl⟩ := exists_scaled rank
  have hstep : 0 < den * 2 ^ e := Nat.mul_pos hden (Nat.two_pow_pos e)
  rw [units_scaled hscaled, show m * 2 ^ e * den = m * (den * 2 ^ e) by ring]
  have hwithin : Within (m * (den * 2 ^ e)) den e :=
    ⟨Nat.mul_lt_mul_of_pos_right hm hstep,
      hscaled.normal.imp_right fun h => Nat.mul_le_mul_right _ h⟩
  rw [nearestRank_within hden hwithin, roundHalfEven_exact hstep]

end Number
end EchoScript
