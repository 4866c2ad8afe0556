import EchoScript.Proofs.PrintedNumbers
import EchoScript.Proofs.Reprinting

/-!
# EchoScript.Proofs.EchoedNumerals

A number that a script writes is shown as it was written, less its superfluous characters.

The number is rounded twice on its way, to the nearest double and to eight places. Below `2 ^ 26`
the second rounding undoes the first (`shown_places`), and whole numbers up to `2 ^ 53` are not
rounded at all (`shown_whole`).
-/

namespace EchoScript

namespace Number

/-! ## Rounding to and fro -/

/-- A whole number up to `2 ^ 53` is a whole number of the steps in its binade. -/
theorem Within.exists_steps {k f e : Nat} (hk : k ≤ 2 ^ 53) (h : Within (k * 2 ^ f) 1 e) :
    e ≤ f + 1 ∧ ∃ q, k * 2 ^ f = q * (1 * 2 ^ e) := by
  have htop : k * 2 ^ f ≤ 2 ^ (53 + f) := by
    rw [Nat.pow_add]
    exact Nat.mul_le_mul_right _ hk
  have hlow : e = 0 ∨ 2 ^ (52 + e) ≤ k * 2 ^ f := by
    refine h.2.imp_right fun hlow => ?_
    rwa [Nat.one_mul, binade_eq, ← Nat.pow_add] at hlow
  have he : e ≤ f + 1 := by
    rcases hlow with rfl | hlow
    · omega
    · have hle := (Nat.pow_le_pow_iff_right (by decide)).1 (hlow.trans htop)
      omega
  refine ⟨he, ?_⟩
  rcases Nat.lt_or_ge f e with hlt | hge
  · -- Only the last of these numbers has steps of more than one, and it is a power of two.
    obtain rfl : e = f + 1 := by omega
    rw [show 53 + f = 52 + (f + 1) by omega] at htop
    refine ⟨2 ^ 52, ?_⟩
    rw [Nat.one_mul, ← Nat.pow_add]
    exact Nat.le_antisymm htop (hlow.resolve_left (by omega))
  · refine ⟨k * 2 ^ (f - e), ?_⟩
    rw [Nat.one_mul, Nat.mul_assoc, ← Nat.pow_add, Nat.sub_add_cancel hge]

theorem units_nearestRank_whole {f k : Nat} (hk : k ≤ 2 ^ 53) :
    units (nearestRank (k * 2 ^ f) 1) = k * 2 ^ f ∧
      nearestRank (k * 2 ^ f) 1 ≤ (f + 3) * binade := by
  have hwithin := within_excess Nat.one_pos (k * 2 ^ f)
  generalize (k * 2 ^ f / 1).log2 - 52 = e at hwithin
  obtain ⟨he, q, hq⟩ := hwithin.exists_steps hk
  have hstep : 0 < 1 * 2 ^ e := Nat.mul_pos Nat.one_pos (Nat.two_pow_pos e)
  constructor
  · rw [units_nearestRank Nat.one_pos hwithin, hq, roundHalfEven_exact hstep, Nat.one_mul]
  · rw [nearestRank_within Nat.one_pos hwithin]
    have hm := (hwithin.scaled Nat.one_pos).le
    calc e * binade + roundHalfEven (k * 2 ^ f) (1 * 2 ^ e) ≤ (e + 2) * binade := by
          rw [Nat.add_mul]
          omega
      _ ≤ (f + 3) * binade := Nat.mul_le_mul_right binade (by omega)

/-- The fraction is read as a finite number that rounds to it. -/
def Shown (negative : Bool) (d : Decimal) : Prop :=
  ∃ rank : Fin ranks, ofDecimal negative d = .finite negative rank ∧ (rounded rank).value = d.value

theorem shown_places {q : Nat} (hq : q ≤ 2 ^ 26 * 10 ^ printPlaces) (negative : Bool) :
    Shown negative ⟨q, printPlaces⟩ := by
  obtain ⟨hrounded, hlt⟩ := rounded_nearestRank hq
  refine ⟨⟨_, hlt⟩, dif_pos hlt, ?_⟩
  rw [Decimal.value, hrounded]
  rfl

theorem shown_whole {k : Nat} (hk : k ≤ 2 ^ 53) (negative : Bool) : Shown negative ⟨k, 0⟩ := by
  obtain ⟨hunits, hle⟩ := @units_nearestRank_whole finestPlaces k hk
  have hranks : (finestPlaces + 3) * binade < 2047 * binade :=
    Nat.mul_lt_mul_of_pos_right (by decide) (by decide)
  have hlt : nearestRank (k * resolution) 1 < ranks := by
    rw [resolution_eq]
    exact Nat.lt_of_le_of_lt hle hranks
  refine ⟨⟨_, hlt⟩, dif_pos hlt, ?_⟩
  have hcoefficient : (rounded (nearestRank (k * resolution) 1)).coefficient =
      k * 10 ^ printPlaces := by
    rw [rounded_coefficient, resolution_eq, hunits, Nat.mul_right_comm,
      roundHalfEven_exact (Nat.two_pow_pos _)]
  rw [Decimal.value_eq_value_iff, hcoefficient, Nat.pow_zero, Nat.mul_one]
  rfl

theorem Shown.congr {negative : Bool} {d d' : Decimal} (h : Shown negative d)
    (hvalue : d.value = d'.value) : Shown negative d' := by
  obtain ⟨rank, hread, hrounded⟩ := h
  refine ⟨rank, ?_, hrounded.trans hvalue⟩
  rw [← hread]
  exact ofDecimal_congr (Decimal.value_eq_value_iff.1 hvalue.symm) negative

/-- What is shown of a number is the text of the fraction that it was read from. -/
theorem Shown.print {negative : Bool} {d : Decimal} (h : Shown negative d) :
    (ofDecimal negative d).print = (DecimalText.ofDecimal negative d).text := by
  obtain ⟨rank, hread, hrounded⟩ := h
  have hsame : printed negative rank = DecimalText.ofDecimal negative d := by
    refine (DecimalText.isCanonical_ofDecimal _ _).eq_of_value
      (DecimalText.isCanonical_ofDecimal _ _) ?_
    rw [DecimalText.value_ofDecimal, DecimalText.value_ofDecimal, hrounded]
  rw [hread, ← text_printed, hsame]

end Number

namespace DecimalText

/-- The text spells the number nearest to its value. -/
theorem spells_text (t : DecimalText) :
    Token.Spells t.text.toList (.number (Number.ofDecimal t.negative t.magnitude)) := by
  refine Number.spells_signed ?_ t.negative
  by_cases hnone : t.fraction = []
  · have hnumeral := Token.Numeral.whole t.whole_ne_nil t.whole_digits
    rwa [unsigned, if_pos hnone, magnitude, hnone]
  · rw [unsigned, if_neg hnone]
    exact .fraction t.whole_ne_nil t.whole_digits hnone t.fraction_digits

theorem shown_of_places {t : DecimalText} {n : ℤ} (hn : t.value = n / 10 ^ 8)
    (hlt : |t.value| < 2 ^ 26) : Number.Shown t.negative t.magnitude := by
  have hvalue : t.magnitude.value = n.natAbs / 10 ^ 8 := by
    rw [← abs_value, hn, abs_div]
    simp
  have hle : n.natAbs ≤ 2 ^ 26 * 10 ^ 8 := by
    rw [abs_value, hvalue, div_lt_iff₀ (by positivity)] at hlt
    exact_mod_cast hlt.le
  exact (Number.shown_places hle t.negative).congr hvalue.symm

theorem shown_of_whole {t : DecimalText} {n : ℤ} (hn : t.value = n) (hle : |t.value| ≤ 2 ^ 53) :
    Number.Shown t.negative t.magnitude := by
  have hvalue : t.magnitude.value = n.natAbs := by
    rw [← abs_value, hn]
    simp
  have hle : n.natAbs ≤ 2 ^ 53 := by
    rw [abs_value, hvalue] at hle
    exact_mod_cast hle
  refine (Number.shown_whole hle t.negative).congr ?_
  rw [hvalue]
  simp [Decimal.value]

end DecimalText

namespace Script

/-- A number with at most eight places below `2 ^ 26`, or a whole number up to `2 ^ 53`, is shown as
it was written, less superfluous zeros, a point with no digit behind it and the sign of a zero:
that is the canonical text of its own value. -/
theorem run_echo_numeral (t : DecimalText)
    (h : ((∃ n : ℤ, t.value = n / 10 ^ 8) ∧ |t.value| < 2 ^ 26) ∨
      ((∃ n : ℤ, t.value = n) ∧ |t.value| ≤ 2 ^ 53)) :
    t.tidy.IsCanonical ∧ t.tidy.value = t.value ∧
    (∀ u : DecimalText, u.IsCanonical → u.value = t.value → u = t.tidy) ∧
    ∀ env w refusal, run ⟨env, ⟨w, none, refusal⟩⟩ ("echo " ++ t.text) =
      ⟨⟨env, ⟨w ++ (t.tidy.text ++ "\n").toUTF8, none, refusal⟩⟩, none⟩ := by
  have hunique : ∀ u : DecimalText, u.IsCanonical → u.value = t.value → u = t.tidy :=
    fun u hu hvalue => hu.eq_of_value t.isCanonical_tidy (hvalue.trans t.value_tidy.symm)
  refine ⟨t.isCanonical_tidy, t.value_tidy, hunique, ?_⟩
  intro env w refusal
  have hshown : Number.Shown t.negative t.magnitude := by
    rcases h with ⟨⟨n, hn⟩, hlt⟩ | ⟨⟨n, hn⟩, hle⟩
    · exact DecimalText.shown_of_places hn hlt
    · exact DecimalText.shown_of_whole hn hle
  have hprint : (Number.ofDecimal t.negative t.magnitude).print = t.tidy.text := by
    rw [hshown.print, hunique _ (DecimalText.isCanonical_ofDecimal _ _)]
    exact DecimalText.value_ofDecimal _ _
  have hrenders : Token.Renders t.text.toList
      (Expr.number (.ofDecimal t.negative t.magnitude) 0).tokens := by
    have hword := Token.Renders.nil.word t.spells_text (by simp [Token.Seam])
    rwa [List.append_nil] at hword
  have hrenderable : (Expr.number (.ofDecimal t.negative t.magnitude) 0).Renderable :=
    Grammar.ofRank_ne_nan _ _
  rw [run_echo hrenderable hrenders, Expr.eval, Value.line, Value.print, hprint]

/-- A numeral just below `2 ^ 26` that starts and ends with zeros. -/
theorem run_echo_numeral_below_limit :
    ∃ t : DecimalText, t.text = "-0067108863.99999999000" ∧
      t.value = (-6710886399999999 : ℤ) / 10 ^ 8 ∧ |t.value| < 2 ^ 26 ∧
      ∀ env w refusal, run ⟨env, ⟨w, none, refusal⟩⟩ ("echo " ++ t.text) =
        ⟨⟨env, ⟨w ++ ("-67108863.99999999" ++ "\n").toUTF8, none, refusal⟩⟩, none⟩ := by
  let t : DecimalText :=
    { negative := true
      whole := ['0', '0', '6', '7', '1', '0', '8', '8', '6', '3']
      fraction := ['9', '9', '9', '9', '9', '9', '9', '9', '0', '0', '0']
      whole_ne_nil := by simp
      whole_digits := by simp [Token.IsDigit]
      fraction_digits := by simp [Token.IsDigit] }
  have hmagnitude : t.magnitude = ⟨6710886399999999000, 11⟩ := by decide
  have hvalue : t.value = (-6710886399999999 : ℤ) / 10 ^ 8 := by
    rw [DecimalText.value, hmagnitude]
    norm_num [Decimal.value, t]
  have hlt : |t.value| < 2 ^ 26 := by
    rw [hvalue, abs_lt]
    norm_num
  have htidy : t.tidy.text = "-67108863.99999999" := by
    decide
  refine ⟨t, by decide, hvalue, hlt, ?_⟩
  rw [← htidy]
  exact (run_echo_numeral t (.inl ⟨⟨_, hvalue⟩, hlt⟩)).2.2.2

end Script

end EchoScript
