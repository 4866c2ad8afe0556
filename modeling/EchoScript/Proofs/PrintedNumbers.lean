import EchoScript.Proofs.DecimalTexts
import Mathlib.Algebra.Group.Int.Even
import Mathlib.Algebra.Order.Round
import Mathlib.Data.Rat.Floor

/-!
# EchoScript.Proofs.PrintedNumbers

A printed number is the canonical text of its exact value, rounded to eight places.

`NearestEven x n` says which whole number `x` is rounded to, over all whole numbers. To be at most
one half away is enough for it (`nearestEven_of_half`), and it determines the number
(`NearestEven.unique`).
-/

namespace EchoScript

/-! ## The nearest whole number -/

/-- No whole number is nearer to `x` than `n`, and if another is as near then `n` is even. -/
def NearestEven (x : ℚ) (n : ℤ) : Prop :=
  ∀ m : ℤ, m ≠ n → |x - n| < |x - m| ∨ (|x - n| = |x - m| ∧ Even n)

theorem abs_sub_le_distances (x : ℚ) (m n : ℤ) : |(m : ℚ) - n| ≤ |x - m| + |x - n| := by
  rw [abs_sub_comm x m]
  exact abs_sub_le _ _ _

theorem nearestEven_of_half {x : ℚ} {n : ℤ} (hle : |x - n| ≤ 1 / 2)
    (htie : |x - n| = 1 / 2 → Even n) : NearestEven x n := by
  intro m hm
  have hapart : (1 : ℚ) ≤ |(m : ℚ) - n| := by
    exact_mod_cast Int.one_le_abs (sub_ne_zero.2 hm)
  have hdistances := abs_sub_le_distances x m n
  rcases lt_or_eq_of_le hle with hlt | heq
  · exact .inl (by linarith)
  · rcases lt_or_eq_of_le (show |x - n| ≤ |x - m| by linarith) with hlt | hsame
    · exact .inl hlt
    · exact .inr ⟨hsame, htie heq⟩

theorem NearestEven.half {x : ℚ} {n : ℤ} (h : NearestEven x n) : |x - n| ≤ 1 / 2 := by
  have hround := abs_sub_round x
  by_cases heq : round x = n
  · rwa [heq] at hround
  · rcases h (round x) heq with hlt | ⟨hsame, -⟩
    · exact hlt.le.trans hround
    · exact hsame.le.trans hround

theorem NearestEven.unique {x : ℚ} {m n : ℤ} (hm : NearestEven x m) (hn : NearestEven x n) :
    m = n := by
  by_contra hne
  have heven : Even m ∧ Even n := by
    rcases hm n (Ne.symm hne) with hlt | ⟨heq, hm⟩
    · rcases hn m hne with hlt' | ⟨heq, -⟩
      · exact absurd (hlt.trans hlt') (lt_irrefl _)
      · exact absurd heq hlt.ne'
    · rcases hn m hne with hlt' | ⟨-, hn⟩
      · exact absurd heq hlt'.ne'
      · exact ⟨hm, hn⟩
  -- Both are at most one half away, so that they are neighbours, and one of these is odd.
  have hnear : |(m : ℚ) - n| ≤ 1 := by
    have hdistances := abs_sub_le_distances x m n
    have hm' := hm.half
    have hn' := hn.half
    linarith
  have hnext : |m - n| ≤ 1 := by exact_mod_cast hnear
  obtain ⟨⟨a, rfl⟩, ⟨b, rfl⟩⟩ := heven
  rw [abs_le] at hnext
  omega

theorem NearestEven.neg {x : ℚ} {n : ℤ} (h : NearestEven x n) : NearestEven (-x) (-n) := by
  intro m hm
  have hmirror : ∀ k : ℤ, |-x - k| = |x - (-k : ℤ)| := by
    intro k
    rw [← abs_neg]
    congr 1
    push_cast
    ring
  have hother := h (-m) (by omega)
  rwa [hmirror, hmirror, neg_neg, even_neg]

theorem nearestEven_roundHalfEven {den : Nat} (hden : 0 < den) (num : Nat) :
    NearestEven ((num : ℚ) / den) (roundHalfEven num den) := by
  have hpos : (0 : ℚ) < den := by exact_mod_cast hden
  obtain ⟨hlow, hhigh⟩ := roundHalfEven_near hden num
  have htie := @roundHalfEven_tie num den hden
  generalize roundHalfEven num den = n at hlow hhigh htie ⊢
  have hlow' : (2 : ℚ) * num ≤ 2 * (n * den) + den := by exact_mod_cast hlow
  have hhigh' : (2 : ℚ) * (n * den) ≤ 2 * num + den := by exact_mod_cast hhigh
  have hdistance : |(num : ℚ) / den - (n : ℤ)| = |(num : ℚ) - n * den| / den := by
    rw [← abs_of_pos hpos, ← abs_div, abs_of_pos hpos]
    congr 1
    push_cast
    field_simp
  refine nearestEven_of_half ?_ ?_
  · rw [hdistance, div_le_iff₀ hpos, abs_le]
    constructor <;> linarith
  · intro hhalf
    rw [hdistance, div_eq_iff hpos.ne', abs_eq (by positivity)] at hhalf
    have heven : n % 2 = 0 := by
      refine htie (hhalf.imp ?_ ?_)
      · intro h
        have hcast : (2 : ℚ) * num = 2 * (n * den) + den := by linarith
        exact_mod_cast hcast
      · intro h
        have hcast : (2 : ℚ) * (n * den) = 2 * num + den := by linarith
        exact_mod_cast hcast
    exact_mod_cast Nat.even_iff.2 heven

/-- `q` is the multiple of `10 ^ (-places)` nearest to `x`; of two that are as near, it is the one
with the even last digit. -/
def RoundsTo (places : Nat) (x q : ℚ) : Prop :=
  ∃ n : ℤ, q = n / 10 ^ places ∧ NearestEven (x * 10 ^ places) n

theorem RoundsTo.unique {places : Nat} {x q q' : ℚ} (h : RoundsTo places x q)
    (h' : RoundsTo places x q') : q = q' := by
  obtain ⟨n, rfl, hn⟩ := h
  obtain ⟨m, rfl, hm⟩ := h'
  rw [hn.unique hm]

theorem RoundsTo.near {places : Nat} {x q : ℚ} (h : RoundsTo places x q) :
    |x - q| ≤ 1 / 10 ^ places / 2 := by
  obtain ⟨n, rfl, hn⟩ := h
  have hpos : (0 : ℚ) < 10 ^ places := by positivity
  have hscale : x - n / 10 ^ places = (x * 10 ^ places - n) / 10 ^ places := by field_simp
  rw [hscale, abs_div, abs_of_pos hpos, div_right_comm]
  exact div_le_div_of_nonneg_right hn.half hpos.le

/-- A whole number is rounded to itself. -/
theorem roundsTo_self (places : Nat) (k : ℤ) : RoundsTo places k k := by
  refine ⟨k * 10 ^ places, ?_, nearestEven_of_half ?_ ?_⟩
  · push_cast
    field_simp
  · simp
  · simp

namespace Number

/-! ## Printing -/

def exactValue (negative : Bool) (rank : Nat) : ℚ :=
  DecimalText.sign negative * (units rank / resolution)

theorem exactValue_scaled (negative : Bool) {m e : Nat} (h : Scaled m e) :
    exactValue negative (e * binade + m) =
      DecimalText.sign negative * (m * 2 ^ ((e : ℤ) - finestPlaces)) := by
  rw [exactValue, units_scaled h, resolution_eq, zpow_sub₀ two_ne_zero, zpow_natCast, zpow_natCast]
  push_cast
  ring

def printed (negative : Bool) (rank : Nat) : DecimalText :=
  .ofDecimal negative (rounded rank)

theorem text_printed (negative : Bool) (rank : Fin ranks) :
    (printed negative rank).text = print (.finite negative rank) :=
  DecimalText.text_ofDecimal negative (rounded rank)

theorem value_printed (negative : Bool) (rank : Nat) : (printed negative rank).value =
    DecimalText.sign negative * ((rounded rank).coefficient / 10 ^ printPlaces) :=
  DecimalText.value_ofDecimal negative (rounded rank)

theorem roundsTo_printed (negative : Bool) (rank : Nat) :
    RoundsTo printPlaces (exactValue negative rank) (printed negative rank).value := by
  have hpos : 0 < resolution := by
    rw [resolution_eq]
    exact Nat.two_pow_pos _
  have hcoefficient : (rounded rank).coefficient =
      roundHalfEven (units rank * 10 ^ printPlaces) resolution := by
    simp only [rounded, Nat.pow_eq]
  have hnear := nearestEven_roundHalfEven hpos (units rank * 10 ^ printPlaces)
  rw [← hcoefficient] at hnear
  have hscale : (units rank : ℚ) / resolution * 10 ^ printPlaces =
      (units rank * 10 ^ printPlaces : ℕ) / resolution := by
    push_cast
    ring
  rw [value_printed, exactValue]
  cases negative with
  | false =>
    refine ⟨(rounded rank).coefficient, ?_, ?_⟩
    · rw [DecimalText.sign_false, one_mul, Int.cast_natCast]
    · rwa [DecimalText.sign_false, one_mul, hscale]
  | true =>
    refine ⟨-(rounded rank).coefficient, ?_, ?_⟩
    · rw [DecimalText.sign_true, neg_one_mul, ← neg_div, Int.cast_neg, Int.cast_natCast]
    · rw [DecimalText.sign_true, neg_one_mul, neg_mul, hscale]
      exact hnear.neg

theorem eq_printed {negative : Bool} {rank : Nat} {t : DecimalText} (ht : t.IsCanonical)
    (h : RoundsTo printPlaces (exactValue negative rank) t.value) : t = printed negative rank :=
  ht.eq_of_value (DecimalText.isCanonical_ofDecimal negative (rounded rank))
    (h.unique (roundsTo_printed negative rank))

theorem print_of_roundsTo_int {negative : Bool} {rank : Fin ranks} {k : ℤ}
    (h : RoundsTo printPlaces (exactValue negative rank) k) :
    print (.finite negative rank) = k.repr := by
  have hcanonical : (DecimalText.ofInt k).IsCanonical := DecimalText.isCanonical_ofDecimal _ _
  rw [← DecimalText.value_ofInt k] at h
  rw [← text_printed, ← eq_printed hcanonical h, DecimalText.text_ofInt]

/-- A finite number is printed as the one canonical text of its exact value rounded to eight places,
a tie going to the even last digit. So the text is at most half a step of the last place away, a
whole number is printed with all its digits, and what rounds to zero is printed as zero. -/
theorem print_nearest_canonical (negative : Bool) (rank : Fin ranks) :
    ∃ t : DecimalText, print (.finite negative rank) = t.text ∧ t.IsCanonical ∧
      t.fraction.length ≤ 8 ∧ RoundsTo 8 (exactValue negative rank) t.value ∧
      (∀ u : DecimalText, u.IsCanonical → RoundsTo 8 (exactValue negative rank) u.value → u = t) ∧
      |exactValue negative rank - t.value| ≤ 1 / 10 ^ 8 / 2 ∧
      (∀ k : ℤ, exactValue negative rank = k → print (.finite negative rank) = k.repr) ∧
      (RoundsTo 8 (exactValue negative rank) 0 → print (.finite negative rank) = "0") := by
  have hrounds := roundsTo_printed negative rank
  refine ⟨printed negative rank, (text_printed negative rank).symm,
    DecimalText.isCanonical_ofDecimal negative (rounded rank),
    DecimalText.length_fraction_ofDecimal negative (rounded rank), hrounds,
    fun u hu => eq_printed hu, hrounds.near, ?_, ?_⟩
  · intro k hk
    refine print_of_roundsTo_int ?_
    rw [hk]
    exact roundsTo_self printPlaces k
  · intro hzero
    rw [← Int.cast_zero] at hzero
    exact print_of_roundsTo_int hzero

/-- A tie, a whole number below zero, and a number below zero that rounds to it. -/
theorem print_tie_whole_and_zero :
    exactValue false (1014 * binade) = 1 / 2 ^ 9 ∧
    print (.ofRank false (1014 * binade)) = "0.00195312" ∧
    exactValue true (1076 * binade) = (-9007199254740992 : ℤ) ∧
    print (.ofRank true (1076 * binade)) = "-9007199254740992" ∧
    exactValue true (995 * binade) = -1 / 2 ^ 28 ∧
    RoundsTo 8 (exactValue true (995 * binade)) 0 ∧
    print (.ofRank true (995 * binade)) = "0" := by
  have hbinade : (binade : ℚ) = 2 ^ 52 := by norm_num [binade_eq]
  have hexact : ∀ negative e, exactValue negative ((e + 1) * binade) =
      DecimalText.sign negative * (2 ^ 52 * 2 ^ ((e : ℤ) - finestPlaces)) := by
    intro negative e
    rw [Nat.succ_mul, exactValue_scaled negative ⟨by omega, .inr (Nat.le_refl _)⟩, hbinade]
  have htie : exactValue false (1014 * binade) = 1 / 2 ^ 9 := by
    rw [hexact false 1013]
    norm_num [finestPlaces]
  have hwhole : exactValue true (1076 * binade) = (-9007199254740992 : ℤ) := by
    rw [hexact true 1075]
    norm_num [finestPlaces]
  have hsmall : exactValue true (995 * binade) = -1 / 2 ^ 28 := by
    rw [hexact true 994]
    norm_num [finestPlaces]
  have hzero : RoundsTo 8 (exactValue true (995 * binade)) 0 := by
    refine ⟨0, by simp, nearestEven_of_half ?_ ?_⟩
    · rw [hsmall, abs_le]
      norm_num
    · simp
  refine ⟨htie, ?_, hwhole, ?_, hsmall, hzero, ?_⟩
  · obtain ⟨t, ht, -, -, -, hunique, -⟩ :=
      print_nearest_canonical false ⟨1014 * binade, by decide⟩
    have hrounds : RoundsTo 8 (exactValue false (1014 * binade))
        (DecimalText.ofDecimal false ⟨195312, 8⟩).value := by
      rw [htie, DecimalText.value_ofDecimal]
      refine ⟨195312, by simp [Decimal.value], nearestEven_of_half ?_ ?_⟩
      · rw [abs_le]
        norm_num
      · intro _
        decide
    have hprint := hunique _ (DecimalText.isCanonical_ofDecimal false _) hrounds
    rw [← hprint] at ht
    exact ht
  · obtain ⟨t, -, -, -, -, -, -, hint, -⟩ :=
      print_nearest_canonical true ⟨1076 * binade, by decide⟩
    exact hint _ hwhole
  · obtain ⟨t, -, -, -, -, -, -, -, hnothing⟩ :=
      print_nearest_canonical true ⟨995 * binade, by decide⟩
    exact hnothing hzero

end Number
end EchoScript
