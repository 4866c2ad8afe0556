import EchoScript.Proofs.Numerals

/-!
# EchoScript.Proofs.ShortestTexts

The shortest text of a number tells it from every other one.

The search for a short fraction only ever stops at one that reads back, and in the end it comes to
the exact magnitude, which does (`shortestSteps_fits`). So the text of a finite number is a numeral of
the language that spells this very number (`spells_full`), and the other numbers are written with
letters.
-/

namespace EchoScript
namespace Number

/-! ## The search -/

theorem gridPoint?_fits {fits : Nat → Bool} {exact spacing point : Nat}
    (h : gridPoint? fits exact spacing = some point) : fits point = true := by
  simp only [gridPoint?] at h
  split at h
  · rename_i hbelow habove
    obtain rfl := Option.some.inj h
    split
    · exact hbelow
    · exact habove
  · rename_i hbelow _
    rwa [← Option.some.inj h]
  · rename_i _ habove
    rwa [← Option.some.inj h]
  · cases h

theorem shortestSteps_fits {fits : Nat → Bool} {exact : Nat} (h : fits exact = true) (n : Nat) :
    fits (shortestSteps fits exact n) = true := by
  induction n with
  | zero => exact h
  | succ n ih =>
    rw [shortestSteps]
    split
    · rename_i point hpoint
      exact gridPoint?_fits hpoint
    · exact ih

theorem readsBack_iff {rank candidate : Nat} : readsBack rank candidate = true ↔
    nearestRank (candidate * resolution) (10 ^ finestPlaces) = rank := by
  rw [readsBack, beq_iff_eq, Nat.pow_eq]

theorem ofDecimal_shortest (negative : Bool) (rank : Fin ranks) :
    ofDecimal negative (shortest rank) = .finite negative rank := by
  have hexact : readsBack rank (steps rank) = true := readsBack_iff.2 (nearestRank_steps rank)
  have hrank := readsBack_iff.1 (shortestSteps_fits hexact (coarsest (steps rank)))
  rw [shortest, ofDecimal_trim, ofDecimal, Nat.pow_eq, hrank, ofRank_rank]

/-! ## The text -/

/-- The text of a finite number is read as the number. -/
theorem spells_full (negative : Bool) (rank : Fin ranks) :
    Token.Spells (full (.finite negative rank)).toList (.number (.finite negative rank)) := by
  have hspells := spells_signed_text negative (shortest rank)
  rwa [ofDecimal_shortest] at hspells

/-- The characters of numerals. -/
def IsNumeric (c : Char) : Prop := Token.IsDigit c ∨ c = '.' ∨ c = '-'

instance (c : Char) : Decidable (IsNumeric c) := inferInstanceAs (Decidable (_ ∨ _))

theorem full_numeric (negative : Bool) (rank : Fin ranks) :
    ∀ c ∈ (full (.finite negative rank)).toList, IsNumeric c := by
  have hspells := spells_full negative rank
  generalize (full (.finite negative rank)).toList = cs at hspells
  generalize Number.finite negative rank = x at hspells
  intro c hc
  cases hspells with
  | number h => exact (h.chars c hc).imp_right .inl
  | negative h =>
    rcases List.mem_cons.1 hc with rfl | hc
    · exact .inr (.inr rfl)
    · exact (h.chars c hc).imp_right .inl

/-- No text of another number is that of a finite one: it has a letter. -/
theorem eq_of_full_eq {x : Number} {negative : Bool} {rank : Fin ranks}
    (h : full x = full (.finite negative rank)) : x = .finite negative rank := by
  have hnumeric := full_numeric negative rank
  rw [← h] at hnumeric
  cases x with
  | nan => exact absurd (hnumeric 'N' (by decide)) (by decide)
  | infinite s => exact absurd (hnumeric 'n' (by cases s <;> decide)) (by decide)
  | finite s r =>
    have hspells := spells_full s r
    rw [h] at hspells
    exact Token.number.inj (hspells.unique (spells_full negative rank))

theorem full_injective : Function.Injective full := by
  intro x y h
  cases y with
  | finite negative rank => exact eq_of_full_eq h
  | nan =>
    cases x with
    | nan => rfl
    | infinite s => cases s <;> exact absurd h (by decide)
    | finite s r => exact (eq_of_full_eq h.symm).symm
  | infinite t =>
    cases x with
    | nan => cases t <;> exact absurd h (by decide)
    | infinite s =>
      have hsame : s = t := by
        revert h
        cases s <;> cases t <;> decide
      rw [hsame]
    | finite s r => exact (eq_of_full_eq h.symm).symm

end Number
end EchoScript
