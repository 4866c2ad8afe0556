import EchoScript.Proofs.Rounding
import EchoScript.Proofs.Sessions

/-!
# EchoScript.Proofs.Equality

Equality of values as the language compares them. It is symmetric and transitive, and a value is
equal to itself unless there is a not-a-number in it; equal values cannot be told apart by what they
print or by what paths find in them.

The two zeros are equal and have different words. No print form shows the difference, because what
rounds to zero is written without a sign (`Number.print_of_isZero`).
-/

namespace EchoScript

/-! ## Numbers -/

namespace Number

/-- The number is one of the two zeros. -/
def IsZero (x : Number) : Prop := ∃ negative rank, x = .finite negative rank ∧ rank.val = 0

theorem equal_iff {x y : Number} :
    x.equal y = true ↔ x = y ∧ x ≠ .nan ∨ x.IsZero ∧ y.IsZero := by
  constructor
  · intro h
    cases x <;> cases y <;> simp only [equal, Bool.false_eq_true] at h
    case infinite.infinite s t => simp_all
    case finite.finite s r t q =>
      obtain ⟨rfl, rfl | hzero⟩ : r = q ∧ (s = t ∨ r.val = 0) := by simpa using h
      · exact .inl ⟨rfl, by simp⟩
      · exact .inr ⟨⟨s, r, rfl, hzero⟩, ⟨t, r, rfl, hzero⟩⟩
  · rintro (⟨rfl, hnan⟩ | ⟨⟨s, r, rfl, hr⟩, ⟨t, q, rfl, hq⟩⟩)
    · cases x <;> simp_all [equal]
    · obtain rfl : r = q := Fin.ext (hr.trans hq.symm)
      simp [equal, hr]

theorem equal_symm {x y : Number} (h : x.equal y = true) : y.equal x = true := by
  rw [equal_iff] at h ⊢
  obtain ⟨rfl, hnan⟩ | ⟨hx, hy⟩ := h
  · exact .inl ⟨rfl, hnan⟩
  · exact .inr ⟨hy, hx⟩

theorem equal_trans {x y z : Number} (h : x.equal y = true) (h' : y.equal z = true) :
    x.equal z = true := by
  rw [equal_iff] at h
  obtain ⟨rfl, -⟩ | ⟨hx, hy⟩ := h
  · exact h'
  · obtain ⟨rfl, -⟩ | ⟨-, hz⟩ := equal_iff.1 h'
    · exact equal_iff.2 (.inr ⟨hx, hy⟩)
    · exact equal_iff.2 (.inr ⟨hx, hz⟩)

theorem equal_self_iff {x : Number} : x.equal x = true ↔ x ≠ .nan := by
  rw [equal_iff]
  constructor
  · rintro (⟨-, hnan⟩ | ⟨⟨negative, rank, rfl, -⟩, -⟩)
    · exact hnan
    · simp
  · intro hnan
    exact .inl ⟨rfl, hnan⟩

theorem print_of_isZero {x : Number} (h : x.IsZero) : x.print = (rounded 0).text := by
  obtain ⟨negative, ⟨rank, hrank⟩, rfl, rfl⟩ := h
  have hunits : units 0 = 0 := by rw [units, Nat.zero_div, if_pos rfl]
  have hcoefficient : (rounded 0).coefficient = 0 := by
    simp only [rounded, hunits, Nat.zero_mul, roundHalfEven_zero]
  simp only [print, hcoefficient, signed, ne_eq, not_true_eq_false, decide_false, Bool.and_false,
    Bool.false_eq_true, if_false]

theorem print_of_equal {x y : Number} (h : x.equal y = true) : x.print = y.print := by
  obtain ⟨rfl, -⟩ | ⟨hx, hy⟩ := equal_iff.1 h
  · rfl
  · rw [print_of_isZero hx, print_of_isZero hy]

end Number

namespace Value

/-! ## Equality of values -/

theorem equalEntries_cons {k l : String} {v w : Value} {es fs : List (String × Value)} :
    equalEntries ((k, v) :: es) ((l, w) :: fs) = true ↔
      k = l ∧ v.equal w = true ∧ equalEntries es fs = true := by
  rw [equalEntries, Bool.and_eq_true, Bool.and_eq_true, decide_eq_true_iff, and_assoc]

mutual

theorem equal_symm : (v w : Value) → v.equal w = true → w.equal v = true
  | .null, .null, _ => rfl
  | .number _, .number _, h => Number.equal_symm h
  | .string _, .string _, h => by
    rw [equal, decide_eq_true_iff] at h ⊢
    exact h.symm
  | .map ⟨es⟩, .map ⟨fs⟩, h => equalEntries_symm es fs h

theorem equalEntries_symm : (es fs : List (String × Value)) → equalEntries es fs = true →
    equalEntries fs es = true
  | [], [], _ => rfl
  | (_, v) :: es, (_, w) :: fs, h => by
    obtain ⟨hkey, hvalue, hrest⟩ := equalEntries_cons.1 h
    exact equalEntries_cons.2 ⟨hkey.symm, equal_symm v w hvalue, equalEntries_symm es fs hrest⟩

end

mutual

theorem equal_trans : (v w u : Value) → v.equal w = true → w.equal u = true → v.equal u = true
  | .null, .null, .null, _, _ => rfl
  | .number _, .number _, .number _, h, h' => Number.equal_trans h h'
  | .string _, .string _, .string _, h, h' => by
    rw [equal, decide_eq_true_iff] at h h' ⊢
    exact h.trans h'
  | .map ⟨es⟩, .map ⟨fs⟩, .map ⟨gs⟩, h, h' => equalEntries_trans es fs gs h h'

theorem equalEntries_trans : (es fs gs : List (String × Value)) → equalEntries es fs = true →
    equalEntries fs gs = true → equalEntries es gs = true
  | [], [], [], _, _ => rfl
  | (_, v) :: es, (_, w) :: fs, (_, u) :: gs, h, h' => by
    obtain ⟨hkey, hvalue, hrest⟩ := equalEntries_cons.1 h
    obtain ⟨hkey', hvalue', hrest'⟩ := equalEntries_cons.1 h'
    exact equalEntries_cons.2 ⟨hkey.trans hkey', equal_trans v w u hvalue hvalue',
      equalEntries_trans es fs gs hrest hrest'⟩

end

/-! ## Where not-a-number stands -/

theorem inside_of_ne_map {w v : Value} (hv : ∀ m, v ≠ .map m) : Inside w v ↔ w = v := by
  constructor
  · intro h
    cases h with
    | self => rfl
    | @entry _ _ m => exact absurd rfl (hv m)
  · rintro rfl
    exact .self

theorem inside_map {w : Value} (hw : ∀ m, w ≠ .map m) {m : OrderedMap Value} :
    Inside w (.map m) ↔ ∃ e ∈ m.entries, Inside w e.2 := by
  constructor
  · intro h
    cases h with
    | self => exact absurd rfl (hw m)
    | entry he hinside => exact ⟨_, he, hinside⟩
  · rintro ⟨e, he, hinside⟩
    exact .entry he hinside

mutual

theorem equal_self_iff : (v : Value) → (v.equal v = true ↔ ¬ Inside (.number .nan) v)
  | .null => by simp [equal, inside_of_ne_map]
  | .number x => by
    rw [equal, Number.equal_self_iff, inside_of_ne_map (by simp), number.injEq, ne_eq, eq_comm]
  | .string _ => by simp [equal, inside_of_ne_map]
  | .map ⟨es⟩ => by
    rw [equal, equalEntries_self_iff es, inside_map (by simp)]
    simp

theorem equalEntries_self_iff : (es : List (String × Value)) →
    (equalEntries es es = true ↔ ∀ e ∈ es, ¬ Inside (.number .nan) e.2)
  | [] => by simp [equalEntries]
  | (_, v) :: es => by
    rw [equalEntries_cons, equal_self_iff v, equalEntries_self_iff es, List.forall_mem_cons]
    simp

end

/-! ## What equal values show -/

theorem typeName_of_equal {v w : Value} (h : v.equal w = true) : v.typeName = w.typeName := by
  cases v <;> cases w <;> first | rfl | simp [equal] at h

mutual

theorem print_of_equal : (v w : Value) → v.equal w = true → v.print = w.print
  | .null, .null, _ => rfl
  | .number _, .number _, h => Number.print_of_equal h
  | .string _, .string _, h => by
    rw [equal, decide_eq_true_iff] at h
    rw [h]
  | .map ⟨es⟩, .map ⟨fs⟩, h => by rw [print, print, printEntries_of_equal es fs h]

theorem printEntries_of_equal : (es fs : List (String × Value)) → equalEntries es fs = true →
    printEntries es = printEntries fs
  | [], [], _ => rfl
  | [(_, v)], [(_, w)], h => by
    obtain ⟨rfl, hvalue, -⟩ := equalEntries_cons.1 h
    rw [printEntries, printEntries, print_of_equal v w hvalue]
  | (_, v) :: e :: es, (_, w) :: f :: fs, h => by
    obtain ⟨rfl, hvalue, hrest⟩ := equalEntries_cons.1 h
    rw [printEntries, printEntries, print_of_equal v w hvalue,
      printEntries_of_equal (e :: es) (f :: fs) hrest]
  | [_], _ :: _ :: _, h | _ :: _ :: _, [_], h => by simp [equalEntries] at h

end

theorem lookup_of_equal (key : String) : (es fs : List (String × Value)) →
    equalEntries es fs = true →
    ((OrderedMap.lookup key es).getD .null).equal ((OrderedMap.lookup key fs).getD .null) = true
  | [], [], _ => rfl
  | (k, v) :: es, (_, w) :: fs, h => by
    obtain ⟨rfl, hvalue, hrest⟩ := equalEntries_cons.1 h
    rw [OrderedMap.lookup, OrderedMap.lookup]
    by_cases hk : k = key
    · rw [if_pos hk, if_pos hk]
      exact hvalue
    · rw [if_neg hk, if_neg hk]
      exact lookup_of_equal key es fs hrest

theorem field_of_equal (key : String) : (v w : Value) → v.equal w = true →
    (v.field key).equal (w.field key) = true
  | .null, .null, _ | .number _, .number _, _ | .string _, .string _, _ => rfl
  | .map ⟨es⟩, .map ⟨fs⟩, h => lookup_of_equal key es fs h

def follow (v : Value) (keys : List String) : Value := keys.foldl field v

theorem follow_of_equal (keys : List String) {v w : Value} (h : v.equal w = true) :
    (v.follow keys).equal (w.follow keys) = true := by
  induction keys generalizing v w with
  | nil => exact h
  | cons key keys ih => exact ih (field_of_equal key v w h)

/-- Equality is symmetric and transitive, and holds of a value and itself unless a not-a-number
stands in it. Equal values have the same kind and print form, and what any path finds in one is
equal to what it finds in the other and has the same print form. -/
theorem equal_congruence (v w u : Value) :
    (v.equal w = true → w.equal v = true) ∧
    (v.equal w = true → w.equal u = true → v.equal u = true) ∧
    (v.equal v = true ↔ ¬ Inside (.number .nan) v) ∧
    (v.equal w = true →
      v.typeName = w.typeName ∧ v.print = w.print ∧
      (∀ key, (v.field key).equal (w.field key) = true) ∧
      ∀ keys, (v.follow keys).equal (w.follow keys) = true ∧
        (v.follow keys).print = (w.follow keys).print) := by
  refine ⟨equal_symm v w, equal_trans v w u, equal_self_iff v, fun h => ?_⟩
  refine ⟨typeName_of_equal h, print_of_equal v w h, fun key => field_of_equal key v w h, ?_⟩
  intro keys
  have hfound := follow_of_equal keys h
  exact ⟨hfound, print_of_equal _ _ hfound⟩

/-- Two maps that differ in the sign of a zero, two levels down. -/
theorem equal_congruence_signed_zeros :
    let zero := Number.ofBits 0
    let minusZero := Number.ofBits 0x8000000000000000
    let v := Value.map ⟨[("x", .null), ("a", .map ⟨[("z", .number zero)]⟩)]⟩
    let w := Value.map ⟨[("x", .null), ("a", .map ⟨[("z", .number minusZero)]⟩)]⟩
    zero.toBits ≠ minusZero.toBits ∧ v.equal w = true ∧ w.equal v = true ∧ v.equal v = true ∧
    v.print = w.print ∧ (v.follow ["a", "z"]).print = (w.follow ["a", "z"]).print := by
  intro zero minusZero v w
  have hequal : v.equal w = true := by decide
  obtain ⟨hsymm, htrans, -, hshow⟩ := equal_congruence v w v
  obtain ⟨-, hprint, -, hpath⟩ := hshow hequal
  exact ⟨by decide, hequal, hsymm hequal, htrans hequal (hsymm hequal), hprint,
    (hpath ["a", "z"]).2⟩

end Value
end EchoScript
