import EchoScript.Text.Escape
import Mathlib.Data.Char
import Mathlib.Logic.Function.Basic

/-!
# EchoScript.Proofs.Escaping

Text that is written on one line can be read back.

Both ways of escaping write a character as itself, as a backslash with a mark, or as its code point
(`Written`); they differ in the characters that are shown as themselves. What is written for one
character never begins what is written for another (`Written.eq_of_isPrefix`), so that a text is
told from its escaped form one character after the other (`PrefixFree.flatMap_injective`).
-/

namespace EchoScript
namespace Text

/-! ## Characters -/

/-- Printable ASCII: from the space to the tilde. -/
def IsPrintable (c : Char) : Prop := ' ' ≤ c ∧ c ≤ '~'

instance (c : Char) : Decidable (IsPrintable c) := inferInstanceAs (Decidable (_ ∧ _))

theorem isPrintableAscii_iff {c : Char} : isPrintableAscii c = true ↔ IsPrintable c := by
  simp [isPrintableAscii, IsPrintable, Char.le_def, UInt32.le_iff_toNat_le]

/-- The characters that divide a text into lines and a line into fields. -/
def IsDivider (c : Char) : Prop := c = '\t' ∨ c = '\n'

instance (c : Char) : Decidable (IsDivider c) := inferInstanceAs (Decidable (_ ∨ _))

theorem IsPrintable.not_divider {c : Char} (h : IsPrintable c) : ¬ IsDivider c := by
  rintro (rfl | rfl)
  · exact absurd h (by decide)
  · exact absurd h (by decide)

/-! ## Code points -/

theorem digitChar_inj : ∀ m < 16, ∀ n < 16, Nat.digitChar m = Nat.digitChar n → m = n := by
  decide

theorem digitChar_bounds : ∀ n < 16, '0' ≤ Nat.digitChar n ∧ Nat.digitChar n ≤ 'f' := by
  decide

theorem bounds_of_mem_toDigits {c : Char} {n : Nat} (h : c ∈ Nat.toDigits 16 n) :
    '0' ≤ c ∧ c ≤ 'f' := by
  induction n using Nat.strong_induction_on with
  | _ n ih =>
  rcases Nat.lt_or_ge n 16 with hlt | hge
  · rw [Nat.toDigits_of_lt_base hlt, List.mem_singleton] at h
    exact h ▸ digitChar_bounds n hlt
  · rw [Nat.toDigits_of_base_le (by decide) hge, List.mem_append, List.mem_singleton] at h
    rcases h with h | h
    · exact ih (n / 16) (by omega) h
    · exact h ▸ digitChar_bounds (n % 16) (by omega)

theorem toDigits_injective : Function.Injective (Nat.toDigits 16) := by
  intro m n h
  induction m using Nat.strong_induction_on generalizing n with
  | _ m ih =>
  -- Both have one digit, or both have a last digit and others before it.
  rcases Nat.lt_or_ge m 16 with hm | hm <;> rcases Nat.lt_or_ge n 16 with hn | hn
  · rw [Nat.toDigits_of_lt_base hm, Nat.toDigits_of_lt_base hn] at h
    exact digitChar_inj m hm n hn (List.singleton_inj.1 h)
  · rw [Nat.toDigits_of_lt_base hm, Nat.toDigits_of_base_le (by decide) hn] at h
    simpa using congrArg List.length h
  · rw [Nat.toDigits_of_lt_base hn, Nat.toDigits_of_base_le (by decide) hm] at h
    simpa using congrArg List.length h
  · rw [Nat.toDigits_of_base_le (by decide) hm, Nat.toDigits_of_base_le (by decide) hn] at h
    obtain ⟨hrest, hlast⟩ := List.append_inj' h rfl
    have hdiv := ih (m / 16) (by omega) hrest
    have hmod := digitChar_inj _ (Nat.mod_lt m (by decide)) _ (Nat.mod_lt n (by decide))
      (List.singleton_inj.1 hlast)
    omega

/-- A code point ends at its brace, since no digit is one. -/
theorem eq_of_codePoint_isPrefix {c d : Char} (h : codePoint c <+: codePoint d) : c = d := by
  have hdigits : Nat.toDigits 16 c.toNat ++ ['\x7d'] <+: Nat.toDigits 16 d.toNat ++ ['\x7d'] := by
    simpa [codePoint] using h
  rcases List.prefix_concat_iff.1 hdigits with heq | hshort
  · exact Char.toNat_inj.1 (toDigits_injective (List.append_cancel_right heq))
  · have hmem : '\x7d' ∈ Nat.toDigits 16 d.toNat := hshort.subset (by simp)
    exact absurd (bounds_of_mem_toDigits hmem).2 (by decide)

theorem codePoint_printable (c : Char) : ∀ e ∈ codePoint c, IsPrintable e := by
  intro e he
  simp only [codePoint, List.mem_append, List.mem_cons, List.not_mem_nil, or_false] at he
  rcases he with ((rfl | rfl | rfl) | he) | rfl
  · decide
  · decide
  · decide
  · obtain ⟨hlow, hhigh⟩ := bounds_of_mem_toDigits he
    exact ⟨le_trans (by decide) hlow, le_trans hhigh (by decide)⟩
  · decide

/-! ## Single characters -/

/-- The character that a mark behind a backslash stands for. -/
def marked (m : Char) : Char :=
  if m = 't' then '\t'
  else if m = 'r' then '\r'
  else if m = 'n' then '\n'
  else if m = '0' then '\x00'
  else m

/-- `Written shown c cs`: on one line, `cs` is written for the character `c`. Only what is `shown`
stands for itself. -/
inductive Written (shown : Char → Prop) : Char → List Char → Prop where
  | plain {c : Char} : c ≠ '\\' → shown c → Written shown c [c]
  | mark {m : Char} : m ≠ 'u' → IsPrintable m → Written shown (marked m) ['\\', m]
  | codePoint {c : Char} : Written shown c (codePoint c)

section Written

variable {shown : Char → Prop} {c d : Char} {cs ds : List Char}

theorem Written.shown_of_mem (h : Written shown c cs) (hprintable : ∀ e, IsPrintable e → shown e) :
    ∀ e ∈ cs, shown e := by
  intro e he
  cases h with
  | plain _ hc => rwa [List.mem_singleton.1 he]
  | mark _ hm =>
    rcases List.mem_cons.1 he with rfl | he
    · exact hprintable _ (by decide)
    · rw [List.mem_singleton.1 he]
      exact hprintable _ hm
  | codePoint => exact hprintable e (codePoint_printable c e he)

/-- What is written for a character does not begin what is written for another one. -/
theorem Written.eq_of_isPrefix (hc : Written shown c cs) (hd : Written shown d ds)
    (h : cs <+: ds) : c = d := by
  cases hc with
  | plain hslash _ =>
    cases hd with
    | plain _ _ => simpa using h
    | mark _ _ => exact absurd (by simpa using h) hslash
    | codePoint => exact absurd (by simpa [Text.codePoint] using h) hslash
  | mark hu _ =>
    cases hd with
    | plain _ _ => simp at h
    | mark _ _ =>
      obtain rfl := by simpa using h
      rfl
    | codePoint => exact absurd (by simpa [Text.codePoint] using h) hu
  | codePoint =>
    cases hd with
    | plain _ _ => simp [Text.codePoint] at h
    | mark _ _ => simp [Text.codePoint] at h
    | codePoint => exact eq_of_codePoint_isPrefix h

/-- Quotes and backslashes are their own marks. -/
theorem written_quote (h : c = '\'' ∨ c = '"' ∨ c = '\\') : Written shown c ['\\', c] := by
  rcases h with rfl | rfl | rfl
  · exact .mark (m := '\'') (by decide) (by decide)
  · exact .mark (m := '"') (by decide) (by decide)
  · exact .mark (m := '\\') (by decide) (by decide)

end Written

theorem escapeChar_written (c : Char) : Written IsPrintable c (escapeChar c) := by
  unfold escapeChar
  split_ifs with htab hreturn hline hquote hprintable
  · rw [htab]
    exact .mark (m := 't') (by decide) (by decide)
  · rw [hreturn]
    exact .mark (m := 'r') (by decide) (by decide)
  · rw [hline]
    exact .mark (m := 'n') (by decide) (by decide)
  · exact written_quote hquote
  · exact .plain (fun h => hquote (.inr (.inr h))) (isPrintableAscii_iff.1 hprintable)
  · exact .codePoint

theorem quoteChar_written (c : Char) : Written (¬ IsDivider ·) c (quoteChar c) := by
  unfold quoteChar
  split_ifs with hnull htab hreturn hline hquote hprintable hunprintable
  · rw [hnull]
    exact .mark (m := '0') (by decide) (by decide)
  · rw [htab]
    exact .mark (m := 't') (by decide) (by decide)
  · rw [hreturn]
    exact .mark (m := 'r') (by decide) (by decide)
  · rw [hline]
    exact .mark (m := 'n') (by decide) (by decide)
  · exact written_quote (.inr hquote)
  · exact .plain (fun h => hquote (.inr h)) (isPrintableAscii_iff.1 hprintable).not_divider
  · exact .codePoint
  · exact .plain (fun h => hquote (.inr h)) (by simp [IsDivider, htab, hline])

/-! ## Texts -/

/-- A way of writing characters in which nothing written for one begins what is written for
another. -/
def PrefixFree (write : Char → List Char) : Prop := ∀ c d, write c <+: write d → c = d

theorem PrefixFree.ne_nil {write : Char → List Char} (h : PrefixFree write) (c : Char) :
    write c ≠ [] := by
  intro hnil
  have hother : ∀ d, c = d := by
    intro d
    apply h
    rw [hnil]
    exact List.nil_prefix
  exact absurd ((hother 'a').symm.trans (hother 'b')) (by decide)

theorem PrefixFree.flatMap_injective {write : Char → List Char} (h : PrefixFree write) :
    Function.Injective (List.flatMap write) := by
  intro cs ds heq
  induction cs generalizing ds with
  | nil =>
    cases ds with
    | nil => rfl
    | cons d ds => exact absurd (List.append_eq_nil_iff.1 heq.symm).1 (h.ne_nil d)
  | cons c cs ih =>
    cases ds with
    | nil => exact absurd (List.append_eq_nil_iff.1 heq).1 (h.ne_nil c)
    | cons d ds =>
      rw [List.flatMap_cons, List.flatMap_cons] at heq
      have hsame : c = d := by
        have hd : write d <+: write c ++ cs.flatMap write := heq ▸ List.prefix_append _ _
        rcases List.prefix_or_prefix_of_prefix (List.prefix_append _ _) hd with hpre | hpre
        · exact h c d hpre
        · exact (h d c hpre).symm
      rw [hsame] at heq ⊢
      rw [ih (List.append_cancel_left heq)]

theorem escape_injective : Function.Injective escape := by
  have hfree : PrefixFree escapeChar :=
    fun c d => (escapeChar_written c).eq_of_isPrefix (escapeChar_written d)
  intro s t h
  exact String.toList_inj.1 (hfree.flatMap_injective (String.ofList_inj.1 h))

theorem escape_printable (s : String) : ∀ c ∈ (escape s).toList, IsPrintable c := by
  intro c hc
  rw [escape, String.toList_ofList, List.mem_flatMap] at hc
  obtain ⟨d, -, hd⟩ := hc
  exact (escapeChar_written d).shown_of_mem (fun _ h => h) c hd

theorem quote_injective : Function.Injective quote := by
  have hfree : PrefixFree quoteChar :=
    fun c d => (quoteChar_written c).eq_of_isPrefix (quoteChar_written d)
  intro s t h
  have hinside := List.append_cancel_right (String.ofList_inj.1 h)
  exact String.toList_inj.1 (hfree.flatMap_injective (List.cons.inj hinside).2)

theorem quote_not_divider (s : String) : ∀ c ∈ (quote s).toList, ¬ IsDivider c := by
  intro c hc
  rw [quote, String.toList_ofList, List.cons_append, List.mem_cons, List.mem_append,
    List.mem_flatMap, List.mem_singleton] at hc
  rcases hc with rfl | ⟨d, -, hd⟩ | rfl
  · decide
  · exact (quoteChar_written d).shown_of_mem (fun _ h => h.not_divider) c hd
  · decide

end Text
end EchoScript
