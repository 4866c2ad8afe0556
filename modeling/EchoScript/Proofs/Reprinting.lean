import EchoScript.Proofs.Rendering
import EchoScript.Proofs.Truncation

/-!
# EchoScript.Proofs.Reprinting

Printed numbers and maps of numbers are expressions that print the same again.

Printing rounds to eight places and reading rounds to the nearest number. Below `2 ^ 26` numbers lie
so close that the second rounding is undone by printing once more (`rounded_nearestRank_small`);
from there on they lie so far apart that it undoes the first (`nearestRank_rounded_large`).
-/

namespace EchoScript

namespace Number

/-! ## The two roundings -/

/-- From `2 ^ 26` on a number is the nearest one to its rounded magnitude. -/
theorem nearestRank_rounded_large {scale f rank : Nat} (hscale : 2 ^ 26 < scale) (hf : 26 < f)
    (h : 2 ^ 26 * 2 ^ f ≤ units rank) :
    nearestRank (roundHalfEven (units rank * scale) (2 ^ f) * 2 ^ f) scale = rank := by
  obtain ⟨m, e, hscaled, hm, rfl⟩ := exists_scaled rank
  have hunits := units_scaled hscaled
  have hlt : 2 ^ (26 + f) < 2 ^ (53 + e) :=
    calc 2 ^ (26 + f) ≤ m * 2 ^ e := by rwa [← hunits, Nat.pow_add]
      _ < 2 * binade * 2 ^ e := Nat.mul_lt_mul_of_pos_right hm (Nat.two_pow_pos e)
      _ = 2 ^ (53 + e) := by rw [binade_eq]; ring
  have he : 26 + f < 53 + e := (Nat.pow_lt_pow_iff_right (by decide)).1 hlt
  have hnormal : binade ≤ m := hscaled.normal.resolve_left (by omega)
  rcases Nat.eq_or_lt_of_le hnormal with rfl | hnormal
  · -- A power of two is whole, and so it is its own rounded magnitude.
    have hwhole : units (e * binade + binade) = 2 ^ (52 + e - f) * 2 ^ f := by
      rw [hunits, binade_eq, ← Nat.pow_add, ← Nat.pow_add, Nat.sub_add_cancel (by omega)]
    have hrounded : roundHalfEven (units (e * binade + binade) * scale) (2 ^ f) * 2 ^ f =
        units (e * binade + binade) * scale := by
      rw [hwhole, Nat.mul_right_comm, roundHalfEven_exact (Nat.two_pow_pos f)]
    rw [hrounded, nearestRank_units (by omega)]
  · have hstep : 2 ^ f < scale * 2 ^ e :=
      calc 2 ^ f ≤ 2 ^ (26 + e) := Nat.pow_le_pow_right (by decide) (by omega)
        _ = 2 ^ 26 * 2 ^ e := Nat.pow_add 2 26 e
        _ < scale * 2 ^ e := Nat.mul_lt_mul_of_pos_right hscale (Nat.two_pow_pos e)
    have hnear := roundHalfEven_near (Nat.two_pow_pos f) (m * 2 ^ e * scale)
    rw [hunits]
    exact nearestRank_eq hnormal hm (by omega) (by omega)

/-- Below `2 ^ 26` the number nearest to a rounded magnitude is rounded to it again. -/
theorem rounded_nearestRank_small {scale f q : Nat} (hscale : 0 < scale) (hlt : scale < 2 ^ 27)
    (hf : 27 ≤ f) (hq : q ≤ 2 ^ 26 * scale) :
    roundHalfEven (units (nearestRank (q * 2 ^ f) scale) * scale) (2 ^ f) = q ∧
      nearestRank (q * 2 ^ f) scale ≤ (f - 24) * binade := by
  have hwithin := within_excess hscale (q * 2 ^ f)
  generalize (q * 2 ^ f / scale).log2 - 52 = e at hwithin
  have hpow : ∀ d, binade * (scale * 2 ^ d) = 2 ^ (52 + d) * scale := by
    intro d
    rw [binade_eq]
    ring
  have htop : q * 2 ^ f ≤ 2 ^ (26 + f) * scale :=
    calc q * 2 ^ f ≤ 2 ^ 26 * scale * 2 ^ f := Nat.mul_le_mul_right _ hq
      _ = 2 ^ (26 + f) * scale := by ring
  have he : e + 26 ≤ f := by
    rcases hwithin.2 with rfl | hlow
    · omega
    · rw [hpow] at hlow
      have hle := Nat.le_of_mul_le_mul_right (hlow.trans htop) hscale
      have := (Nat.pow_le_pow_iff_right (by decide)).1 hle
      omega
  constructor
  · rcases Nat.eq_or_lt_of_le he with hlast | he
    · -- In the last binade there is only its least magnitude, and it is whole.
      have hlow := hwithin.2.resolve_left (by omega)
      have hexact : q * 2 ^ f = binade * (scale * 2 ^ e) := by
        refine Nat.le_antisymm ?_ hlow
        rwa [hpow, show 52 + e = 26 + f by omega]
      have hunits : units (nearestRank (q * 2 ^ f) scale) * scale = q * 2 ^ f := by
        rw [units_nearestRank hscale hwithin, hexact,
          roundHalfEven_exact (Nat.mul_pos hscale (Nat.two_pow_pos e)), Nat.mul_assoc,
          Nat.mul_comm scale]
      rw [hunits, roundHalfEven_exact (Nat.two_pow_pos f)]
    · have hstep : scale * 2 ^ e < 2 ^ f :=
        calc scale * 2 ^ e < 2 ^ 27 * 2 ^ e := Nat.mul_lt_mul_of_pos_right hlt (Nat.two_pow_pos e)
          _ = 2 ^ (27 + e) := (Nat.pow_add 2 27 e).symm
          _ ≤ 2 ^ f := Nat.pow_le_pow_right (by decide) (by omega)
      have hnear := units_nearestRank_near hscale hwithin
      exact roundHalfEven_eq (by omega) (by omega)
  · rw [nearestRank_within hscale hwithin]
    have hm := (hwithin.scaled hscale).le
    calc e * binade + roundHalfEven (q * 2 ^ f) (scale * 2 ^ e) ≤ (e + 2) * binade := by
          rw [Nat.add_mul]
          omega
      _ ≤ (f - 24) * binade := Nat.mul_le_mul_right binade (by omega)

/-- The magnitude is at least `2 ^ 26`. -/
def IsLarge : Number → Prop
  | .nan => False
  | .infinite _ => True
  | .finite _ rank => 2 ^ 26 * resolution ≤ units rank

theorem printScale : 2 ^ 26 < 10 ^ printPlaces ∧ 10 ^ printPlaces < 2 ^ 27 := by decide

/-- The rank of a printed magnitude, read back. -/
def rereadRank (rank : Nat) : Nat :=
  nearestRank ((rounded rank).coefficient * resolution) (10 ^ printPlaces)

theorem rounded_coefficient (rank : Nat) : (rounded rank).coefficient =
    roundHalfEven (units rank * 10 ^ printPlaces) (2 ^ finestPlaces) := by
  simp only [rounded, resolution_eq, Nat.pow_eq]

theorem rereadRank_large {rank : Nat} (h : 2 ^ 26 * resolution ≤ units rank) :
    rereadRank rank = rank := by
  rw [resolution_eq] at h
  rw [rereadRank, rounded_coefficient, resolution_eq]
  exact nearestRank_rounded_large (f := finestPlaces) printScale.1 (by decide) h

/-- Up to `2 ^ 26` a fraction of eight places is read as a number that rounds to it. -/
theorem rounded_nearestRank {q : Nat} (hq : q ≤ 2 ^ 26 * 10 ^ printPlaces) :
    (rounded (nearestRank (q * resolution) (10 ^ printPlaces))).coefficient = q ∧
      nearestRank (q * resolution) (10 ^ printPlaces) < ranks := by
  have hpos : 0 < 10 ^ printPlaces := by decide
  have hback := rounded_nearestRank_small (f := finestPlaces) hpos printScale.2 (by decide) hq
  rw [← rounded_coefficient, ← resolution_eq] at hback
  have hranks : (finestPlaces - 24) * binade < 2047 * binade :=
    Nat.mul_lt_mul_of_pos_right (by decide) (by decide)
  exact ⟨hback.1, Nat.lt_of_le_of_lt hback.2 hranks⟩

theorem rereadRank_small {rank : Nat} (h : units rank < 2 ^ 26 * resolution) :
    (rounded (rereadRank rank)).coefficient = (rounded rank).coefficient ∧
      rereadRank rank < ranks := by
  refine rounded_nearestRank ?_
  rw [resolution_eq] at h
  rw [rounded_coefficient]
  refine roundHalfEven_le (Nat.two_pow_pos _) ?_
  rw [Nat.mul_right_comm]
  exact Nat.mul_le_mul_right _ (Nat.le_of_lt h)

theorem rounded_congr {a b : Nat} (h : (rounded a).coefficient = (rounded b).coefficient) :
    rounded a = rounded b := by
  simp only [rounded] at h ⊢
  rw [h]

theorem exists_reread (rank : Fin ranks) : ∃ back : Fin ranks, rereadRank rank = back ∧
    rounded back = rounded rank ∧ (2 ^ 26 * resolution ≤ units rank → back = rank) := by
  rcases Nat.lt_or_ge (units rank) (2 ^ 26 * resolution) with hsmall | hlarge
  · obtain ⟨hsame, hlt⟩ := rereadRank_small hsmall
    exact ⟨⟨_, hlt⟩, rfl, rounded_congr hsame, fun hlarge => absurd hsmall (Nat.not_lt.2 hlarge)⟩
  · exact ⟨rank, rereadRank_large hlarge, rfl, fun _ => rfl⟩

theorem rounded_large {rank : Nat} (h : 2 ^ 26 * resolution ≤ units rank) :
    (rounded rank).coefficient ≠ 0 := by
  rw [rounded_coefficient]
  rw [resolution_eq] at h
  refine Nat.ne_of_gt (le_roundHalfEven (Nat.two_pow_pos _) ?_)
  have hscale : 1 ≤ 10 ^ printPlaces := by decide
  have hunits := Nat.mul_le_mul_left (units rank) hscale
  omega

theorem ofDecimal_rounded (negative : Bool) (rank : Nat) :
    ofDecimal negative (rounded rank) = ofRank negative (rereadRank rank) := by
  simp only [ofDecimal, rereadRank, rounded, Nat.pow_eq]

/-- The second number prints as the first, and is the same if that one is large. -/
def Recovers (x y : Number) : Prop := y.print = x.print ∧ (x.IsLarge → y = x)

/-- A printed number is read as one that prints the same. -/
theorem spells_print (negative : Bool) (rank : Fin ranks) :
    ∃ y, Token.Spells (print (.finite negative rank)).toList (.number y) ∧ y ≠ .nan ∧
      Recovers (.finite negative rank) y := by
  obtain ⟨back, hback, hsame, hlarge⟩ := exists_reread rank
  have hspells := spells_signed_text (negative && (rounded rank).coefficient ≠ 0) (rounded rank)
  rw [ofDecimal_rounded, hback, ofRank_rank] at hspells
  refine ⟨_, hspells, nofun, ?_, ?_⟩
  · simp only [print, hsame, Bool.and_assoc, Bool.and_self]
  · intro h
    simp [hlarge h, rounded_large h]

end Number

namespace Value

/-! ## Maps of numbers -/

mutual

/-- Finite numbers, and maps of such values under names. A map has each of its keys once. -/
def Numeric : Value → Prop
  | .number (.finite _ _) => True
  | .map ⟨entries⟩ => (entries.map (·.1)).Nodup ∧ NumericEntries entries
  | _ => False

def NumericEntries : List (String × Value) → Prop
  | [] => True
  | (key, value) :: rest => IsName key ∧ value.Numeric ∧ NumericEntries rest

end

mutual

/-- The same keys in the same order at every level, and numbers recovered. -/
def Recovers : Value → Value → Prop
  | .number x, .number y => x.Recovers y
  | .map ⟨es⟩, .map ⟨fs⟩ => RecoversEntries es fs
  | _, _ => False

def RecoversEntries : List (String × Value) → List (String × Value) → Prop
  | [], [] => True
  | (k, v) :: es, (l, w) :: fs => l = k ∧ v.Recovers w ∧ RecoversEntries es fs
  | _, _ => False

end

theorem RecoversEntries.keys : {es fs : List (String × Value)} → RecoversEntries es fs →
    fs.map (·.1) = es.map (·.1)
  | [], [], _ => rfl
  | (_, _) :: _, (_, _) :: _, h => by
    rw [List.map_cons, List.map_cons, h.1, RecoversEntries.keys h.2.2]

mutual

theorem Recovers.print : (v w : Value) → v.Recovers w → w.print = v.print
  | .number _, .number _, h => h.1
  | .map ⟨es⟩, .map ⟨fs⟩, h => by
    rw [Value.print, Value.print, RecoversEntries.print es fs h]

theorem RecoversEntries.print : (es fs : List (String × Value)) → RecoversEntries es fs →
    printEntries fs = printEntries es
  | [], [], _ => rfl
  | [(_, v)], [(_, w)], h => by
    rw [printEntries, printEntries, h.1, Recovers.print v w h.2.1]
  | (_, v) :: e :: es, (_, w) :: f :: fs, h => by
    rw [printEntries, printEntries, h.1, Recovers.print v w h.2.1,
      RecoversEntries.print (e :: es) (f :: fs) h.2.2]

end

/-! ## Print forms as expressions -/

/-- The print form of the value spells the expression, whose value recovers it. -/
structure Rereads (v : Value) (e : Expr) : Prop where
  renderable : e.Renderable
  renders {cs : List Char} {ts : List Token} : Token.Seam cs → Token.Renders cs ts →
    Token.Renders (v.print.toList ++ cs) (e.tokens ++ ts)
  recovers (env : Environment) : v.Recovers (e.eval env)

structure RereadsEntries (es : List (String × Value)) (fs : List (String × Expr)) : Prop where
  renderable : Expr.RenderableEntries fs
  renders {cs : List Char} {ts : List Token} : Token.Seam cs → Token.Renders cs ts →
    Token.Renders ((printEntries es).toList ++ cs) (Expr.entriesTokens fs ++ ts)
  recovers (env : Environment) : RecoversEntries es (Expr.evalEntries env fs)

theorem renders_binding {key : String} (hkey : IsName key) {cs : List Char} {ts : List Token}
    (h : Token.Renders cs ts) :
    Token.Renders ('$' :: (key.toList ++ ' ' :: '=' :: ' ' :: cs))
      (.dollar :: .identifier key :: .equals :: ts) := by
  have hequals := (h.blank (c := ' ') rfl).mark (c := '=') rfl
  have hname := (hequals.blank (c := ' ') rfl).word hkey.spells (Token.seam_space _)
  exact hname.mark rfl

mutual

theorem exists_rereads : (v : Value) → v.Numeric → ∃ e, Rereads v e
  | .number (.finite negative rank), _ => by
    obtain ⟨y, hspells, hnan, hrecovers⟩ := Number.spells_print negative rank
    exact ⟨.number y 0, hnan, fun hseam hcs => hcs.word hspells hseam, fun _ => hrecovers⟩
  | .map ⟨es⟩, h => by
    obtain ⟨fs, hfs⟩ := exists_rereadsEntries es h.2
    refine ⟨.map fs 0, hfs.renderable, ?_, ?_⟩
    · intro cs ts _ hcs
      have hclose := hcs.mark (c := ']') rfl
      have hentries := hfs.renders (Token.seam_cons (by decide) (by decide) (by decide) cs) hclose
      have hopen := hentries.mark (c := '[') rfl
      simpa [print, Expr.tokens] using hopen
    · intro env
      have hrecovers := hfs.recovers env
      have hkeys : ((Expr.evalEntries env fs).map (·.1)).Nodup := by
        rw [hrecovers.keys]
        exact h.1
      rw [Expr.eval, OrderedMap.ofList_of_nodup hkeys]
      exact hrecovers

theorem exists_rereadsEntries : (es : List (String × Value)) → NumericEntries es →
    ∃ fs, RereadsEntries es fs
  | [], _ => ⟨[], trivial, fun _ hcs => hcs, fun _ => trivial⟩
  | [(key, v)], h => by
    obtain ⟨e, he⟩ := exists_rereads v h.2.1
    refine ⟨[(key, e)], ⟨h.1, he.renderable, trivial⟩, ?_,
      fun env => ⟨rfl, he.recovers env, trivial⟩⟩
    intro cs ts hseam hcs
    have hentry := renders_binding h.1 (he.renders hseam hcs)
    simpa [printEntries, Expr.entriesTokens] using hentry
  | (key, v) :: (key', v') :: es, h => by
    obtain ⟨e, he⟩ := exists_rereads v h.2.1
    obtain ⟨fs, hfs⟩ := exists_rereadsEntries ((key', v') :: es) h.2.2
    cases fs with
    | nil => exact (hfs.recovers .empty).elim
    | cons f fs =>
      refine ⟨(key, e) :: f :: fs, ⟨h.1, he.renderable, hfs.renderable⟩, ?_,
        fun env => ⟨rfl, he.recovers env, hfs.recovers env⟩⟩
      intro cs ts hseam hcs
      have hcomma := ((hfs.renders hseam hcs).blank (c := ' ') rfl).mark (c := ',') rfl
      have hvalue := he.renders (Token.seam_cons (by decide) (by decide) (by decide) _) hcomma
      have hentry := renders_binding h.1 hvalue
      simpa [printEntries, Expr.entriesTokens] using hentry

end

end Value

namespace Script

theorem statements_of_sentence {source : String} {s : Statement} (hs : s.Renderable)
    (h : Token.Renders source.toList s.tokens) :
    ∃ s', statements source = .ok [s'] ∧ s'.unlined = s.unlined := by
  have hnone : Grammar.Newlines [] := by simp [Grammar.Newlines]
  obtain ⟨ss', hread, hsame⟩ := @statements_of_renders source s.tokens [s] h fun ls hls => by
    obtain ⟨s', hsentence, hsame⟩ := Grammar.exists_sentence hs hls
    have hprogram := Grammar.Program.next hnone hsentence (.last hnone)
    rw [List.nil_append, List.append_nil] at hprogram
    exact ⟨[s'], hprogram, congrArg (fun s => [s]) hsame⟩
  obtain ⟨s', rfl, hs'⟩ := List.map_eq_singleton_iff.1 hsame
  exact ⟨s', hread, hs'⟩

theorem renders_echo {text : String} {ts : List Token} (h : Token.Renders text.toList ts) :
    Token.Renders ("echo " ++ text).toList (.echo :: ts) := by
  have hecho := (h.blank (c := ' ') rfl).word .echo (Token.seam_space _)
  simpa using hecho

theorem statements_echo {text : String} {e : Expr} (he : e.Renderable)
    (h : Token.Renders text.toList e.tokens) :
    ∃ e' line, statements ("echo " ++ text) = .ok [.echo e' line] ∧
      ∀ env, e'.eval env = e.eval env := by
  obtain ⟨s', hread, hsame⟩ := @statements_of_sentence _ (.echo e 0) he (renders_echo h)
  cases s' with
  | assign name value line => cases hsame
  | echo e' line =>
    have hunlined : e'.unlined = e.unlined := (Statement.echo.inj hsame).1
    exact ⟨e', line, hread, Expr.eval_eq_of_unlined_eq hunlined⟩

theorem run_echo {text : String} {e : Expr} (he : e.Renderable)
    (h : Token.Renders text.toList e.tokens) (env : Environment) (w : ByteArray)
    (refusal : Refusal) :
    run ⟨env, ⟨w, none, refusal⟩⟩ ("echo " ++ text) =
      ⟨⟨env, ⟨w ++ (e.eval env).line, none, refusal⟩⟩, none⟩ := by
  obtain ⟨e', line, hread, heval⟩ := statements_echo he h
  rw [run_of_statements hread, Statement.executeAll_unlimited]
  simp [Statement.effect, heval]

/-- What is printed of numbers and maps of numbers is an expression. Shown again it prints the same,
and it has the keys of the value and its large numbers. -/
theorem run_echo_print {v : Value} (h : v.Numeric) :
    (∀ env w refusal, run ⟨env, ⟨w, none, refusal⟩⟩ ("echo " ++ v.print) =
      ⟨⟨env, ⟨w ++ (v.print ++ "\n").toUTF8, none, refusal⟩⟩, none⟩) ∧
    ∃ e line, statements ("echo " ++ v.print) = .ok [.echo e line] ∧
      ∀ env, v.Recovers (e.eval env) := by
  obtain ⟨e, he⟩ := v.exists_rereads h
  have hrenders : Token.Renders v.print.toList e.tokens := by
    simpa using he.renders (by simp [Token.Seam]) .nil
  constructor
  · intro env w refusal
    have hprint := (he.recovers env).print
    rw [run_echo he.renderable hrenders, Value.line, hprint]
  · obtain ⟨e', line, hread, heval⟩ := statements_echo he.renderable hrenders
    refine ⟨e', line, hread, ?_⟩
    intro env
    rw [heval]
    exact he.recovers env

/-- The number after `2 ^ 26`, a map without entries, and the first number below zero. -/
theorem run_echo_print_nested :
    let v : Value := .map ⟨[
      ("next", .number (.ofRank false (1049 * Number.binade + 1))), ("none", .map ⟨[]⟩),
      ("_1", .map ⟨[("tiny", .number (.ofRank true 1))]⟩)]⟩
    v.Numeric ∧
    (∀ env w refusal, run ⟨env, ⟨w, none, refusal⟩⟩ ("echo " ++ v.print) =
      ⟨⟨env, ⟨w ++ (v.print ++ "\n").toUTF8, none, refusal⟩⟩, none⟩) ∧
    ∃ e line, statements ("echo " ++ v.print) = .ok [.echo e line] ∧
      ∀ env, v.Recovers (e.eval env) := by
  intro v
  have hfinite : ∀ negative rank, rank < Number.ranks →
      (Value.number (.ofRank negative rank)).Numeric := by
    intro negative rank h
    rw [Number.ofRank, dif_pos h]
    trivial
  have hnext : IsName "next" := isName_of_chars rfl rfl rfl (by simp)
  have hnone : IsName "none" := isName_of_chars rfl rfl rfl (by simp)
  have hone : IsName "_1" := isName_of_chars rfl rfl rfl (by simp)
  have htiny : IsName "tiny" := isName_of_chars rfl rfl rfl (by simp)
  have hv : v.Numeric := by
    refine ⟨by decide, ⟨hnext, hfinite _ _ (by decide), hnone, ?_, hone, ?_, trivial⟩⟩
    · exact ⟨by decide, trivial⟩
    · exact ⟨by decide, htiny, hfinite _ _ (by decide), trivial⟩
  exact ⟨hv, run_echo_print hv⟩

end Script
end EchoScript
