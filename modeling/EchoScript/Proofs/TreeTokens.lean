import EchoScript.Proofs.Layout
import EchoScript.Proofs.Relining
import EchoScript.Script

/-!
# EchoScript.Proofs.TreeTokens

Which trees scripts can spell, and with which tokens.

A tree is `Renderable` if all its names can be written, no number of it is not-a-number, and no path
goes out from a number. The tokens of such a tree derive it again, up to lines
(`exists_expression`, `exists_sentence`), and every tree that was derived from tokens that can be
spelled is of this kind (`Expression.renderable`).
-/

namespace EchoScript

/-- A name that can be written: letters and digits, a letter first, and not the keyword. -/
def IsName (name : String) : Prop :=
  (∃ c cs, name.toList = c :: cs ∧ Token.IsLetter c ∧ ∀ d ∈ cs, Token.IsLetter d ∨ Token.IsDigit d) ∧
    name ≠ "echo"

theorem isName_of_chars {name : String} {c : Char} {cs : List Char} (hname : name.toList = c :: cs)
    (hc : Token.isWordStart c = true) (hcs : cs.all Token.isWordPart = true)
    (hne : name ≠ "echo") : IsName name :=
  ⟨⟨c, cs, hname, Token.isWordStart_iff.1 hc, fun d hd =>
    Token.isWordPart_iff.1 (List.all_eq_true.1 hcs d hd)⟩, hne⟩

theorem IsName.spells {name : String} (h : IsName name) :
    Token.Spells name.toList (.identifier name) := by
  obtain ⟨⟨c, cs, hname, hc, hcs⟩, hne⟩ := h
  have hecho : c :: cs ≠ ['e', 'c', 'h', 'o'] := by
    rintro heq
    rw [heq] at hname
    exact hne (String.toList_inj.1 hname)
  have hspells := Token.Spells.identifier hc hcs hecho
  rwa [← hname, String.ofList_toList] at hspells

theorem isName_of_spells {cs : List Char} {name : String}
    (h : Token.Spells cs (.identifier name)) : IsName name := by
  cases h with
  | @identifier c cs hc hcs hne =>
    refine ⟨⟨c, cs, String.toList_ofList, hc, hcs⟩, ?_⟩
    intro heq
    have := congrArg String.toList heq
    rw [String.toList_ofList] at this
    exact hne this

namespace Expr

def isNumber : Expr → Bool
  | .number _ _ => true
  | _ => false

mutual

def Renderable : Expr → Prop
  | .string _ _ => True
  | .number value _ => value ≠ .nan
  | .var name _ => IsName name
  | .path base key _ => base.Renderable ∧ base.isNumber = false ∧ IsName key
  | .map entries _ => RenderableEntries entries

def RenderableEntries : List (String × Expr) → Prop
  | [] => True
  | (key, value) :: rest => IsName key ∧ value.Renderable ∧ RenderableEntries rest

end

mutual

def tokens : Expr → List Token
  | .string text _ => [.string text]
  | .number value _ => [.number value]
  | .var name _ => [.dollar, .identifier name]
  | .path base key _ => base.tokens ++ [.dot, .dollar, .identifier key]
  | .map entries _ => .openBracket :: entriesTokens entries ++ [.closeBracket]

def entriesTokens : List (String × Expr) → List Token
  | [] => []
  | [(key, value)] => .dollar :: .identifier key :: .equals :: value.tokens
  | (key, value) :: e :: rest =>
    .dollar :: .identifier key :: .equals :: value.tokens ++ .comma :: entriesTokens (e :: rest)

end

def unlined : Expr → Expr := reline fun _ => 0

theorem eval_eq_of_unlined_eq {e e' : Expr} (h : e.unlined = e'.unlined) (env : Environment) :
    e.eval env = e'.eval env :=
  calc e.eval env
      = e.unlined.eval env := (eval_reline _ env e).symm
    _ = e'.unlined.eval env := by rw [h]
    _ = e'.eval env := eval_reline _ env e'

end Expr

open EchoScript.Expr

namespace Grammar

theorem map_token_cons {ts : List Lexeme} {a : Token} {as : List Token}
    (h : ts.map Lexeme.token = a :: as) :
    ∃ t us, ts = t :: us ∧ t.token = a ∧ us.map Lexeme.token = as := by
  obtain ⟨t, us, rfl, ht, hus⟩ := List.map_eq_cons_iff.1 h
  exact ⟨t, us, rfl, ht, hus⟩

theorem map_token_binding {ts : List Lexeme} {key : String} {as : List Token}
    (h : ts.map Lexeme.token = .dollar :: .identifier key :: .equals :: as) :
    ∃ d n q us, ts = d :: n :: q :: us ∧ d.token = .dollar ∧ n.token = .identifier key ∧
      q.token = .equals ∧ us.map Lexeme.token = as := by
  obtain ⟨d, us, rfl, hd, hus⟩ := map_token_cons h
  obtain ⟨n, us, rfl, hn, hus⟩ := map_token_cons hus
  obtain ⟨q, us, rfl, hq, hus⟩ := map_token_cons hus
  exact ⟨d, n, q, us, rfl, hd, hn, hq, hus⟩

mutual

/-- The tokens of a tree derive it, up to lines. -/
theorem exists_expression : (e : Expr) → e.Renderable → ∀ ts : List Lexeme,
    ts.map Lexeme.token = e.tokens →
    ∃ e', Expression ts e' ∧ e'.unlined = e.unlined ∧ (e.isNumber = false → Chain ts e')
  | .string text _, _, ts, hts => by
    obtain ⟨t, rfl, ht⟩ : ∃ t, ts = [t] ∧ t.token = .string text := by
      simpa [tokens, List.map_eq_cons_iff] using hts
    have hchain := Chain.primary (.string ht)
    exact ⟨_, .chain hchain, rfl, fun _ => hchain⟩
  | .number value _, _, ts, hts => by
    obtain ⟨t, rfl, ht⟩ : ∃ t, ts = [t] ∧ t.token = .number value := by
      simpa [tokens, List.map_eq_cons_iff] using hts
    exact ⟨_, .number ht, rfl, by simp [isNumber]⟩
  | .var name _, _, ts, hts => by
    obtain ⟨d, us, rfl, hd, hus⟩ := map_token_cons hts
    obtain ⟨n, rfl, hn⟩ : ∃ n, us = [n] ∧ n.token = .identifier name := by
      simpa [List.map_eq_cons_iff] using hus
    have hchain := Chain.primary (.var hd hn)
    exact ⟨_, .chain hchain, rfl, fun _ => hchain⟩
  | .path base key _, h, ts, hts => by
    obtain ⟨hbase, hnumber, -⟩ := h
    obtain ⟨us, vs, rfl, hus, hvs⟩ := List.map_eq_append_iff.1 hts
    obtain ⟨e', -, hsame, hchain⟩ := exists_expression base hbase us hus
    obtain ⟨d, vs, rfl, hd, hvs⟩ := map_token_cons hvs
    obtain ⟨s, vs, rfl, hs, hvs⟩ := map_token_cons hvs
    obtain ⟨n, rfl, hn⟩ : ∃ n, vs = [n] ∧ n.token = .identifier key := by
      simpa [List.map_eq_cons_iff] using hvs
    have hpath := Chain.path (hchain hnumber) hd hs hn
    exact ⟨_, .chain hpath, congrArg (Expr.path · key 0) hsame, fun _ => hpath⟩
  | .map [] _, _, ts, hts => by
    obtain ⟨o, us, rfl, ho, hus⟩ := map_token_cons hts
    obtain ⟨c, rfl, hc⟩ : ∃ c, us = [c] ∧ c.token = .closeBracket := by
      simpa [entriesTokens, List.map_eq_cons_iff] using hus
    have hchain := Chain.primary (.emptyMap ho hc)
    exact ⟨_, .chain hchain, rfl, fun _ => hchain⟩
  | .map (entry :: rest) _, h, ts, hts => by
    obtain ⟨o, all, rfl, ho, hall⟩ := map_token_cons hts
    obtain ⟨us, vs, rfl, hus, hvs⟩ := List.map_eq_append_iff.1 hall
    obtain ⟨c, rfl, hc⟩ : ∃ c, vs = [c] ∧ c.token = .closeBracket := by
      simpa [List.map_eq_cons_iff] using hvs
    obtain ⟨entries', hentries, hsame⟩ := exists_entries (entry :: rest) (by simp) h us hus
    have hchain := Chain.primary (.map ho hentries hc)
    exact ⟨_, .chain hchain, congrArg (Expr.map · 0) hsame, fun _ => hchain⟩

theorem exists_entries : (entries : List (String × Expr)) → entries ≠ [] →
    RenderableEntries entries → ∀ ts : List Lexeme, ts.map Lexeme.token = entriesTokens entries →
    ∃ entries', Entries ts entries' ∧
      relineEntries (fun _ => 0) entries' = relineEntries (fun _ => 0) entries
  | [], hne, _, _, _ => absurd rfl hne
  | [(key, value)], _, h, ts, hts => by
    obtain ⟨d, n, q, us, rfl, hd, hn, hq, hus⟩ := map_token_binding hts
    obtain ⟨e', hexpr, hsame, -⟩ := exists_expression value h.2.1 us hus
    exact ⟨_, .one (.mk hd hn hq hexpr), congrArg (fun e => [(key, e)]) hsame⟩
  | (key, value) :: e :: rest, _, h, ts, hts => by
    obtain ⟨d, n, q, all, rfl, hd, hn, hq, hall⟩ := map_token_binding hts
    obtain ⟨us, vs, rfl, hus, hvs⟩ := List.map_eq_append_iff.1 hall
    obtain ⟨c, vs, rfl, hc, hvs⟩ := map_token_cons hvs
    obtain ⟨e', hexpr, hsame, -⟩ := exists_expression value h.2.1 us hus
    obtain ⟨entries', hentries, hsame'⟩ := exists_entries (e :: rest) (by simp) h.2.2 vs hvs
    exact ⟨_, .more (.mk hd hn hq hexpr) hc hentries,
      congrArg₂ (fun e es => (key, e) :: es) hsame hsame'⟩

end

end Grammar

namespace Statement

def Renderable : Statement → Prop
  | .echo value _ => value.Renderable
  | .assign name value _ => IsName name ∧ value.Renderable

def tokens : Statement → List Token
  | .echo value _ => .echo :: value.tokens
  | .assign name value _ => .dollar :: .identifier name :: .equals :: value.tokens

def unlined : Statement → Statement := reline fun _ => 0

end Statement

namespace Grammar

theorem exists_sentence {s : Statement} (h : s.Renderable) {ts : List Lexeme}
    (hts : ts.map Lexeme.token = s.tokens) : ∃ s', Sentence ts s' ∧ s'.unlined = s.unlined := by
  cases s with
  | echo value line =>
    obtain ⟨k, us, rfl, hk, hus⟩ := map_token_cons hts
    obtain ⟨e', hexpr, hsame, -⟩ := exists_expression value h us hus
    exact ⟨_, .echo hk hexpr, congrArg (Statement.echo · 0) hsame⟩
  | assign name value line =>
    obtain ⟨d, n, q, us, rfl, hd, hn, hq, hus⟩ := map_token_binding hts
    obtain ⟨e', hexpr, hsame, -⟩ := exists_expression value h.2 us hus
    exact ⟨_, .assign hd hn hq hexpr, congrArg (Statement.assign name · 0) hsame⟩

/-! ## Derived trees can be written -/

/-- The lexeme's token has a spelling. -/
def Spelled (l : Lexeme) : Prop := ∃ cs, Token.Spells cs l.token

theorem Spelled.isName {l : Lexeme} {name : String} (h : Spelled l)
    (hl : l.token = .identifier name) : IsName name := by
  obtain ⟨cs, hcs⟩ := h
  rw [hl] at hcs
  exact isName_of_spells hcs

theorem ofRank_ne_nan (negative : Bool) (rank : Nat) : Number.ofRank negative rank ≠ .nan := by
  unfold Number.ofRank
  split <;> simp

theorem Spelled.ne_nan {l : Lexeme} {value : Number} (h : Spelled l)
    (hl : l.token = .number value) : value ≠ .nan := by
  obtain ⟨cs, hcs⟩ := h
  rw [hl] at hcs
  cases hcs with
  | number => exact ofRank_ne_nan _ _
  | negative => exact ofRank_ne_nan _ _

mutual

theorem Expression.renderable {ts : List Lexeme} {e : Expr} :
    Expression ts e → (∀ t ∈ ts, Spelled t) → e.Renderable
  | .number h, hts => (hts _ (by simp)).ne_nan h
  | .chain h, hts => (h.renderable hts).1

theorem Chain.renderable {ts : List Lexeme} {e : Expr} :
    Chain ts e → (∀ t ∈ ts, Spelled t) → e.Renderable ∧ e.isNumber = false
  | .primary h, hts => h.renderable hts
  | .path h _ _ hn, hts => by
    obtain ⟨hbase, hnumber⟩ := h.renderable fun t ht => hts t (by simp [ht])
    exact ⟨⟨hbase, hnumber, (hts _ (by simp)).isName hn⟩, rfl⟩

theorem Primary.renderable {ts : List Lexeme} {e : Expr} :
    Primary ts e → (∀ t ∈ ts, Spelled t) → e.Renderable ∧ e.isNumber = false
  | .string _, _ => ⟨trivial, rfl⟩
  | .var _ hn, hts => ⟨(hts _ (by simp)).isName hn, rfl⟩
  | .emptyMap _ _, _ => ⟨trivial, rfl⟩
  | .map _ h _, hts => ⟨h.renderable fun t ht => hts t (by simp [ht]), rfl⟩

theorem Entries.renderable {ts : List Lexeme} {entries : List (String × Expr)} :
    Entries ts entries → (∀ t ∈ ts, Spelled t) → RenderableEntries entries
  | .one h, hts => ⟨(h.renderable hts).1, (h.renderable hts).2, trivial⟩
  | .more h _ hs, hts => by
    obtain ⟨hkey, hvalue⟩ := h.renderable fun t ht => hts t (by simp [ht])
    exact ⟨hkey, hvalue, hs.renderable fun t ht => hts t (by simp [ht])⟩

theorem Entry.renderable {ts : List Lexeme} {entry : String × Expr} :
    Entry ts entry → (∀ t ∈ ts, Spelled t) → IsName entry.1 ∧ entry.2.Renderable
  | .mk _ hn _ h, hts =>
    ⟨(hts _ (by simp)).isName hn, h.renderable fun t ht => hts t (by simp [ht])⟩

end

theorem Sentence.renderable {ts : List Lexeme} {s : Statement} (h : Sentence ts s)
    (hts : ∀ t ∈ ts, Spelled t) : s.Renderable := by
  cases h with
  | echo _ h => exact h.renderable fun t ht => hts t (by simp [ht])
  | assign hd hn hq h => exact (Entry.mk hd hn hq h).renderable hts

theorem Program.renderable {ts : List Lexeme} {ss : List Statement} (h : Program ts ss)
    (hts : ∀ t ∈ ts, Spelled t) : ∀ s ∈ ss, s.Renderable := by
  induction h with
  | last => simp
  | @next ns ts us s ss _ hs _ ih =>
    intro s' hs'
    rcases List.mem_cons.1 hs' with rfl | hs'
    · exact hs.renderable fun t ht => hts t (by simp [ht])
    · exact ih (fun t ht => hts t (by simp [ht])) s' hs'

end Grammar
end EchoScript
