import EchoScript.Tree.OfTokens
import Mathlib.Data.List.Chain

/-!
# EchoScript.Proofs.Grammar

The grammar of scripts over lexemes. A derivation relates a stretch of lexemes to the tree it
spells; each rule names its lexemes by their tokens and puts the line of the marking lexeme into the
node.

`Tidy` says what all derived stretches have in common: no line break inside, no comma before a
closing bracket, no point behind a number. It holds of parts and so of what is put together from
them.
-/

namespace EchoScript
namespace Grammar

mutual

/-- `Expr := NUMBER | Chain`. -/
inductive Expression : List Lexeme → Expr → Prop where
  | number {t : Lexeme} {value : Number} :
      t.token = .number value → Expression [t] (.number value t.position.line)
  | chain {ts : List Lexeme} {e : Expr} : Chain ts e → Expression ts e

/-- `Chain := Primary ('.' '$' IDENT)*`, grouped to the left. -/
inductive Chain : List Lexeme → Expr → Prop where
  | primary {ts : List Lexeme} {e : Expr} : Primary ts e → Chain ts e
  | path {ts : List Lexeme} {e : Expr} {dot dollar name : Lexeme} {key : String} :
      Chain ts e → dot.token = .dot → dollar.token = .dollar → name.token = .identifier key →
      Chain (ts ++ [dot, dollar, name]) (.path e key dot.position.line)

/-- `Primary := STRING | '$' IDENT | '[' ']' | '[' Entries ']'`. -/
inductive Primary : List Lexeme → Expr → Prop where
  | string {t : Lexeme} {text : String} :
      t.token = .string text → Primary [t] (.string text t.position.line)
  | var {dollar name : Lexeme} {x : String} :
      dollar.token = .dollar → name.token = .identifier x →
      Primary [dollar, name] (.var x dollar.position.line)
  | emptyMap {opening closing : Lexeme} :
      opening.token = .openBracket → closing.token = .closeBracket →
      Primary [opening, closing] (.map [] opening.position.line)
  | map {opening closing : Lexeme} {ts : List Lexeme} {entries : List (String × Expr)} :
      opening.token = .openBracket → Entries ts entries → closing.token = .closeBracket →
      Primary (opening :: ts ++ [closing]) (.map entries opening.position.line)

/-- `Entries := Entry (',' Entry)*`, kept as written. -/
inductive Entries : List Lexeme → List (String × Expr) → Prop where
  | one {ts : List Lexeme} {entry : String × Expr} : Entry ts entry → Entries ts [entry]
  | more {ts us : List Lexeme} {comma : Lexeme} {entry : String × Expr}
      {entries : List (String × Expr)} :
      Entry ts entry → comma.token = .comma → Entries us entries →
      Entries (ts ++ comma :: us) (entry :: entries)

/-- `Entry := '$' IDENT '=' Expr`. -/
inductive Entry : List Lexeme → String × Expr → Prop where
  | mk {dollar name equals : Lexeme} {ts : List Lexeme} {key : String} {e : Expr} :
      dollar.token = .dollar → name.token = .identifier key → equals.token = .equals →
      Expression ts e → Entry (dollar :: name :: equals :: ts) (key, e)

end

/-- `Statement := 'echo' Expr | '$' IDENT '=' Expr`. -/
inductive Sentence : List Lexeme → Statement → Prop where
  | echo {echo : Lexeme} {ts : List Lexeme} {e : Expr} :
      echo.token = .echo → Expression ts e → Sentence (echo :: ts) (.echo e echo.position.line)
  | assign {dollar name equals : Lexeme} {ts : List Lexeme} {x : String} {e : Expr} :
      dollar.token = .dollar → name.token = .identifier x → equals.token = .equals →
      Expression ts e →
      Sentence (dollar :: name :: equals :: ts) (.assign x e dollar.position.line)

/-- `NEWLINE*`. -/
def Newlines (ts : List Lexeme) : Prop := ∀ t ∈ ts, t.token = .newline

/-- `Program := (NEWLINE* Statement)* NEWLINE*`. -/
inductive Program : List Lexeme → List Statement → Prop where
  | last {ns : List Lexeme} : Newlines ns → Program ns []
  | next {ns ts us : List Lexeme} {s : Statement} {ss : List Statement} :
      Newlines ns → Sentence ts s → Program us ss → Program (ns ++ ts ++ us) (s :: ss)

/-- Nothing more, or the end of input with anything behind it. -/
def Ends (ts : List Lexeme) : Prop := ∀ t ∈ ts.head?, t.token = .endOfInput

/-! ## The shape of derived stretches -/

/-- Two lexemes that may stand side by side. -/
def Neighbours (a b : Lexeme) : Prop :=
  ¬ (a.token = .comma ∧ b.token = .closeBracket) ∧
    ∀ value, ¬ (a.token = .number value ∧ b.token = .dot)

/-- A stretch of good neighbours without line breaks, which does not end in a comma. -/
structure Clean (ts : List Lexeme) : Prop where
  nonempty : ts ≠ []
  noNewline : ∀ t ∈ ts, t.token ≠ .newline
  neighbours : ts.IsChain Neighbours
  last : ∀ t ∈ ts.getLast?, t.token ≠ .comma

/-- A clean stretch that can follow another one. -/
structure Tidy (ts : List Lexeme) : Prop extends Clean ts where
  head : ∀ t ∈ ts.head?, t.token ≠ .dot ∧ t.token ≠ .closeBracket

theorem Clean.single {t : Lexeme} (hn : t.token ≠ .newline) (hc : t.token ≠ .comma) :
    Clean [t] where
  nonempty := by simp
  noNewline := by simpa using hn
  neighbours := by simp
  last := by simpa using hc

theorem Clean.cons {t : Lexeme} {ts : List Lexeme} (hn : t.token ≠ .newline) (hs : Clean ts)
    (hseam : ∀ u ∈ ts.head?, Neighbours t u) : Clean (t :: ts) where
  nonempty := by simp
  noNewline := by simpa [hn] using hs.noNewline
  neighbours := List.isChain_cons.mpr ⟨hseam, hs.neighbours⟩
  last := by
    rw [List.getLast?_cons_of_ne_nil hs.nonempty]
    exact hs.last

theorem Clean.append {ts us : List Lexeme} (ht : Clean ts) (hu : Clean us)
    (hseam : ∀ a ∈ ts.getLast?, ∀ b ∈ us.head?, Neighbours a b) : Clean (ts ++ us) where
  nonempty := by simp [ht.nonempty]
  noNewline := by
    intro t hmem
    obtain h | h := List.mem_append.mp hmem
    · exact ht.noNewline t h
    · exact hu.noNewline t h
  neighbours := ht.neighbours.append hu.neighbours hseam
  last := by
    rw [List.getLast?_append_of_ne_nil _ hu.nonempty]
    exact hu.last

namespace Tidy

theorem single {t : Lexeme} {token : Token} (ht : t.token = token)
    (h : token ≠ .newline ∧ token ≠ .comma ∧ token ≠ .dot ∧ token ≠ .closeBracket) : Tidy [t] := by
  obtain ⟨hn, hc, hd, hb⟩ := h
  rw [← ht] at hn hc hd hb
  exact ⟨.single hn hc, by simpa using ⟨hd, hb⟩⟩

theorem of_append {ts us : List Lexeme} (ht : Tidy ts) (h : Clean (ts ++ us)) :
    Tidy (ts ++ us) := by
  refine ⟨h, ?_⟩
  rw [List.head?_append_of_ne_nil _ ht.nonempty]
  exact ht.head

theorem append {ts us : List Lexeme} (ht : Tidy ts) (hu : Tidy us) : Tidy (ts ++ us) := by
  refine ht.of_append (ht.toClean.append hu.toClean ?_)
  intro a ha b hb
  exact ⟨fun h => ht.last a ha h.1, fun _ h => (hu.head b hb).1 h.2⟩

/-- A comma needs something behind it, and a closing bracket does not start that. -/
theorem comma {t : Lexeme} {ts : List Lexeme} (ht : t.token = .comma) (hs : Tidy ts) :
    Tidy (t :: ts) := by
  refine ⟨hs.toClean.cons (by simp [ht]) ?_, by simp [ht]⟩
  intro u hu
  exact ⟨fun h => (hs.head u hu).2 h.2, by simp [ht]⟩

/-- A closing bracket needs something before it that is no comma. -/
theorem close {t : Lexeme} {ts : List Lexeme} (hs : Tidy ts) (ht : t.token = .closeBracket) :
    Tidy (ts ++ [t]) := by
  refine hs.of_append (hs.toClean.append (.single (by simp [ht]) (by simp [ht])) ?_)
  intro a ha b hb
  obtain rfl : t = b := by simpa using hb
  exact ⟨fun h => hs.last a ha h.1, by simp [ht]⟩

/-- A path suffix needs something before it that is no number. -/
theorem suffix {dot : Lexeme} {ts us : List Lexeme} (hs : Tidy ts) (hd : dot.token = .dot)
    (hl : ∀ t ∈ ts.getLast?, ∀ value, t.token ≠ .number value) (hu : Tidy us) :
    Tidy (ts ++ dot :: us) := by
  have hdot : Clean (dot :: us) :=
    hu.toClean.cons (by simp [hd]) fun u _ => ⟨by simp [hd], by simp [hd]⟩
  refine hs.of_append (hs.toClean.append hdot ?_)
  intro a ha b hb
  obtain rfl : dot = b := by simpa using hb
  exact ⟨by simp [hd], fun value h => hl a ha value h.1⟩

end Tidy

mutual

theorem Expression.tidy {ts : List Lexeme} {e : Expr} : Expression ts e → Tidy ts
  | .number h => .single h (by simp)
  | .chain h => h.tidy.1

/-- No number ends a chain, so that a point may follow. -/
theorem Chain.tidy {ts : List Lexeme} {e : Expr} :
    Chain ts e → Tidy ts ∧ ∀ t ∈ ts.getLast?, ∀ value, t.token ≠ .number value
  | .primary h => h.tidy
  | .path h hd hs hn => by
    obtain ⟨htidy, hlast⟩ := h.tidy
    have hkey := (Tidy.single hs (by simp)).append (.single hn (by simp))
    exact ⟨htidy.suffix hd hlast hkey, by simp [hn]⟩

theorem Primary.tidy {ts : List Lexeme} {e : Expr} :
    Primary ts e → Tidy ts ∧ ∀ t ∈ ts.getLast?, ∀ value, t.token ≠ .number value
  | .string h => ⟨.single h (by simp), by simp [h]⟩
  | .var hs hn => ⟨(Tidy.single hs (by simp)).append (.single hn (by simp)), by simp [hn]⟩
  | .emptyMap ho hc => ⟨(Tidy.single ho (by simp)).close hc, by simp [hc]⟩
  | .map ho h hc => by
    refine ⟨((Tidy.single ho (by simp)).append h.tidy).close hc, ?_⟩
    rw [List.getLast?_append_of_ne_nil _ (by simp)]
    simp [hc]

theorem Entries.tidy {ts : List Lexeme} {entries : List (String × Expr)} :
    Entries ts entries → Tidy ts
  | .one h => h.tidy
  | .more h hc hs => h.tidy.append (hs.tidy.comma hc)

theorem Entry.tidy {ts : List Lexeme} {entry : String × Expr} : Entry ts entry → Tidy ts
  | .mk hs hn hq h =>
    (Tidy.single hs (by simp)).append
      ((Tidy.single hn (by simp)).append ((Tidy.single hq (by simp)).append h.tidy))

end

theorem Sentence.tidy {ts : List Lexeme} {s : Statement} (h : Sentence ts s) : Tidy ts := by
  cases h with
  | echo he h => exact (Tidy.single he (by simp)).append h.tidy
  | assign hs hn hq h =>
    exact (Tidy.single hs (by simp)).append
      ((Tidy.single hn (by simp)).append ((Tidy.single hq (by simp)).append h.tidy))

/-- A stretch of good neighbours that can follow a statement. -/
def Follows (ts : List Lexeme) : Prop :=
  ts.IsChain Neighbours ∧ ∀ t ∈ ts.head?, t.token ≠ .dot ∧ t.token ≠ .closeBracket

theorem Newlines.follows {ns ts : List Lexeme} (hn : Newlines ns) (ht : Follows ts) :
    Follows (ns ++ ts) := by
  induction ns with
  | nil => exact ht
  | cons n ns ih =>
    have hhead : n.token = .newline := hn n (by simp)
    have htail := ih fun t ht => hn t (by simp [ht])
    refine ⟨List.isChain_cons.mpr ⟨?_, htail.1⟩, by simp [hhead]⟩
    intro u _
    exact ⟨by simp [hhead], by simp [hhead]⟩

theorem Program.follows {ts : List Lexeme} {ss : List Statement} (h : Program ts ss) :
    Follows ts := by
  induction h with
  | @last ns hn =>
    rw [← List.append_nil ns]
    exact hn.follows ⟨by simp, by simp⟩
  | @next ns ts us s ss hn hs _ ih =>
    have ht := hs.tidy
    rw [List.append_assoc]
    refine hn.follows ⟨ht.neighbours.append ih.1 ?_, ?_⟩
    · intro a ha b hb
      exact ⟨fun h => ht.last a ha h.1, fun _ h => (ih.2 b hb).1 h.2⟩
    · rw [List.head?_append_of_ne_nil _ ht.nonempty]
      exact ht.head

end Grammar
end EchoScript
