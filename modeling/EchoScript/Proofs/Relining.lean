import EchoScript.Eval
import EchoScript.Proofs.MaximalMunch
import EchoScript.Proofs.Parsing

/-!
# EchoScript.Proofs.Relining

Line numbers are carried along and never looked at.

`reline f` changes every line by `f`: in lexemes, in trees and in the errors of a run. Deriving a
tree, evaluating it and executing statements all commute with it, and scanning does where the lines
move by a constant.
-/

namespace EchoScript

def Position.reline (f : Nat → Nat) (p : Position) : Position := ⟨f p.line, p.column⟩

def Lexeme.reline (f : Nat → Nat) (l : Lexeme) : Lexeme :=
  { l with position := l.position.reline f }

namespace Expr

mutual

def reline (f : Nat → Nat) : Expr → Expr
  | .string text line => .string text (f line)
  | .number value line => .number value (f line)
  | .var name line => .var name (f line)
  | .path base key line => .path (reline f base) key (f line)
  | .map entries line => .map (relineEntries f entries) (f line)

def relineEntries (f : Nat → Nat) : List (String × Expr) → List (String × Expr)
  | [] => []
  | (key, value) :: rest => (key, reline f value) :: relineEntries f rest

end

end Expr

def Statement.reline (f : Nat → Nat) : Statement → Statement
  | .echo value line => .echo (value.reline f) (f line)
  | .assign name value line => .assign name (value.reline f) (f line)

/-- Only the errors of output carry a line. -/
def RuntimeError.reline (f : Nat → Nat) : RuntimeError → RuntimeError
  | .output line refusal => .output (f line) refusal
  | e => e

variable (f : Nat → Nat)

/-! ## Derivations -/

namespace Grammar

mutual

theorem Expression.reline {ts : List Lexeme} {e : Expr} :
    Expression ts e → Expression (ts.map (Lexeme.reline f)) (e.reline f)
  | .number h => .number h
  | .chain h => .chain h.reline

theorem Chain.reline {ts : List Lexeme} {e : Expr} :
    Chain ts e → Chain (ts.map (Lexeme.reline f)) (e.reline f)
  | .primary h => .primary h.reline
  | .path h hd hs hn => by
    rw [List.map_append]
    exact .path h.reline hd hs hn

theorem Primary.reline {ts : List Lexeme} {e : Expr} :
    Primary ts e → Primary (ts.map (Lexeme.reline f)) (e.reline f)
  | .string h => .string h
  | .var hd hn => .var hd hn
  | .emptyMap ho hc => .emptyMap ho hc
  | .map ho h hc => by
    rw [List.map_append, List.map_cons]
    exact .map ho h.reline hc

theorem Entries.reline {ts : List Lexeme} {entries : List (String × Expr)} :
    Entries ts entries → Entries (ts.map (Lexeme.reline f)) (Expr.relineEntries f entries)
  | .one h => .one h.reline
  | .more h hc hs => by
    rw [List.map_append, List.map_cons]
    exact .more h.reline hc hs.reline

theorem Entry.reline {ts : List Lexeme} {entry : String × Expr} :
    Entry ts entry → Entry (ts.map (Lexeme.reline f)) (entry.1, entry.2.reline f)
  | .mk hd hn hq h => .mk hd hn hq h.reline

end

theorem Sentence.reline {ts : List Lexeme} {s : Statement} (h : Sentence ts s) :
    Sentence (ts.map (Lexeme.reline f)) (s.reline f) := by
  cases h with
  | echo he h => exact .echo he (h.reline f)
  | assign hd hn hq h => exact .assign hd hn hq (h.reline f)

theorem Newlines.reline {ns : List Lexeme} (h : Newlines ns) :
    Newlines (ns.map (Lexeme.reline f)) := by
  intro t ht
  obtain ⟨n, hn, rfl⟩ := List.mem_map.1 ht
  exact h n hn

theorem Program.reline {ts : List Lexeme} {ss : List Statement} (h : Program ts ss) :
    Program (ts.map (Lexeme.reline f)) (ss.map (Statement.reline f)) := by
  induction h with
  | last hn => exact .last (hn.reline f)
  | next hn hs _ ih =>
    rw [List.map_append, List.map_append]
    exact .next (hn.reline f) (hs.reline f) ih

theorem listOfTokens_reline {ts : List Lexeme} {ss : List Statement}
    (h : Statement.listOfTokens ts = .ok ss) :
    Statement.listOfTokens (ts.map (Lexeme.reline f)) = .ok (ss.map (Statement.reline f)) := by
  obtain ⟨ps, qs, rfl, hq, hp⟩ := listOfTokens_eq_ok_iff.1 h
  refine listOfTokens_eq_ok_iff.2 ⟨_, _, List.map_append, ?_, hp.reline f⟩
  intro t ht
  rw [List.head?_map] at ht
  obtain ⟨q, hq', rfl⟩ := Option.map_eq_some_iff.1 ht
  exact hq q hq'

end Grammar

/-! ## Runs -/

namespace Expr

mutual

theorem eval_reline (env : Environment) : (e : Expr) → (e.reline f).eval env = e.eval env
  | .string _ _ => rfl
  | .number _ _ => rfl
  | .var _ _ => rfl
  | .path base _ _ => by rw [reline, eval, eval, eval_reline env base]
  | .map entries _ => by rw [reline, eval, eval, evalEntries_reline env entries]

theorem evalEntries_reline (env : Environment) : (entries : List (String × Expr)) →
    evalEntries env (relineEntries f entries) = evalEntries env entries
  | [] => rfl
  | (_, value) :: rest => by
    rw [relineEntries, evalEntries, evalEntries, eval_reline env value, evalEntries_reline env rest]

end

end Expr

namespace Ending

def reline (e : Ending RuntimeError) : Ending RuntimeError :=
  ⟨e.state, e.error.map (RuntimeError.reline f)⟩

end Ending

namespace Statement

theorem execute_reline (state : State) (s : Statement) :
    (s.reline f).execute state = (s.execute state).reline f := by
  cases s with
  | echo value line =>
    simp only [reline, execute, Expr.eval_reline, Ending.reline, Option.map_map]
    rfl
  | assign name value line => simp only [reline, execute, Expr.eval_reline]; rfl

theorem executeAll_reline (state : State) (ss : List Statement) :
    executeAll state (ss.map (Statement.reline f)) = (executeAll state ss).reline f := by
  induction ss generalizing state with
  | nil => rfl
  | cons s ss ih =>
    rw [List.map_cons, executeAll, executeAll, execute_reline]
    obtain ⟨next, error⟩ := s.execute state
    cases error with
    | none => exact ih next
    | some e => rfl

end Statement

/-! ## Scanning from a later line -/

theorem Position.after_reline (k : Nat) (p : Position) (cs : List Char) :
    (p.reline (· + k)).after cs = (p.after cs).reline (· + k) := by
  induction cs generalizing p with
  | nil => rfl
  | cons c cs ih =>
    have hstep : (p.reline (· + k)).advance c = (p.advance c).reline (· + k) := by
      unfold advance reline
      split
      · simp only [Nat.add_right_comm]
      · rfl
    rw [after_cons, after_cons, hstep, ih]

namespace Token

theorem scan_reline (k : Nat) {p : Position} {cs : List Char} {ts : List Lexeme}
    (h : scan p cs = .ok ts) :
    scan (p.reline (· + k)) cs = .ok (ts.map (Lexeme.reline (· + k))) := by
  refine scan_ok_induction (motive := fun p cs ts => scan (p.reline (· + k)) cs =
    .ok (ts.map (Lexeme.reline (· + k)))) ?nil ?blank ?token h
  case nil =>
    intro p
    rw [scan_nil]
    rfl
  case blank =>
    intro p c cs ts hc ih
    have hstep : (p.reline (· + k)).advance c = (p.advance c).reline (· + k) :=
      Position.after_reline k p [c]
    rwa [scan_blank hc, hstep]
  case token =>
    intro p c text rest t ts hc _ _ hstart ih
    rw [scan_token hc hstart, Position.after_reline, ih]
    rfl

end Token
end EchoScript
