import EchoScript.Eval

/-!
# EchoScript.Proofs.Assignment

What a run does to the environment.

* `execute_environment` — a statement binds the name that it assigns, or nothing.
* `executeAll_environment` — what every binding of an expression's value keeps, a run keeps.
* `Assigns` — the names that the executed statements of a run assign: those of the statements that
  stand behind statements without failure. All others keep their values (`executeAll_frame`).
-/

namespace EchoScript
namespace Statement

def value : Statement → Expr
  | .echo value _ => value
  | .assign _ value _ => value

def target? : Statement → Option String
  | .echo _ _ => none
  | .assign name _ _ => some name

/-! ## Steps -/

theorem execute_environment (state : State) (s : Statement) :
    (s.execute state).state.environment =
      match s.target? with
      | none => state.environment
      | some name => state.environment.set name (s.value.eval state.environment) := by
  cases s <;> rfl

theorem execute_frame {s : Statement} {name : String} (h : s.target? ≠ some name) (state : State) :
    (s.execute state).state.environment.get? name = state.environment.get? name := by
  rw [execute_environment]
  cases ht : s.target? with
  | none => rfl
  | some other =>
    have hne : name ≠ other := by
      rintro rfl
      exact h ht
    rw [Environment.get?_set, if_neg hne]

section

variable {state : State} {s : Statement} {rest : List Statement}

theorem executeAll_of_none (h : (s.execute state).error = none) :
    executeAll state (s :: rest) = executeAll (s.execute state).state rest := by
  rw [executeAll]
  generalize s.execute state = ending at h
  obtain ⟨next, error⟩ := ending
  cases h
  rfl

theorem executeAll_of_some {e : RuntimeError} (h : (s.execute state).error = some e) :
    executeAll state (s :: rest) = s.execute state := by
  rw [executeAll]
  generalize s.execute state = ending at h
  obtain ⟨next, error⟩ := ending
  cases h
  rfl

end

/-! ## Runs -/

theorem executeAll_environment {P : Environment → Prop}
    (hset : ∀ env name value, P env → P (env.set name (Expr.eval env value))) {state : State}
    (h : P state.environment) (ss : List Statement) :
    P (executeAll state ss).state.environment := by
  induction ss generalizing state with
  | nil => exact h
  | cons s rest ih =>
    have hstep : P (s.execute state).state.environment := by
      rw [execute_environment]
      split
      · exact h
      · exact hset _ _ _ h
    cases herror : (s.execute state).error with
    | none => rw [executeAll_of_none herror]; exact ih hstep
    | some e => rw [executeAll_of_some herror]; exact hstep

/-- Running `ss` comes to a statement that assigns the name: those before it do not fail. -/
def Assigns (state : State) (ss : List Statement) (name : String) : Prop :=
  ∃ before s after, ss = before ++ s :: after ∧ (executeAll state before).error = none ∧
    s.target? = some name

theorem not_assigns_nil {state : State} {name : String} : ¬ Assigns state [] name := by
  rintro ⟨before, s, after, hss, -⟩
  cases before <;> cases hss

theorem assigns_cons {state : State} {s : Statement} {rest : List Statement} {name : String} :
    Assigns state (s :: rest) name ↔ s.target? = some name ∨
      (s.execute state).error = none ∧ Assigns (s.execute state).state rest name := by
  constructor
  · rintro ⟨before, t, after, hss, hbefore, ht⟩
    cases before with
    | nil =>
      cases hss
      exact .inl ht
    | cons u before =>
      cases hss
      cases herror : (s.execute state).error with
      | none =>
        rw [executeAll_of_none herror] at hbefore
        exact .inr ⟨rfl, before, t, after, rfl, hbefore, ht⟩
      | some e =>
        rw [executeAll_of_some herror, herror] at hbefore
        cases hbefore
  · rintro (hs | ⟨herror, before, t, after, rfl, hbefore, ht⟩)
    · exact ⟨[], s, rest, rfl, rfl, hs⟩
    · refine ⟨s :: before, t, after, rfl, ?_, ht⟩
      rwa [executeAll_of_none herror]

/-- A name that no executed statement assigns keeps its value. -/
theorem executeAll_frame {state : State} {ss : List Statement} {name : String}
    (h : ¬ Assigns state ss name) :
    (executeAll state ss).state.environment.get? name = state.environment.get? name := by
  induction ss generalizing state with
  | nil => rfl
  | cons s rest ih =>
    rw [assigns_cons, not_or] at h
    have hstep := execute_frame h.1 state
    cases herror : (s.execute state).error with
    | none =>
      rw [executeAll_of_none herror, ih fun hrest => h.2 ⟨herror, hrest⟩, hstep]
    | some e => rw [executeAll_of_some herror, hstep]

end Statement
end EchoScript
