import EchoScript.Proofs.Assignment
import EchoScript.Proofs.InsertionOrder

/-!
# EchoScript.Proofs.Dependence

A program depends on the variables that it reads before it has assigned them, and on nothing else of
the environment that it starts from.

* `Expr.eval_congr` — an expression's value depends on the variables that it reads.
* `execute_agree` — the step: what two environments agree on, and what is assigned, stays the same.
* `executeAll_agree` — the run, also where the sink cuts it off.
-/

namespace EchoScript

namespace Expr

mutual

/-- The variables that an expression reads. The keys of a map literal and of a path are not read. -/
def reads : Expr → List String
  | .string _ _ => []
  | .number _ _ => []
  | .var name _ => [name]
  | .path base _ _ => reads base
  | .map entries _ => readsEntries entries

def readsEntries : List (String × Expr) → List String
  | [] => []
  | (_, value) :: rest => reads value ++ readsEntries rest

end

section

variable {env₁ env₂ : Environment}

mutual

theorem eval_congr : (e : Expr) → (∀ name ∈ e.reads, env₁.get? name = env₂.get? name) →
    e.eval env₁ = e.eval env₂
  | .string _ _, _ => rfl
  | .number _ _, _ => rfl
  | .var name _, h => by rw [eval, eval, h name (by simp [reads])]
  | .path base _ _, h => by rw [eval, eval, eval_congr base h]
  | .map entries _, h => by rw [eval, eval, evalEntries_congr entries h]

theorem evalEntries_congr : (entries : List (String × Expr)) →
    (∀ name ∈ readsEntries entries, env₁.get? name = env₂.get? name) →
    evalEntries env₁ entries = evalEntries env₂ entries
  | [], _ => rfl
  | (_, value) :: rest, h => by
    rw [readsEntries] at h
    rw [evalEntries, evalEntries,
      eval_congr value fun name hname => h name (List.mem_append_left _ hname),
      evalEntries_congr rest fun name hname => h name (List.mem_append_right _ hname)]

end

end

end Expr

namespace Environment

theorem get?_eq_some_iff {env : Environment} (h : env.names.Nodup) {name : String} {value : Value} :
    env.get? name = some value ↔ (name, value) ∈ env.toList :=
  OrderedMap.lookup_eq_some_iff h

/-- The order in which variables were bound does not show in their values. -/
theorem get?_perm {env₁ env₂ : Environment} (hnodup : env₁.names.Nodup)
    (hperm : env₁.toList.Perm env₂.toList) (name : String) : env₁.get? name = env₂.get? name := by
  have hnodup' : env₂.names.Nodup := (hperm.map _).nodup_iff.1 hnodup
  refine Option.ext fun value => ?_
  rw [get?_eq_some_iff hnodup, get?_eq_some_iff hnodup', hperm.mem_iff]

end Environment

namespace Statement

/-- Some expression of the statements reads the name where none of the statements before it has
assigned it. -/
def Needs (ss : List Statement) (name : String) : Prop :=
  ∃ before s after, ss = before ++ s :: after ∧ name ∈ s.value.reads ∧
    ∀ t ∈ before, t.target? ≠ some name

theorem not_needs_nil {name : String} : ¬ Needs [] name := by
  rintro ⟨before, s, after, hss, -⟩
  cases before <;> cases hss

theorem needs_cons {s : Statement} {rest : List Statement} {name : String} :
    Needs (s :: rest) name ↔ name ∈ s.value.reads ∨ s.target? ≠ some name ∧ Needs rest name := by
  constructor
  · rintro ⟨before, t, after, hss, hread, hbefore⟩
    cases before with
    | nil =>
      cases hss
      exact .inl hread
    | cons u before =>
      cases hss
      obtain ⟨hs, hbefore⟩ := List.forall_mem_cons.1 hbefore
      exact .inr ⟨hs, before, t, after, rfl, hread, hbefore⟩
  · rintro (hread | ⟨hs, before, t, after, rfl, hread, hbefore⟩)
    · exact ⟨[], s, rest, rfl, hread, by simp⟩
    · exact ⟨s :: before, t, after, rfl, hread, List.forall_mem_cons.2 ⟨hs, hbefore⟩⟩

theorem execute_agree {st₁ st₂ : State} (hsink : st₁.sink = st₂.sink) {s : Statement}
    (h : ∀ name ∈ s.value.reads, st₁.environment.get? name = st₂.environment.get? name) :
    (s.execute st₁).state.sink = (s.execute st₂).state.sink ∧
    (s.execute st₁).error = (s.execute st₂).error ∧
    ∀ name, s.target? = some name ∨ st₁.environment.get? name = st₂.environment.get? name →
      (s.execute st₁).state.environment.get? name =
        (s.execute st₂).state.environment.get? name := by
  have heval := Expr.eval_congr s.value h
  cases s with
  | echo value line =>
    simp only [Statement.value] at heval
    simp only [execute, hsink, heval, target?, true_and]
    rintro name (htarget | hname)
    · cases htarget
    · exact hname
  | assign target value line =>
    simp only [Statement.value] at heval
    refine ⟨hsink, rfl, ?_⟩
    intro name hname
    simp only [execute, Environment.get?_set, heval]
    split
    · rfl
    · rename_i hne
      refine hname.resolve_left fun htarget => hne (Option.some.inj htarget).symm

theorem executeAll_agree {ss : List Statement} {st₁ st₂ : State} (hsink : st₁.sink = st₂.sink)
    (h : ∀ name, Needs ss name → st₁.environment.get? name = st₂.environment.get? name) :
    (executeAll st₁ ss).state.sink = (executeAll st₂ ss).state.sink ∧
    (executeAll st₁ ss).error = (executeAll st₂ ss).error ∧
    ∀ name, Assigns st₁ ss name ∨ st₁.environment.get? name = st₂.environment.get? name →
      (executeAll st₁ ss).state.environment.get? name =
        (executeAll st₂ ss).state.environment.get? name := by
  induction ss generalizing st₁ st₂ with
  | nil => exact ⟨hsink, rfl, fun name hname => hname.resolve_left not_assigns_nil⟩
  | cons s rest ih =>
    obtain ⟨hsink', herror, henv⟩ := execute_agree hsink fun name hread =>
      h name (needs_cons.2 (.inl hread))
    cases hfirst : (s.execute st₁).error with
    | none =>
      rw [executeAll_of_none hfirst, executeAll_of_none (herror.symm.trans hfirst)]
      -- What the rest needs is assigned by the first statement or was needed before it.
      have hneeds : ∀ name, Needs rest name →
          (s.execute st₁).state.environment.get? name =
            (s.execute st₂).state.environment.get? name := by
        intro name hname
        by_cases htarget : s.target? = some name
        · exact henv name (.inl htarget)
        · exact henv name (.inr (h name (needs_cons.2 (.inr ⟨htarget, hname⟩))))
      obtain ⟨hsink'', herror', henv'⟩ := ih hsink' hneeds
      refine ⟨hsink'', herror', ?_⟩
      rintro name (hassigns | hname)
      · obtain htarget | ⟨-, hrest⟩ := assigns_cons.1 hassigns
        · exact henv' name (.inr (henv name (.inl htarget)))
        · exact henv' name (.inl hrest)
      · exact henv' name (.inr (henv name (.inr hname)))
    | some e =>
      have hsecond : (s.execute st₂).error = some e := herror.symm.trans hfirst
      rw [executeAll_of_some hfirst, executeAll_of_some hsecond]
      refine ⟨hsink', herror, ?_⟩
      rintro name (hassigns | hname)
      · obtain htarget | ⟨hnone, -⟩ := assigns_cons.1 hassigns
        · exact henv name (.inl htarget)
        · rw [hfirst] at hnone
          cases hnone
      · exact henv name (.inr hname)

/-- Two runs of a program on the same sink behave the same, if the environments that they start
from agree on what the program reads before it has assigned it. They leave the same value for each
name that an executed statement assigned and for each name on which they agreed at the start. In
particular no run depends on the order in which the variables were bound. -/
theorem executeAll_depends_on_needs (ss : List Statement) (sink : Sink)
    (env₁ env₂ : Environment) :
    let first := executeAll ⟨env₁, sink⟩ ss
    let second := executeAll ⟨env₂, sink⟩ ss
    ((∀ name, Needs ss name → env₁.get? name = env₂.get? name) →
      first.state.sink = second.state.sink ∧ first.error = second.error ∧
      ∀ name, Assigns ⟨env₁, sink⟩ ss name ∨ env₁.get? name = env₂.get? name →
        first.state.environment.get? name = second.state.environment.get? name) ∧
    (env₁.names.Nodup → env₁.toList.Perm env₂.toList →
      first.state.sink = second.state.sink ∧ first.error = second.error ∧
      ∀ name, first.state.environment.get? name = second.state.environment.get? name) := by
  intro first second
  refine ⟨fun h => executeAll_agree rfl h, fun hnodup hperm => ?_⟩
  have hsame := Environment.get?_perm hnodup hperm
  obtain ⟨hsink, herror, henv⟩ :=
    @executeAll_agree ss ⟨env₁, sink⟩ ⟨env₂, sink⟩ rfl fun name _ => hsame name
  exact ⟨hsink, herror, fun name => henv name (.inr (hsame name))⟩

/-- A program that reads `y` first, and `z` only after it has assigned it, on a sink that cuts off
its second line; and two orders of the same bindings. -/
theorem executeAll_depends_on_one_name :
    let ss : List Statement := [.echo (.map [("x", .var "y" 1)] 1) 1,
      .assign "z" (.path (.var "y" 2) "x" 2) 2, .echo (.var "z" 3) 3]
    let y := Value.map ⟨[("x", .string "é")]⟩
    let env₁ : Environment := ⟨⟨[("x", .null), ("y", y), ("z", .string "1")]⟩⟩
    let env₂ : Environment := ⟨⟨[("z", .null), ("y", y)]⟩⟩
    let env₃ : Environment := ⟨⟨[("z", .string "1"), ("x", .null), ("y", y)]⟩⟩
    let sink := Sink.limited 19 .closed
    (∀ name, Needs ss name → env₁.get? name = env₂.get? name) ∧
    (executeAll ⟨env₁, sink⟩ ss).state.sink = (executeAll ⟨env₂, sink⟩ ss).state.sink ∧
    (executeAll ⟨env₁, sink⟩ ss).state.environment.get? "z" =
      (executeAll ⟨env₂, sink⟩ ss).state.environment.get? "z" ∧
    env₁.names.Nodup ∧ env₁.toList.Perm env₃.toList ∧
    (executeAll ⟨env₁, sink⟩ ss).state.sink = (executeAll ⟨env₃, sink⟩ ss).state.sink ∧
    (executeAll ⟨env₁, sink⟩ ss).error = some (.output 3 .closed) := by
  intro ss y env₁ env₂ env₃ sink
  have hneeds : ∀ name, Needs ss name → env₁.get? name = env₂.get? name := by
    intro name hname
    have hcases : name = "y" ∨ ¬"z" = name ∧ name = "z" := by
      simpa [ss, needs_cons, not_needs_nil, value, target?, Expr.reads, Expr.readsEntries]
        using hname
    obtain rfl | ⟨hne, rfl⟩ := hcases
    · rfl
    · exact absurd rfl hne
  have hassigns : Assigns ⟨env₁, sink⟩ ss "z" :=
    ⟨[.echo (.map [("x", .var "y" 1)] 1) 1], .assign "z" (.path (.var "y" 2) "x" 2) 2,
      [.echo (.var "z" 3) 3], rfl, by decide, rfl⟩
  have hnodup : env₁.names.Nodup := by decide
  have hperm : env₁.toList.Perm env₃.toList :=
    @List.perm_append_comm (String × Value) [("x", .null), ("y", y)] [("z", .string "1")]
  obtain ⟨hsink, -, henv⟩ := (executeAll_depends_on_needs ss sink env₁ env₂).1 hneeds
  obtain ⟨hsink', -, -⟩ := (executeAll_depends_on_needs ss sink env₁ env₃).2 hnodup hperm
  exact ⟨hneeds, hsink, henv "z" (.inl hassigns), hnodup, hperm, hsink', by decide⟩

end Statement
end EchoScript
