import EchoScript.NativeLibrary
import EchoScript.Script
import EchoScript.Proofs.Assignment
import EchoScript.Proofs.InsertionOrder

/-!
# EchoScript.Proofs.Sessions

What holds of an environment through a whole session, in which scripts and statements are run one
after the other and the host binds values and libraries between them.

* `Value.Distinct` — no map in the value has a key twice, at any depth. An expression keeps to it if
  the environment does (`Expr.eval_distinct`).
* `Environment.Orderly` — the invariant, kept by every binding of such a value.
* `Step.perform_cases` — all that a step can do: run statements, bind one value, or nothing.
* `after_orderly` — the invariant holds after every sequence of steps.
-/

namespace EchoScript

namespace Value

/-- The first value stands in the second, at any depth. -/
inductive Inside (w : Value) : Value → Prop where
  | self : Inside w w
  | entry {k : String} {v : Value} {m : OrderedMap Value} :
      (k, v) ∈ m.entries → Inside w v → Inside w (.map m)

/-- No map in the value has a key twice. -/
def Distinct (v : Value) : Prop := ∀ m, Inside (.map m) v → m.keys.Nodup

theorem distinct_of_ne_map {v : Value} (h : ∀ m, v ≠ .map m) : v.Distinct := by
  intro m hm
  cases hm with
  | self => exact absurd rfl (h m)
  | @entry _ _ m' => exact absurd rfl (h m')

theorem distinct_null : Value.null.Distinct := distinct_of_ne_map nofun

theorem distinct_map {m : OrderedMap Value} :
    (Value.map m).Distinct ↔ m.keys.Nodup ∧ ∀ e ∈ m.entries, e.2.Distinct := by
  constructor
  · intro h
    exact ⟨h m .self, fun e he m' hm' => h m' (.entry he hm')⟩
  · rintro ⟨hkeys, hentries⟩ m' hm'
    cases hm' with
    | self => exact hkeys
    | entry he hinside => exact hentries _ he m' hinside

theorem Distinct.insert {m : OrderedMap Value} {v : Value} (hm : (Value.map m).Distinct)
    (hv : v.Distinct) (k : String) : (Value.map (m.insert k v)).Distinct := by
  obtain ⟨hkeys, hentries⟩ := distinct_map.1 hm
  refine distinct_map.2 ⟨OrderedMap.nodup_insert hkeys k v, ?_⟩
  intro e he
  obtain rfl | hold := OrderedMap.mem_insert he
  · exact hv
  · exact hentries e hold

theorem Distinct.ofList {pairs : List (String × Value)} (h : ∀ e ∈ pairs, e.2.Distinct) :
    (Value.map (.ofList pairs)).Distinct :=
  distinct_map.2 ⟨OrderedMap.nodup_ofList pairs, fun e he => h e (OrderedMap.mem_ofList he)⟩

theorem Distinct.field {v : Value} (h : v.Distinct) (key : String) : (v.field key).Distinct := by
  cases v with
  | map m =>
    rw [Value.field]
    cases hget : m.get? key with
    | none => exact distinct_null
    | some w => exact (distinct_map.1 h).2 _ (OrderedMap.mem_of_get? hget)
  | _ => exact distinct_of_ne_map nofun

/-- Values as a host can make them: maps start empty and grow by inserting. -/
inductive Built : Value → Prop where
  | null : Built .null
  | number (x : Number) : Built (.number x)
  | string (text : String) : Built (.string text)
  | empty : Built (.map .empty)
  | insert {m : OrderedMap Value} {v : Value} (k : String) :
      Built (.map m) → Built v → Built (.map (m.insert k v))

theorem Built.distinct {v : Value} (h : Built v) : v.Distinct := by
  induction h with
  | null | number | string => exact distinct_of_ne_map nofun
  | empty => exact distinct_map.2 ⟨List.nodup_nil, by simp [OrderedMap.empty]⟩
  | insert k _ _ ihm ihv => exact ihm.insert ihv k

end Value

/-! ## Bindings -/

/-- No name is bound twice, and no map in a value has a key twice. -/
structure Environment.Orderly (env : Environment) : Prop where
  names : env.names.Nodup
  values : ∀ e ∈ env.toList, e.2.Distinct

theorem Environment.Orderly.set {env : Environment} {v : Value} (h : env.Orderly)
    (hv : v.Distinct) (name : String) : (env.set name v).Orderly where
  names := OrderedMap.nodup_insert h.names name v
  values e he := by
    obtain rfl | hold := OrderedMap.mem_insert he
    · exact hv
    · exact h.values e hold

namespace Expr

mutual

theorem eval_distinct {env : Environment} (h : env.Orderly) : (e : Expr) → (e.eval env).Distinct
  | .string _ _ => Value.distinct_of_ne_map nofun
  | .number _ _ => Value.distinct_of_ne_map nofun
  | .var name _ => by
    rw [eval]
    cases hget : env.get? name with
    | none => exact Value.distinct_null
    | some v => exact h.values _ (OrderedMap.mem_of_get? hget)
  | .path base key _ => (eval_distinct h base).field key
  | .map entries _ => .ofList (evalEntries_distinct h entries)

theorem evalEntries_distinct {env : Environment} (h : env.Orderly) :
    (entries : List (String × Expr)) → ∀ e ∈ evalEntries env entries, e.2.Distinct
  | [] => by simp [evalEntries]
  | (_, value) :: rest => by
    rw [evalEntries, List.forall_mem_cons]
    exact ⟨eval_distinct h value, evalEntries_distinct h rest⟩

end

end Expr

/-! ## Steps of a session -/

namespace Session

/-- What can be done with an environment. -/
inductive Step where
  | run (source : String) (sink : Sink)
  | execute (ss : List Statement) (sink : Sink)
  | set (name : String) (value : Value)
  | register (library : NativeLibrary)

namespace Step

def perform (env : Environment) : Step → Environment
  | .run source sink => (Script.run ⟨env, sink⟩ source).state.environment
  | .execute ss sink => (Statement.executeAll ⟨env, sink⟩ ss).state.environment
  | .set name value => env.set name value
  | .register library => library.register env

/-- The host binds only values that it has built. -/
def Admissible : Step → Prop
  | .set _ value => value.Built
  | _ => True

/-- The step binds the name, by an executed statement if it is a run. -/
def Binds (env : Environment) (name : String) : Step → Prop
  | .run source sink =>
    ∃ ss, Script.statements source = .ok ss ∧ Statement.Assigns ⟨env, sink⟩ ss name
  | .execute ss sink => Statement.Assigns ⟨env, sink⟩ ss name
  | .set other _ => name = other
  | .register library => name = library.name

theorem perform_cases (env : Environment) (step : Step) (h : step.Admissible) :
    (∃ ss sink, step.perform env = (Statement.executeAll ⟨env, sink⟩ ss).state.environment ∧
      ∀ name, Statement.Assigns ⟨env, sink⟩ ss name → step.Binds env name) ∨
    (∃ name v, v.Distinct ∧ step.perform env = env.set name v ∧ step.Binds env name) ∨
    step.perform env = env := by
  cases step with
  | run source sink =>
    cases hss : Script.statements source with
    | error e => exact .inr (.inr (by simp only [perform, Script.run, hss]))
    | ok ss =>
      refine .inl ⟨ss, sink, by simp only [perform, Script.run, hss], ?_⟩
      intro name hname
      exact ⟨ss, hss, hname⟩
  | execute ss sink => exact .inl ⟨ss, sink, rfl, fun _ hname => hname⟩
  | set name value => exact .inr (.inl ⟨name, value, h.distinct, rfl, rfl⟩)
  | register library =>
    refine .inr (.inl ⟨library.name, library.value, ?_, rfl, rfl⟩)
    refine Value.Distinct.ofList fun e he => ?_
    obtain ⟨f, -, rfl⟩ := List.mem_map.1 he
    exact Value.distinct_of_ne_map nofun

variable {env : Environment} {step : Step}

theorem perform_orderly (henv : env.Orderly) (h : step.Admissible) :
    (step.perform env).Orderly := by
  obtain ⟨ss, sink, hperform, -⟩ | ⟨name, v, hv, hperform, -⟩ | hperform := perform_cases env step h
  · rw [hperform]
    exact @Statement.executeAll_environment Environment.Orderly
      (fun _ name value hmid => hmid.set (Expr.eval_distinct hmid value) name) ⟨env, sink⟩ henv ss
  · rw [hperform]
    exact henv.set hv name
  · rwa [hperform]

theorem perform_names (h : step.Admissible) : env.names <+: (step.perform env).names := by
  obtain ⟨ss, sink, hperform, -⟩ | ⟨name, v, -, hperform, -⟩ | hperform := perform_cases env step h
  · rw [hperform]
    exact @Statement.executeAll_environment (fun next => env.names <+: next.names)
      (fun next name _ hmid => hmid.trans (OrderedMap.keys_prefix_insert next.bindings name _))
      ⟨env, sink⟩ List.prefix_rfl ss
  · rw [hperform]
    exact OrderedMap.keys_prefix_insert env.bindings name v
  · simp only [hperform, List.prefix_rfl]

theorem perform_frame (h : step.Admissible) {name : String} (hname : ¬ step.Binds env name) :
    (step.perform env).get? name = env.get? name := by
  obtain ⟨ss, sink, hperform, hbinds⟩ | ⟨other, v, -, hperform, hbinds⟩ | hperform :=
    perform_cases env step h
  · rw [hperform]
    exact Statement.executeAll_frame fun hassigns => hname (hbinds name hassigns)
  · have hne : name ≠ other := by
      rintro rfl
      exact hname hbinds
    rw [hperform, Environment.get?_set, if_neg hne]
  · rw [hperform]

end Step

/-- The environment after the steps, starting without variables. -/
def after (steps : List Step) : Environment := steps.foldl Step.perform .empty

theorem after_concat (steps : List Step) (step : Step) :
    after (steps ++ [step]) = step.perform (after steps) := by
  simp [after, List.foldl_append]

theorem after_orderly {steps : List Step} (h : ∀ step ∈ steps, step.Admissible) :
    (after steps).Orderly := by
  induction steps using List.reverseRecOn with
  | nil =>
    refine ⟨List.nodup_nil, ?_⟩
    simp [after, Environment.empty, Environment.toList, OrderedMap.empty]
  | append_singleton steps step ih =>
    rw [List.forall_mem_append] at h
    rw [after_concat]
    exact Step.perform_orderly (ih h.1) (h.2 step (by simp))

end Session

theorem Script.run_of_lexical {source : String} {e : LexError}
    (h : Token.ofSource source = .error e) (state : State) : run state source = ⟨state, some (.lexical e)⟩ := by
  simp only [run, statements, h]

theorem Script.run_of_syntactic {source : String} {ts : List Lexeme} {e : SyntaxError}
    (hts : Token.ofSource source = .ok ts) (h : Statement.listOfTokens ts = .error e)
    (state : State) : run state source = ⟨state, some (.syntactic e)⟩ := by
  simp only [run, statements, hts, h]

namespace Session

/-- At each step of a session that starts without variables: no name is bound twice afterwards and
no map in a value has a key twice; the names bound before keep their places; every name that the
step does not bind keeps its value; and a script that cannot be read leaves environment and output
as they were. -/
theorem after_keeps (before : List Step) (step : Step)
    (h : ∀ s ∈ before ++ [step], s.Admissible) :
    let env := after before
    let next := after (before ++ [step])
    next.names.Nodup ∧ (∀ e ∈ next.toList, ∀ m, Value.Inside (.map m) e.2 → m.keys.Nodup) ∧
    env.names <+: next.names ∧
    (∀ name, ¬ step.Binds env name → next.get? name = env.get? name) ∧
    (∀ source sink e, Token.ofSource source = .error e →
      Script.run ⟨env, sink⟩ source = ⟨⟨env, sink⟩, some (.lexical e)⟩) ∧
    (∀ source sink ts e, Token.ofSource source = .ok ts → Statement.listOfTokens ts = .error e →
      Script.run ⟨env, sink⟩ source = ⟨⟨env, sink⟩, some (.syntactic e)⟩) := by
  intro env next
  have hnext : next = step.perform env := after_concat before step
  have hstep : step.Admissible := h step (by simp)
  obtain ⟨hnames, hvalues⟩ := after_orderly h
  refine ⟨hnames, hvalues, ?_, ?_, ?_, ?_⟩
  · rw [hnext]
    exact Step.perform_names hstep
  · intro name hname
    rw [hnext]
    exact Step.perform_frame hstep hname
  · intro source sink e he
    exact Script.run_of_lexical he _
  · intro source sink ts e hts he
    exact Script.run_of_syntactic hts he _

/-- A session with a library, a map bound by the host and a repeated key, and a step that is cut off
between two assignments. -/
theorem after_keeps_cut_off :
    let before : List Step := [.register ⟨"text", [⟨"f", 0, fun _ => .ok .null⟩]⟩,
      .set "q" (.map (OrderedMap.empty.insert "a" .null)),
      .execute [.assign "m" (.map [("a", .string "1" 1), ("a", .var "q" 1)] 1) 1] .unlimited]
    let step : Step := .execute [.assign "q" (.path (.var "m" 1) "a" 1) 1, .echo (.var "q" 2) 2,
      .assign "z" (.var "m" 3) 3] (.limited 0 .closed)
    (∀ s ∈ before ++ [step], s.Admissible) ∧
    (after before).names = ["text", "q", "m"] ∧
    ["text", "q", "m"] <+: (after (before ++ [step])).names ∧
    (after (before ++ [step])).names.Nodup ∧
    ¬ step.Binds (after before) "z" ∧ (after (before ++ [step])).get? "z" = none ∧
    Script.run ⟨after before, .unlimited⟩ "echo 1 \"" =
      ⟨⟨after before, .unlimited⟩, some (.lexical (.unterminatedString ⟨1, 9⟩))⟩ := by
  intro before step
  have hadmissible : ∀ s ∈ before ++ [step], s.Admissible := by
    simp only [before, step, List.cons_append, List.nil_append, List.forall_mem_cons]
    exact ⟨trivial, .insert "a" .empty .null, trivial, trivial, nofun⟩
  have hnames : (after before).names = ["text", "q", "m"] := rfl
  have hbinds : ¬ step.Binds (after before) "z" := by
    intro h
    obtain hq | ⟨-, h⟩ := Statement.assigns_cons.1 h
    · exact absurd hq (by decide)
    obtain hecho | ⟨hwritten, -⟩ := Statement.assigns_cons.1 h
    · cases hecho
    · exact absurd hwritten (by decide)
  have hsource : Token.ofSource "echo 1 \"" = .error (.unterminatedString ⟨1, 9⟩) := by
    with_unfolding_all rfl
  obtain ⟨hnodup, -, hprefix, hframe, hlexical, -⟩ := after_keeps before step hadmissible
  rw [hnames] at hprefix
  exact ⟨hadmissible, hnames, hprefix, hnodup, hbinds, hframe "z" hbinds,
    hlexical _ .unlimited _ hsource⟩

end Session
end EchoScript
