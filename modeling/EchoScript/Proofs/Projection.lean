import EchoScript.Proofs.Dependence
import EchoScript.Proofs.History

/-!
# EchoScript.Proofs.Projection

Paths into map literals can be followed before anything is evaluated.

* `Residue` — what is left of an expression then: an expression, or null.
* `Expr.resolve` — follows the paths. It goes on with entries that it has selected, and ends because
  what is left of an expression is never larger than the expression (`Residue.Fits`).
* `Expr.field_evalEntries` — under a key, the map that a literal builds has the value of the last
  entry with the key.
* `Expr.eval_resolve` — what is left has the expression's value.
-/

namespace EchoScript

/-- What is left of an expression once its paths into map literals are followed. -/
inductive Residue where
  | null
  | tree (e : Expr)

namespace Residue

def eval (env : Environment) : Residue → Value
  | .null => .null
  | .tree e => e.eval env

def reads : Residue → List String
  | .null => []
  | .tree e => e.reads

/-- What is left is no larger than the bound. -/
def Fits (bound : Nat) : Residue → Prop
  | .null => True
  | .tree e => sizeOf e ≤ bound

theorem Fits.mono {small large : Nat} {r : Residue} (h : r.Fits small) (hle : small ≤ large) :
    r.Fits large := by
  cases r with
  | null => trivial
  | tree e => exact Nat.le_trans h hle

theorem eval_congr {env₁ env₂ : Environment} {r : Residue}
    (h : ∀ name ∈ r.reads, env₁.get? name = env₂.get? name) : r.eval env₁ = r.eval env₂ := by
  cases r with
  | null => rfl
  | tree e => exact e.eval_congr h

end Residue

namespace Expr

/-! ## Following paths -/

/-- The expression of the last entry with the key. -/
def lastUnder? (key : String) (entries : List (String × Expr)) : Option Expr :=
  (entries.reverse.find? (·.1 = key)).map (·.2)

theorem sizeOf_lastUnder? {key : String} {entries : List (String × Expr)} {e : Expr}
    (h : lastUnder? key entries = some e) : sizeOf e < sizeOf entries := by
  obtain ⟨⟨k, value⟩, hfind, rfl⟩ := Option.map_eq_some_iff.1 h
  have hmem : (k, value) ∈ entries := List.mem_reverse.1 (List.mem_of_find?_eq_some hfind)
  have hpair : sizeOf (k, value) = 1 + sizeOf k + sizeOf value := rfl
  have hentry := List.sizeOf_lt_of_mem hmem
  show sizeOf value < sizeOf entries
  omega

theorem sizeOf_selected {base e : Expr} {key : String} {entries : List (String × Expr)}
    {mapLine : Nat} (hbase : (Residue.tree (.map entries mapLine)).Fits (sizeOf base))
    (h : lastUnder? key entries = some e) (line : Nat) :
    sizeOf e < sizeOf (Expr.path base key line) := by
  have hentries := sizeOf_lastUnder? h
  simp only [Residue.Fits, map.sizeOf_spec, path.sizeOf_spec] at hbase ⊢
  omega

/-- What is left of an expression, with the fact that it is no larger. -/
def resolveWithin : (e : Expr) → { r : Residue // r.Fits (sizeOf e) }
  | .path base key line =>
    let inner := resolveWithin base
    match hinner : inner.1 with
    | .null | .tree (.string _ _) | .tree (.number _ _) => ⟨.null, trivial⟩
    | .tree (.map entries _) =>
      match hlast : lastUnder? key entries with
      | none => ⟨.null, trivial⟩
      | some e =>
        have hsmaller := sizeOf_selected (hinner ▸ inner.2) hlast line
        ⟨(resolveWithin e).1, (resolveWithin e).2.mono (Nat.le_of_lt hsmaller)⟩
    | .tree e =>
      ⟨.tree (.path e key line), by
        have hbase := inner.2
        simp only [hinner, Residue.Fits, path.sizeOf_spec] at hbase ⊢
        omega⟩
  | e => ⟨.tree e, Nat.le_refl _⟩
termination_by e => sizeOf e

/-- What is left of an expression: a path into a map literal goes on with the last entry that has
its key, a path into a string, a number or null is null, and any other path stays. -/
def resolve (e : Expr) : Residue := (resolveWithin e).1

theorem resolve_fits (e : Expr) : e.resolve.Fits (sizeOf e) := (resolveWithin e).2

theorem resolve_path (base : Expr) (key : String) (line : Nat) :
    (Expr.path base key line).resolve =
      match base.resolve with
      | .null | .tree (.string _ _) | .tree (.number _ _) => .null
      | .tree (.map entries _) => ((lastUnder? key entries).map resolve).getD .null
      | .tree e => .tree (.path e key line) := by
  unfold resolve
  rw [resolveWithin]
  split <;> rename_i hinner <;> simp only [hinner]
  split <;> rename_i hlast <;> simp only [hlast] <;> rfl

theorem resolve_of_ne_path {e : Expr} (h : ∀ base key line, e ≠ .path base key line) :
    e.resolve = .tree e := by
  cases e with
  | path base key line => exact absurd rfl (h base key line)
  | _ => simp only [resolve, resolveWithin]

/-! ## Values -/

theorem evalEntries_eq_map (env : Environment) (entries : List (String × Expr)) :
    evalEntries env entries = entries.map fun (key, e) => (key, e.eval env) := by
  induction entries with
  | nil => rfl
  | cons entry rest ih => rw [evalEntries, ih, List.map_cons]

theorem field_evalEntries (env : Environment) (entries : List (String × Expr)) (key : String) :
    (Value.map (.ofList (evalEntries env entries))).field key =
      ((lastUnder? key entries).map (eval env)).getD .null := by
  have hget : (OrderedMap.ofList (evalEntries env entries)).get? key =
      (lastUnder? key entries).map (eval env) := by
    rw [OrderedMap.get?_ofList, OrderedMap.lookup_eq_find?, evalEntries_eq_map, ← List.map_reverse,
      List.find?_map, lastUnder?, Option.map_map, Option.map_map]
    rfl
  rw [Value.field, hget]

theorem eval_resolve (env : Environment) : (e : Expr) → e.resolve.eval env = e.eval env
  | .path base key line => by
    have hbase := eval_resolve env base
    have hfits := base.resolve_fits
    rw [resolve_path, eval, ← hbase]
    cases hresolve : base.resolve with
    | null => rfl
    | tree residue =>
      cases residue with
      | string | number | var | path => rfl
      | map entries mapLine =>
        simp only [Residue.eval]
        rw [eval, field_evalEntries]
        cases hlast : lastUnder? key entries with
        | none => rfl
        | some e =>
          -- What is selected is no part of the path as written, but it is smaller.
          have hsmaller := sizeOf_selected (hresolve ▸ hfits) hlast line
          exact eval_resolve env e
  | .string _ _ | .number _ _ | .var _ _ | .map _ _ => by
    rw [resolve_of_ne_path (by simp)]
    rfl
termination_by e => sizeOf e

/-- An expression has the value of what is left of it once its paths into map literals are followed,
and depends on no variables but those that this reads. The entries of a map literal have the values
that their expressions have outside it, and under a key only the last entry with the key counts. -/
theorem eval_eq_eval_resolve (e : Expr) (env : Environment) :
    e.eval env = e.resolve.eval env ∧
    (∀ other : Environment, (∀ name ∈ e.resolve.reads, env.get? name = other.get? name) →
      e.eval env = e.eval other) ∧
    ∀ entries line key pathLine,
      (Expr.path (.map entries line) key pathLine).eval env =
        ((lastUnder? key entries).map (eval env)).getD .null := by
  refine ⟨(eval_resolve env e).symm, ?_, ?_⟩
  · intro other hagree
    rw [← eval_resolve env e, ← eval_resolve other e]
    exact Residue.eval_congr hagree
  · intro entries line key pathLine
    rw [eval, eval]
    exact field_evalEntries env entries key

/-- `[$v = "0", $a = $u, $a = [$x = $v, $y = $w]].$a.$x` is what the variable `v` is. -/
theorem eval_eq_eval_resolve_own_key :
    let e : Expr := .path (.path (.map [("v", .string "0" 1), ("a", .var "u" 1),
      ("a", .map [("x", .var "v" 1), ("y", .var "w" 1)] 1)] 1) "a" 1) "x" 1
    let env : Environment := ⟨⟨[("v", .string "1"), ("w", .null)]⟩⟩
    let other : Environment := ⟨⟨[("u", .string "2"), ("v", .string "1")]⟩⟩
    e.resolve = .tree (.var "v" 1) ∧
    (∀ name ∈ e.resolve.reads, env.get? name = other.get? name) ∧
    e.eval env = .string "1" ∧ e.eval env = e.eval other := by
  intro e env other
  have hresolve : e.resolve = .tree (.var "v" 1) := by
    simp [e, resolve_path, resolve_of_ne_path, lastUnder?]
  have hagree : ∀ name ∈ e.resolve.reads, env.get? name = other.get? name := by
    rw [hresolve]
    simp [Residue.reads, reads, env, other, Environment.get?, OrderedMap.get?, OrderedMap.lookup]
  obtain ⟨heval, hdepends, -⟩ := eval_eq_eval_resolve e env
  refine ⟨hresolve, hagree, ?_, hdepends other hagree⟩
  rw [heval, hresolve]
  rfl

end Expr
end EchoScript
