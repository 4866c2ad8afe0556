import EchoScript.Eval

/-!
# EchoScript.Proofs.Truncation

What a run does on a sink that fills up.

* `Sink.writeEach`  — a text written in pieces, which comes to the same as writing it at once.
* `Statement.effect` — what statements do where nothing is refused, without a sink.
* `executeAll_fits`, `executeAll_overflows` — a run on a sink with a limit follows the effect to its
  end, or up to the `echo` whose line does not fit.
-/

namespace EchoScript

namespace Sink

/-- Writes pieces one after the other, up to the first that is refused. -/
def writeEach (sink : Sink) : List ByteArray → Sink × Option Refusal
  | [] => (sink, none)
  | piece :: rest =>
    match sink.write piece with
    | (next, none) => next.writeEach rest
    | (next, some refusal) => (next, some refusal)

theorem extract_all {bytes : ByteArray} {n : Nat} (h : bytes.size ≤ n) :
    bytes.extract 0 n = bytes := by
  have hmax : max n bytes.size = n := Nat.max_eq_left h
  rw [← hmax, ByteArray.extract_zero_max_size]

theorem write_fits {w bytes : ByteArray} {n : Nat} (refusal : Refusal)
    (h : w.size + bytes.size ≤ n) :
    write ⟨w, some n, refusal⟩ bytes = (⟨w ++ bytes, some n, refusal⟩, none) := by
  have hroom : bytes.size ≤ n - w.size := by omega
  simp only [write, extract_all hroom, if_pos hroom]

theorem write_overflows {w bytes : ByteArray} {n : Nat} (refusal : Refusal)
    (hw : w.size ≤ n) (h : n < w.size + bytes.size) :
    write ⟨w, some n, refusal⟩ bytes =
      (⟨(w ++ bytes).extract 0 n, some n, refusal⟩, some refusal) := by
  have hroom : ¬ bytes.size ≤ n - w.size := by omega
  simp only [write, if_neg hroom, ByteArray.extract_append, extract_all hw, Nat.zero_sub]

/-- Two writes, the second only if the first was taken, come to one. -/
theorem write_append (sink : Sink) (a b : ByteArray) :
    sink.write (a ++ b) =
      match sink.write a with
      | (next, none) => next.write b
      | (next, some refusal) => (next, some refusal) := by
  obtain ⟨w, limit, refusal⟩ := sink
  cases limit with
  | none => simp only [write, ByteArray.append_assoc]
  | some n =>
    by_cases ha : a.size ≤ n - w.size
    · have hroom : n - (w.size + a.size) = n - w.size - a.size := by omega
      have hfit : a.size + b.size ≤ n - w.size ↔ b.size ≤ n - w.size - a.size := by omega
      simp only [write, if_pos ha, extract_all ha, ByteArray.extract_append, ByteArray.size_append,
        ByteArray.append_assoc, Nat.zero_sub, hroom, hfit]
    · have hfull : ¬ a.size + b.size ≤ n - w.size := by omega
      have hnone : b.extract 0 (n - w.size - a.size) = .empty := by
        rw [show n - w.size - a.size = 0 by omega, ByteArray.extract_same]
      simp only [write, if_neg ha, if_neg hfull, ByteArray.extract_append, ByteArray.size_append,
        Nat.zero_sub, hnone, ByteArray.append_empty]

theorem write_empty (sink : Sink) : sink.write .empty = (sink, none) := by
  obtain ⟨w, limit, refusal⟩ := sink
  cases limit with
  | none => simp [write]
  | some n => simp [write, extract_all]

theorem writeEach_eq_write (sink : Sink) (pieces : List ByteArray) :
    sink.writeEach pieces = sink.write (pieces.foldr (· ++ ·) .empty) := by
  induction pieces generalizing sink with
  | nil => exact (write_empty sink).symm
  | cons piece rest ih =>
    rw [List.foldr_cons, write_append, writeEach]
    split
    · exact ih _
    · rfl

end Sink

namespace Statement

/-- The environment that statements leave and the bytes that they write, if nothing is refused. -/
def effect (env : Environment) : List Statement → Environment × ByteArray
  | [] => (env, .empty)
  | .echo value _ :: rest => ((effect env rest).1, (value.eval env).line ++ (effect env rest).2)
  | .assign name value _ :: rest => effect (env.set name (value.eval env)) rest

theorem executeAll_unlimited (env : Environment) (w : ByteArray) (refusal : Refusal)
    (ss : List Statement) :
    executeAll ⟨env, ⟨w, none, refusal⟩⟩ ss =
      ⟨⟨(effect env ss).1, ⟨w ++ (effect env ss).2, none, refusal⟩⟩, none⟩ := by
  induction ss generalizing env w with
  | nil => simp [executeAll, effect]
  | cons s rest ih =>
    cases s with
    | echo value line =>
      have hrest := ih env (w ++ (value.eval env).line)
      simpa [executeAll, execute, Sink.write, effect, ByteArray.append_assoc] using hrest
    | assign name value line => exact ih (env.set name (value.eval env)) w

/-! ## A sink with a limit -/

section

variable {env : Environment} {w : ByteArray} {n : Nat} {refusal : Refusal}

theorem execute_echo_fits {value : Expr} (line : Nat)
    (h : (w ++ (value.eval env).line).size ≤ n) :
    execute ⟨env, ⟨w, some n, refusal⟩⟩ (.echo value line) =
      ⟨⟨env, ⟨w ++ (value.eval env).line, some n, refusal⟩⟩, none⟩ := by
  rw [ByteArray.size_append] at h
  simp only [execute, Sink.write_fits refusal h, Option.map_none]

theorem execute_echo_overflows {value : Expr} (line : Nat) (hw : w.size ≤ n)
    (h : n < (w ++ (value.eval env).line).size) :
    execute ⟨env, ⟨w, some n, refusal⟩⟩ (.echo value line) =
      ⟨⟨env, ⟨(w ++ (value.eval env).line).extract 0 n, some n, refusal⟩⟩,
        some (.output line refusal)⟩ := by
  rw [ByteArray.size_append] at h
  simp only [execute, Sink.write_overflows refusal hw h, Option.map_some]

theorem executeAll_fits {ss : List Statement} (h : (w ++ (effect env ss).2).size ≤ n) :
    executeAll ⟨env, ⟨w, some n, refusal⟩⟩ ss =
      ⟨⟨(effect env ss).1, ⟨w ++ (effect env ss).2, some n, refusal⟩⟩, none⟩ := by
  induction ss generalizing env w with
  | nil => simp [executeAll, effect]
  | cons s rest ih =>
    cases s with
    | assign name value line => exact ih h
    | echo value line =>
      simp only [effect, ← ByteArray.append_assoc] at h ⊢
      have hline : (w ++ (value.eval env).line).size ≤ n := by
        rw [ByteArray.size_append] at h
        omega
      simp only [executeAll, execute_echo_fits line hline, ih h]

/-- A run that does not fit stops at the `echo` whose line is the first to go past the limit. -/
theorem executeAll_overflows {ss : List Statement} (hw : w.size ≤ n)
    (h : n < (w ++ (effect env ss).2).size) :
    ∃ before value line after, ss = before ++ .echo value line :: after ∧
      (w ++ (effect env before).2).size ≤ n ∧
      n < (w ++ (effect env (before ++ [.echo value line])).2).size ∧
      executeAll ⟨env, ⟨w, some n, refusal⟩⟩ ss =
        ⟨⟨(effect env before).1, ⟨(w ++ (effect env ss).2).extract 0 n, some n, refusal⟩⟩,
          some (.output line refusal)⟩ := by
  induction ss generalizing env w with
  | nil =>
    rw [effect, ByteArray.append_empty] at h
    omega
  | cons s rest ih =>
    cases s with
    | assign name value line =>
      obtain ⟨before, value', line', after, rfl, hstop⟩ := ih hw h
      exact ⟨.assign name value line :: before, value', line', after, rfl, hstop⟩
    | echo value line =>
      simp only [effect, ← ByteArray.append_assoc] at h ⊢
      by_cases hline : (w ++ (value.eval env).line).size ≤ n
      · obtain ⟨before, value', line', after, rfl, hfits, hover, hrun⟩ := ih hline h
        refine ⟨.echo value line :: before, value', line', after, rfl, ?_, ?_, ?_⟩
        · simpa only [effect, ← ByteArray.append_assoc] using hfits
        · simpa only [List.cons_append, effect, ← ByteArray.append_assoc] using hover
        · simp only [executeAll, execute_echo_fits line hline, hrun, effect]
      · have hover : n < (w ++ (value.eval env).line).size := Nat.lt_of_not_le hline
        have hcut : (w ++ (value.eval env).line ++ (effect env rest).2).extract 0 n =
            (w ++ (value.eval env).line).extract 0 n := by
          rw [ByteArray.extract_append, Nat.sub_eq_zero_of_le (Nat.le_of_lt hover), Nat.zero_sub,
            ByteArray.extract_same, ByteArray.append_empty]
        refine ⟨[], value, line, rest, rfl, ?_, ?_, ?_⟩
        · simpa only [effect, ByteArray.append_empty] using hw
        · simpa only [List.nil_append, effect, ByteArray.append_empty] using hover
        · simp only [executeAll, execute_echo_overflows line hw hover, hcut, effect]

end

/-- A sink that fills up cuts a run off cleanly, and it does not matter in which pieces a line is
written. If all output fits, nothing changes. If not, the sink holds as much of the output as it
takes, and the run ends at the first `echo` whose line goes past the limit, with the environment
that the statements before it left. -/
theorem executeAll_truncates (ss : List Statement) (env : Environment) (n : Nat)
    (refusal : Refusal) :
    let free := fun ss => executeAll ⟨env, .unlimited⟩ ss
    let tight := executeAll ⟨env, .limited n refusal⟩ ss
    let full := (free ss).state.sink.written
    (free ss).error = none ∧
    (full.size ≤ n → tight.error = none ∧ tight.state.sink.written = full ∧
      tight.state.environment = (free ss).state.environment) ∧
    (n < full.size → ∃ before value line after, ss = before ++ .echo value line :: after ∧
      (free before).state.sink.written.size ≤ n ∧
      n < (free (before ++ [.echo value line])).state.sink.written.size ∧
      tight.error = some (.output line refusal) ∧
      tight.state.sink.written = full.extract 0 n ∧
      tight.state.environment = (free before).state.environment) ∧
    (∀ state value line pieces,
      pieces.foldr (· ++ ·) .empty = (Expr.eval state.environment value).line →
      execute state (.echo value line) =
        ⟨{ state with sink := (state.sink.writeEach pieces).1 },
          (state.sink.writeEach pieces).2.map (.output line)⟩) := by
  simp only [Sink.unlimited, Sink.limited, executeAll_unlimited]
  refine ⟨trivial, ?_, ?_, ?_⟩
  · intro hfits
    rw [executeAll_fits hfits]
    exact ⟨rfl, rfl, rfl⟩
  · intro hover
    obtain ⟨before, value, line, after, hss, hfits, hover, hrun⟩ :=
      @executeAll_overflows env .empty n refusal ss (Nat.zero_le n) hover
    rw [hrun]
    exact ⟨before, value, line, after, hss, hfits, hover, rfl, rfl, rfl⟩
  · intro state value line pieces hpieces
    rw [Sink.writeEach_eq_write, hpieces]
    rfl

/-- A sink of one byte, and a line that starts with a character of two. -/
theorem truncation_inside_character :
    let ss : List Statement := [.assign "a" (.string "é" 1) 1, .echo (.var "a" 2) 2,
      .assign "a" (.string "z" 3) 3, .echo (.var "a" 4) 4]
    let full := (executeAll ⟨.empty, .unlimited⟩ ss).state.sink.written
    let tight := executeAll ⟨.empty, .limited 1 .takesNothing⟩ ss
    full.size = 5 ∧ (executeAll ⟨.empty, .limited 5 .closed⟩ ss).error = none ∧
      (∃ line, tight.error = some (.output line .takesNothing)) ∧
      tight.state.sink.written = full.extract 0 1 ∧
      (Sink.writeEach .unlimited [⟨#[0xc3]⟩, ⟨#[]⟩, ⟨#[0xa9, 0x0a]⟩]).1.written =
        (Value.string "é").line := by
  intro ss full tight
  have hsize : full.size = 5 := by decide
  obtain ⟨-, hfits, -, hpieces⟩ := executeAll_truncates ss .empty 5 .closed
  obtain ⟨before, value, line, after, -, -, -, herror, hcut, -⟩ :=
    (executeAll_truncates ss .empty 1 .takesNothing).2.2.1
      (Nat.lt_of_lt_of_eq (by decide) hsize.symm)
  have hline := hpieces ⟨.empty, .unlimited⟩ (.string "é" 1) 1 [⟨#[0xc3]⟩, ⟨#[]⟩, ⟨#[0xa9, 0x0a]⟩]
    (by decide)
  refine ⟨hsize, (hfits (Nat.le_of_eq hsize)).1, ⟨line, herror⟩, hcut, ?_⟩
  exact (congrArg (fun e => e.state.sink.written) hline).symm

end Statement
end EchoScript
